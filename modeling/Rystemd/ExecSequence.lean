import Rystemd.Library.Sequence
import Rystemd.Processes

namespace Rystemd

/-- How the attempt to run a command goes: it is refused before it is tried (an unknown `User=` or
`Group=`, a directory that cannot be made), it fails, or there is a process. -/
inductive Attempt
  | refused | failed | spawned
  deriving DecidableEq

/-- A command of a start and how it would go. -/
structure Turn where
  command : ControlCommand
  index : Nat
  ignoreFailure : Bool
  attempt : Attempt
  exitOk : Bool

namespace Turn

def id (t : Turn) : ControlCommand × Nat := (t.command, t.index)

def runs (t : Turn) : Bool := t.attempt = .spawned

/-- The command does not fail, or its failure is ignored. -/
def passes (t : Turn) : Bool := t.ignoreFailure || (t.runs && t.exitOk)

/-- Nothing of it runs, and nothing of it fails the start. -/
def Idle (ts : List Turn) : Prop := Sequence.Idle runs passes ts

/-- It fails the start before anything of it runs. -/
def Refuses (ts : List Turn) : Prop := Sequence.Refuses runs passes ts

/-- `-` makes no difference at a command that does not run: what is left fails anyway where the code
fails, and would not run where the code succeeds. -/
def StopsRight (t : Turn) (rest : List Turn) : Prop :=
  t.ignoreFailure → if t.attempt = .refused then Refuses rest else Idle rest

def PostStraight : List Turn → Prop
  | [] => True
  | t :: ts =>
    match t.attempt with
    | .refused => t.ignoreFailure → Refuses ts
    | .failed => t.ignoreFailure = false
    | .spawned => t.passes ∧ Idle ts

def OneshotStraight (post : List Turn) : List Turn → Prop
  | [] => PostStraight post
  | t :: ts =>
    if t.runs then t.passes → OneshotStraight post ts else t.StopsRight (ts ++ post)

def ForkingStraight (post : List Turn) : List Turn → Prop
  | [] => Idle post
  | t :: ts => if t.runs then t.passes ∧ Idle (ts ++ post) else t.StopsRight (ts ++ post)

def MainStraight (type : ServiceType) (main post : List Turn) : Prop :=
  if type = .oneshot ∧ main ≠ [] then OneshotStraight post main else ForkingStraight post main

/-- The rest of `ExecStartPre=` may be left out. -/
def PreSkipped (type : ServiceType) (pre main post : List Turn) : Prop :=
  (Idle pre ∧ MainStraight type main post) ∨
    (Refuses pre ∧ ∃ t ts, main = t :: ts ∧ t.runs = false ∧
      (t.attempt = .refused ∨ t.ignoreFailure = false))

def Straight (type : ServiceType) (pre main post : List Turn) : Prop :=
  match pre with
  | [] => MainStraight type main post
  | t :: ts =>
    if t.attempt = .failed then t.ignoreFailure → PreSkipped type ts main post
    else if t.runs ∧ t.exitOk then PreSkipped type ts main post
    else t.ignoreFailure → Refuses (ts ++ (main ++ post))

end Turn

/-- How each command of a start goes. -/
structure Course where
  attempt : ControlCommand → Nat → Attempt
  exit : ControlCommand → Nat → ChildExit

namespace Course

variable (c : Course) (sc : ServiceConfig)

def turn (cmd : ControlCommand) (i : Nat) (e : ExecCommand) : Turn where
  command := cmd
  index := i
  ignoreFailure := e.ignoreFailure
  attempt := c.attempt cmd i
  exitOk := sc.effectiveExitSuccess.accepts (c.exit cmd i)

/-- The commands of one list, from the `i`-th on. -/
def turnsFrom (cmd : ControlCommand) (i : Nat) : List ExecCommand → List Turn
  | [] => []
  | e :: es => c.turn sc cmd i e :: turnsFrom cmd (i + 1) es

def turns (cmd : ControlCommand) : List Turn := c.turnsFrom sc cmd 0 (Manager.execSlice sc cmd)

/-- The whole sequence of a start. -/
def sequence : List Turn := c.turns sc .startPre ++ c.turns sc .start ++ c.turns sc .startPost

/-- What the sequence should run, and whether the start should succeed. -/
def expected : List Turn × Bool := Sequence.upto Turn.runs Turn.passes (c.sequence sc)

end Course

/-- What a start comes to: the commands that run, and how the start job ends if it does. -/
abbrev Course.Outcome := List Turn × Option Bool

namespace Turn

/-- The outcome is the one that the sequence should have. -/
def Meets (r : Course.Outcome) (ts : List Turn) : Prop :=
  r.1.map id = (Sequence.upto runs passes ts).1.map id ∧
    r.2 = some (Sequence.upto runs passes ts).2

/-- What `run_start_post_or_finish` comes to. -/
def madePost : List Turn → Course.Outcome
  | [] => ([], some true)
  | t :: _ =>
    match t.attempt with
    | .refused => ([], some false)
    | .failed => ([], if t.ignoreFailure then none else some false)
    | .spawned => ([t], some true)

/-- What the commands of `ExecStart=` from some one on come to. -/
def madeStart (type : ServiceType) (post : List Turn) : List Turn → Course.Outcome
  | [] => madePost post
  | t :: ts =>
    match t.attempt with
    | .refused => ([], some false)
    | .failed => ([], some t.ignoreFailure)
    | .spawned =>
      if type = .forking then ([t], some true)
      else if t.passes then
        let r := madeStart type post ts
        (t :: r.1, r.2)
      else ([t], some false)

/-- What `run_main_start` comes to; a service without `ExecStart=` is done at once. -/
def madeMain (type : ServiceType) (main post : List Turn) : Course.Outcome :=
  if main = [] then ([], some true) else madeStart type post main

def made (type : ServiceType) (pre main post : List Turn) : Course.Outcome :=
  match pre with
  | [] => madeMain type main post
  | t :: _ =>
    match t.attempt with
    | .refused => ([], some false)
    | .failed => if t.ignoreFailure then madeMain type main post else ([], some false)
    | .spawned =>
      if t.exitOk then
        let r := madeMain type main post
        (t :: r.1, r.2)
      else ([t], some false)

variable {r : Course.Outcome} {t : Turn} {ts main post pre : List Turn}

theorem meets_nothing {b : Bool} :
    Meets ([], some b) ts ↔ Sequence.upto runs passes ts = ([], b) := by
  unfold Meets
  obtain ⟨l, b'⟩ := Sequence.upto runs passes ts
  cases l with
  | nil => simp [eq_comm]
  | cons t l => simp

theorem meets_failed : Meets ([], some false) ts ↔ Refuses ts :=
  meets_nothing.trans Sequence.upto_eq_refuses

theorem meets_ok : Meets ([], some true) ts ↔ Idle ts :=
  meets_nothing.trans Sequence.upto_eq_idle

theorem meets_none {l : List Turn} : ¬ Meets (l, none) ts := by
  intro h
  cases h.2

theorem meets_run (hr : t.runs) (hp : t.passes) : Meets (t :: r.1, r.2) (t :: ts) ↔ Meets r ts := by
  rw [Meets, Meets, Sequence.upto_cons_pass hp, if_pos hr]
  simp

theorem meets_fatal {v : Option Bool} (hr : t.runs) (hp : t.passes = false) :
    Meets ([t], v) (t :: ts) ↔ v = some false := by
  rw [Meets, Sequence.upto_cons_stop hp, if_pos hr]
  simp

theorem meets_skip (hr : t.runs = false) (hp : t.passes) : Meets r (t :: ts) ↔ Meets r ts := by
  rw [Meets, Meets, Sequence.upto_cons_pass hp, hr]
  simp

theorem meets_refusal (hr : t.runs = false) (hp : t.passes = false) :
    Meets ([], some false) (t :: ts) :=
  meets_failed.mpr (Sequence.refuses_cons.mpr ⟨hr, .inl hp⟩)

theorem passes_of_idle (hr : t.runs = false) : t.passes = t.ignoreFailure := by
  simp [passes, hr]

theorem runs_eq : t.runs = true ↔ t.attempt = .spawned := by simp [runs]

theorem not_runs : t.runs = false ↔ t.attempt = .refused ∨ t.attempt = .failed := by
  cases h : t.attempt <;> simp [runs, h]

/-- What the code does at a command that does not run. -/
theorem meets_stop (hr : t.runs = false) :
    Meets ([], some (if t.attempt = .refused then false else t.ignoreFailure)) (t :: ts) ↔
      t.StopsRight ts := by
  unfold StopsRight
  cases hi : t.ignoreFailure with
  | false =>
    have hp : t.passes = false := by rw [passes_of_idle hr, hi]
    rw [ite_self]
    exact iff_of_true (meets_refusal hr hp) fun h ↦ nomatch h
  | true =>
    have hp : t.passes = true := by rw [passes_of_idle hr, hi]
    rw [meets_skip hr hp, forall_prop_of_true rfl]
    split
    · exact meets_failed
    · exact meets_ok

/-- A command after which the start is taken to be done. -/
theorem meets_done (hr : t.runs) : Meets ([t], some true) (t :: ts) ↔ t.passes ∧ Idle ts := by
  cases hp : t.passes with
  | false =>
    have hfatal : Meets ([t], some true) (t :: ts) ↔ some true = some false := meets_fatal hr hp
    rw [hfatal]
    simp
  | true =>
    have hrun : Meets (t :: [], some true) (t :: ts) ↔ Meets ([], some true) ts :=
      meets_run (r := ([], some true)) hr hp
    rw [hrun, meets_ok]
    simp

theorem madePost_meets : Meets (madePost post) post ↔ PostStraight post := by
  cases post with
  | nil => exact iff_of_true ⟨rfl, rfl⟩ trivial
  | cons t ts =>
    cases ha : t.attempt with
    | refused =>
      have hstop : Meets _ (t :: ts) ↔ _ := meets_stop (not_runs.mpr (.inl ha))
      simpa only [madePost, PostStraight, StopsRight, ha, if_true] using hstop
    | failed =>
      have hr : t.runs = false := not_runs.mpr (.inr ha)
      simp only [madePost, PostStraight, ha]
      cases hi : t.ignoreFailure with
      | false => exact iff_of_true (meets_refusal hr (by rw [passes_of_idle hr, hi])) rfl
      | true => exact iff_of_false meets_none (by simp)
    | spawned =>
      simp only [madePost, PostStraight, ha]
      exact meets_done (runs_eq.mpr ha)

theorem madeStart_forking (hm : main ≠ []) :
    Meets (madeStart .forking post main) (main ++ post) ↔ ForkingStraight post main := by
  cases main with
  | nil => exact absurd rfl hm
  | cons t ts =>
    cases ha : t.attempt with
    | spawned =>
      have hr := runs_eq.mpr ha
      simp only [madeStart, ForkingStraight, ha, hr, if_true]
      exact meets_done hr
    | refused =>
      have hr := not_runs.mpr (.inl ha)
      have hstop : Meets _ (t :: (ts ++ post)) ↔ _ := meets_stop hr
      simpa [madeStart, ForkingStraight, hr, ha] using hstop
    | failed =>
      have hr := not_runs.mpr (.inr ha)
      have hstop : Meets _ (t :: (ts ++ post)) ↔ _ := meets_stop hr
      simpa [madeStart, ForkingStraight, hr, ha] using hstop

theorem madeStart_oneshot :
    Meets (madeStart .oneshot post main) (main ++ post) ↔ OneshotStraight post main := by
  induction main with
  | nil => exact madePost_meets
  | cons t ts ih =>
    cases ha : t.attempt with
    | spawned =>
      have hr := runs_eq.mpr ha
      cases hp : t.passes with
      | false =>
        simp only [madeStart, OneshotStraight, ha, hr, hp, if_true]
        exact iff_of_true ((meets_fatal hr hp).mpr rfl) (fun h ↦ nomatch h)
      | true =>
        simp only [madeStart, OneshotStraight, ha, hr, hp, if_true, forall_prop_of_true, ← ih]
        exact meets_run hr hp
    | refused =>
      have hr := not_runs.mpr (.inl ha)
      have hstop : Meets _ (t :: (ts ++ post)) ↔ _ := meets_stop hr
      simpa [madeStart, OneshotStraight, hr, ha] using hstop
    | failed =>
      have hr := not_runs.mpr (.inr ha)
      have hstop : Meets _ (t :: (ts ++ post)) ↔ _ := meets_stop hr
      simpa [madeStart, OneshotStraight, hr, ha] using hstop

variable {type : ServiceType}

theorem madeMain_meets (ht : type = .oneshot ∨ type = .forking) :
    Meets (madeMain type main post) (main ++ post) ↔ MainStraight type main post := by
  unfold madeMain MainStraight
  by_cases hm : main = []
  · subst hm
    rw [if_pos rfl, if_neg (by simp)]
    exact meets_ok
  · rw [if_neg hm]
    obtain rfl | rfl := ht
    · rw [if_pos ⟨rfl, hm⟩]
      exact madeStart_oneshot
    · rw [if_neg (by simp)]
      exact madeStart_forking hm

theorem mem_madeStart (h : t ∈ (madeStart type post main).1) : t ∈ main ++ post := by
  induction main with
  | nil =>
    cases post with
    | nil => cases h
    | cons t' ts =>
      cases ha : t'.attempt with
      | refused => simp [madeStart, madePost, ha] at h
      | failed => simp [madeStart, madePost, ha] at h
      | spawned =>
        simp only [madeStart, madePost, ha, List.mem_singleton] at h
        rw [h]
        exact List.mem_cons_self
  | cons t' ts ih =>
    cases ha : t'.attempt with
    | refused => simp [madeStart, ha] at h
    | failed => simp [madeStart, ha] at h
    | spawned =>
      simp only [madeStart, ha] at h
      split at h
      · exact List.mem_cons.mpr (.inl (List.mem_singleton.mp h))
      · split at h
        · obtain rfl | h := List.mem_cons.mp h
          · exact List.mem_cons_self
          · exact List.mem_cons_of_mem _ (ih h)
        · exact List.mem_cons.mpr (.inl (List.mem_singleton.mp h))

theorem mem_madeMain (h : t ∈ (madeMain type main post).1) : t ∈ main ++ post := by
  unfold madeMain at h
  split at h
  · cases h
  · exact mem_madeStart h

/-- Where the main commands run nothing and fail. -/
theorem madeMain_fails :
    ((madeMain type main post).1 = [] ∧ (madeMain type main post).2 = some false) ↔
    ∃ t ts, main = t :: ts ∧ t.runs = false ∧ (t.attempt = .refused ∨ t.ignoreFailure = false) := by
  unfold madeMain
  cases main with
  | nil => simp
  | cons t ts =>
    rw [if_neg (List.cons_ne_nil t ts)]
    cases ha : t.attempt with
    | refused => simp [madeStart, ha, runs]
    | failed => simp [madeStart, ha, runs]
    | spawned =>
      simp only [madeStart, ha, List.cons.injEq]
      apply iff_of_false
      · split <;> [skip; split] <;> simp
      · rintro ⟨t', ts', ⟨rfl, -⟩, hr, -⟩
        rw [runs_eq.mpr ha] at hr
        cases hr

theorem not_idle_of_refuses (h : Refuses ts) : ¬ Idle ts := by
  intro hi
  have htrue := Sequence.upto_of_idle hi
  rw [Sequence.upto_of_refuses h] at htrue
  cases htrue

theorem preSkipped_meets (ht : type = .oneshot ∨ type = .forking)
    (hpre : ∀ t ∈ pre, t.command = .startPre) (hrest : ∀ t ∈ main ++ post, t.command ≠ .startPre) :
    Meets (madeMain type main post) (pre ++ (main ++ post)) ↔ PreSkipped type pre main post := by
  unfold PreSkipped
  by_cases hi : Idle pre
  · rw [or_iff_left fun h ↦ not_idle_of_refuses h.1 hi, and_iff_right hi, ← madeMain_meets ht,
      Meets, Meets, Sequence.upto_idle hi]
  · rw [or_iff_right fun h ↦ hi h.1]
    by_cases hr : Refuses pre
    · have hfails :
          ((madeMain type main post).1 = [] ∧ (madeMain type main post).2 = some false) ↔ _ :=
        madeMain_fails
      rw [and_iff_right hr, ← hfails, Meets, Sequence.upto_refuses hr]
      simp
    · apply iff_of_false _ fun h ↦ hr h.1
      intro h
      obtain ⟨t, hmem, l, hl⟩ : ∃ t ∈ pre, ∃ l,
          (Sequence.upto runs passes (pre ++ (main ++ post))).1 = t :: l := Sequence.upto_runs hi hr
      have hfirst := h.1
      rw [hl] at hfirst
      cases hmade : (madeMain type main post).1 with
      | nil =>
        rw [hmade] at hfirst
        cases hfirst
      | cons t' l' =>
        rw [hmade] at hfirst
        obtain ⟨hid, -⟩ := List.cons.inj hfirst
        have hmain : t' ∈ main ++ post := mem_madeMain (by rw [hmade]; exact List.mem_cons_self)
        exact hrest t' hmain ((congrArg Prod.fst hid).trans (hpre t hmem))

/-- The code does what the sequence says exactly if the lists are straight. -/
theorem made_meets (ht : type = .oneshot ∨ type = .forking)
    (hpre : ∀ t ∈ pre, t.command = .startPre) (hrest : ∀ t ∈ main ++ post, t.command ≠ .startPre) :
    Meets (made type pre main post) (pre ++ (main ++ post)) ↔ Straight type pre main post := by
  cases pre with
  | nil => exact madeMain_meets ht
  | cons t ts =>
    have hskip : Meets _ (ts ++ (main ++ post)) ↔ _ :=
      preSkipped_meets ht (fun t' h ↦ hpre t' (List.mem_cons_of_mem t h)) hrest
    rw [List.cons_append]
    cases ha : t.attempt with
    | refused =>
      have hr := not_runs.mpr (.inl ha)
      have hstop : Meets _ (t :: (ts ++ (main ++ post))) ↔ _ := meets_stop hr
      simpa [made, Straight, StopsRight, hr, ha] using hstop
    | failed =>
      have hr := not_runs.mpr (.inr ha)
      cases hi : t.ignoreFailure with
      | false =>
        have hmet : Meets ([], some false) (t :: (ts ++ (main ++ post))) :=
          meets_refusal hr (by rw [passes_of_idle hr, hi])
        simpa [made, Straight, ha, hi] using hmet
      | true =>
        have hp : t.passes = true := by rw [passes_of_idle hr, hi]
        simp only [made, Straight, ha, hi, if_true, forall_prop_of_true]
        rw [meets_skip hr hp]
        exact hskip
    | spawned =>
      have hr := runs_eq.mpr ha
      cases hok : t.exitOk with
      | true =>
        have hp : t.passes = true := by simp [passes, hr, hok]
        simp only [made, Straight, ha, hr, hok, if_true, and_self, reduceCtorEq, if_false]
        rw [meets_run hr hp]
        exact hskip
      | false =>
        simp only [made, Straight, ha, hr, hok, reduceCtorEq, and_false, if_false]
        cases hi : t.ignoreFailure with
        | false =>
          have hp : t.passes = false := by simp [passes, hok, hi]
          exact iff_of_true ((meets_fatal hr hp).mpr rfl) (fun h ↦ nomatch h)
        | true =>
          have hp : t.passes = true := by simp [passes, hi]
          rw [forall_prop_of_true rfl, ← meets_failed]
          exact meets_run (r := ([], some false)) hr hp

end Turn

end Rystemd
