import Rystemd.Library.Observation
import Rystemd.Timers

namespace Rystemd

open Manager

/-- Whether the path is there and is on record with another modification time. -/
def differs (w : World) (armed : Table String (Option Nat)) (path : String) : Bool :=
  (armed.get path).any fun prev ↦ (w.mtime path).any fun mt ↦ prev ≠ some mt

/-- The paths up to the first that fires. -/
def looked (fires : String → Bool) : List String → List String
  | [] => []
  | p :: ps => p :: if fires p then [] else looked fires ps

section Triggers

variable {w : World} {armed : Table String (Option Nat)} {p q : String} {ps : List String}
  {fires : String → Bool}

theorem differs_iff : differs w armed p ↔
    ∃ prev mt, armed.get p = some prev ∧ w.mtime p = some mt ∧ prev ≠ some mt := by
  simp [differs, Option.any_eq_true]

theorem looked_mem (h : p ∈ looked fires ps) : p ∈ ps := by
  induction ps with
  | nil => cases h
  | cons a ps ih =>
    rcases List.mem_cons.mp h with rfl | h
    · exact List.mem_cons_self
    · split at h
      · cases h
      · exact List.mem_cons_of_mem a (ih h)

theorem mem_looked_of_find (h : ps.find? fires = some p) : p ∈ looked fires ps := by
  induction ps with
  | nil => cases h
  | cons a ps ih =>
    rw [List.find?_cons] at h
    unfold looked
    split at h
    · cases h
      exact List.mem_cons_self
    · next ha =>
      rw [if_neg (by simp [ha])]
      exact List.mem_cons_of_mem a (ih h)

theorem pathChangedTriggered_fires : (pathChangedTriggered w armed p).1 = differs w armed p := by
  unfold pathChangedTriggered differs
  cases armed.get p with
  | none => rfl
  | some prev =>
    cases prev <;> cases w.mtime p <;> simp
    split <;> simp_all

/-- The path is then on record with the modification time that it has. -/
theorem get_pathChangedTriggered : (pathChangedTriggered w armed p).2.get q =
    if q = p then some (w.mtime p) else armed.get q := by
  unfold pathChangedTriggered
  split
  · next mt h => rw [Table.get_insert]
  · next mt h hmt => rw [Table.get_insert, hmt]
  · next prev mt h hmt =>
    split
    · next heq =>
      split
      · next hq => rw [hq, h, hmt, heq]
      · rfl
    · rw [Table.get_insert, hmt]
  · next prev h hmt => rw [Table.get_insert, hmt]
  · next h hmt =>
    split
    · next hq => rw [hq, h, hmt]
    · rfl

/-- A path that does not fire leaves all others as they were. -/
theorem differs_pathChangedTriggered (hp : differs w armed p = false) :
    differs w (pathChangedTriggered w armed p).2 = differs w armed := by
  funext q
  unfold differs
  rw [get_pathChangedTriggered]
  split
  · next hq =>
    subst hq
    rw [← differs, hp]
    cases w.mtime q <;> simp
  · rfl

theorem pathsChanged_cons : pathsChanged w (p :: ps) armed =
    if differs w armed p then pathChangedTriggered w armed p
    else pathsChanged w ps (pathChangedTriggered w armed p).2 := by
  rw [pathsChanged, pathChangedTriggered_fires]

theorem pathsChanged_fires : (pathsChanged w ps armed).1 = ps.any (differs w armed) := by
  induction ps generalizing armed with
  | nil => rfl
  | cons p ps ih =>
    rw [pathsChanged_cons, List.any_cons]
    split
    · next hp => rw [pathChangedTriggered_fires, hp, Bool.true_or]
    · next hp =>
      have hp := Bool.eq_false_iff.mpr hp
      rw [ih, differs_pathChangedTriggered hp, hp, Bool.false_or]

/-- The paths that were looked at are on record as they are, the others as they were. -/
theorem get_pathsChanged : (pathsChanged w ps armed).2.get q =
    if q ∈ looked (differs w armed) ps then some (w.mtime q) else armed.get q := by
  induction ps generalizing armed with
  | nil => rfl
  | cons p ps ih =>
    rw [pathsChanged_cons, looked]
    by_cases hp : differs w armed p
    · rw [if_pos hp, if_pos hp, get_pathChangedTriggered]
      by_cases hq : q = p
      · simp [hq]
      · simp [hq]
    · rw [if_neg hp, if_neg hp, ih, differs_pathChangedTriggered (Bool.eq_false_iff.mpr hp),
        get_pathChangedTriggered]
      by_cases hq : q = p
      · simp [hq]
      · simp [hq]

end Triggers

/-- Whether a condition other than `PathChanged=` is met. -/
def otherMet (w : World) (pc : PathConfig) : Bool :=
  pc.pathExists.any w.pathExists || pc.directoryNotEmpty.any w.directoryNotEmpty ||
    pc.pathExistsGlob.any w.matchesGlob

/-- The paths that a poll looks at: none while the target runs or another condition is met. -/
def polled (w : World) (quiescent : Bool) (pc : PathConfig) (st : PathState) : List String :=
  if quiescent && !otherMet w pc then looked (differs w st.armedMtimes) pc.pathChanged else []

section Polls

variable {w : World} {m : Manager} {quiescent : Bool} {pc : PathConfig} {st : PathState}
  {q name : String} {u : Unit} {acc : Table Name Unit × List Call}

theorem mem_polled : q ∈ polled w quiescent pc st ↔ quiescent = true ∧ otherMet w pc = false ∧
    q ∈ looked (differs w st.armedMtimes) pc.pathChanged := by
  unfold polled
  split
  · next h =>
    rw [Bool.and_eq_true, Bool.not_eq_true'] at h
    rw [h.1, h.2, and_iff_right rfl, and_iff_right rfl]
  · next h =>
    rw [Bool.and_eq_true, Bool.not_eq_true'] at h
    constructor
    · intro hq
      cases hq
    · intro hq
      exact absurd ⟨hq.1, hq.2.1⟩ h

theorem pollPath_fires : (pollPath w quiescent pc st).1 =
    (quiescent && (otherMet w pc || pc.pathChanged.any (differs w st.armedMtimes))) := by
  unfold pollPath evalPathTriggers
  rw [← otherMet]
  cases quiescent with
  | false => rfl
  | true =>
    cases otherMet w pc with
    | true => rfl
    | false => exact pathsChanged_fires

/-- The record is that of the paths that the poll looks at. -/
theorem get_pollPath : (pollPath w quiescent pc st).2.armedMtimes.get q =
    if q ∈ polled w quiescent pc st then some (w.mtime q) else st.armedMtimes.get q := by
  unfold pollPath evalPathTriggers polled
  rw [← otherMet]
  cases quiescent with
  | false => rfl
  | true =>
    cases otherMet w pc with
    | true => rfl
    | false => exact get_pathsChanged

/-- The poll of one unit. -/
def Unit.poll (w : World) (m : Manager) (pc : PathConfig) (u : Unit) : Bool × PathState :=
  pollPath w (m.quiescent u.activatedPathTarget) pc (u.pathState.getD {})

/-- What `poll_paths` does for one unit. -/
def pollUnit (w : World) (m : Manager) (acc : Table Name Unit × List Call) (name : Name) :
    Table Name Unit × List Call :=
  match m.units.get name with
  | none => acc
  | some u =>
    match u.pathCfg with
    | none => acc
    | some pc =>
      if u.kind = .path && u.active = .active then
        (acc.1.modify name fun v ↦ { v with pathState := some (u.poll w m pc).2 },
          if (u.poll w m pc).1 then
            acc.2 ++ [.start u.activatedPathTarget .replace, .processJobs]
          else acc.2)
      else acc

theorem pollPaths_eq : m.pollPaths w =
    ({ m with units := ((w.orderNames m.units.keys).foldl (pollUnit w m) (m.units, [])).1 },
      ((w.orderNames m.units.keys).foldl (pollUnit w m) (m.units, [])).2) := rfl

theorem pollUnit_calls {c : Call} (h : c ∈ acc.2) : c ∈ (pollUnit w m acc name).2 := by
  unfold pollUnit
  split
  · exact h
  · split
    · exact h
    · split
      · split
        · exact List.mem_append_left _ h
        · exact h
      · exact h

theorem pollUnit_get {n : Name} (h : name ≠ n) :
    (pollUnit w m acc n).1.get name = acc.1.get name := by
  unfold pollUnit
  split
  · rfl
  · split
    · rfl
    · split
      · rw [Table.get_modify, if_neg h]
      · rfl

/-- A `.path` unit that polls evaluate. -/
structure Armed (m : Manager) (name : Name) (pc : PathConfig) (u : Unit) : Prop where
  loaded : m.units.get name = some u
  kind : u.kind = .path
  active : u.active = .active
  config : u.pathCfg = some pc

theorem Armed.pollUnit (h : Armed m name pc u) : Rystemd.pollUnit w m acc name =
    (acc.1.modify name fun v ↦ { v with pathState := some (u.poll w m pc).2 },
      if (u.poll w m pc).1 then acc.2 ++ [.start u.activatedPathTarget .replace, .processJobs]
      else acc.2) := by
  unfold Rystemd.pollUnit
  rw [h.loaded]
  dsimp only
  rw [h.config]
  dsimp only
  rw [if_pos (by simp [h.kind, h.active])]

theorem foldl_pollUnit_calls {c : Call} {names : List Name} (h : c ∈ acc.2) :
    c ∈ (names.foldl (pollUnit w m) acc).2 := by
  induction names generalizing acc with
  | nil => exact h
  | cons n names ih => exact ih (pollUnit_calls h)

theorem Armed.foldl_polled (h : Armed m name pc u) {names : List Name}
    (hacc : acc.1.get name = some { u with pathState := some (u.poll w m pc).2 }) :
    (names.foldl (Rystemd.pollUnit w m) acc).1.get name =
      some { u with pathState := some (u.poll w m pc).2 } := by
  induction names generalizing acc with
  | nil => exact hacc
  | cons n names ih =>
    apply ih
    by_cases hn : name = n
    · subst hn
      rw [h.pollUnit, Table.get_modify, if_pos rfl, hacc]
      rfl
    · rw [pollUnit_get hn, hacc]

theorem Armed.foldl_pollUnit (h : Armed m name pc u) {names : List Name} (hname : name ∈ names)
    (hacc : acc.1.get name = some u) :
    (names.foldl (Rystemd.pollUnit w m) acc).1.get name =
        some { u with pathState := some (u.poll w m pc).2 } ∧
      ((u.poll w m pc).1 = true →
        .start u.activatedPathTarget .replace ∈ (names.foldl (Rystemd.pollUnit w m) acc).2) := by
  induction names generalizing acc with
  | nil => cases hname
  | cons n names ih =>
    rw [List.foldl_cons]
    by_cases hn : name = n
    · subst hn
      rw [h.pollUnit]
      constructor
      · apply h.foldl_polled
        rw [Table.get_modify, if_pos rfl, hacc]
        rfl
      · intro hfires
        apply foldl_pollUnit_calls
        rw [if_pos hfires]
        exact List.mem_append_right _ List.mem_cons_self
    · exact ih ((List.mem_cons.mp hname).resolve_left hn) ((pollUnit_get hn).trans hacc)

/-- A poll of all units is, for an armed one, its own poll; what fires is started. -/
theorem Armed.pollPaths (h : Armed m name pc u) (w : World) :
    (m.pollPaths w).1.units.get name = some { u with pathState := some (u.poll w m pc).2 } ∧
      ((u.poll w m pc).1 = true → .start u.activatedPathTarget .replace ∈ (m.pollPaths w).2) := by
  have hname : name ∈ w.orderNames m.units.keys :=
    (w.orderNames_perm _).mem_iff.mpr (Table.mem_keys.mpr ⟨u, h.loaded⟩)
  rw [pollPaths_eq]
  exact h.foldl_pollUnit hname h.loaded

end Polls

/-- What a manager keeps of the polls of a unit. -/
def pathStateOf (m : Manager) (name : Name) : PathState :=
  ((m.units.get name).bind Unit.pathState).getD {}

/-- The polls of an active `.path` unit, from the first that evaluates it on. Between two polls
the manager and the files change in any way, and the unit keeps its own state, over stops too. -/
structure PathWatch (name : Name) (pc : PathConfig) (target : Name) where
  world : Nat → World
  manager : Nat → Manager
  /-- Whether the poll is the first since the unit was started. -/
  first : Nat → Bool
  first_zero : first 0 = true
  armed : ∀ n, ∃ u, Armed (manager n) name pc u ∧ u.activatedPathTarget = target
  fresh : pathStateOf (manager 0) name = {}
  kept : ∀ n, pathStateOf (manager (n + 1)) name =
    pathStateOf ((manager n).pollPaths (world n)).1 name

namespace PathWatch

variable {name : Name} {pc : PathConfig} {target : Name} (run : PathWatch name pc target)
  {n : Nat} {q : String}

/-- The state before the poll. -/
def state (n : Nat) : PathState := pathStateOf (run.manager n) name

def quiescent (n : Nat) : Bool := (run.manager n).quiescent target

def poll (n : Nat) : Bool × PathState := pollPath (run.world n) (run.quiescent n) pc (run.state n)

def mtime (n : Nat) (q : String) : Option Nat := (run.world n).mtime q

/-- The poll fires for the unit, and the target is to be started. -/
def Starts (n : Nat) : Prop :=
  (run.poll n).1 = true ∧ .start target .replace ∈ ((run.manager n).pollPaths (run.world n)).2

/-- The poll looks at the path. -/
def Observed (n : Nat) (q : String) : Prop :=
  q ∈ polled (run.world n) (run.quiescent n) pc (run.state n)

instance : Decidable (run.Observed n q) := inferInstanceAs (Decidable (q ∈ polled ..))

/-- A `PathChanged=` path that has another modification time at a poll with the target
quiescent than at an earlier poll, where the unit was not started in between, has started the
target since. -/
def NotLost : Prop :=
  ∀ i n q, i < n → (∀ l, i < l → l ≤ n → run.first l = false) → run.quiescent n = true →
    q ∈ pc.pathChanged → run.mtime n q ≠ none → run.mtime i q ≠ run.mtime n q →
    ∃ l, i < l ∧ l ≤ n ∧ run.Starts l

/-- Each start that no other condition causes is for a change of one path between two looks
at it, of which it is the second. -/
def NotRepeated : Prop :=
  ∀ n, run.Starts n → otherMet (run.world n) pc = false →
    ∃ q ∈ pc.pathChanged, ∃ i < n, run.Observed i q ∧ run.Observed n q ∧
      (∀ l, i < l → l < n → ¬ run.Observed l q) ∧
      run.mtime n q ≠ none ∧ run.mtime i q ≠ run.mtime n q

theorem poll_eq : ∃ u, Armed (run.manager n) name pc u ∧ u.activatedPathTarget = target ∧
    run.poll n = u.poll (run.world n) (run.manager n) pc := by
  obtain ⟨u, hu, htarget⟩ := run.armed n
  refine ⟨u, hu, htarget, ?_⟩
  unfold poll Unit.poll state quiescent pathStateOf
  rw [hu.loaded, htarget]
  rfl

theorem starts_iff : run.Starts n ↔ (run.poll n).1 = true := by
  obtain ⟨u, hu, htarget, hpoll⟩ := run.poll_eq
  constructor
  · exact And.left
  · intro hfires
    refine ⟨hfires, ?_⟩
    rw [hpoll] at hfires
    have hstart := (hu.pollPaths (run.world n)).2 hfires
    rwa [htarget] at hstart

theorem state_succ : run.state (n + 1) = (run.poll n).2 := by
  obtain ⟨u, hu, -, hpoll⟩ := run.poll_eq
  unfold state
  rw [run.kept, pathStateOf, (hu.pollPaths (run.world n)).1, hpoll]
  rfl

/-- The modification times, with those that the unit has on record. -/
def observation : Observation String (Option Nat) where
  value := run.mtime
  Read := run.Observed
  record n q := (run.state n).armedMtimes.get q
  record_zero q := by
    rw [state, run.fresh]
    rfl
  record_read n q h := by
    rw [Observed] at h
    rw [state_succ, poll, get_pollPath, if_pos h, mtime]
  record_unread n q h := by
    rw [Observed] at h
    rw [state_succ, poll, get_pollPath, if_neg h]

/-- Wherever an evaluation gets to the `PathChanged=` paths, each of them that exists is on
record with another modification time than it has, or has had the one it has since it was looked
at or since the unit was started. -/
def Heeded (n : Nat) : Prop :=
  run.quiescent n = true → otherMet (run.world n) pc = false → ∀ q ∈ pc.pathChanged,
    run.mtime n q ≠ none → differs (run.world n) (run.state n).armedMtimes q = true ∨
      run.observation.Steady (fun l ↦ run.first l = true) n q

/-- A poll with the target quiescent that does not start it comes to the paths, and they are
not on record with another modification time. -/
theorem of_not_starts (hquiescent : run.quiescent n = true) (h : ¬ run.Starts n) :
    otherMet (run.world n) pc = false ∧
      ∀ q ∈ pc.pathChanged, differs (run.world n) (run.state n).armedMtimes q = false := by
  rw [starts_iff, poll, pollPath_fires, hquiescent, Bool.true_and, Bool.not_eq_true,
    Bool.or_eq_false_iff, List.any_eq_false] at h
  exact ⟨h.1, fun q hq ↦ Bool.eq_false_iff.mpr (h.2 q hq)⟩

theorem notLost (h : ∀ n, run.Heeded n) : run.NotLost := by
  intro i n q hin hfirst hquiescent hq hthere hne
  have hopens : ∀ n, run.observation.Read n q → run.quiescent n = true :=
    fun n hread ↦ (mem_polled.mp hread).1
  have hsteady : ∀ n, run.quiescent n = true → ¬ run.Starts n →
      run.observation.value n q ≠ none →
      run.observation.Steady (fun l ↦ run.first l = true) n q := by
    intro n hquiescent hstarts hthere
    obtain ⟨hother, hsame⟩ := run.of_not_starts hquiescent hstarts
    rcases h n hquiescent hother q hq hthere with hdiffers | hsteady
    · rw [hsame q hq] at hdiffers
      cases hdiffers
    · exact hsteady
  exact Observation.exists_answer (p := (· ≠ none)) hopens hsteady hin
    (fun l hil hl ↦ by rw [hfirst l hil hl]; exact Bool.false_ne_true) hquiescent hthere hne

theorem notRepeated : run.NotRepeated := by
  intro n hstarts hother
  obtain ⟨q, hq⟩ : ∃ q, pc.pathChanged.find?
      (differs (run.world n) (run.state n).armedMtimes) = some q := by
    rw [starts_iff, poll, pollPath_fires, hother, Bool.false_or, Bool.and_eq_true] at hstarts
    rw [← Option.isSome_iff_exists, List.find?_isSome, ← List.any_eq_true]
    exact hstarts.2
  have hread : run.Observed n q := by
    rw [starts_iff, poll, pollPath_fires, Bool.and_eq_true] at hstarts
    exact mem_polled.mpr ⟨hstarts.1, hother, mem_looked_of_find hq⟩
  obtain ⟨prev, mt, hrecord, hmtime, hne⟩ := differs_iff.mp (List.find?_some hq)
  obtain ⟨i, hi, hprev⟩ := Observation.exists_lastRead (o := run.observation) hrecord
  refine ⟨q, List.mem_of_find?_eq_some hq, i, hi.lt, hi.read, hread, hi.unread, ?_, ?_⟩
  · rw [mtime, hmtime]
    exact Option.some_ne_none mt
  · intro heq
    apply hne
    rw [hprev, ← hmtime]
    exact heq

end PathWatch

section Example

variable (pc : PathConfig) (busy : Nat → Bool) (world : Nat → World) {b : Bool} {st : PathState}

def watchingUnit (st : PathState) : Unit :=
  { name := "a.path", kind := .path, active := .active, pathState := some st,
    file := some { pathUnit := some pc } }

/-- A `.path` unit and its target, which runs or not. -/
def watching (busy : Bool) (st : PathState) : Manager where
  units := (Table.empty.insert "a.path" (watchingUnit pc st)).insert "a.service"
    { name := "a.service", kind := .service, active := if busy then .active else .inactive }

def watchState : Nat → PathState
  | 0 => {}
  | n + 1 => (pollPath (world n) (!busy n) pc (watchState n)).2

theorem armed_watching : Armed (watching pc b st) "a.path" pc (watchingUnit pc st) := by
  refine ⟨?_, rfl, rfl, rfl⟩
  rw [watching, Table.get_insert, if_neg (by decide), Table.get_insert_self]

theorem quiescent_watching : (watching pc b st).quiescent "a.service" = !b := by
  unfold quiescent unitOperational watching
  rw [Table.get_insert_self]
  cases b <;> rfl

theorem pathStateOf_watching : pathStateOf (watching pc b st) "a.path" = st := by
  rw [pathStateOf, (armed_watching pc).loaded]
  rfl

theorem target_watching : (watchingUnit pc st).activatedPathTarget =
    (pc.unit).getD "a.service" := by
  unfold Unit.activatedPathTarget
  have hstem : Unit.sameStemService "a.path" = "a.service" := by decide
  rw [watchingUnit, hstem]
  rfl

/-- The polls of one unit, started once, with any files and any runs of its target. -/
def watch (hpc : pc.unit = none) : PathWatch "a.path" pc "a.service" where
  world := world
  manager n := watching pc (busy n) (watchState pc busy world n)
  first n := n = 0
  first_zero := rfl
  armed n := ⟨_, armed_watching pc, by rw [target_watching, hpc, Option.getD_none]⟩
  fresh := pathStateOf_watching pc
  kept n := by
    rw [pathStateOf_watching, pathStateOf, ((armed_watching pc).pollPaths (world n)).1]
    unfold Unit.poll
    rw [target_watching, hpc, Option.getD_none, quiescent_watching]
    rfl

/-- The file changes between the first poll and the next. -/
def changingFile (flag : Nat → Bool) (n : Nat) : World where
  pathExists _ := flag n
  mtime _ := some (if n = 0 then 1 else 2)

end Example

/-- The unit watches one file, and its target does not run. -/
def onlyChanged : PathWatch "a.path" { pathChanged := ["/etc/a"] } "a.service" :=
  watch _ (fun _ ↦ false) (changingFile fun _ ↦ false) rfl

/-- At the first poll another condition is met, which it is not later. At the second poll the
target runs, and at the third it does not. -/
def changedMeanwhile : PathWatch "a.path"
    { pathExists := ["/run/a"], pathChanged := ["/etc/a"] } "a.service" :=
  watch _ (fun n ↦ n = 1) (changingFile fun n ↦ n = 0) rfl

theorem onlyChanged_heeded (n : Nat) : onlyChanged.Heeded n := by
  intro _ _ q hq _
  rw [List.mem_singleton.mp hq]
  rcases n with _ | _ | n
  · exact .inr ⟨0, Nat.le_refl 0, .inl rfl, fun l _ hl ↦ by rw [Nat.le_zero.mp hl]⟩
  · exact .inl (by decide)
  · have hread : onlyChanged.Observed 1 "/etc/a" := by decide
    refine .inr ⟨1, by omega, .inr ⟨by omega, hread⟩, fun l hl _ ↦ ?_⟩
    obtain ⟨l, rfl⟩ := Nat.exists_eq_add_of_le' hl
    rfl

/-- If every poll is heeded, changes are neither lost nor repeated. -/
theorem path_changes_start_once {name : Name} {pc : PathConfig} {target : Name}
    (run : PathWatch name pc target) (h : ∀ n, run.Heeded n) : run.NotLost ∧ run.NotRepeated :=
  ⟨run.notLost h, run.notRepeated⟩

theorem path_changes_start_once_onlyChanged : onlyChanged.NotLost ∧ onlyChanged.NotRepeated :=
  path_changes_start_once onlyChanged onlyChanged_heeded

/-- The third poll is the first that looks at the file, and takes the change for its baseline. -/
theorem change_lost : ¬ (changedMeanwhile.NotLost ∧ changedMeanwhile.NotRepeated) := by
  intro h
  obtain ⟨l, hl, hle, hstarts⟩ := h.1 0 2 "/etc/a" (by omega)
    (fun l hl _ ↦ decide_eq_false (Nat.ne_of_gt hl)) (by decide) List.mem_cons_self
    (Option.some_ne_none 2) (by decide)
  rw [PathWatch.starts_iff] at hstarts
  have hl : l = 1 ∨ l = 2 := by omega
  rcases hl with rfl | rfl
  · exact absurd hstarts (by decide)
  · exact absurd hstarts (by decide)

end Rystemd
