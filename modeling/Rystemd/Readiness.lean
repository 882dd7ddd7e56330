import Rystemd.Cases
import Rystemd.Library.Text

namespace Rystemd

open Worklist

namespace Manager

/-- One `KEY=value` line of a notification; the last `MAINPID=` counts, even if it is no number. -/
def notifyLine (acc : Bool × Option Int) (kv : String) : Bool × Option Int :=
  match Text.splitOnce '=' kv with
  | some ("READY", "1") => (true, acc.2)
  | some ("MAINPID", v) => (acc.1, Text.parseI32 (Text.trim v))
  | _ => acc

def datagramLines (text : String) : List String := (text.toList.splitOn '\n').map String.ofList

def parseNotify (text : String) : Bool × Option Int :=
  (datagramLines text).foldl notifyLine (false, none)

/-- `handle_notify_datagram` on the decoded text. A negative pid is none of a unit. -/
def handleNotifyDatagram (w : World) (m : Manager) (text : String) : Option Out :=
  let kv := parseNotify text
  m.handleNotify w kv.1 (kv.2.bind Int.toNat?)

/-- A `Type=notify` service. -/
def isNotify (u : Unit) : Bool := u.serviceCfg.any fun sc ↦ sc.serviceType = .notify

/-- A unit that a notification may be for. -/
def mayNotify (m : Manager) (n : Name) : Bool :=
  (m.units.get n).any fun u ↦ isNotify u && u.operational

/-- No job has an entry for the unit. -/
def Unawaited (m : Manager) (name : Name) : Prop :=
  ∀ id job, m.jobs.get id = some job → ∀ e ∈ job.waiting, e.unit ≠ name

/-- The notification made the unit active and finished its start job, and nothing else: the calls
that are left pass the result on to the jobs that waited for the unit. -/
structure Readies (m : Manager) (name : Name) (out : Out) : Prop where
  active : ∃ u, out.1.units.get name = some u ∧ u.active = .active ∧ u.sub = .running
  job : ∀ id job, m.jobOf name = some (id, job) → job.kind = .start →
    out.1.jobs.get id = none ∧ out.1.completedJobs.get id =
      some { id, unit := job.unit, state := "done", ok := some true, error := none }
  others : ∀ n ≠ name, out.1.units.get n = m.units.get n
  calls : ∀ c ∈ out.2, c = .timerDepCheck ∨
    ∃ id job, m.jobOf name = some job ∧ c = .jobCompleted id job.2.unit true
  settled : (∀ job, m.jobOf name = some job → m.Unawaited job.2.unit) →
    ∀ b, Handles engine (fun _ _ _ ↦ True) ⟨out.1, out.2⟩ b →
      ∀ n ≠ name, b.state.activeOf n = m.activeOf n

/-- The notification is taken for the unit: by its pid, or since no candidate precedes it. -/
def Chosen (w : World) (m : Manager) (name : Name) (mainPid : Option Pid) : Prop :=
  (∃ pid, mainPid = some pid ∧ m.pidUnit.get pid = some name) ∨
    ((∀ pid n, mainPid = some pid → m.pidUnit.get pid = some n → m.mayNotify n = false) ∧
      ∃ before after, w.orderNames m.units.keys = before ++ name :: after ∧
        ∀ n ∈ before, m.mayNotify n = false)

variable {w : World} {m m' : Manager} {name : Name} {u : Unit}

theorem notifyLine_ready (acc : Bool × Option Int) : (notifyLine acc "READY=1").1 = true := by
  have hs : Text.splitOnce '=' "READY=1" = some ("READY", "1") := by decide
  simp only [notifyLine, hs]

theorem notifyLine_keeps {acc : Bool × Option Int} (h : acc.1 = true) (kv : String) :
    (notifyLine acc kv).1 = true := by
  unfold notifyLine
  split
  · rfl
  · exact h
  · exact h

theorem notifyLines_ready {lines : List String} {acc : Bool × Option Int}
    (h : acc.1 = true ∨ "READY=1" ∈ lines) : (lines.foldl notifyLine acc).1 = true := by
  induction lines generalizing acc with
  | nil =>
    obtain h | h := h
    · exact h
    · cases h
  | cons kv lines ih =>
    apply ih
    obtain h | h := h
    · exact .inl (notifyLine_keeps h kv)
    · obtain rfl | h := List.mem_cons.mp h
      · exact .inl (notifyLine_ready acc)
      · exact .inr h

/-- The candidates in the order in which they are gone through. -/
def candidates (w : World) (m : Manager) : List Name :=
  (w.orderNames m.units.keys).filter m.mayNotify

theorem mem_candidates {n : Name} : n ∈ candidates w m ↔ m.mayNotify n = true := by
  unfold candidates
  rw [List.mem_filter, and_iff_right_iff_imp, (w.orderNames_perm _).mem_iff, Table.mem_keys]
  intro h
  obtain ⟨u, hu, -⟩ := (Option.any_eq_true ..).mp h
  exact ⟨u, hu⟩

theorem candidates_head?_iff {n : Name} : (candidates w m).head? = some n ↔
    m.mayNotify n = true ∧ ∃ before after, w.orderNames m.units.keys = before ++ n :: after ∧
      ∀ a ∈ before, m.mayNotify a = false := by
  unfold candidates
  rw [List.head?_filter, List.find?_eq_some_iff_append]
  simp only [Bool.not_eq_true']

theorem notifyTarget_eq (mainPid : Option Pid) : m.notifyTarget w mainPid =
    match mainPid with
    | some pid =>
      ((candidates w m).find? fun c ↦ m.pidUnit.get pid = some c).or (candidates w m).head?
    | none => (candidates w m).head? := rfl

theorem find_owner_iff {pid : Pid} {n : Name} :
    ((candidates w m).find? fun c ↦ m.pidUnit.get pid = some c) = some n ↔
      m.mayNotify n = true ∧ m.pidUnit.get pid = some n := by
  constructor
  · intro h
    refine ⟨mem_candidates.mp (List.mem_of_find?_eq_some h), ?_⟩
    simpa using List.find?_some h
  · rintro ⟨hn, hp⟩
    cases hf : (candidates w m).find? fun c ↦ m.pidUnit.get pid = some c with
    | none =>
      have := List.find?_eq_none.mp hf n (mem_candidates.mpr hn)
      simp [hp] at this
    | some c =>
      have := List.find?_some hf
      rw [decide_eq_true_eq, hp] at this
      exact this.symm

theorem notifyTarget_mayNotify {mainPid : Option Pid} {n : Name}
    (h : m.notifyTarget w mainPid = some n) : m.mayNotify n = true := by
  rw [notifyTarget_eq] at h
  cases mainPid with
  | none => exact (candidates_head?_iff.mp h).1
  | some pid =>
    obtain h | ⟨-, h⟩ := Option.or_eq_some_iff.mp h
    · exact (find_owner_iff.mp h).1
    · exact (candidates_head?_iff.mp h).1

theorem notifyTarget_iff (hn : m.mayNotify name = true) (mainPid : Option Pid) :
    m.notifyTarget w mainPid = some name ↔ m.Chosen w name mainPid := by
  have hhead := candidates_head?_iff (w := w) (m := m) (n := name)
  simp only [hn, true_and] at hhead
  rw [notifyTarget_eq]
  unfold Chosen
  cases mainPid with
  | none => simpa using hhead
  | some pid =>
    simp only [Option.or_eq_some_iff, find_owner_iff, hn, true_and, List.find?_eq_none,
      Option.some.injEq, exists_eq_left', mem_candidates, decide_eq_true_eq, hhead]
    apply or_congr_right
    apply and_congr_left
    intro _
    constructor
    · rintro h _ n rfl hp
      by_contra hc
      rw [Bool.not_eq_false] at hc
      exact h n hc hp
    · intro h n hc hp
      rw [h pid n rfl hp] at hc
      cases hc

theorem withoutWait_of_unawaited {job : Job} (h : ∀ e ∈ job.waiting, e.unit ≠ name) :
    withoutWait name job = job := by
  unfold withoutWait
  rw [List.filter_eq_self.mpr fun e he ↦ by simpa using h e he]

/-- Jobs that do not wait for a unit do not notice that its job is done. -/
theorem jobCompleted_unawaited (h : m.Unawaited name) (id : JobId) :
    ∃ m', m.jobCompleted w id name true = (m', []) ∧ m'.units = m.units ∧
      ∀ i, m'.jobs.get i = m.jobs.get i := by
  unfold jobCompleted
  cases hj : m.jobs.get id with
  | none => exact ⟨m, rfl, rfl, fun _ ↦ rfl⟩
  | some job =>
    have hsame := withoutWait_of_unawaited (h id job hj)
    simp only [Bool.not_true, Bool.false_and, Bool.false_eq_true, if_false, releaseWait, hsame,
      if_true]
    refine ⟨_, rfl, rfl, fun i ↦ ?_⟩
    simp only [modifyJob, Table.get_modify]
    split
    · rename_i hi
      rw [hi, hj, Option.map_some, hsame]
    · rfl

theorem timerDepCheck_quiet (h : m.timerDepCheck w = some m') : Quiet m m' := Quiet.rearmTimers h

/-- What passes on a result that no job waits for changes the state of no unit. -/
theorem passing_on_activeOf {calls : List Call} {b : Config Manager Call}
    (hcalls : ∀ c ∈ calls, c = .timerDepCheck ∨
      ∃ id unit, c = .jobCompleted id unit true ∧ m.Unawaited unit)
    (h : Handles engine (fun _ _ _ ↦ True) ⟨m, calls⟩ b) (n : Name) :
    b.state.activeOf n = m.activeOf n := by
  suffices hi : (∀ c ∈ b.todo, c = .timerDepCheck ∨
      ∃ id unit, c = .jobCompleted id unit true ∧ b.state.Unawaited unit) ∧
        b.state.activeOf n = m.activeOf n from hi.2
  refine h.invariant (I := fun a ↦ (∀ c ∈ a.todo, c = .timerDepCheck ∨
    ∃ id unit, c = .jobCompleted id unit true ∧ a.state.Unawaited unit) ∧
      a.state.activeOf n = m.activeOf n) ?_ ⟨hcalls, rfl⟩
  intro w c s s' cs rest hi _ _ he
  obtain ⟨htodo, hn⟩ := hi
  have hstep : cs = [] ∧ s'.activeOf n = s.activeOf n ∧ ∀ i, s'.jobs.get i = s.jobs.get i := by
    obtain rfl | ⟨id, unit, rfl, hu⟩ := htodo c List.mem_cons_self
    · obtain ⟨s₁, hs, heq⟩ := Option.map_eq_some_iff.mp he
      cases heq
      have hq := timerDepCheck_quiet hs
      exact ⟨rfl, hq.activeOf n, fun i ↦ by rw [hq.jobs]⟩
    · obtain ⟨s₁, hs, hunits, hjobs⟩ := jobCompleted_unawaited (w := w) hu id
      have heq : some (s₁, ([] : List Call)) = some (s', cs) := by
        rw [← hs]
        exact he
      cases heq
      exact ⟨rfl, by unfold activeOf; rw [hunits], hjobs⟩
  obtain ⟨rfl, hactive, hjobs⟩ := hstep
  refine ⟨?_, hactive.trans hn⟩
  intro c hc
  obtain h | ⟨id, unit, h, hu⟩ := htodo c (List.mem_cons_of_mem _ hc)
  · exact .inl h
  · right
    refine ⟨id, unit, h, fun i job hj ↦ hu i job ?_⟩
    rwa [← hjobs i]

theorem finishJob_get {id : JobId} {job : Job} (hj : m.jobs.get id = some job) :
    (m.finishJob w id).1.jobs.get id = none ∧ (m.finishJob w id).1.completedJobs.get id =
      some { id, unit := job.unit, state := "done", ok := some true, error := none } := by
  unfold finishJob
  rw [hj]
  simp [removeJob, recordJobResult, hj]

/-- The start job of a unit that has become active is done. -/
theorem completeStartJob_readies (hu : m.units.get name = some u)
    (hpoint : ∀ id, m.unitJob.get name = some id → (m.jobs.get id).isSome) :
    ∃ out, (m.setActive w name .active .running .success).completeStartJob w name = some out ∧
      m.Readies name out := by
  set m₁ := m.setActive w name .active .running .success with hm₁
  have hactive : ∃ u', m₁.units.get name = some u' ∧ u'.active = .active ∧ u'.sub = .running := by
    refine ⟨_, by rw [hm₁, setActive, modifyUnit, Table.get_modify, if_pos rfl, hu]; rfl, rfl, rfl⟩
  have hothers : ∀ n ≠ name, m₁.units.get n = m.units.get n := by
    intro n hn
    rw [hm₁, setActive, modifyUnit, Table.get_modify, if_neg hn]
  have hsettled {out : Out} (hunits : out.1.units = m₁.units)
      (hcalls : ∀ c ∈ out.2, c = .timerDepCheck ∨
        ∃ id unit, c = .jobCompleted id unit true ∧ out.1.Unawaited unit)
      {b : Config Manager Call} (hb : Handles engine (fun _ _ _ ↦ True) ⟨out.1, out.2⟩ b) :
      ∀ n ≠ name, b.state.activeOf n = m.activeOf n := by
    intro n hn
    rw [passing_on_activeOf hcalls hb n]
    unfold activeOf
    rw [hunits, hothers n hn]
  have hquiet (hnot : ∀ id job, m.jobOf name = some (id, job) → job.kind ≠ .start) :
      m.Readies name (m₁, [.timerDepCheck]) := by
    refine ⟨hactive, ?_, hothers, ?_, ?_⟩
    · exact fun id job hj hk ↦ absurd hk (hnot id job hj)
    · exact fun c hc ↦ .inl (List.mem_singleton.mp hc)
    · intro _ b hb
      exact hsettled rfl (fun c hc ↦ .inl (List.mem_singleton.mp hc)) hb
  unfold completeStartJob completeJob
  have hunitJob : m₁.unitJob = m.unitJob := rfl
  have hjobs : m₁.jobs = m.jobs := rfl
  rw [hunitJob, hjobs]
  cases hid : m.unitJob.get name with
  | none =>
    refine ⟨_, rfl, hquiet ?_⟩
    intro id job hj
    simp [jobOf, hid] at hj
  | some id =>
    obtain ⟨job, hj⟩ := Option.isSome_iff_exists.mp (hpoint id hid)
    have hof : m.jobOf name = some (id, job) := by simp [jobOf, hid, hj]
    have hjob : m₁.jobs.get id = some job := hj
    by_cases hk : job.kind = .start
    · refine ⟨(m₁.finishJob w id).andThen [.timerDepCheck], ?_, ?_⟩
      · simp [hj, hk]
      · have hfinish : m₁.finishJob w id =
            ((m₁.recordJobResult id true none).removeJob id job.unit,
              ((m₁.recordJobResult id true none).removeJob id job.unit).onJobCompleted w job.unit
                true ++ []) := by
          unfold finishJob
          simp only [hjob, hk, reduceCtorEq, if_false]
        have hcalls : ∀ c ∈ ((m₁.finishJob w id).andThen [.timerDepCheck]).2,
            c = .timerDepCheck ∨ ∃ i, c = .jobCompleted i job.unit true := by
          intro c hc
          simp only [Out.andThen, hfinish, onJobCompleted, List.append_nil, List.mem_append,
            List.mem_map, List.mem_singleton] at hc
          obtain ⟨i, -, rfl⟩ | rfl := hc
          · exact .inr ⟨i, rfl⟩
          · exact .inl rfl
        have hunits : ((m₁.finishJob w id).andThen [.timerDepCheck]).1.units = m₁.units := by
          rw [hfinish]
          rfl
        refine ⟨?_, ?_, ?_, ?_, ?_⟩
        · rw [hunits]
          exact hactive
        · intro i j hij _
          rw [hof] at hij
          cases hij
          exact finishJob_get hjob
        · intro n hn
          rw [hunits]
          exact hothers n hn
        · intro c hc
          obtain h | ⟨i, h⟩ := hcalls c hc
          · exact .inl h
          · exact .inr ⟨i, (id, job), hof, h⟩
        · intro hun b hb
          refine hsettled hunits ?_ hb
          intro c hc
          obtain h | ⟨i, h⟩ := hcalls c hc
          · exact .inl h
          · refine .inr ⟨i, job.unit, h, ?_⟩
            intro i' j' hj'
            refine hun _ hof i' j' ?_
            rw [hfinish] at hj'
            exact Table.get_of_get_remove hj'
    · refine ⟨_, by simp [hj, hk]; rfl, hquiet ?_⟩
      intro i j hij
      rw [hof] at hij
      cases hij
      exact hk

/-- A `READY=1` while one unit is starting, for every table and every order of iteration. -/
theorem readiness_iff (w : World) (m : Manager) (text : String) (name : Name) (u : Unit)
    (hu : m.units.get name = some u) (hnotify : isNotify u) (ha : u.active = .activating)
    (honly : ∀ n v, m.units.get n = some v → isNotify v → v.active = .activating → n = name)
    (hready : "READY=1" ∈ datagramLines text)
    (hpid : ∀ p, (parseNotify text).2 = some p → u.mainPid.map Int.ofNat = some p) :
    (∃ out, m.handleNotifyDatagram w text = some out ∧ m.Readies name out) ↔
      m.Chosen w name (if (parseNotify text).2.isSome then u.mainPid else none) ∧
        ∀ id, m.unitJob.get name = some id → (m.jobs.get id).isSome := by
  have hmay : m.mayNotify name = true := by
    unfold mayNotify
    rw [hu, Option.any_some, hnotify]
    simp [Unit.operational, ha]
  have hmain : (parseNotify text).2.bind Int.toNat? =
      if (parseNotify text).2.isSome then u.mainPid else none := by
    cases hp : (parseNotify text).2 with
    | none => rfl
    | some p =>
      obtain ⟨pid, hm, rfl⟩ := Option.map_eq_some_iff.mp (hpid p hp)
      rw [hm]
      rfl
  rw [← notifyTarget_iff hmay, ← hmain]
  have hfst : (parseNotify text).1 = true := notifyLines_ready (.inr hready)
  have hhandle : m.handleNotifyDatagram w text =
      (m.notifyTarget w ((parseNotify text).2.bind Int.toNat?)).elim (some (m, []))
        fun n ↦ m.nowRunning w n := by
    unfold handleNotifyDatagram handleNotify
    simp only [hfst, if_true]
    cases m.notifyTarget w ((parseNotify text).2.bind Int.toNat?) with
    | none => rfl
    | some n => rfl
  rw [hhandle]
  constructor
  · rintro ⟨out, ho, hr⟩
    obtain ⟨u', hu', hactive, -⟩ := hr.active
    have hchanged : out.1.units.get name ≠ m.units.get name := by
      intro h
      rw [hu', hu] at h
      cases h
      rw [ha] at hactive
      cases hactive
    cases ht : m.notifyTarget w ((parseNotify text).2.bind Int.toNat?) with
    | none =>
      rw [ht] at ho
      cases ho
      exact absurd rfl hchanged
    | some n =>
      rw [ht, Option.elim_some] at ho
      unfold nowRunning at ho
      split at ho
      · rename_i hact
        have hn : n = name := by
          obtain ⟨v, hv, hva⟩ := (Option.any_eq_true ..).mp hact
          refine honly n v hv ?_ (of_decide_eq_true hva)
          have hmayn := notifyTarget_mayNotify ht
          unfold mayNotify at hmayn
          rw [hv, Option.any_some, Bool.and_eq_true] at hmayn
          exact hmayn.1
        subst hn
        refine ⟨rfl, ?_⟩
        intro id hid
        unfold completeStartJob completeJob at ho
        have hunitJob : (m.setActive w n .active .running .success).unitJob = m.unitJob := rfl
        have hjobs : (m.setActive w n .active .running .success).jobs = m.jobs := rfl
        by_contra hnone
        rw [Option.not_isSome_iff_eq_none] at hnone
        rw [hunitJob, hid, hjobs] at ho
        simp [hnone] at ho
      · cases ho
        exact absurd rfl hchanged
  · rintro ⟨ht, hpoint⟩
    obtain ⟨out, ho, hr⟩ := completeStartJob_readies (w := w) hu hpoint
    refine ⟨out, ?_, hr⟩
    rw [ht, Option.elim_some]
    unfold nowRunning
    rw [hu, Option.any_some, ha]
    exact ho

/-- A `Type=notify` service in some state. -/
def notifyUnit (name : Name) (state : ActiveState) (pid : Pid) : Unit :=
  { Unit.new 0 name .service with
    file := some { service := some { serviceType := .notify } }
    active := state
    mainPid := some pid }

/-- `b.service` is starting while `a.service`, which comes first, is running. -/
def runningAndStarting : Manager where
  units := (Table.empty.insert "b.service" (notifyUnit "b.service" .activating 8)).insert
    "a.service" (notifyUnit "a.service" .active 7)

theorem ready_taken_for_running_unit :
    ¬ ∃ out, runningAndStarting.handleNotifyDatagram {} "READY=1" = some out ∧
      runningAndStarting.Readies "b.service" out := by
  rintro ⟨out, ho, hr⟩
  obtain ⟨u, hu, hactive, -⟩ := hr.active
  have hstate : (runningAndStarting.handleNotifyDatagram {} "READY=1").bind (fun o ↦
      (o.1.units.get "b.service").map Unit.active) = some .activating := by decide +kernel
  rw [ho, Option.bind_some, hu, Option.map_some, hactive] at hstate
  cases hstate

/-- `b.service` is starting alone. -/
def startingAlone : Manager where
  units := Table.empty.insert "b.service" (notifyUnit "b.service" .activating 8)

theorem ready_of_starting_alone :
    ∃ out, startingAlone.handleNotifyDatagram {} "READY=1" = some out ∧
      startingAlone.Readies "b.service" out := by
  apply (readiness_iff {} startingAlone "READY=1" "b.service"
    (notifyUnit "b.service" .activating 8) rfl rfl rfl ?_ (by decide +kernel) ?_).mpr
  · refine ⟨.inr ⟨?_, [], [], by decide +kernel, ?_⟩, ?_⟩
    · intro pid n h
      have hnone : (parseNotify "READY=1").2 = none := by decide +kernel
      rw [hnone] at h
      cases h
    · intro n h
      cases h
    · intro id h
      cases h
  · intro n v hv _ _
    unfold startingAlone at hv
    rw [Table.get_insert] at hv
    split at hv
    · assumption
    · cases hv
  · intro p h
    have hnone : (parseNotify "READY=1").2 = none := by decide +kernel
    rw [hnone] at h
    cases h

end Manager

end Rystemd
