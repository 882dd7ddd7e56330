import Rystemd.Emissions
import Rystemd.Library.Paths
import Rystemd.Nesting

namespace Rystemd

open Worklist

/-- The units that a start pulls in. -/
def pulls (u : Unit) : List Name := requires u ++ wants u ++ requisite u

/-- The start of `a` pulls `b` in, directly or through other units. -/
abbrev Pulls (m : Manager) : Name → Name → Prop := Relation.TransGen (Edge m.units pulls)

/-- `a` is ordered after `b`. -/
def OrderedAfter (m : Manager) (a b : Name) : Prop :=
  (∃ u, m.units.get a = some u ∧ b ∈ u.config.after) ∨
    ∃ u, m.units.get b = some u ∧ a ∈ u.config.before

/-- The start job of `a` waits for `b`, and not only because `a` is ordered after `b`. -/
def WaitsFor (m : Manager) (a b : Name) : Prop :=
  ∃ id job e, m.jobs.get id = some job ∧ job.kind = .start ∧ job.unit = a ∧ e ∈ job.waiting ∧
    e.unit = b ∧ (e.required ∨ ¬ OrderedAfter m a b ∨ Pulls m a b)

/-- The two units pull each other in. -/
def Entangled (m : Manager) (a b : Name) : Prop := Pulls m a b ∧ Pulls m b a

/-- The calls that load a unit if it is not loaded yet. -/
def Call.loads (name : Name) : Call → Prop
  | .start n _ | .restartOrStart n | .loadUnit n => n = name
  | _ => False

/-- No start job waits for anything. -/
def NoneWaits (m : Manager) : Prop := ∀ id job, m.jobs.get id = some job → job.waiting = []

/-- When the wait list of a job is committed, its unit and the units that are opened for it or that
it is ordered after do not pull each other in; and while a job waits, no unit is loaded that closes
a cycle, and no unit file changes or goes. -/
def startsUntangled (w : World) (c : Call) (m : Manager) : Prop :=
  match c with
  | .expandOpen _ name _ waiting [] => ∀ d, m.unitJob.contains d →
      d ∈ waiting.map WaitEntry.unit ∨ OrderedAfter m name d → ¬ Entangled m name d
  | .start n _ | .restartOrStart n | .loadUnit n => m.units.contains n ∨ NoneWaits m ∨
      ∀ m₁, m.ensureUnitLoaded w n = .ok m₁ → ¬ Pulls m₁ n n
  | .loadAll | .udevRemove _ =>
    NoneWaits m ∨ ∀ out, exec w c m = some out → ∀ n, out.1.setupOf n = m.setupOf n
  | _ => True

variable {w : World} {c : Call} {m m₁ m' : Manager} {name n : Name} {out : Out} {id : JobId}
  {job : Job} {kind : JobKind} {a b : Name} {u u' : Unit}

section Setups

/-- The units that a call adds. -/
inductive AddsSetups (w : World) (c : Call) (m : Manager) : Manager → Prop
  | none : AddsSetups w c m m
  | loads {n : Name} {m₁ : Manager} : c.loads n → m.ensureUnitLoaded w n = .ok m₁ →
      AddsSetups w c m m₁
  | registers {device : Device} : AddsSetups w c m (m.udevRegister w device)

theorem ensureUnitLoaded_same (h : (m.units.get n).isSome) : m.ensureUnitLoaded w n = .ok m :=
  if_pos h

theorem expands_setupOf (h : Expands w m id name out) : out.1.setupOf n = m.setupOf n := by
  cases h with
  | missing | opens => rfl
  | asserted => exact Keeps.setResult.toLocal.setupOf n
  | skipped => exact JobsOnly.finishJob.setupOf n
  | requisite => rfl

theorem enqueueStartJob_setupOf {mode : JobMode}
    (h : m.enqueueStartJobMode w name mode = some out) :
    out.1.setupOf n = m.setupOf n := (expands_setupOf (expandStartJob_cases h)).trans rfl

theorem starts_setups {mode : JobMode} {reply : Manager.StartReply}
    (h : Starts w m name mode reply out) :
    ∃ m₁, (m₁ = m ∨ m.ensureUnitLoaded w name = .ok m₁) ∧ ∀ n, out.1.setupOf n = m₁.setupOf n := by
  cases h with
  | unloadable => exact ⟨m, .inl rfl, fun _ ↦ rfl⟩
  | shutdown hl | active hl | pending hl | irreversible e hl => exact ⟨_, .inr hl, fun _ ↦ rfl⟩
  | cancels msg hl => exact ⟨_, .inr hl, JobsOnly.cancelJob.setupOf⟩
  | enqueues hl _ _ _ ho =>
    refine ⟨_, .inr hl, fun n ↦ ?_⟩
    have he := enqueueStartJob_setupOf (n := n) ho
    exact he

theorem restart_setups {reply : Manager.Reply} (h : m.restart w name = some (reply, out)) :
    out.1.setupOf n = m.setupOf n := by
  cases hu : m.units.get name with
  | none =>
    rw [Manager.restart, hu] at h
    cases h
    rfl
  | some u =>
    rcases restart_cases h with ⟨-, rfl⟩ | ⟨-, rfl, -⟩ | ⟨-, cs, -, rfl⟩ | ⟨-, reply', h, -⟩
    · rfl
    · rfl
    · exact (JobsOnly.dropStartJob.trans (.enqueueStop (w := w))).setupOf n
    · obtain ⟨m₁, rfl | hl, hm⟩ := starts_setups h
      · exact hm n
      · rw [ensureUnitLoaded_same (by rw [hu]; rfl)] at hl
        cases hl
        exact hm n

/-- But for a reload and the removal of a device, a call changes what units there are by loading
them only. -/
theorem exec_setups (h : exec w c m = some out) (hc : c.unloads = false) :
    ∃ m₁, AddsSetups w c m m₁ ∧ ∀ n, out.1.setupOf n = m₁.setupOf n := by
  have same (h : ∀ n, out.1.setupOf n = m.setupOf n) :
      ∃ m₁, AddsSetups w c m m₁ ∧ ∀ n, out.1.setupOf n = m₁.setupOf n := ⟨m, .none, h⟩
  have locals {m₂ : Manager} (hl : ∃ name m', Local name m₂ m' ∧ JobsOnly m' out.1)
      (h₂ : ∀ n, m₂.setupOf n = m.setupOf n) :
      ∃ m₁, AddsSetups w c m m₁ ∧ ∀ n, out.1.setupOf n = m₁.setupOf n := by
    obtain ⟨name, m', hl, hj⟩ := hl
    exact same fun n ↦ by rw [hj.setupOf, hl.setupOf, h₂]
  cases c with
  | start name mode =>
    obtain ⟨⟨reply, o⟩, hr, rfl⟩ := Option.map_eq_some_iff.mp h
    obtain ⟨m₁, rfl | hl, hm⟩ := starts_setups (startWithMode_cases hr)
    · exact same hm
    · exact ⟨m₁, .loads rfl hl, hm⟩
  | startIgnoreDependencies name => cases h; exact same JobsOnly.startIgnoreDependencies.setupOf
  | stop name mode => cases h; exact same JobsOnly.stopWithMode.setupOf
  | enqueueStop name mode => cases h; exact same (JobsOnly.enqueueStop (w := w)).setupOf
  | revive name =>
    obtain ⟨m', hp, rfl⟩ := revive_puts h
    exact same hp.toLocal.setupOf
  | restart name =>
    obtain ⟨⟨reply, o⟩, hr, rfl⟩ := Option.map_eq_some_iff.mp h
    exact same fun n ↦ restart_setups hr
  | restartActivated name | tryRestart name =>
    change (if _ then _ else _) = _ at h
    split at h
    · obtain ⟨⟨reply, o⟩, hr, rfl⟩ := Option.map_eq_some_iff.mp h
      exact same fun n ↦ restart_setups hr
    · cases h
      exact same fun _ ↦ rfl
  | restartOrStart name =>
    change (if _ then _ else _) = _ at h
    split at h
    · obtain ⟨⟨reply, o⟩, hr, rfl⟩ := Option.map_eq_some_iff.mp h
      exact same fun n ↦ restart_setups hr
    · obtain ⟨⟨reply, o⟩, hr, rfl⟩ := Option.map_eq_some_iff.mp h
      obtain ⟨m₁, rfl | hl, hm⟩ := starts_setups (startWithMode_cases hr)
      · exact same hm
      · exact ⟨m₁, .loads rfl hl, hm⟩
  | reload name => exact locals ⟨_, (reload_ends h .restart).locals⟩ fun _ ↦ rfl
  | kill name sig =>
    obtain ⟨u, -, h⟩ := Option.bind_eq_some_iff.mp h
    cases h
    refine same fun n ↦ ?_
    dsimp only
    split <;> rfl
  | resetFailed name =>
    cases h
    rcases (resetFailed_cases : m.resetFailed name = m ∨ _) with he | ⟨-, hp⟩
    · exact same fun n ↦ congrArg (·.setupOf n) he
    · exact same hp.toLocal.setupOf
  | shutdown =>
    cases h
    refine same fun n ↦ ?_
    unfold Manager.shutdown
    split <;> rfl
  | loadAll | udevRemove => cases hc
  | loadUnit name =>
    cases h
    change ∃ m₁, _ ∧ ∀ n, (m.busLoadUnit w name).setupOf n = _
    unfold Manager.busLoadUnit
    split
    · exact ⟨m, .none, fun _ ↦ rfl⟩
    · next hl => exact ⟨_, .loads rfl hl, fun _ ↦ rfl⟩
  | udevRegister device => cases h; exact ⟨_, .registers, fun _ ↦ rfl⟩
  | tick => cases h; exact same fun _ ↦ rfl
  | pollPaths => cases h; exact same Quiet.pollPaths.setupOf
  | notify ready pid =>
    rcases handleNotify_ends h with rfl | ⟨name, -, he⟩
    · exact same fun _ ↦ rfl
    · exact locals ⟨_, he.locals⟩ fun _ ↦ rfl
  | nameAcquired busName =>
    obtain ⟨name, m', hk, rfl | ⟨-, he⟩⟩ := nameAcquired_ends h
    · exact same hk.toLocal.setupOf
    · exact locals ⟨_, he.locals⟩ hk.toLocal.setupOf
  | enqueueStartJob name => exact same fun n ↦ enqueueStartJob_setupOf h
  | stopConflict name =>
    rcases stopConflict_cases h with rfl | ⟨-, rfl, -⟩
    · exact same fun _ ↦ rfl
    · exact same (JobsOnly.enqueueStop (w := w)).setupOf
  | stopDependent name =>
    cases h
    rcases stopDependent_cases name with he | ⟨-, -, he⟩
    · rw [he]
      exact ⟨m, .none, fun _ ↦ rfl⟩
    · rw [he]
      exact ⟨m, .none, (JobsOnly.enqueueStop (w := w)).setupOf⟩
  | expandOpen id name needs waiting ds => exact same (JobsOnly.opens (expandOpen_cases h)).setupOf
  | maybeStartJob id =>
    obtain ⟨job, -, ⟨-, rfl⟩ | ⟨-, -, rfl⟩ | ⟨-, -, -, -, m', hk, ⟨msg, rfl⟩ | h⟩⟩ :=
      maybeStartJob_cases h
    · exact same JobsOnly.finishJobFailed.setupOf
    · exact same fun _ ↦ rfl
    · refine same fun n ↦ ?_
      rw [JobsOnly.finishJobFailed.setupOf]
      exact hk.toLocal.setupOf n
    · exact locals ⟨_, doStart_locals h⟩ hk.toLocal.setupOf
  | maybeStopJob id =>
    obtain ⟨job, -, ⟨-, rfl⟩ | ⟨-, -, rfl⟩ | ⟨-, -, h⟩⟩ := maybeStopJob_cases h
    · exact same JobsOnly.finishJob.setupOf
    · exact same fun _ ↦ rfl
    · exact locals ⟨_, doStop_locals h⟩ fun _ ↦ rfl
  | processPass ids changed =>
    cases h
    unfold Manager.processPass
    split
    · exact ⟨m, .none, fun _ ↦ rfl⟩
    · exact ⟨m, .none, JobsOnly.tryAdvanceJob.setupOf⟩
  | jobCompleted id unit ok => cases h; exact same JobsOnly.jobCompleted.setupOf
  | pokeFailedJob id name => cases h; exact same JobsOnly.pokeFailedJob.setupOf
  | failUnit name msg =>
    obtain ⟨m', hp, ⟨jid, job, -, -, -, rfl⟩ | ⟨-, rfl⟩⟩ := failUnit_ends h
    · have hj : JobsOnly m' ((m'.modifyJob jid fun job ↦
          { job with failedMsg := some msg }).finishJobFailed w jid).1 :=
        JobsOnly.modifyJob.trans .finishJobFailed
      exact same fun n ↦ (hj.setupOf n).trans (hp.toLocal.setupOf n)
    · exact same hp.toLocal.setupOf
  | armStartTimeout name =>
    obtain ⟨u, -, h⟩ := Option.map_eq_some_iff.mp h
    cases h
    exact same fun _ ↦ rfl
  | timerDepCheck =>
    obtain ⟨m', hm', rfl⟩ := Option.map_eq_some_iff.mp h
    exact same (Quiet.rearmTimers hm').setupOf
  | rearmTimer =>
    obtain ⟨m', hm', rfl⟩ := Option.map_eq_some_iff.mp h
    exact same (Quiet.rearmTimer hm').setupOf
  | fireTimer name kind =>
    rcases fireTimer_cases h with h | ⟨m', target, hq, rfl⟩
    · cases h with
      | ignored => exact same fun _ ↦ rfl
      | restart _ _ ho =>
        obtain ⟨m', hl, hj⟩ := doStart_locals ho
        exact locals ⟨_, m', hl, hj⟩ fun _ ↦ rfl
      | start _ _ hk => exact same hk.toLocal.setupOf
      | stop _ he => exact locals ⟨_, he.locals⟩ fun _ ↦ rfl
    · exact same hq.setupOf
  | processExit pid exit =>
    cases processExit_cases h with
    | ignored | main => exact same fun _ ↦ rfl
    | control _ _ _ _ h => exact locals ⟨_, handleControlExit_locals h⟩ fun _ ↦ rfl
  | mainExit name exit => exact locals ⟨_, mainExit_locals h⟩ fun _ ↦ rfl
  | isolate | reap | socketReady | processJobs => cases h; exact same fun _ ↦ rfl
  | fireOnFailure name =>
    obtain ⟨u, -, h⟩ := Option.bind_eq_some_iff.mp h
    cases h
    exact same fun _ ↦ rfl

end Setups

section Pulls

/-- No unit is lost, and none changes its file. -/
def Grows (m m' : Manager) : Prop := ∀ n s, m.setupOf n = some s → m'.setupOf n = some s

theorem setupOf_eq (hu : m.units.get n = some u) : m.setupOf n = some (u.kind, u.file) := by
  rw [Manager.setupOf, hu, Option.map_some]

theorem of_setupOf (h : m'.setupOf n = m.setupOf n) (hu : m.units.get n = some u) :
    ∃ u', m'.units.get n = some u' ∧ u'.file = u.file := by
  rw [setupOf_eq hu] at h
  obtain ⟨u', hu', he⟩ := Option.map_eq_some_iff.mp h
  exact ⟨u', hu', congrArg Prod.snd he⟩

theorem Grows.get (h : Grows m m') (hu : m.units.get n = some u) :
    ∃ u', m'.units.get n = some u' ∧ u'.file = u.file :=
  of_setupOf (by rw [h n _ (setupOf_eq hu), setupOf_eq hu]) hu

theorem Grows.of_eq (h : ∀ n, m'.setupOf n = m.setupOf n) : Grows m m' := by
  intro n s hs
  rw [h n, hs]

theorem Grows.trans (h : Grows m m₁) (h' : Grows m₁ m') : Grows m m' :=
  fun n s hs ↦ h' n s (h n s hs)

theorem Adds.grows (h : Adds m m') : Grows m m' := by
  intro n s hs
  obtain ⟨u, hu, rfl⟩ := Option.map_eq_some_iff.mp hs
  exact setupOf_eq (h.units.kept n u hu)

theorem pulls_of_file (h : u'.file = u.file) : pulls u' = pulls u := by
  simp only [pulls, requires, wants, requisite, Unit.config, h]

theorem Grows.edge (h : Grows m m') (he : Edge m.units pulls a b) : Edge m'.units pulls a b := by
  obtain ⟨u, hu, hb⟩ := he
  obtain ⟨u', hu', hf⟩ := h.get hu
  exact ⟨u', hu', by rwa [pulls_of_file hf]⟩

theorem Grows.pulls (h : Grows m m') (hp : Pulls m a b) : Pulls m' a b :=
  Relation.TransGen.mono (fun _ _ ↦ h.edge) _ _ hp

theorem Grows.orderedAfter (h : Grows m m') (ho : OrderedAfter m a b) : OrderedAfter m' a b := by
  rcases ho with ⟨u, hu, hb⟩ | ⟨u, hu, ha⟩
  · obtain ⟨u', hu', hf⟩ := h.get hu
    exact .inl ⟨u', hu', by rwa [Unit.config, hf]⟩
  · obtain ⟨u', hu', hf⟩ := h.get hu
    exact .inr ⟨u', hu', by rwa [Unit.config, hf]⟩

theorem AddsSetups.grows (h : AddsSetups w c m m₁) : Grows m m₁ := by
  cases h with
  | none => exact .of_eq fun _ ↦ rfl
  | loads _ hl => exact (ensureUnitLoaded_adds hl).grows
  | registers => exact udevRegister_adds.grows

theorem pulls_of_closure {edge : Unit → List Name} (hs : ∀ u, ∀ d ∈ edge u, d ∈ pulls u)
    (h : b ∈ closure m.units a edge) : Pulls m a b :=
  Relation.TransGen.mono (fun _ _ ⟨u, hu, hd⟩ ↦ ⟨u, hu, hs u _ hd⟩) _ _ (closure_sound h)

theorem pulls_of_startClosure (h : b ∈ (startClosure m.units a).1 ∨
    b ∈ (startClosure m.units a).2.1 ∨ b ∈ (startClosure m.units a).2.2) : Pulls m a b := by
  rcases h with h | h | h
  · exact pulls_of_closure (fun u d hd ↦ List.mem_append_left _ (List.mem_append_left _ hd)) h
  · exact pulls_of_closure (fun u d hd ↦ List.mem_append_left _ (List.mem_append_right _ hd)) h
  · exact pulls_of_closure (fun u d hd ↦ List.mem_append_right _ hd) h

theorem mem_openList {needs weak : List Name} {d : Name} (h : d ∈ Manager.openList needs weak) :
    d ∈ needs ∨ d ∈ weak := by
  suffices ∀ (l acc : List Name),
      d ∈ l.foldl (fun acc d ↦ if d ∈ acc then acc else acc ++ [d]) acc → d ∈ acc ∨ d ∈ l by
    rcases this _ _ h with h | h
    · cases h
    · exact List.mem_append.mp h
  intro l
  induction l with
  | nil => exact fun acc h ↦ .inl h
  | cons x l ih =>
    intro acc h
    rcases ih _ h with h | h
    · dsimp only at h
      split at h
      · exact .inl h
      · rcases List.mem_append.mp h with h | h
        · exact .inl h
        · rw [List.mem_singleton.mp h]
          exact .inr (List.mem_cons_self ..)
    · exact .inr (List.mem_cons_of_mem _ h)

theorem registerDevice_get {t : Table Name Unit}
    (h : (Manager.registerDevice w t name).get n = some u) :
    t.get n = some u ∨ pulls u = [] := by
  unfold Manager.registerDevice at h
  split at h
  · exact .inl h
  · rw [Table.get_insert] at h
    split at h
    · cases h
      exact .inr rfl
    · exact .inl h

/-- Device units pull nothing in. -/
theorem edge_udevRegister {device : Device} (h : Edge (m.udevRegister w device).units pulls a b) :
    Edge m.units pulls a b := by
  obtain ⟨u, hu, hb⟩ := h
  suffices ∀ (names : List Name) (t : Table Name Unit),
      (∀ u, t.get a = some u → m.units.get a = some u ∨ pulls u = []) →
      ∀ u, (names.foldl (Manager.registerDevice w) t).get a = some u →
        m.units.get a = some u ∨ pulls u = [] by
    rcases this _ _ (fun _ hu ↦ .inl hu) u hu with hu | hnil
    · exact ⟨u, hu, hb⟩
    · rw [hnil] at hb
      cases hb
  intro names
  induction names with
  | nil => exact fun t ht ↦ ht
  | cons x names ih => exact fun t ht ↦ ih _ fun u hu ↦ (registerDevice_get hu).elim (ht u) .inr

theorem edge_ensureUnitLoaded (h : m.ensureUnitLoaded w n = .ok m₁) (x y : Name)
    (he : Edge m₁.units pulls x y) : Edge m.units pulls x y ∨ x = n := by
  unfold Manager.ensureUnitLoaded at h
  split at h
  · cases h
    exact .inl he
  · split at h
    · cases h
    · cases h
    · cases h
      obtain ⟨u, hu, hy⟩ := he
      rw [Table.get_insert] at hu
      split at hu
      · next hx => exact .inr hx
      · exact .inl ⟨u, hu, hy⟩

end Pulls

section Waits

/-- The waits of the job, if there are any, are those that a job had before. -/
def Inherits (m : Manager) (id : JobId) (job' : Job) : Prop :=
  job'.waiting = [] ∨
    ∃ job, m.jobs.get id = some job ∧ job.unit = job'.unit ∧ ∀ e ∈ job'.waiting, e ∈ job.waiting

theorem Inherits.shrinks {job' : Job} (h : Inherits m id job) (hu : job'.unit = job.unit)
    (hw : ∀ e ∈ job'.waiting, e ∈ job.waiting) : Inherits m id job' := by
  rcases h with hnil | ⟨job₀, hj, hu₀, hw₀⟩
  · refine .inl (List.eq_nil_iff_forall_not_mem.mpr fun e he ↦ ?_)
    have := hw e he
    rw [hnil] at this
    cases this
  · exact .inr ⟨job₀, hj, hu₀.trans hu.symm, fun e he ↦ hw₀ e (hw e he)⟩

theorem Edit.waits {f : Job → Job} (hf : Edit c id f) (hc : ¬ c.commits id) :
    ∀ e ∈ (f job).waiting, e ∈ job.waiting := by
  cases hf with
  | commits _ _ _ h => exact absurd h hc
  | releases unit => exact fun e he ↦ (List.mem_filter.mp he).1
  | _ => exact fun e he ↦ he

/-- Only the commit of its wait list gives a job new waits. -/
theorem JobSteps.waits {base : Manager} {job' : Job} (h : JobSteps c base m m')
    (hc : ¬ c.commits id) (hb : base = m) (hj : m'.jobs.get id = some job') : Inherits m id job' := by
  subst hb
  have start (job' : Job) (hj : base.jobs.get id = some job') : Inherits base id job' :=
    .inr ⟨job', hj, rfl, fun _ he ↦ he⟩
  refine h.keeps (I := fun m₁ ↦ ∀ job', m₁.jobs.get id = some job' → Inherits base id job') ?_ start
    job' hj
  intro m₁ m₂ hs ih job' hj
  cases hs with
  | same hs => exact ih job' (by rwa [← hs.jobs])
  | edits i hf =>
    rw [Manager.modifyJob, Table.get_modify] at hj
    split at hj
    · next hi =>
      subst hi
      obtain ⟨job, hjob, rfl⟩ := Option.map_eq_some_iff.mp hj
      exact (ih job hjob).shrinks (hf.same job).1 (hf.waits hc)
    · exact ih job' hj
  | finishes => exact ih job' (Table.get_of_get_remove hj)
  | enqueues =>
    rw [show (Manager.newJob _ _ _ _ _).2.jobs.get id = _ from Table.get_insert] at hj
    split at hj
    · cases hj
      exact .inl rfl
    · exact ih job' hj
  | reindexes => exact start job' hj
  | drops => exact start job' (Table.get_of_get_remove hj)
  | forgets =>
    rw [Table.get_mapValues] at hj
    obtain ⟨job, hjob, rfl⟩ := Option.map_eq_some_iff.mp hj
    refine (start job (Table.get_of_get_remove hjob)).shrinks rfl ?_
    exact fun e he ↦ (List.mem_filter.mp he).1

theorem orderingWaits_mem {before : Bool} {names : List Name} {waiting waits : List WaitEntry}
    (h : m.orderingWaits before names waiting = some waits) :
    ∀ e ∈ waits, e ∈ waiting ∨ (e.required = false ∧ e.unit ∈ names) := by
  induction names generalizing waiting with
  | nil =>
    cases h
    exact fun e he ↦ .inl he
  | cons a names ih =>
    have later {waiting : List WaitEntry} (h : m.orderingWaits before names waiting = some waits) :
        ∀ e ∈ waits, e ∈ waiting ∨ (e.required = false ∧ e.unit ∈ a :: names) :=
      fun e he ↦ (ih h e he).imp_right fun ⟨hr, hn⟩ ↦ ⟨hr, List.mem_cons_of_mem _ hn⟩
    unfold Manager.orderingWaits at h
    split at h
    · exact later h
    · split at h
      · cases h
      · intro e he
        rcases later h e he with hw | hw
        · split at hw
          · exact .inl hw
          · rcases List.mem_append.mp hw with hw | hw
            · exact .inl hw
            · rw [List.mem_singleton.mp hw]
              exact .inr ⟨rfl, List.mem_cons_self ..⟩
        · exact .inr hw
      · exact later h

/-- The entries of a committed wait list were opened or are about the order. -/
theorem commit_waits {needs : List Name} {waiting : List WaitEntry} {job' : Job}
    (h : Opens w m id name needs waiting [] out) (hj : out.1.jobs.get id = some job') :
    (∃ job, m.jobs.get id = some job ∧ job.unit = job'.unit) ∧ ∀ e ∈ job'.waiting,
      m.unitJob.contains e.unit ∧
        (e ∈ waiting ∨ (e.required = false ∧ OrderedAfter m name e.unit)) := by
  cases h with
  | finish u after before hu ha hb =>
    rw [Manager.commitWaiting, Manager.modifyJob, Table.get_modify, if_pos rfl] at hj
    obtain ⟨job, hjob, rfl⟩ := Option.map_eq_some_iff.mp hj
    refine ⟨⟨job, hjob, by cases m.syncFailed before <;> rfl⟩, fun e he ↦ ?_⟩
    obtain ⟨he, hx⟩ := List.mem_filter.mp he
    refine ⟨hx, ?_⟩
    rcases orderingWaits_mem hb e he with he | ⟨hr, hn⟩
    · rcases orderingWaits_mem ha e he with he | ⟨hr, hn⟩
      · exact .inl he
      · exact .inr ⟨hr, .inl ⟨u, hu, hn⟩⟩
    · have hn := (List.mem_filter.mp hn).2
      simp only [Bool.and_eq_true, Option.any_eq_true] at hn
      obtain ⟨-, o, ho, hn⟩ := hn
      exact .inr ⟨hr, .inr ⟨o, ho, List.contains_iff_mem.mp hn⟩⟩

end Waits

/-- What a queued expansion has to open, and has opened, is pulled in by its unit. -/
def Grounded (m : Manager) : Call → Prop
  | .expandOpen _ name _ waiting ds =>
    (∀ e ∈ waiting, Pulls m name e.unit) ∧ ∀ d ∈ ds, Pulls m name d
  | _ => True

/-- Every wait has its reason, and no two units that pull each other in wait for each other. -/
structure Untangled (a : Config Manager Call) : Prop where
  alone : Alone a.todo
  jobs : ∀ id job e, a.state.jobs.get id = some job → e ∈ job.waiting →
    (Pulls a.state job.unit e.unit ∨
      (e.required = false ∧ OrderedAfter a.state job.unit e.unit)) ∧
    ¬ Entangled a.state job.unit e.unit
  calls : ∀ c ∈ a.todo, Grounded a.state c

theorem Grounded.mono (hg : Grows m m') (h : Grounded m c) : Grounded m' c := by
  cases c with
  | expandOpen => exact ⟨fun e he ↦ hg.pulls (h.1 e he), fun d hd ↦ hg.pulls (h.2 d hd)⟩
  | _ => trivial

theorem Emits.grounded {c' : Call} (h : Emits w c m m' c') (hg : Grows m m') (hc : Grounded m c) :
    Grounded m' c' := by
  cases h with
  | opens _ hw =>
    refine ⟨fun e he ↦ pulls_of_startClosure (.inr (.inr (hw e he).2)), fun d hd ↦ ?_⟩
    exact pulls_of_startClosure ((mem_openList hd).imp_right .inl)
  | skips he =>
    subst he
    exact Grounded.mono hg ⟨hc.1, fun d hd ↦ hc.2 d (List.mem_cons_of_mem _ hd)⟩
  | waits he =>
    subst he
    refine Grounded.mono hg ⟨fun e he ↦ ?_, fun d hd ↦ hc.2 d (List.mem_cons_of_mem _ hd)⟩
    rcases List.mem_append.mp he with he | he
    · exact hc.1 e he
    · rw [List.mem_singleton.mp he]
      exact hc.2 _ (List.mem_cons_self ..)
  | routine hr => cases ‹Call› <;> trivial
  | reports _ hr => cases hr <;> trivial
  | _ => trivial

theorem acyclic_of_untangled {x : Config Manager Call} (h : Untangled x) (a : Name) :
    ¬ Relation.TransGen (WaitsFor x.state) a a := by
  have edge (a b : Name) (hw : WaitsFor x.state a b) : Pulls x.state a b ∧ ¬ Pulls x.state b a := by
    obtain ⟨id, job, e, hj, -, rfl, he, rfl, hr⟩ := hw
    obtain ⟨hp, hn⟩ := h.jobs id job e hj he
    have hp : Pulls x.state job.unit e.unit := by
      rcases hp with hp | ⟨hf, ho⟩
      · exact hp
      · rcases hr with hr | hr | hr
        · rw [hf] at hr
          cases hr
        · exact absurd ho hr
        · exact hr
    exact ⟨hp, fun hback ↦ hn ⟨hp, hback⟩⟩
  exact Paths.acyclic_of_noReturn (fun a b h ↦ (edge a b h).1) (fun a b h ↦ (edge a b h).2) a

theorem Inherits.of_noneWaits {job' : Job} (h : NoneWaits m) (hi : Inherits m id job') :
    job'.waiting = [] := by
  rcases hi with hnil | ⟨job, hj, -, hw⟩
  · exact hnil
  · refine List.eq_nil_iff_forall_not_mem.mpr fun e he ↦ ?_
    have he' := hw e he
    rw [h id job hj] at he'
    cases he'

/-- Loading a unit that closes no cycle does not make two units pull each other in. -/
theorem AddsSetups.entangled (h : AddsSetups w c m m₁) (hC : startsUntangled w c m)
    (hn : Entangled m₁ a b) : NoneWaits m ∨ Entangled m a b := by
  cases h with
  | none => exact .inr hn
  | @loads n _ hc hl =>
    have hC : m.units.contains n ∨ NoneWaits m ∨
        ∀ m₁, m.ensureUnitLoaded w n = .ok m₁ → ¬ Pulls m₁ n n := by
      cases c with
      | start | restartOrStart | loadUnit =>
        obtain rfl := hc
        exact hC
      | _ => cases hc
    rcases hC with hn' | hnone | hcycle
    · rw [ensureUnitLoaded_same hn'] at hl
      cases hl
      exact .inr hn
    · exact .inl hnone
    · refine .inr ((Paths.common_cycle (edge_ensureUnitLoaded hl) hn.1 hn.2).resolve_right ?_)
      exact hcycle m₁ hl
  | @registers device =>
    have old {x y : Name} (h : Pulls (m.udevRegister w device) x y) : Pulls m x y :=
      Relation.TransGen.mono (fun _ _ ↦ edge_udevRegister) _ _ h
    exact .inr ⟨old hn.1, old hn.2⟩

/-- The waits that a job is committed to. -/
theorem Untangled.commit {rest : List Call} {e : WaitEntry} (h : Untangled ⟨m, c :: rest⟩)
    (hs : SoundConfig ⟨m, c :: rest⟩) (hC : startsUntangled w c m) (he : exec w c m = some out)
    (hc : c.commits id) (hj : out.1.jobs.get id = some job) (hw : e ∈ job.waiting) :
    (Pulls out.1 job.unit e.unit ∨ (e.required = false ∧ OrderedAfter out.1 job.unit e.unit)) ∧
      ¬ Entangled out.1 job.unit e.unit := by
  cases c with
  | expandOpen i name needs waiting ds =>
    cases ds with
    | cons => cases hc
    | nil =>
      obtain rfl : i = id := hc
      have ho : Opens w m i name needs waiting [] out := expandOpen_cases he
      have hset : ∀ n, out.1.setupOf n = m.setupOf n := (JobsOnly.opens ho).setupOf
      have hg : Grows m out.1 := .of_eq hset
      have hback : Grows out.1 m := .of_eq fun n ↦ (hset n).symm
      obtain ⟨⟨job₀, hj₀, hunit⟩, hwaits⟩ := commit_waits ho hj
      obtain ⟨hx, hw⟩ := hwaits e hw
      have hname : job.unit = name :=
        hunit.symm.trans ((hs.calls _ (List.mem_cons_self ..)).2 job₀ hj₀).1
      have hground : ∀ e ∈ waiting, Pulls m name e.unit := (h.calls _ (List.mem_cons_self ..)).1
      rw [hname]
      refine ⟨?_, fun hent ↦ ?_⟩
      · exact hw.imp (fun hw ↦ hg.pulls (hground e hw)) (And.imp_right hg.orderedAfter)
      · refine hC e.unit hx ?_ ⟨hback.pulls hent.1, hback.pulls hent.2⟩
        exact hw.imp (List.mem_map_of_mem) And.right
  | _ => cases hc

/-- A wait that a job keeps. -/
theorem Untangled.inherit {rest : List Call} {e : WaitEntry} (h : Untangled ⟨m, c :: rest⟩)
    (hg : Grows m m') (hback : Grows m' m) (hi : Inherits m id job) (hw : e ∈ job.waiting) :
    (Pulls m' job.unit e.unit ∨ (e.required = false ∧ OrderedAfter m' job.unit e.unit)) ∧
      ¬ Entangled m' job.unit e.unit := by
  rcases hi with hnil | ⟨job₀, hj₀, hunit, hsub⟩
  · rw [hnil] at hw
    cases hw
  · obtain ⟨hp, hn⟩ := h.jobs id job₀ e hj₀ (hsub e hw)
    rw [hunit] at hp hn
    refine ⟨hp.imp hg.pulls (And.imp_right hg.orderedAfter), fun hent ↦ hn ?_⟩
    exact ⟨hback.pulls hent.1, hback.pulls hent.2⟩

theorem Untangled.step {rest : List Call} (hs : SoundConfig ⟨m, c :: rest⟩)
    (h : Untangled ⟨m, c :: rest⟩) (hC : startsUntangled w c m) (he : exec w c m = some out) :
    Untangled ⟨out.1, out.2 ++ rest⟩ := by
  have hsteps := exec_jobSteps he
  cases hu : c.unloads with
  | true =>
    have hreq : c.requested := by cases c <;> first | rfl | cases hu
    have hrest : rest = [] := h.alone.tail_nil hreq
    have hcalls : out.2 = [] := by
      cases c with
      | loadAll =>
        obtain ⟨m', -, rfl⟩ := Option.map_eq_some_iff.mp he
        rfl
      | udevRemove =>
        cases he
        rfl
      | _ => cases hu
    refine ⟨h.alone.step he, fun id job e hj hw ↦ ?_, ?_⟩
    · have hc : ¬ c.commits id := by cases c <;> first | exact not_false | cases hu
      have hC : NoneWaits m ∨ ∀ n, out.1.setupOf n = m.setupOf n := by
        cases c <;> first | exact hC.imp_right fun hset ↦ hset out he | cases hu
      have hi := hsteps.waits hc rfl hj
      rcases hC with hnone | hset
      · rw [hi.of_noneWaits hnone] at hw
        cases hw
      · exact h.inherit (.of_eq hset) (.of_eq fun n ↦ (hset n).symm) hi hw
    · rw [hrest, hcalls]
      exact List.forall_mem_nil _
  | false =>
    obtain ⟨m₁, ha, hset⟩ := exec_setups he hu
    have hg : Grows m out.1 := ha.grows.trans (.of_eq hset)
    have hback : Grows out.1 m₁ := .of_eq fun n ↦ (hset n).symm
    have hground := h.calls c (List.mem_cons_self ..)
    refine ⟨h.alone.step he, fun id job e hj hw ↦ ?_, ?_⟩
    · by_cases hc : c.commits id
      · exact h.commit hs hC he hc hj hw
      · rcases hsteps.waits hc rfl hj with hnil | ⟨job₀, hj₀, hunit, hsub⟩
        · rw [hnil] at hw
          cases hw
        · obtain ⟨hp, hn⟩ := h.jobs id job₀ e hj₀ (hsub e hw)
          rw [hunit] at hp hn
          refine ⟨hp.imp hg.pulls (And.imp_right hg.orderedAfter), fun hent ↦ ?_⟩
          have hent₁ : Entangled m₁ job.unit e.unit := ⟨hback.pulls hent.1, hback.pulls hent.2⟩
          rcases ha.entangled hC hent₁ with hnone | hent
          · have hw₀ := hsub e hw
            rw [hnone id job₀ hj₀] at hw₀
            cases hw₀
          · exact hn hent
    · refine List.forall_mem_append.mpr ⟨fun c' hc' ↦ ?_, fun c' hc' ↦ ?_⟩
      · exact (exec_emits he c' hc').grounded hg hground
      · exact (h.calls c' (List.mem_cons_of_mem _ hc')).mono hg

theorem Reaches.untangled {x : Config Manager Call} (h : Reaches startsUntangled x) :
    Untangled x := by
  obtain ⟨m, hb, hr⟩ := h
  have hp := hb.pristine
  suffices SoundConfig x ∧ Untangled x from this.2
  refine hr.invariant (I := fun x ↦ SoundConfig x ∧ Untangled x) ?_ ?_ ⟨⟨hb.sound, ?_⟩, ?_, ?_, ?_⟩
  · rintro s c ⟨hs, hu⟩ he
    refine ⟨hs.arrive he, .single c, hu.jobs, fun c' hc' ↦ ?_⟩
    rw [List.mem_singleton.mp hc']
    cases c <;> trivial
  · rintro w c s s' cs rest ⟨hs, hu⟩ - hC he
    exact ⟨hs.step he, hu.step hs hC he⟩
  · exact List.forall_mem_nil _
  · simp [Alone]
  · intro id job e hj
    rw [hp.jobs] at hj
    cases hj
  · exact List.forall_mem_nil _

/-- Without requirement cycles among the units that wait for each other, no start job waits for
itself, directly or around a cycle of requirements. -/
theorem waits_acyclic {x : Config Manager Call} (h : Reaches startsUntangled x) (a : Name) :
    ¬ Relation.TransGen (WaitsFor x.state) a a := acyclic_of_untangled h.untangled a

/-- What a unit pulls in pulls nothing in itself. -/
def Manager.flat (m : Manager) : Bool :=
  m.units.keys.all fun n ↦ (m.units.get n).all fun u ↦ (pulls u).all fun d ↦
    (m.units.get d).all fun v ↦ (pulls v).isEmpty

theorem not_entangled_of_flat (h : m.flat) : ¬ Entangled m a b := by
  rintro ⟨hab, hba⟩
  obtain ⟨x, -, u, hu, hb⟩ := Relation.TransGen.tail'_iff.mp hab
  obtain ⟨y, ⟨v, hv, hy⟩, -⟩ := Relation.TransGen.head'_iff.mp hba
  have hx := List.all_eq_true.mp h x (Table.mem_keys.mpr ⟨u, hu⟩)
  rw [hu, Option.all_some] at hx
  have hnil := List.all_eq_true.mp hx b hb
  rw [hv, Option.all_some, List.isEmpty_iff] at hnil
  rw [hnil] at hy
  cases hy

/-- A condition on the steps that can be evaluated. -/
def startsFlat (_ : World) (c : Call) (m : Manager) : Bool :=
  match c with
  | .expandOpen _ _ _ _ [] => m.flat
  | .start n _ | .restartOrStart n | .loadUnit n => m.units.contains n
  | .loadAll | .udevRemove _ => false
  | _ => true

theorem startsUntangled_of_flat (h : startsFlat w c m) : startsUntangled w c m := by
  cases c with
  | expandOpen id name needs waiting ds =>
    cases ds with
    | nil => exact fun d _ _ ↦ not_entangled_of_flat h
    | cons => trivial
  | start | restartOrStart | loadUnit => exact .inl h
  | loadAll | udevRemove => cases h
  | _ => trivial

/-- A machine with two services, and what they require. -/
def requiringMachine (a b : List Name) : World :=
  .ofFiles [
    ("a.service", { unit := { requires := a }, service := some { execStart := [⟨["a"], false⟩] } }),
    ("b.service", {
      unit := { requires := b }
      service := some { serviceType := .notify, execStart := [⟨["b"], false⟩] } })]

/-- The service a.service is started, and b.service, which it requires, is not ready yet. -/
def requirementStarted : Shown (startsFlat · · ·) fun x ↦ (x.state.jobs.get 1).any fun job ↦
    job.kind = .start && job.unit = "a.service" &&
      job.waiting.any fun e ↦ e.required && e.unit = "b.service" :=
  .play _ (requiringMachine ["b.service"] []) [.arrive (.start "a.service" .replace),
    .calls { requiringMachine ["b.service"] [] with spawn := fun _ ↦ .ok 7 } 5,
    .calls (requiringMachine ["b.service"] []) 6] _ (by decide +kernel)

theorem waits_acyclic_requiring : ∃ x, Reaches startsUntangled x ∧
    WaitsFor x.state "a.service" "b.service" ∧
    ¬ Relation.TransGen (WaitsFor x.state) "a.service" "a.service" := by
  have hr : Reaches startsUntangled requirementStarted.config := by
    obtain ⟨m, hb, hr⟩ := requirementStarted.reached
    exact ⟨m, hb, hr.mono fun _ _ _ ↦ startsUntangled_of_flat⟩
  have hs := requirementStarted.shows
  simp only [Option.any_eq_true, Bool.and_eq_true, decide_eq_true_eq, List.any_eq_true] at hs
  obtain ⟨job, hj, ⟨hk, hu⟩, e, he, hreq, hb⟩ := hs
  exact ⟨_, hr, ⟨1, job, e, hj, hk, hu, he, hb, .inl hreq⟩, waits_acyclic hr _⟩

/-- The two services require each other, and a.service is started. -/
def cycleStarted : Shown (noReload · · ·) fun x ↦ x.todo.isEmpty &&
    (x.state.jobs.get 1).any fun job ↦ job.kind = .start && job.unit = "a.service" &&
      job.waiting.any fun e ↦ e.required && e.unit = "a.service" :=
  .play _ (requiringMachine ["b.service"] ["a.service"]) [.arrive (.start "a.service" .replace),
    .calls (requiringMachine ["b.service"] ["a.service"]) 14] _ (by decide +kernel)

/-- A unit of a requirement cycle waits for itself. -/
theorem requirement_cycle_waits : ¬ ∀ x a, Reaches (noReload · · ·) x → x.todo = [] →
    ¬ Relation.TransGen (WaitsFor x.state) a a := by
  intro h
  have hs := cycleStarted.shows
  simp only [Bool.and_eq_true, List.isEmpty_iff, Option.any_eq_true, decide_eq_true_eq,
    List.any_eq_true] at hs
  obtain ⟨ht, job, hj, ⟨hk, hu⟩, e, he, hreq, ha⟩ := hs
  refine h _ "a.service" cycleStarted.reached ht (.single ?_)
  exact ⟨1, job, e, hj, hk, hu, he, ha, .inl hreq⟩

end Rystemd
