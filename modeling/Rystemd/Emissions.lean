import Rystemd.Failures

namespace Rystemd

/-- The calls that only look through jobs, timers, paths or processes. -/
def Call.routine : Call → Bool
  | .processJobs | .processPass .. | .armStartTimeout _ | .timerDepCheck | .rearmTimer _
  | .pollPaths | .reap => true
  | _ => false

/-- The calls that ask for the start of another unit. -/
def Call.triggers : Call → Bool
  | .isolate _ | .fireTimer .. | .pollPaths | .socketReady _ | .fireOnFailure _ => true
  | _ => false

/-- What is to do after a job left the table. -/
inductive Reports (m m' : Manager) : Call → Prop
  | completed (i : JobId) {id : JobId} {job : Job} {ok : Bool} {error : Option String} :
      m.jobs.get id = some job → Verdict job ok error → m'.jobs.get id = none →
      m'.completedJobs.get id =
        some { id, unit := job.unit, state := "done", ok := some ok, error } →
      Reports m m' (.jobCompleted i job.unit ok)
  | next {id : JobId} {job : Job} {n : Name} : m.jobs.get id = some job → job.kind = .stop →
      job.startAfterStop = some n → Reports m m' (.enqueueStartJob n)

/-- Why a start job is tried. -/
inductive Tries (c : Call) (m m' : Manager) (id : JobId) : Prop
  | expanded {name : Name} {needs ds : List Name} {waiting : List WaitEntry} :
      c = .expandOpen id name needs waiting ds → Tries c m m' id
  | created {job : Job} : id = m.nextJob + 1 → m'.jobs.get id = some job → job.kind = .start →
      job.started = false → job.waiting = [] → Tries c m m' id
  | advances {job : Job} : m'.jobs.get id = some job → job.kind = .start → job.expanding = false →
      job.failed = false → job.waiting = [] → job.started = false → Tries c m m' id

/-- Why a call that leads from `m` to `m'` brings about another one. -/
inductive Emits (w : World) (c : Call) (m m' : Manager) : Call → Prop
  | routine {c' : Call} : c'.routine → Emits w c m m' c'
  | reports {m₁ : Manager} {c' : Call} : JobSteps c m m m₁ → Reports m₁ m' c' → Emits w c m m' c'
  | pokes (i : JobId) {n : Name} : m'.activeOf n = some .failed → Emits w c m m' (.pokeFailedJob i n)
  | fails {n : Name} {msg : String} : Emits w c m m' (.failUnit n msg)
  | failed {n : Name} : m'.activeOf n = some .failed → Emits w c m m' (.fireOnFailure n)
  | triggers {n : Name} {mode : JobMode} : c.triggers → Emits w c m m' (.start n mode)
  | clears {n : Name} {mode : JobMode} {u : Unit} : (∃ target, c = .isolate target) ∨ c = .shutdown →
      m.units.get n = some u → u.active ≠ .inactive → Emits w c m m' (.stop n mode)
  | restops {n : Name} {mode : JobMode} {id : JobId} {job : Job} : c = .stop n mode →
      m.unitOperational n → m.jobOf n = some (id, job) → job.kind = .start →
      Emits w c m m' (.enqueueStop n mode)
  | revives {n : Name} {id : JobId} {job : Job} : c.starts n → m.shuttingDown = false →
      m'.unitActive n = false → m.jobOf n = some (id, job) → job.kind ≠ .start →
      Emits w c m m' (.revive n)
  | sockets {n service : Name} : c.restarts n → Emits w c m m' (.restartActivated service)
  | conflicts {n d : Name} : c.starts n ∨ c = .enqueueStartJob n →
      d ∈ closureConflicts m'.units n → Emits w c m m' (.stopConflict d)
  | opens {n : Name} {waiting : List WaitEntry} : c.starts n ∨ c = .enqueueStartJob n →
      (∀ e ∈ waiting, e.required ∧ e.unit ∈ (startClosure m'.units n).2.2) →
      Emits w c m m' (.expandOpen (m.nextJob + 1) n (startClosure m'.units n).1 waiting
        (Manager.openList (startClosure m'.units n).1 (startClosure m'.units n).2.1))
  | skips {id : JobId} {n d : Name} {needs ds : List Name} {waiting : List WaitEntry} :
      c = .expandOpen id n needs waiting (d :: ds) →
      m.unitActive d ∨ (m.units.contains d = false ∧ d ∉ needs) →
      Emits w c m m' (.expandOpen id n needs waiting ds)
  | waits {id : JobId} {n d : Name} {needs ds : List Name} {waiting : List WaitEntry} :
      c = .expandOpen id n needs waiting (d :: ds) → m.unitActive d = false → m.units.contains d →
      Emits w c m m' (.expandOpen id n needs (waiting ++ [⟨d, decide (d ∈ needs)⟩]) ds)
  | depends {id : JobId} {n d : Name} {needs ds : List Name} {waiting : List WaitEntry}
      {kind : Option JobKind} : c = .expandOpen id n needs waiting (d :: ds) →
      m.unitActive d = false → m.units.contains d → m.jobKindOf d = some kind →
      kind ≠ some .start → Emits w c m m' (.enqueueStartJob d)
  | dependents {n d : Name} {u : Unit} {job : Job} : m'.jobs.get m'.nextJob = some job →
      job.unit = n → job.kind = .stop → m'.units.get d = some u → n ∈ requires u → d ≠ n →
      Emits w c m m' (.stopDependent d)
  | tries {id : JobId} : Tries c m m' id → Emits w c m m' (.maybeStartJob id)
  | stops {id : JobId} {job : Job} : m'.jobs.get id = some job → job.kind = .stop →
      job.started = false → Emits w c m m' (.maybeStopJob id)
  | fires {e : TimerEntry} : c = .tick → e ∈ (m.wheel.popDue w.now).1 →
      Emits w c m m' (.fireTimer e.unit e.kind)
  | reaps {pid : Pid} {exit : ChildExit} : c = .reap → (pid, exit) ∈ w.reaped →
      Emits w c m m' (.processExit pid exit)
  | exits {pid : Pid} {exit : ChildExit} {n : Name} : c = .processExit pid exit →
      m.pidUnit.get pid = some n → Emits w c m m' (.mainExit n exit)

variable {w : World} {c : Call} {m₀ m m' : Manager} {name : Name} {out : Out} {id : JobId}
  {job : Job} {kind : JobKind} {cs cs' : List Call}

theorem JobSteps.andLocal {b : Manager} (hs : JobSteps c b m₀ m) (h : Local name m m') :
    JobSteps c b m₀ m' := hs.trans (JobSteps.local_ h)

namespace Reports

theorem recorded {ok : Bool} {error : Option String} (hj : m.jobs.get id = some job) :
    ((m.recordJobResult id ok error).removeJob id job.unit).completedJobs.get id =
      some { id, unit := job.unit, state := "done", ok := some ok, error } := by
  rw [Manager.removeJob, Manager.recordJobResult, hj]
  exact Table.get_insert_self

theorem told {ok : Bool} {error : Option String} (hj : m.jobs.get id = some job)
    (hv : Verdict job ok error) (hm : m' = (m.recordJobResult id ok error).removeJob id job.unit) :
    ∀ c ∈ m'.onJobCompleted w job.unit ok, Reports m m' c := by
  intro c hc
  subst hm
  obtain ⟨i, -, rfl⟩ := List.mem_map.mp hc
  exact .completed i hj hv Table.get_remove_self (recorded hj)

theorem finishJob : ∀ c ∈ (m.finishJob w id).2, Reports m (m.finishJob w id).1 c := by
  unfold Manager.finishJob
  split
  · exact List.forall_mem_nil _
  · next job hj =>
    refine List.forall_mem_append.mpr ⟨told hj .done rfl, fun c hc ↦ ?_⟩
    split at hc
    · next hk =>
      obtain ⟨n, hn, rfl⟩ := List.mem_map.mp hc
      exact .next hj hk (Option.mem_toList.mp hn)
    · cases hc

theorem finishJobFailed :
    ∀ c ∈ (m.finishJobFailed w id).2, Reports m (m.finishJobFailed w id).1 c := by
  unfold Manager.finishJobFailed
  split
  · exact List.forall_mem_nil _
  · next hj => exact told hj .failed rfl

theorem cancelJob {msg : String} :
    ∀ c ∈ (m.cancelJob w id msg).2, Reports m (m.cancelJob w id msg).1 c := by
  unfold Manager.cancelJob
  split
  · exact List.forall_mem_nil _
  · next hj => exact told hj (.canceled msg) rfl

end Reports

theorem requisiteWaits_mem {names : List Name} {waiting waits : List WaitEntry}
    (h : m.requisiteWaits names waiting = some (.ok waits)) :
    ∀ e ∈ waits, e ∈ waiting ∨ (e.required ∧ e.unit ∈ names) := by
  induction names generalizing waiting with
  | nil =>
    cases h
    exact fun e he ↦ .inl he
  | cons r names ih =>
    have later {waiting : List WaitEntry} (h : m.requisiteWaits names waiting = some (.ok waits)) :
        ∀ e ∈ waits, e ∈ waiting ∨ (e.required ∧ e.unit ∈ r :: names) :=
      fun e he ↦ (ih h e he).imp_right fun ⟨hr, hn⟩ ↦ ⟨hr, List.mem_cons_of_mem _ hn⟩
    unfold Manager.requisiteWaits at h
    split at h
    · exact later h
    · split at h
      · cases h
      · intro e he
        rcases later h e he with hw | hw
        · rcases List.mem_append.mp hw with hw | hw
          · exact .inl hw
          · rw [List.mem_singleton.mp hw]
            exact .inr ⟨rfl, List.mem_cons_self ..⟩
        · exact .inr hw
      · cases h

namespace Emits

theorem nil : ∀ c' ∈ ([] : List Call), Emits w c m m' c' := List.forall_mem_nil _

theorem single {c' : Call} (h : Emits w c m m' c') : ∀ c'' ∈ [c'], Emits w c m m' c'' :=
  List.forall_mem_singleton.mpr h

theorem cons {c' : Call} (h : Emits w c m m' c') (hcs : ∀ c'' ∈ cs, Emits w c m m' c'') :
    ∀ c'' ∈ c' :: cs, Emits w c m m' c'' := List.forall_mem_cons.mpr ⟨h, hcs⟩

theorem append (h : ∀ c' ∈ cs, Emits w c m m' c') (h' : ∀ c' ∈ cs', Emits w c m m' c') :
    ∀ c' ∈ cs ++ cs', Emits w c m m' c' := List.forall_mem_append.mpr ⟨h, h'⟩

theorem map {α : Type} {f : α → Call} (l : List α) (h : ∀ a ∈ l, Emits w c m m' (f a)) :
    ∀ c' ∈ l.map f, Emits w c m m' c' := by
  intro c' hc'
  obtain ⟨a, ha, rfl⟩ := List.mem_map.mp hc'
  exact h a ha

theorem reported (hs : JobSteps c m₀ m₀ m) (h : ∀ c' ∈ cs, Reports m m' c') :
    ∀ c' ∈ cs, Emits w c m₀ m' c' := fun c' hc' ↦ .reports hs (h c' hc')

theorem completeJob {kinds : JobKind → Bool} (hs : JobSteps c m₀ m₀ m)
    (h : m.completeJob w name kinds = some out) : ∀ c' ∈ out.2, Emits w c m₀ out.1 c' := by
  rcases completeJob_cases h with ⟨-, rfl⟩ | ⟨_, _, -, -, ⟨-, rfl⟩ | ⟨-, rfl⟩⟩
  · exact single (.routine rfl)
  · exact append (reported hs Reports.finishJob) (single (.routine rfl))
  · exact single (.routine rfl)

theorem ends (h : Ends w name kind m out) (hs : JobSteps c m₀ m₀ m) :
    ∀ c' ∈ out.2, Emits w c m₀ out.1 c' := by
  induction h with
  | waits => exact nil
  | fails msg rest _ hr =>
    refine cons .fails ?_
    rcases hr with rfl | rfl
    · exact nil
    · exact single (.routine rfl)
  | completes hp _ ho => exact completeJob (hs.andLocal hp.toLocal) ho
  | stops hp ho => exact completeJob (hs.andLocal hp.toLocal) ho
  | spawns idx main hk _ _ _ _ _ _ ih => exact ih (hs.andLocal (hk.toLocal.trans .recordSpawn))

theorem doStart (hs : JobSteps c m₀ m₀ m) (h : m.doStart w name = some out) :
    ∀ c' ∈ out.2, Emits w c m₀ out.1 c' := by
  obtain ⟨m', hl, -, he⟩ := (doStart_begins h).ends
  exact ends he (hs.andLocal hl.toLocal)

theorem pokeFailed (h : m.activeOf name = some .failed) :
    ∀ c' ∈ m.pokeFailed w name, Emits w c m₀ m c' := map _ fun i _ ↦ .pokes i h

theorem activeExit (h : ActiveExit w name m out) (hs : JobSteps c m₀ m₀ m) :
    ∀ c' ∈ out.2, Emits w c m₀ out.1 c' := by
  cases h with
  | limit hp => exact pokeFailed hp.active
  | restart => exact nil
  | ended hp _ ho =>
    have hc := completeJob (c := c) (hs.andLocal hp.toLocal) ho
    exact append hc (single (.routine rfl))
  | failed hp => exact append (pokeFailed hp.active) (single (.failed hp.active))

theorem mainExit {exit : ChildExit} (hs : JobSteps c m₀ m₀ m) (h : m.mainExit w name exit = some out) :
    ∀ c' ∈ out.2, Emits w c m₀ out.1 c' := by
  have hf : JobSteps c m₀ m₀ (m.forgetMain name) := hs.andLocal Touches.forgetMain.toLocal
  obtain ⟨u, -, h⟩ := mainExit_ends h
  cases h with
  | stopped _ he => exact ends he hf
  | vanished => exact nil
  | fails => exact single .fails
  | active _ _ he => exact activeExit he hf

theorem failUnit {msg : String} (hs : JobSteps c m₀ m₀ m) (h : m.failUnit w name msg = some out) :
    ∀ c' ∈ out.2, Emits w c m₀ out.1 c' := by
  have hfailed := failUnit_activeOf h
  obtain ⟨m', hp, ⟨jid, job, -, -, -, rfl⟩ | ⟨-, rfl⟩⟩ := failUnit_ends h
  · have he : JobSteps c m₀ m' (m'.modifyJob jid fun job ↦ { job with failedMsg := some msg }) :=
      .edit (.explains msg)
    have hj := (hs.andLocal hp.toLocal).trans he
    exact append (reported hj Reports.finishJobFailed) (single (.failed hfailed))
  · exact append (pokeFailed hp.active) (single (.failed hp.active))

theorem handleControlExit {pid : Pid} {exit : ChildExit} (hc : c = .processExit pid exit)
    (hp : m₀.pidUnit.get pid = some name) (hs : JobSteps c m₀ m₀ m)
    (h : m.handleControlExit w name exit = some out) : ∀ c' ∈ out.2, Emits w c m₀ out.1 c' := by
  have hf : JobSteps c m₀ m₀ (m.forgetControl name) := hs.andLocal Touches.forgetControl.toLocal
  rcases handleControlExit_cases h with ⟨-, he⟩ | ⟨-, m', rfl | ⟨pid, rfl⟩, he⟩ | ⟨-, rfl⟩ | rfl
  · exact ends he hf
  · exact ends he hf
  · exact ends he (hf.andLocal .adoptPid)
  · exact single (.exits hc hp)
  · exact nil

theorem newJob_get {mode : JobMode} {next : Option Name} :
    (m.newJob kind name mode next).2.jobs.get (m.nextJob + 1) =
      some { unit := name, kind, mode, startAfterStop := next } := Table.get_insert_self

theorem modifyJob_get {f : Job → Job} (hj : m.jobs.get id = some job) :
    (m.modifyJob id f).jobs.get id = some (f job) := by
  rw [Manager.modifyJob, Table.get_modify, if_pos rfl, hj, Option.map_some]

/-- The start of a new job for the unit. -/
theorem enqueueStartJob {mode : JobMode} (hc : c.starts name ∨ c = .enqueueStartJob name)
    (hn : m.nextJob = m₀.nextJob) (hs : JobSteps c m₀ m₀ (m.newJob .start name mode none).2)
    (h : m.enqueueStartJobMode w name mode = some out) : ∀ c' ∈ out.2, Emits w c m₀ out.1 c' := by
  have hj : (m.newJob .start name mode none).2.jobs.get (m.nextJob + 1) = some _ := newJob_get
  have he := expandStartJob_cases h
  cases he with
  | missing msg =>
    refine single (.tries (.created (congrArg (· + 1) hn) (modifyJob_get hj) rfl rfl rfl))
  | asserted => exact single .fails
  | skipped => exact reported hs Reports.finishJob
  | requisite msg =>
    have hj' := modifyJob_get (f := fun job ↦ { job with expanding := true }) hj
    exact single (.tries (.created (congrArg (· + 1) hn) (modifyJob_get hj') rfl rfl rfl))
  | opens waiting hr =>
    refine append (map _ fun d hd ↦ .conflicts hc hd) (single ?_)
    have hid : (m.newJob .start name mode none).1 = m₀.nextJob + 1 := congrArg (· + 1) hn
    rw [hid] at hr ⊢
    exact .opens hc fun e he ↦ (requisiteWaits_mem hr e he).resolve_left List.not_mem_nil

theorem enqueueStop {mode : JobMode} {next : Option Name} :
    ∀ c' ∈ (m.enqueueStopJobAfterMode w name next mode).2,
      Emits w c m₀ (m.enqueueStopJobAfterMode w name next mode).1 c' := by
  have hj : (m.newJob .stop name mode next).2.jobs.get (m.nextJob + 1) = some _ := newJob_get
  refine append (map _ fun d hd ↦ ?_) (single (.stops hj rfl rfl))
  have hd := (List.mem_filter.mp hd).2
  simp only [Bool.and_eq_true, decide_eq_true_eq, Option.any_eq_true] at hd
  obtain ⟨hne, u, hu, hr⟩ := hd
  exact .dependents hj rfl rfl hu (List.contains_iff_mem.mp hr) hne

theorem starts {mode : JobMode} {reply : Manager.StartReply} (hc : c.starts name)
    (h : Starts w m name mode reply out) : ∀ c' ∈ out.2, Emits w c m out.1 c' := by
  cases h with
  | unloadable | shutdown | active | pending | irreversible => exact nil
  | @cancels m' jid _ msg hl hs ha hj hk =>
    have hadds := ensureUnitLoaded_adds hl
    have hact : (m'.cancelJob w jid msg).1.unitActive name = false := by
      rw [Manager.unitActive, JobsOnly.cancelJob.units]
      exact ha
    rw [hadds.shuttingDown] at hs
    rw [hadds.jobOf] at hj
    exact append (reported (.adds hadds) Reports.cancelJob) (single (.revives hc hs hact hj hk))
  | enqueues hl hs ha hj ho =>
    have hadds := ensureUnitLoaded_adds hl
    have hq : Enqueues c _ .start name mode none := .start name mode (ensureUnitLoaded_isSome hl) hs ha hj
    have hsteps : JobSteps c m m _ := (JobSteps.adds hadds).tail (.enqueues hq)
    exact append (enqueueStartJob (.inl hc) hadds.nextJob hsteps ho) (single (.routine rfl))

theorem restart {reply : Manager.Reply} (hc : c.restarts name)
    (h : m.restart w name = some (reply, out)) : ∀ c' ∈ out.2, Emits w c m out.1 c' := by
  rcases restart_cases h with ⟨-, rfl⟩ | ⟨-, rfl, -⟩ | ⟨-, cs, hcs, rfl⟩ | ⟨-, reply', h, -⟩
  · exact nil
  · exact nil
  · refine append enqueueStop (cons (.routine rfl) ?_)
    rcases hcs with rfl | ⟨service, rfl⟩
    · exact nil
    · exact single (.sockets hc)
  · exact starts (.inr hc) h

theorem stopWithMode {mode : JobMode} : ∀ c' ∈ (m.stopWithMode w name mode).2.2,
    Emits w (.stop name mode) m (m.stopWithMode w name mode).2.1 c' := by
  unfold Manager.stopWithMode
  split
  · exact nil
  · split
    · exact nil
    · next ho =>
      have ho : m.unitOperational name := by simpa using ho
      split
      · exact append enqueueStop (single (.routine rfl))
      · next hj =>
        split
        · next hk =>
          refine append (reported .refl Reports.cancelJob) (cons ?_ (single (.routine rfl)))
          exact .restops rfl ho hj hk
        · split <;> exact nil

theorem startIgnoreDependencies : ∀ c' ∈ (m.startIgnoreDependencies name).2.2,
    Emits w (.startIgnoreDependencies name) m (m.startIgnoreDependencies name).2.1 c' := by
  unfold Manager.startIgnoreDependencies
  split
  · exact nil
  · split
    · exact nil
    · have hn : (m.dropJob name).nextJob = m.nextJob := by
        unfold Manager.dropJob
        split <;> rfl
      have hj : ((m.dropJob name).newJob .start name .replace none).2.jobs.get _ = some _ := newJob_get
      refine cons (.tries (.created (congrArg (· + 1) hn) hj rfl rfl rfl)) (single (.routine rfl))

theorem tryAdvanceJob (hs : JobSteps c m₀ m₀ m) :
    ∀ c' ∈ (m.tryAdvanceJob w id).2.2, Emits w c m₀ (m.tryAdvanceJob w id).2.1 c' := by
  unfold Manager.tryAdvanceJob
  split
  · exact nil
  · next job hj =>
    split
    · next hk =>
      split
      · exact nil
      · next he =>
        split
        · exact reported hs Reports.finishJobFailed
        · next hf =>
          split
          · next ha =>
            have ha : job.waiting = [] ∧ job.started = false := by simpa using ha
            exact single (.tries (.advances hj hk (eq_false_of_ne_true he) (eq_false_of_ne_true hf)
              ha.1 ha.2))
          · exact nil
    · next hk =>
      split
      · next hst => exact single (.stops hj hk (by simpa using hst))
      · exact nil
    · exact nil

theorem releaseWait (hc : c.releases id name) (hs : JobSteps c m₀ m₀ m) :
    ∀ c' ∈ (m.releaseWait w id job name).2, Emits w c m₀ (m.releaseWait w id job name).1 c' := by
  have he : JobSteps c m₀ m (m.modifyJob id (Manager.withoutWait name)) := .edit (.releases name hc)
  unfold Manager.releaseWait
  dsimp only
  split
  · exact nil
  · exact tryAdvanceJob (hs.trans he)

theorem jobCompleted {ok : Bool} : ∀ c' ∈ (m.jobCompleted w id name ok).2,
    Emits w (.jobCompleted id name ok) m (m.jobCompleted w id name ok).1 c' := by
  unfold Manager.jobCompleted
  split
  · exact nil
  · split
    · exact nil
    · exact releaseWait (.inl ⟨ok, rfl⟩) .refl

theorem pokeFailedJob : ∀ c' ∈ (m.pokeFailedJob w id name).2,
    Emits w (.pokeFailedJob id name) m (m.pokeFailedJob w id name).1 c' := by
  unfold Manager.pokeFailedJob
  split
  · exact nil
  · split
    · have he : JobSteps (.pokeFailedJob id name) m m
          (m.modifyJob id (Manager.dependencyFailed name)) := .edit (.fails _)
      exact reported he Reports.finishJobFailed
    · exact releaseWait (.inr rfl) .refl

theorem opening {needs ds : List Name} {waiting : List WaitEntry}
    (h : Opens w m id name needs waiting ds out) :
    ∀ c' ∈ out.2, Emits w (.expandOpen id name needs waiting ds) m out.1 c' := by
  cases h with
  | finish => exact single (.tries (.expanded rfl))
  | skip d ds hd => exact single (.skips rfl hd)
  | missing => exact single (.tries (.expanded rfl))
  | pending d ds ha hd => exact single (.waits rfl ha hd)
  | new d ds kind ha hd hk hs => exact cons (.depends rfl ha hd hk hs) (single (.waits rfl ha hd))

theorem maybeStartJob (h : m.maybeStartJob w id = some out) :
    ∀ c' ∈ out.2, Emits w (.maybeStartJob id) m out.1 c' := by
  obtain ⟨job, hj, ⟨-, rfl⟩ | ⟨-, -, rfl⟩ | ⟨-, -, -, -, m', hk, h⟩⟩ := maybeStartJob_cases h
  · exact reported .refl Reports.finishJobFailed
  · exact nil
  · have hs : JobSteps (.maybeStartJob id) m m (m.markStarted id) := .edit (.starts (.inl rfl))
    have hs' := hs.andLocal hk.toLocal
    rcases h with ⟨msg, rfl⟩ | h
    · have hf : JobSteps (.maybeStartJob id) m m' (m'.setFailed id msg) := .edit (.fails msg)
      exact reported (hs'.trans hf) Reports.finishJobFailed
    · exact doStart hs' h

theorem maybeStopJob (h : m.maybeStopJob w id = some out) :
    ∀ c' ∈ out.2, Emits w (.maybeStopJob id) m out.1 c' := by
  obtain ⟨job, hj, ⟨-, rfl⟩ | ⟨-, -, rfl⟩ | ⟨ho, hs, h⟩⟩ := maybeStopJob_cases h
  · exact reported .refl Reports.finishJob
  · exact nil
  · have hx : JobSteps (.maybeStopJob id) m m { m with unitJob := m.unitJob.insert job.unit id } :=
      .single (.reindexes rfl hj ho hs)
    have he : JobSteps (.maybeStopJob id) m { m with unitJob := m.unitJob.insert job.unit id }
        (Manager.markStarted _ id) := .edit (.starts (.inr rfl))
    obtain ⟨m', hp, hend⟩ := doStop_begins h
    have hsteps : JobSteps (.maybeStopJob id) m m _ := hx.trans he
    exact ends hend (hsteps.andLocal hp.toLocal)

theorem fireTimer {kind : TimerKind} (h : m.fireTimer w name kind = some out) :
    ∀ c' ∈ out.2, Emits w (.fireTimer name kind) m out.1 c' := by
  rcases fireTimer_cases h with h | ⟨m', target, hq, rfl⟩
  · cases h with
    | ignored => exact nil
    | restart _ _ ho =>
      have hs := doStart (c := .fireTimer name .restartDelay) .refl ho
      exact append hs (single (.routine rfl))
    | start => exact single .fails
    | stop _ he => exact ends he .refl
  · exact cons (.triggers rfl) (cons (.routine rfl) (single (.routine rfl)))

theorem processExit {pid : Pid} {exit : ChildExit} (h : m.processExit w pid exit = some out) :
    ∀ c' ∈ out.2, Emits w (.processExit pid exit) m out.1 c' := by
  cases processExit_cases h with
  | ignored => exact nil
  | main howner => exact single (.exits rfl howner)
  | control howner _ _ _ h => exact handleControlExit rfl howner (.quiet .forgetPid) h

end Emits

/-- Every call that another one brings about has its reason. -/
theorem exec_emits (h : exec w c m = some out) : ∀ c' ∈ out.2, Emits w c m out.1 c' := by
  cases c with
  | start name mode =>
    obtain ⟨⟨reply, o⟩, hr, rfl⟩ := Option.map_eq_some_iff.mp h
    exact .starts (.inl ⟨mode, rfl⟩) (startWithMode_cases hr)
  | startIgnoreDependencies name => cases h; exact Emits.startIgnoreDependencies
  | stop name mode => cases h; exact Emits.stopWithMode
  | enqueueStop name mode => cases h; exact Emits.enqueueStop
  | revive name =>
    obtain ⟨m', -, rfl⟩ := revive_puts h
    exact Emits.nil
  | restart name =>
    obtain ⟨⟨reply, o⟩, hr, rfl⟩ := Option.map_eq_some_iff.mp h
    exact Emits.restart rfl hr
  | restartActivated name | tryRestart name =>
    change (if _ then _ else _) = _ at h
    split at h
    · obtain ⟨⟨reply, o⟩, hr, rfl⟩ := Option.map_eq_some_iff.mp h
      exact Emits.restart rfl hr
    · cases h
      exact Emits.nil
  | restartOrStart name =>
    change (if _ then _ else _) = _ at h
    split at h
    · obtain ⟨⟨reply, o⟩, hr, rfl⟩ := Option.map_eq_some_iff.mp h
      exact Emits.restart rfl hr
    · obtain ⟨⟨reply, o⟩, hr, rfl⟩ := Option.map_eq_some_iff.mp h
      exact Emits.starts (.inr rfl) (startWithMode_cases hr)
  | reload name => exact Emits.ends (reload_ends h .start) .refl
  | kill name sig =>
    obtain ⟨u, -, h⟩ := Option.bind_eq_some_iff.mp h
    cases h
    exact Emits.nil
  | isolate name =>
    cases h
    refine Emits.append (Emits.map _ fun n hn ↦ ?_) (Emits.single (.triggers rfl))
    have hn := (List.mem_filter.mp hn).2
    simp only [Bool.and_eq_true, Option.any_eq_true, decide_eq_true_eq] at hn
    obtain ⟨-, u, hu, ha, -⟩ := hn
    exact .clears (.inl ⟨_, rfl⟩) hu ha
  | shutdown =>
    cases h
    unfold Manager.shutdown
    split
    · exact Emits.nil
    · refine Emits.append (Emits.map _ fun n hn ↦ ?_) (Emits.single (.routine rfl))
      have hn := (List.mem_filter.mp hn).2
      simp only [Option.any_eq_true, decide_eq_true_eq] at hn
      obtain ⟨u, hu, ha⟩ := hn
      exact .clears (.inr rfl) hu ha
  | tick =>
    cases h
    refine Emits.append (Emits.map _ fun e he ↦ .fires rfl he) ?_
    exact Emits.cons (.routine rfl) (Emits.cons (.routine rfl) (Emits.single (.routine rfl)))
  | reap =>
    cases h
    exact Emits.map _ fun p hp ↦ .reaps rfl hp
  | pollPaths =>
    cases h
    intro c' hc'
    rcases pollPaths_calls hc' with rfl | ⟨n, rfl⟩
    · exact .routine rfl
    · exact .triggers rfl
  | notify ready pid =>
    rcases handleNotify_ends h with rfl | ⟨name, -, he⟩
    · exact Emits.nil
    · exact Emits.ends he .refl
  | nameAcquired busName =>
    obtain ⟨name, m', hk, rfl | ⟨-, he⟩⟩ := nameAcquired_ends h
    · exact Emits.nil
    · exact Emits.ends he (.local_ hk.toLocal)
  | socketReady fd =>
    cases h
    intro c' hc'
    obtain ⟨t, -, rfl⟩ := Option.map_eq_some_iff.mp (Option.mem_toList.mp hc')
    exact .triggers rfl
  | enqueueStartJob name =>
    have hs : JobSteps (.enqueueStartJob name) m m (m.newJob .start name .replace none).2 :=
      .single (.enqueues (.dependency name rfl))
    exact Emits.enqueueStartJob (.inr rfl) rfl hs h
  | stopConflict name =>
    rcases stopConflict_cases h with rfl | ⟨-, rfl, -⟩
    · exact Emits.nil
    · exact Emits.enqueueStop
  | stopDependent name =>
    cases h
    rcases stopDependent_cases name with he | ⟨-, -, he⟩
    · rw [he]
      exact Emits.nil
    · rw [he]
      exact Emits.enqueueStop
  | expandOpen id name needs waiting ds => exact Emits.opening (expandOpen_cases h)
  | maybeStartJob id => exact Emits.maybeStartJob h
  | maybeStopJob id => exact Emits.maybeStopJob h
  | processJobs => cases h; exact Emits.single (.routine rfl)
  | processPass ids changed =>
    cases h
    unfold Manager.processPass
    split
    · split
      · exact Emits.single (.routine rfl)
      · exact Emits.nil
    · exact Emits.append (Emits.tryAdvanceJob .refl) (Emits.single (.routine rfl))
  | jobCompleted id unit ok => cases h; exact Emits.jobCompleted
  | pokeFailedJob id name => cases h; exact Emits.pokeFailedJob
  | failUnit name msg => exact Emits.failUnit .refl h
  | fireOnFailure name =>
    obtain ⟨u, -, h⟩ := Option.bind_eq_some_iff.mp h
    cases h
    exact Emits.append (Emits.map _ fun _ _ ↦ .triggers rfl) (Emits.single (.routine rfl))
  | armStartTimeout name =>
    obtain ⟨u, -, h⟩ := Option.map_eq_some_iff.mp h
    cases h
    exact Emits.nil
  | loadAll | timerDepCheck | rearmTimer =>
    obtain ⟨m', -, rfl⟩ := Option.map_eq_some_iff.mp h
    exact Emits.nil
  | resetFailed | loadUnit | udevRegister | udevRemove => cases h; exact Emits.nil
  | fireTimer name kind => exact Emits.fireTimer h
  | processExit pid exit => exact Emits.processExit h
  | mainExit name exit => exact Emits.mainExit .refl h

end Rystemd
