import Rystemd.Actions

namespace Rystemd

/-- The calls that carry out an event, as against those that bring one. -/
def Call.nested : Call → Bool
  | .start .. | .revive _ | .enqueueStop .. | .enqueueStartJob _ | .stopConflict _
  | .stopDependent _ | .expandOpen .. | .maybeStartJob _ | .maybeStopJob _ | .processJobs
  | .processPass .. | .jobCompleted .. | .pokeFailedJob .. | .failUnit .. | .fireOnFailure _
  | .armStartTimeout _ | .timerDepCheck => true
  | _ => false

/-- The job that a procedure indexes without looking whether it is there. -/
def Call.jobId : Call → Option JobId
  | .expandOpen id .. | .maybeStartJob id | .maybeStopJob id => some id
  | _ => none

/-- What an event call brings about other than its own nested calls. -/
inductive Dispatches (w : World) (m : Manager) : Call → Call → Prop
  | isolate {name n : Name} : Dispatches w m (.isolate name) (.stop n .replace)
  | shutdown {n : Name} : m.shuttingDown = false → m.activeOf n ≠ some .inactive →
      Dispatches w m .shutdown (.stop n .replace)
  | expired {e : TimerEntry} : e ∈ (m.wheel.popDue w.now).1 →
      Dispatches w m .tick (.fireTimer e.unit e.kind)
  | pollPaths : Dispatches w m .tick .pollPaths
  | reap : Dispatches w m .tick .reap
  | reaped {p : Pid × ChildExit} : p ∈ w.reaped → Dispatches w m .reap (.processExit p.1 p.2)
  | main {pid : Pid} {name : Name} {exit : ChildExit} : m.pidUnit.get pid = some name →
      Dispatches w m (.processExit pid exit) (.mainExit name exit)
  | rearm {name : Name} {u : Unit} {kind : TimerKind} : m.units.get name = some u →
      u.kind = .timer → Dispatches w m (.fireTimer name kind) (.rearmTimer name)
  | activated {c : Call} {service : Name} : c.nested = false → Dispatches w m c (.restartActivated service)

/-- Every call is nested. -/
def Nested (cs : List Call) : Prop := ∀ c ∈ cs, c.nested

variable {w : World} {m m' : Manager} {name : Name} {out : Out} {id : JobId} {job : Job}
  {kind : JobKind} {cs cs' : List Call}

/-- The calls that the end of a job brings about. -/
def Call.settles : Call → Bool
  | .jobCompleted .. | .enqueueStartJob _ | .timerDepCheck => true
  | _ => false

/-- The calls that the end of a job or the failure of a unit brings about. -/
def Call.aftermath : Call → Bool
  | .pokeFailedJob .. | .failUnit .. | .fireOnFailure _ | .armStartTimeout _ => true
  | c => c.settles

theorem Call.aftermath_of_settles {c : Call} (h : c.settles) : c.aftermath := by
  cases c <;> first | rfl | cases h

theorem Call.nested_of_aftermath {c : Call} (h : c.aftermath) : c.nested := by
  cases c <;> first | rfl | cases h

namespace Settles

theorem onJobCompleted {unit : Name} {ok : Bool} :
    ∀ c ∈ m.onJobCompleted w unit ok, c.settles := by
  intro c hc
  obtain ⟨id, -, rfl⟩ := List.mem_map.mp hc
  rfl

theorem finishJob : ∀ c ∈ (m.finishJob w id).2, c.settles := by
  unfold Manager.finishJob
  split
  · exact List.forall_mem_nil _
  · refine List.forall_mem_append.mpr ⟨onJobCompleted, fun c hc ↦ ?_⟩
    split at hc
    · obtain ⟨next, -, rfl⟩ := List.mem_map.mp hc
      rfl
    · cases hc

theorem finishJobFailed : ∀ c ∈ (m.finishJobFailed w id).2, c.settles := by
  unfold Manager.finishJobFailed
  split
  · exact List.forall_mem_nil _
  · exact onJobCompleted

theorem cancelJob {msg : String} : ∀ c ∈ (m.cancelJob w id msg).2, c.settles := by
  unfold Manager.cancelJob
  split
  · exact List.forall_mem_nil _
  · exact onJobCompleted

theorem completeJob {kinds : JobKind → Bool} (h : m.completeJob w name kinds = some out) :
    ∀ c ∈ out.2, c.settles := by
  have ht : ∀ c ∈ [Call.timerDepCheck], c.settles := List.forall_mem_singleton.mpr rfl
  rcases completeJob_cases h with ⟨-, rfl⟩ | ⟨_, _, -, -, ⟨-, rfl⟩ | ⟨-, rfl⟩⟩
  · exact ht
  · exact List.forall_mem_append.mpr ⟨finishJob, ht⟩
  · exact ht

end Settles

namespace Aftermath

theorem of_settles (h : ∀ c ∈ cs, c.settles) : ∀ c ∈ cs, c.aftermath :=
  fun c hc ↦ Call.aftermath_of_settles (h c hc)

theorem pokeFailed : ∀ c ∈ m.pokeFailed w name, c.aftermath := by
  intro c hc
  obtain ⟨id, -, rfl⟩ := List.mem_map.mp hc
  rfl

theorem ends (h : Ends w name kind m out) : ∀ c ∈ out.2, c.aftermath := by
  induction h with
  | waits => exact List.forall_mem_nil _
  | fails msg rest _ hr => rcases hr with rfl | rfl <;> simp [Call.aftermath]
  | completes _ _ ho _ => exact of_settles (Settles.completeJob ho)
  | stops _ ho => exact of_settles (Settles.completeJob ho)
  | spawns _ _ _ _ _ _ _ _ _ ih => exact ih

theorem activeExit (h : ActiveExit w name m out) : ∀ c ∈ out.2, c.aftermath := by
  cases h with
  | limit => exact pokeFailed
  | restart => exact List.forall_mem_nil _
  | ended _ _ ho =>
    have hc := of_settles (Settles.completeJob ho)
    exact List.forall_mem_append.mpr ⟨hc, List.forall_mem_singleton.mpr rfl⟩
  | failed => exact List.forall_mem_append.mpr ⟨pokeFailed, List.forall_mem_singleton.mpr rfl⟩

theorem mainExit {exit : ChildExit} (h : m.mainExit w name exit = some out) :
    ∀ c ∈ out.2, c.aftermath := by
  obtain ⟨u, -, h⟩ := mainExit_ends h
  cases h with
  | stopped _ he => exact ends he
  | vanished => exact List.forall_mem_nil _
  | fails => exact List.forall_mem_singleton.mpr rfl
  | active _ _ he => exact activeExit he

theorem failUnit {msg : String} (h : m.failUnit w name msg = some out) :
    ∀ c ∈ out.2, c.aftermath := by
  have hf : ∀ c ∈ [Call.fireOnFailure name], c.aftermath := List.forall_mem_singleton.mpr rfl
  obtain ⟨m', -, ⟨jid, job, -, -, -, rfl⟩ | ⟨-, rfl⟩⟩ := failUnit_ends h
  · exact List.forall_mem_append.mpr ⟨of_settles Settles.finishJobFailed, hf⟩
  · exact List.forall_mem_append.mpr ⟨pokeFailed, hf⟩

theorem doStart (h : m.doStart w name = some out) : ∀ c ∈ out.2, c.aftermath := by
  obtain ⟨m', -, -, he⟩ := (doStart_begins h).ends
  exact ends he

theorem doStop (h : m.doStop w name = some out) : ∀ c ∈ out.2, c.aftermath := by
  obtain ⟨m', -, he⟩ := doStop_begins h
  exact ends he

end Aftermath

namespace Nested

theorem nil : Nested [] := by simp [Nested]

theorem cons {c : Call} (h : c.nested) (hs : Nested cs) : Nested (c :: cs) := by
  intro c' hc'
  rcases List.mem_cons.mp hc' with rfl | hc'
  · exact h
  · exact hs c' hc'

theorem single {c : Call} (h : c.nested) : Nested [c] := cons h nil

theorem append (h : Nested cs) (h' : Nested cs') : Nested (cs ++ cs') :=
  fun c hc ↦ (List.mem_append.mp hc).elim (h c) (h' c)

theorem of_aftermath (h : ∀ c ∈ cs, c.aftermath) : Nested cs :=
  fun c hc ↦ Call.nested_of_aftermath (h c hc)

theorem of_settles (h : ∀ c ∈ cs, c.settles) : Nested cs := of_aftermath (Aftermath.of_settles h)

theorem tryAdvanceJob : Nested (m.tryAdvanceJob w id).2.2 := by
  unfold Manager.tryAdvanceJob
  split
  · exact nil
  · split
    · split
      · exact nil
      · split
        · exact of_settles Settles.finishJobFailed
        · split
          · exact single rfl
          · exact nil
    · split
      · exact single rfl
      · exact nil
    · exact nil

theorem releaseWait : Nested (m.releaseWait w id job name).2 := by
  unfold Manager.releaseWait
  dsimp only
  split
  · exact nil
  · exact tryAdvanceJob

theorem jobCompleted {ok : Bool} : Nested (m.jobCompleted w id name ok).2 := by
  unfold Manager.jobCompleted
  split
  · exact nil
  · split
    · exact nil
    · exact releaseWait

theorem pokeFailedJob : Nested (m.pokeFailedJob w id name).2 := by
  unfold Manager.pokeFailedJob
  split
  · exact nil
  · split
    · exact of_settles Settles.finishJobFailed
    · exact releaseWait

theorem expands (h : Expands w m id name out) : Nested out.2 := by
  cases h with
  | missing | asserted | requisite => exact single rfl
  | skipped => exact of_settles Settles.finishJob
  | opens waiting _ =>
    refine Nested.append (fun c hc ↦ ?_) (.single rfl)
    obtain ⟨n, -, rfl⟩ := List.mem_map.mp hc
    rfl

theorem enqueueStop {mode : JobMode} {next : Option Name} :
    Nested (m.enqueueStopJobAfterMode w name next mode).2 := by
  refine Nested.append (fun c hc ↦ ?_) (.single rfl)
  obtain ⟨n, -, rfl⟩ := List.mem_map.mp hc
  rfl

theorem opens {needs ds : List Name} {waiting : List WaitEntry}
    (h : Opens w m id name needs waiting ds out) : Nested out.2 := by
  cases h with
  | finish | skip | missing | pending => exact single rfl
  | new => exact cons rfl (single rfl)

theorem starts {mode : JobMode} {reply : Manager.StartReply} (h : Starts w m name mode reply out) :
    Nested out.2 := by
  cases h with
  | unloadable | shutdown | active | pending | irreversible => exact nil
  | cancels => exact (of_settles Settles.cancelJob).append (.single rfl)
  | enqueues _ _ _ _ ho =>
    exact (expands (expandStartJob_cases ho)).append (.single rfl)

end Nested

theorem exec_nested {c : Call} (hc : c.nested) (h : exec w c m = some out) : Nested out.2 := by
  cases c with
  | start name mode =>
    obtain ⟨r, hr, rfl⟩ := Option.map_eq_some_iff.mp h
    exact .starts (startWithMode_cases hr)
  | revive name =>
    obtain ⟨m', -, rfl⟩ := revive_puts h
    exact .nil
  | enqueueStop name mode => cases h; exact .enqueueStop
  | enqueueStartJob name => exact .expands (expandStartJob_cases h)
  | stopConflict name =>
    rcases stopConflict_cases h with rfl | ⟨-, rfl, -⟩
    · exact .nil
    · exact .enqueueStop
  | stopDependent name =>
    cases h
    rcases stopDependent_cases name with he | ⟨-, -, he⟩
    · rw [he]
      exact .nil
    · rw [he]
      exact .enqueueStop
  | expandOpen id name needs waiting ds => exact .opens (expandOpen_cases h)
  | maybeStartJob id =>
    obtain ⟨job, -, ⟨-, rfl⟩ | ⟨-, -, rfl⟩ | ⟨-, -, -, -, m', -, h⟩⟩ := maybeStartJob_cases h
    · exact .of_settles Settles.finishJobFailed
    · exact .nil
    · rcases h with ⟨msg, rfl⟩ | h
      · exact .of_settles Settles.finishJobFailed
      · exact .of_aftermath (Aftermath.doStart h)
  | maybeStopJob id =>
    obtain ⟨job, -, ⟨-, rfl⟩ | ⟨-, -, rfl⟩ | ⟨-, -, h⟩⟩ := maybeStopJob_cases h
    · exact .of_settles Settles.finishJob
    · exact .nil
    · exact .of_aftermath (Aftermath.doStop h)
  | processJobs => cases h; exact .single rfl
  | processPass ids changed =>
    cases h
    unfold Manager.processPass
    split
    · split
      · exact .single rfl
      · exact .nil
    · exact Nested.tryAdvanceJob.append (.single rfl)
  | jobCompleted id unit ok => cases h; exact .jobCompleted
  | pokeFailedJob id name => cases h; exact .pokeFailedJob
  | failUnit name msg => exact .of_aftermath (Aftermath.failUnit h)
  | fireOnFailure name =>
    obtain ⟨u, -, h⟩ := Option.bind_eq_some_iff.mp h
    cases h
    refine Nested.append (fun c hc ↦ ?_) (.single rfl)
    obtain ⟨n, -, rfl⟩ := List.mem_map.mp hc
    rfl
  | armStartTimeout name =>
    obtain ⟨u, -, h⟩ := Option.map_eq_some_iff.mp h
    cases h
    exact .nil
  | timerDepCheck =>
    obtain ⟨m', -, rfl⟩ := Option.map_eq_some_iff.mp h
    exact .nil
  | _ => cases hc

theorem nowRunning_nested (h : m.nowRunning w name = some out) : Nested out.2 := by
  rcases nowRunning_ends h with rfl | ⟨-, he⟩
  · exact .nil
  · exact .of_aftermath (Aftermath.ends he)

theorem handleControlExit_calls {exit : ChildExit} (h : m.handleControlExit w name exit = some out) :
    ∀ c ∈ out.2, c.nested ∨ c = .mainExit name exit := by
  rcases handleControlExit_cases h with ⟨-, he⟩ | ⟨-, m', -, he⟩ | ⟨-, rfl⟩ | rfl
  · exact fun c hc ↦ .inl (Call.nested_of_aftermath (Aftermath.ends he c hc))
  · exact fun c hc ↦ .inl (Call.nested_of_aftermath (Aftermath.ends he c hc))
  · exact fun c hc ↦ .inr (List.mem_singleton.mp hc)
  · exact fun c hc ↦ by cases hc

theorem processExit_dispatches {pid : Pid} {exit : ChildExit}
    (h : m.processExit w pid exit = some out) :
    ∀ c ∈ out.2, c.nested ∨ Dispatches w m (.processExit pid exit) c := by
  cases processExit_cases h with
  | ignored => exact fun c hc ↦ by cases hc
  | main howner =>
    intro c hc
    rw [List.mem_singleton.mp hc]
    exact .inr (.main howner)
  | control howner _ _ _ h =>
    intro c hc
    rcases handleControlExit_calls h c hc with hn | rfl
    · exact .inl hn
    · exact .inr (.main howner)

theorem restart_dispatches {c : Call} {reply : Manager.Reply} (hc : c.nested = false)
    (h : m.restart w name = some (reply, out)) :
    ∀ c' ∈ out.2, c'.nested ∨ Dispatches w m c c' := by
  rcases restart_cases h with ⟨-, rfl⟩ | ⟨-, rfl, -⟩ | ⟨-, cs, hcs, rfl⟩ | ⟨-, reply', h, -⟩
  · exact fun c' hc' ↦ by cases hc'
  · exact fun c' hc' ↦ by cases hc'
  · intro c' hc'
    rcases List.mem_append.mp hc' with hc' | hc'
    · exact .inl (Nested.enqueueStop c' hc')
    · rcases List.mem_cons.mp hc' with rfl | hc'
      · exact .inl rfl
      · rcases hcs with rfl | ⟨service, rfl⟩
        · cases hc'
        · rw [List.mem_singleton.mp hc']
          exact .inr (.activated hc)
  · exact fun c' hc' ↦ .inl (Nested.starts h c' hc')

theorem fireTimer_dispatches {kind : TimerKind} (h : m.fireTimer w name kind = some out) :
    ∀ c ∈ out.2, c.nested ∨ Dispatches w m (.fireTimer name kind) c := by
  have nested {cs} (hn : Nested cs) : ∀ c ∈ cs, c.nested ∨ Dispatches w m (.fireTimer name kind) c :=
    fun c hc ↦ .inl (hn c hc)
  unfold Manager.fireTimer at h
  split at h
  · cases fireServiceTimer_cases h with
    | ignored => exact nested .nil
    | restart _ _ ho => exact nested ((Nested.of_aftermath (Aftermath.doStart ho)).append (.single rfl))
    | start => exact nested (.single rfl)
    | stop _ he => exact nested (.of_aftermath <| Aftermath.ends he)
  · next u hu =>
    cases h
    obtain ⟨hu, hk⟩ := Option.filter_eq_some_iff.mp hu
    intro c hc
    simp only [List.mem_cons, List.not_mem_nil, or_false] at hc
    rcases hc with rfl | rfl | rfl
    · exact .inl rfl
    · exact .inr (.rearm hu (of_decide_eq_true hk))
    · exact .inl rfl

/-- What the calls that are not nested bring about. -/
theorem exec_dispatches {c : Call} (hc : c.nested = false) (h : exec w c m = some out) :
    ∀ c' ∈ out.2, c'.nested ∨ Dispatches w m c c' := by
  have nested {cs} (hn : Nested cs) : ∀ c' ∈ cs, c'.nested ∨ Dispatches w m c c' :=
    fun c' hc' ↦ .inl (hn c' hc')
  cases c with
  | startIgnoreDependencies name =>
    cases h
    change ∀ c' ∈ (m.startIgnoreDependencies name).2.2, _
    unfold Manager.startIgnoreDependencies
    split
    · exact nested .nil
    · split
      · exact nested .nil
      · exact nested (.cons rfl (.single rfl))
  | stop name mode =>
    cases h
    change ∀ c' ∈ (m.stopWithMode w name mode).2.2, _
    unfold Manager.stopWithMode
    split
    · exact nested .nil
    · split
      · exact nested .nil
      · split
        · exact nested (Nested.enqueueStop.append (.single rfl))
        · split
          · exact nested ((Nested.of_settles Settles.cancelJob).append (.cons rfl (.single rfl)))
          · split <;> exact nested .nil
  | restart name =>
    obtain ⟨r, hr, rfl⟩ := Option.map_eq_some_iff.mp h
    exact restart_dispatches hc hr
  | restartActivated name | tryRestart name =>
    change (if _ then _ else _) = _ at h
    split at h
    · obtain ⟨r, hr, rfl⟩ := Option.map_eq_some_iff.mp h
      exact restart_dispatches hc hr
    · cases h
      exact nested .nil
  | restartOrStart name =>
    change (if _ then _ else _) = _ at h
    split at h
    · obtain ⟨r, hr, rfl⟩ := Option.map_eq_some_iff.mp h
      exact restart_dispatches hc hr
    · obtain ⟨r, hr, rfl⟩ := Option.map_eq_some_iff.mp h
      exact nested (.starts (startWithMode_cases hr))
  | reload name => exact nested (.of_aftermath <| Aftermath.ends (reload_ends h .restart))
  | kill name sig =>
    obtain ⟨u, -, h⟩ := Option.bind_eq_some_iff.mp h
    cases h
    exact nested .nil
  | isolate name =>
    cases h
    intro c' hc'
    rcases List.mem_append.mp hc' with hc' | hc'
    · obtain ⟨n, -, rfl⟩ := List.mem_map.mp hc'
      exact .inr .isolate
    · rw [List.mem_singleton.mp hc']
      exact .inl rfl
  | shutdown =>
    cases h
    intro c' hc'
    unfold Manager.shutdown at hc'
    split at hc'
    · cases hc'
    · next hs =>
      rcases List.mem_append.mp hc' with hc' | hc'
      · obtain ⟨n, hn, rfl⟩ := List.mem_map.mp hc'
        refine .inr (.shutdown (eq_false_of_ne_true hs) fun ha ↦ ?_)
        obtain ⟨u, hu, hne⟩ := (Option.any_eq_true ..).mp (List.mem_filter.mp hn).2
        rw [Manager.activeOf, hu, Option.map_some, Option.some.injEq] at ha
        exact of_decide_eq_true hne ha
      · rw [List.mem_singleton.mp hc']
        exact .inl rfl
  | tick =>
    cases h
    intro c' hc'
    rcases List.mem_append.mp hc' with hc' | hc'
    · obtain ⟨e, he, rfl⟩ := List.mem_map.mp hc'
      exact .inr (.expired he)
    · simp only [List.mem_cons, List.not_mem_nil, or_false] at hc'
      rcases hc' with rfl | rfl | rfl
      · exact .inr .pollPaths
      · exact .inr .reap
      · exact .inl rfl
  | reap =>
    cases h
    intro c' hc'
    obtain ⟨p, hp, rfl⟩ := List.mem_map.mp hc'
    exact .inr (.reaped hp)
  | pollPaths =>
    cases h
    intro c' hc'
    rcases pollPaths_calls hc' with rfl | ⟨name, rfl⟩ <;> exact .inl rfl
  | notify ready pid =>
    change m.handleNotify w ready pid = some out at h
    unfold Manager.handleNotify at h
    split at h
    · cases h
      exact nested .nil
    · split at h
      · exact nested (nowRunning_nested h)
      · cases h
        exact nested .nil
  | nameAcquired busName =>
    change m.nameAcquired w busName = some out at h
    unfold Manager.nameAcquired at h
    split at h
    · cases h
      exact nested .nil
    · exact nested (nowRunning_nested h)
  | socketReady fd =>
    cases h
    intro c' hc'
    obtain ⟨t, -, rfl⟩ := Option.map_eq_some_iff.mp (Option.mem_toList.mp hc')
    exact .inl rfl
  | loadAll =>
    obtain ⟨m', -, rfl⟩ := Option.map_eq_some_iff.mp h
    exact nested .nil
  | rearmTimer name =>
    obtain ⟨m', -, rfl⟩ := Option.map_eq_some_iff.mp h
    exact nested .nil
  | resetFailed | loadUnit | udevRegister | udevRemove => cases h; exact nested .nil
  | fireTimer name kind => exact fireTimer_dispatches h
  | processExit pid exit => exact processExit_dispatches h
  | mainExit name exit => exact nested (.of_aftermath <| Aftermath.mainExit h)
  | _ => cases hc

theorem exec_calls {c c' : Call} (h : exec w c m = some out) (hc' : c' ∈ out.2) :
    c'.nested ∨ Dispatches w m c c' := by
  cases hc : c.nested with
  | true => exact .inl (exec_nested hc h c' hc')
  | false => exact exec_dispatches hc h c' hc'

/-- The requests and events that no call brings about. -/
def Call.requested : Call → Bool
  | .startIgnoreDependencies _ | .restart _ | .tryRestart _ | .restartOrStart _ | .reload _
  | .kill .. | .isolate _ | .resetFailed _ | .shutdown | .loadAll | .loadUnit _ | .udevRegister _
  | .udevRemove _ | .tick | .notify .. | .nameAcquired _ | .socketReady _ => true
  | _ => false

theorem exec_not_requested {c c' : Call} (h : exec w c m = some out) (hc' : c' ∈ out.2) :
    c'.requested = false := by
  have hn : c'.nested → c'.requested = false := by
    intro h
    cases c' <;> first | rfl | cases h
  rcases exec_calls h hc' with h' | h'
  · exact hn h'
  · cases h' <;> rfl

/-- A request is made when nothing else is left to do. -/
def Alone (todo : List Call) : Prop := ∀ c ∈ todo, c.requested → todo = [c]

theorem Alone.single (c : Call) : Alone [c] := by
  intro c' hc' _
  rw [List.mem_singleton.mp hc']

theorem Alone.step {c : Call} {rest : List Call} (h : Alone (c :: rest))
    (he : exec w c m = some out) : Alone (out.2 ++ rest) := by
  intro c' hc' hreq
  rcases List.mem_append.mp hc' with hc' | hc'
  · have := exec_not_requested he hc'
    simp [this] at hreq
  · have := h c' (List.mem_cons_of_mem _ hc') hreq
    simp only [List.cons.injEq] at this
    rw [this.2] at hc'
    cases hc'

theorem Alone.tail_nil {c : Call} {rest : List Call} (h : Alone (c :: rest)) (hc : c.requested) :
    rest = [] := by
  have := h c (List.mem_cons_self ..) hc
  simpa using this

theorem Reaches.alone {C : World → Call → Manager → Prop} {a : Worklist.Config Manager Call}
    (h : Reaches C a) : Alone a.todo := by
  obtain ⟨m, -, hr⟩ := h
  exact hr.invariant (I := fun a ↦ Alone a.todo) (fun _ _ ↦ .single _) (fun h _ _ he ↦ h.step he)
    (by simp [Alone])

end Rystemd
