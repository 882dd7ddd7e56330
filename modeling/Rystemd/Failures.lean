import Rystemd.JobChanges

namespace Rystemd

/-- The calls that fail a unit, and the states in which they do. -/
inductive Blames (m : Manager) (n : Name) : Call → Prop
  | opens {c : Call} : c.starts n ∨ c = .enqueueStartJob n → Blames m n c
  | begins {id : JobId} {job : Job} : m.jobs.get id = some job → job.unit = n →
      Blames m n (.maybeStartJob id)
  | stops {id : JobId} {job : Job} : m.jobs.get id = some job → job.unit = n →
      m.unitOperational n → Blames m n (.maybeStopJob id)
  | reloads : Blames m n (.reload n)
  | changing {c : Call} : m.activeOf n = some .activating ∨ m.activeOf n = some .deactivating →
      Blames m n c
  | restarts {u : Unit} : m.units.get n = some u → u.sub = .autoRestart →
      Blames m n (.fireTimer n .restartDelay)
  | exits {pid : Pid} {exit : ChildExit} {u : Unit} : m.pidUnit.get pid = some n →
      m.units.get n = some u → u.controlPid = some pid → Blames m n (.processExit pid exit)

/-- The unit is in the state that it was in, or on the way to another one. -/
def Lingers (m m' : Manager) (n : Name) : Prop :=
  ∀ s, m.activeOf n = some s →
    m'.activeOf n = some s ∨ m'.activeOf n = some .activating ∨ m'.activeOf n = some .deactivating

/-- Only the first of the calls may fail a unit, and it fails one with a name in `L`. -/
structure FailsFirst (L : Name → Prop) (cs : List Call) : Prop where
  head : ∀ c ∈ cs.head?, ∀ n ∈ c.fails, L n
  tail : ∀ c ∈ cs.tail, c.fails = none

variable {w : World} {c : Call} {m m' : Manager} {name : Name} {out : Out} {id : JobId} {job : Job}
  {kind : JobKind} {L L' : Name → Prop} {cs cs' : List Call}

theorem Lingers.of_eq (h : m'.activeOf name = m.activeOf name) : Lingers m m' name :=
  fun _ hs ↦ .inl (h.trans hs)

theorem Plain.fails (h : Plain cs) : ∀ c ∈ cs, c.fails = none := fun c hc ↦ (h c hc).2

namespace FailsFirst

theorem of_none (h : ∀ c ∈ cs, c.fails = none) : FailsFirst L cs where
  head c hc n hn := by
    rw [h c (List.mem_of_mem_head? hc)] at hn
    cases hn
  tail c hc := h c (List.mem_of_mem_tail hc)

theorem nil : FailsFirst L [] := of_none (List.forall_mem_nil _)

theorem other (h : c.fails = none) : FailsFirst L [c] := of_none (List.forall_mem_singleton.mpr h)

theorem first {msg : String} (h : L name) (hcs : ∀ c ∈ cs, c.fails = none) :
    FailsFirst L (.failUnit name msg :: cs) where
  head c hc n hn := by
    cases hc
    cases hn
    exact h
  tail := hcs

theorem append (h : FailsFirst L cs) (h' : ∀ c ∈ cs', c.fails = none) :
    FailsFirst L (cs ++ cs') := by
  cases cs with
  | nil => exact of_none h'
  | cons c cs =>
    refine ⟨h.head, fun c' hc' ↦ ?_⟩
    exact (List.mem_append.mp hc').elim (h.tail c') (h' c')

theorem mono (h : FailsFirst L cs) (hL : ∀ n, L n → L' n) : FailsFirst L' cs :=
  ⟨fun c hc n hn ↦ hL n (h.head c hc n hn), h.tail⟩

theorem mem (h : FailsFirst L cs) (hc : c ∈ cs) {n : Name} (hn : n ∈ c.fails) : L n := by
  cases cs with
  | nil => cases hc
  | cons c' cs =>
    rcases List.mem_cons.mp hc with rfl | hc
    · exact h.head c rfl n hn
    · rw [h.tail c hc] at hn
      cases hn

theorem of_settles (h : ∀ c ∈ cs, c.settles) : FailsFirst L cs := of_none (Plain.of_settles h).fails

theorem map {α : Type} {f : α → Call} (l : List α) (h : ∀ a, (f a).fails = none) :
    ∀ c ∈ l.map f, c.fails = none := by
  intro c hc
  obtain ⟨a, -, rfl⟩ := List.mem_map.mp hc
  exact h a

theorem ends (h : Ends w name kind m out)
    (hL : out.1.activeOf name = m.activeOf name → L name) : FailsFirst L out.2 := by
  induction h with
  | waits => exact nil
  | fails msg rest hk hr =>
    refine first (hL hk.active) ?_
    rcases hr with rfl | rfl
    · exact List.forall_mem_nil _
    · exact List.forall_mem_singleton.mpr rfl
  | completes _ _ ho => exact of_settles (Settles.completeJob ho)
  | stops _ ho => exact of_settles (Settles.completeJob ho)
  | spawns _ _ hk _ _ _ _ _ _ ih => exact ih fun he ↦ hL (by rw [he, activeOf_recordSpawn, hk.active])

theorem expands (h : Expands w m id name out)
    (hL : out.1.activeOf name = m.activeOf name → L name) : FailsFirst L out.2 := by
  cases h with
  | missing | requisite => exact other rfl
  | asserted => exact first (hL Keeps.setResult.active) (List.forall_mem_nil _)
  | skipped => exact of_settles Settles.finishJob
  | opens =>
    refine of_none (List.forall_mem_append.mpr ⟨map _ fun _ ↦ rfl, ?_⟩)
    exact List.forall_mem_singleton.mpr rfl

theorem enqueueStop {mode : JobMode} {next : Option Name} :
    FailsFirst L (m.enqueueStopJobAfterMode w name next mode).2 := by
  refine of_none (List.forall_mem_append.mpr ⟨map _ fun _ ↦ rfl, ?_⟩)
  exact List.forall_mem_singleton.mpr rfl

theorem starts {mode : JobMode} {reply : Manager.StartReply} (h : Starts w m name mode reply out)
    (hL : Lingers m out.1 name → L name) : FailsFirst L out.2 := by
  cases h with
  | unloadable | shutdown | active | pending | irreversible => exact nil
  | cancels =>
    refine FailsFirst.append (of_settles Settles.cancelJob) ?_
    exact List.forall_mem_singleton.mpr rfl
  | enqueues hl _ _ _ ho =>
    refine (expands (expandStartJob_cases ho) fun he ↦ hL fun s hs ↦ .inl ?_).append
      (List.forall_mem_singleton.mpr rfl)
    have ha := (ensureUnitLoaded_adds hl).activeOf (isSome_of_activeOf hs)
    exact he.trans (ha.trans hs)

theorem restart {reply : Manager.Reply} (h : m.restart w name = some (reply, out))
    (hL : Lingers m out.1 name → L name) : FailsFirst L out.2 := by
  rcases restart_cases h with ⟨-, rfl⟩ | ⟨-, rfl, -⟩ | ⟨-, cs, hcs, rfl⟩ | ⟨-, reply', h, -⟩
  · exact nil
  · exact nil
  · refine enqueueStop.append fun c hc ↦ ?_
    rcases List.mem_cons.mp hc with rfl | hc
    · rfl
    · rcases hcs with rfl | ⟨service, rfl⟩
      · cases hc
      · rw [List.mem_singleton.mp hc]
        rfl
  · exact starts h hL

theorem tryAdvanceJob : FailsFirst L (m.tryAdvanceJob w id).2.2 := by
  unfold Manager.tryAdvanceJob
  split
  · exact nil
  · split
    · split
      · exact nil
      · split
        · exact of_settles Settles.finishJobFailed
        · split
          · exact other rfl
          · exact nil
    · split
      · exact other rfl
      · exact nil
    · exact nil

theorem releaseWait : FailsFirst L (m.releaseWait w id job name).2 := by
  unfold Manager.releaseWait
  dsimp only
  split
  · exact nil
  · exact tryAdvanceJob

theorem activeExit (h : ActiveExit w name m out) : FailsFirst L out.2 := by
  cases h with
  | limit => exact of_none Plain.pokeFailed.fails
  | restart => exact nil
  | ended _ _ ho =>
    refine FailsFirst.append (of_settles (Settles.completeJob ho)) ?_
    exact List.forall_mem_singleton.mpr rfl
  | failed =>
    refine of_none (List.forall_mem_append.mpr ⟨Plain.pokeFailed.fails, ?_⟩)
    exact List.forall_mem_singleton.mpr rfl

theorem mainExit {exit : ChildExit} (h : m.mainExit w name exit = some out)
    (hL : m.activeOf name = some .activating ∨ m.activeOf name = some .deactivating →
      out.1.activeOf name = m.activeOf name → L name) : FailsFirst L out.2 := by
  obtain ⟨u, hu, h⟩ := mainExit_ends h
  cases h with
  | stopped hd he =>
    exact ends he fun ha ↦ hL (.inr (by rw [activeOf_eq hu, hd])) (ha.trans activeOf_forgetMain)
  | vanished => exact nil
  | fails ha hk =>
    refine first (hL (.inl (by rw [activeOf_eq hu, ha])) ?_) (List.forall_mem_nil _)
    exact hk.active.trans activeOf_forgetMain
  | active _ _ he => exact activeExit he

theorem handleControlExit {exit : ChildExit} (h : m.handleControlExit w name exit = some out)
    (hL : out.1.activeOf name = m.activeOf name → L name) : FailsFirst L out.2 := by
  have hf : (m.forgetControl name).activeOf name = m.activeOf name := activeOf_forgetControl
  rcases handleControlExit_cases h with ⟨-, he⟩ | ⟨-, m', rfl | ⟨pid, rfl⟩, he⟩ | ⟨-, rfl⟩ | rfl
  · exact ends he fun ha ↦ hL (ha.trans hf)
  · exact ends he fun ha ↦ hL (ha.trans hf)
  · exact ends he fun ha ↦ hL (ha.trans (activeOf_adoptPid.trans hf))
  · exact other rfl
  · exact nil

theorem doStart (h : m.doStart w name = some out) (hL : Lingers m out.1 name → L name) :
    FailsFirst L out.2 := by
  obtain ⟨m', -, ha, he⟩ := (doStart_begins h).ends
  refine ends he fun he ↦ hL fun s hs ↦ ?_
  rw [he]
  rcases ha with ha | ha
  · exact .inl (ha.trans hs)
  · exact .inr (.inl ha)

end FailsFirst

/-- A unit that a call fails is the first thing that it deals with, and there is a reason. -/
theorem exec_fails (h : exec w c m = some out) : FailsFirst (fun n ↦ Blames m n c ∧ Lingers m out.1 n) out.2 := by
  have single {c : Call} (hc : c.fails = none) : ∀ c' ∈ [c], c'.fails = none :=
    List.forall_mem_singleton.mpr hc
  cases c with
  | start name mode =>
    obtain ⟨⟨reply, o⟩, hr, rfl⟩ := Option.map_eq_some_iff.mp h
    exact .starts (startWithMode_cases hr) fun hl ↦ ⟨.opens (.inl (.inl ⟨mode, rfl⟩)), hl⟩
  | startIgnoreDependencies name =>
    cases h
    change FailsFirst _ (m.startIgnoreDependencies name).2.2
    unfold Manager.startIgnoreDependencies
    split
    · exact .nil
    · split
      · exact .nil
      · exact .of_none (List.forall_mem_cons.mpr ⟨rfl, single rfl⟩)
  | stop name mode =>
    cases h
    change FailsFirst _ (m.stopWithMode w name mode).2.2
    unfold Manager.stopWithMode
    split
    · exact .nil
    · split
      · exact .nil
      · split
        · exact FailsFirst.enqueueStop.append (single rfl)
        · split
          · refine FailsFirst.append (.of_settles Settles.cancelJob) ?_
            exact List.forall_mem_cons.mpr ⟨rfl, single rfl⟩
          · split <;> exact .nil
  | enqueueStop name mode => cases h; exact .enqueueStop
  | revive name =>
    obtain ⟨m', -, rfl⟩ := revive_puts h
    exact .nil
  | restart name =>
    obtain ⟨⟨reply, o⟩, hr, rfl⟩ := Option.map_eq_some_iff.mp h
    exact .restart hr fun hl ↦ ⟨.opens (.inl (.inr rfl)), hl⟩
  | restartActivated name | tryRestart name =>
    change (if _ then _ else _) = _ at h
    split at h
    · obtain ⟨⟨reply, o⟩, hr, rfl⟩ := Option.map_eq_some_iff.mp h
      exact .restart hr fun hl ↦ ⟨.opens (.inl (.inr rfl)), hl⟩
    · cases h
      exact .nil
  | restartOrStart name =>
    change (if _ then _ else _) = _ at h
    split at h
    · obtain ⟨⟨reply, o⟩, hr, rfl⟩ := Option.map_eq_some_iff.mp h
      exact .restart hr fun hl ↦ ⟨.opens (.inl (.inr rfl)), hl⟩
    · obtain ⟨⟨reply, o⟩, hr, rfl⟩ := Option.map_eq_some_iff.mp h
      exact .starts (startWithMode_cases hr) fun hl ↦ ⟨.opens (.inl (.inr rfl)), hl⟩
  | reload name => exact .ends (reload_ends h .start) fun ha ↦ ⟨.reloads, .of_eq ha⟩
  | kill name sig =>
    obtain ⟨u, -, h⟩ := Option.bind_eq_some_iff.mp h
    cases h
    exact .nil
  | isolate name =>
    cases h
    exact .of_none (List.forall_mem_append.mpr ⟨FailsFirst.map _ fun _ ↦ rfl, single rfl⟩)
  | shutdown =>
    cases h
    unfold Manager.shutdown
    split
    · exact .nil
    · exact .of_none (List.forall_mem_append.mpr ⟨FailsFirst.map _ fun _ ↦ rfl, single rfl⟩)
  | tick =>
    cases h
    refine .of_none (List.forall_mem_append.mpr ⟨FailsFirst.map _ fun _ ↦ rfl, ?_⟩)
    exact List.forall_mem_cons.mpr ⟨rfl, List.forall_mem_cons.mpr ⟨rfl, single rfl⟩⟩
  | reap => cases h; exact .of_none (FailsFirst.map _ fun _ ↦ rfl)
  | pollPaths =>
    cases h
    refine .of_none fun c hc ↦ ?_
    rcases pollPaths_calls hc with rfl | ⟨name, rfl⟩ <;> rfl
  | notify ready pid =>
    rcases handleNotify_ends h with rfl | ⟨name, ha, he⟩
    · exact .nil
    · exact .ends he fun he ↦ ⟨.changing (.inl ha), .of_eq he⟩
  | nameAcquired busName =>
    obtain ⟨name, m', hk, rfl | ⟨ha, he⟩⟩ := nameAcquired_ends h
    · exact .nil
    · have ha' := hk.active.symm.trans ha
      exact .ends he fun he ↦ ⟨.changing (.inl ha'), .of_eq (he.trans hk.active)⟩
  | socketReady fd =>
    cases h
    refine .of_none fun c hc ↦ ?_
    obtain ⟨t, -, rfl⟩ := Option.map_eq_some_iff.mp (Option.mem_toList.mp hc)
    rfl
  | enqueueStartJob name => exact .expands (expandStartJob_cases h) fun ha ↦ ⟨.opens (.inr rfl), .of_eq ha⟩
  | stopConflict name =>
    rcases stopConflict_cases h with rfl | ⟨-, rfl, -⟩
    · exact .nil
    · exact .enqueueStop
  | stopDependent name =>
    cases h
    rcases stopDependent_cases name with he | ⟨-, -, he⟩
    · rw [he]
      exact .nil
    · rw [he]
      exact .enqueueStop
  | expandOpen id name needs waiting ds =>
    cases expandOpen_cases h with
    | finish | skip | missing | pending => exact .other rfl
    | new => exact .of_none (List.forall_mem_cons.mpr ⟨rfl, single rfl⟩)
  | maybeStartJob id =>
    obtain ⟨job, hj, ⟨-, rfl⟩ | ⟨-, -, rfl⟩ | ⟨-, -, -, -, m', hk, h⟩⟩ := maybeStartJob_cases h
    · exact .of_settles Settles.finishJobFailed
    · exact .nil
    · rcases h with ⟨msg, rfl⟩ | h
      · exact .of_settles Settles.finishJobFailed
      · exact .doStart h fun hl ↦ ⟨.begins hj rfl, fun s hs ↦ hl s (hk.active.trans hs)⟩
  | maybeStopJob id =>
    obtain ⟨job, hj, ⟨-, rfl⟩ | ⟨-, -, rfl⟩ | ⟨ho, -, h⟩⟩ := maybeStopJob_cases h
    · exact .of_settles Settles.finishJob
    · exact .nil
    · obtain ⟨m', hp, he⟩ := doStop_begins h
      exact .ends he fun ha ↦ ⟨.stops hj rfl ho, fun s hs ↦ .inr (.inr (ha.trans hp.active))⟩
  | processJobs => cases h; exact .other rfl
  | processPass ids changed =>
    cases h
    unfold Manager.processPass
    split
    · split
      · exact .other rfl
      · exact .nil
    · exact FailsFirst.tryAdvanceJob.append (single rfl)
  | jobCompleted id unit ok =>
    cases h
    unfold Manager.jobCompleted
    split
    · exact .nil
    · split
      · exact .nil
      · exact .releaseWait
  | pokeFailedJob id name =>
    cases h
    unfold Manager.pokeFailedJob
    split
    · exact .nil
    · split
      · exact .of_settles Settles.finishJobFailed
      · exact .releaseWait
  | failUnit name msg =>
    obtain ⟨m', -, ⟨jid, job, -, -, -, rfl⟩ | ⟨-, rfl⟩⟩ := failUnit_ends h
    · exact FailsFirst.append (.of_settles Settles.finishJobFailed) (single rfl)
    · exact .of_none (List.forall_mem_append.mpr ⟨Plain.pokeFailed.fails, single rfl⟩)
  | fireOnFailure name =>
    obtain ⟨u, -, h⟩ := Option.bind_eq_some_iff.mp h
    cases h
    exact .of_none (List.forall_mem_append.mpr ⟨FailsFirst.map _ fun _ ↦ rfl, single rfl⟩)
  | armStartTimeout name =>
    obtain ⟨u, -, h⟩ := Option.map_eq_some_iff.mp h
    cases h
    exact .nil
  | loadAll | timerDepCheck | rearmTimer =>
    obtain ⟨m', -, rfl⟩ := Option.map_eq_some_iff.mp h
    exact .nil
  | resetFailed | loadUnit | udevRegister | udevRemove => cases h; exact .nil
  | fireTimer name kind =>
    rcases fireTimer_cases h with h | ⟨m', target, -, rfl⟩
    · cases h with
      | ignored => exact .nil
      | restart hu hs ho =>
        exact (FailsFirst.doStart ho fun hl ↦ ⟨.restarts hu hs, hl⟩).append (single rfl)
      | start msg ha hk => exact .first ⟨.changing (.inl ha), .of_eq hk.active⟩ (List.forall_mem_nil _)
      | stop ha he => exact .ends he fun he ↦ ⟨.changing (.inr ha), .of_eq he⟩
    · exact .of_none (List.forall_mem_cons.mpr ⟨rfl, List.forall_mem_cons.mpr ⟨rfl, single rfl⟩⟩)
  | processExit pid exit =>
    cases processExit_cases h with
    | ignored => exact .nil
    | main => exact .other rfl
    | control howner hu _ hc h =>
      exact .handleControlExit h fun ha ↦ ⟨.exits howner hu hc, .of_eq ha⟩
  | mainExit name exit => exact .mainExit h fun ha he ↦ ⟨.changing ha, .of_eq he⟩

/-- The failure of a unit is dealt with at once. -/
structure FailsAtOnce (a : Worklist.Config Manager Call) : Prop where
  tail : ∀ c ∈ a.todo.tail, c.fails = none

theorem FailsAtOnce.step {rest : List Call} (h : FailsAtOnce ⟨m, c :: rest⟩)
    (he : exec w c m = some out) : FailsAtOnce ⟨out.1, out.2 ++ rest⟩ :=
  ⟨((exec_fails he).append h.tail).tail⟩

theorem Reaches.failsAtOnce {C : World → Call → Manager → Prop} {a : Worklist.Config Manager Call}
    (h : Reaches C a) : FailsAtOnce a := by
  obtain ⟨m, -, hr⟩ := h
  exact hr.invariant (fun _ _ ↦ ⟨List.forall_mem_nil _⟩) (fun h _ _ he ↦ h.step he)
    ⟨List.forall_mem_nil _⟩

end Rystemd
