import Rystemd.References
import Rystemd.Totality

namespace Rystemd

open Worklist

/-- A job of a procedure that has still to come back to it. -/
def Job.held (job : Job) : Bool :=
  !job.started && job.waiting.isEmpty && (job.kind = .stop || job.expanding)

/-- No process of the job engine leads to a job that another one holds: no start cancels a stop
that has not begun, no round over the jobs comes to such a stop, and no start begins while a start
job of the same unit is being expanded. Nor is a unit lost that is referred to. -/
def keepsJobs (w : World) (c : Call) (m : Manager) : Bool :=
  keepsReferenced w c m &&
  match c with
  | .start name _ => m.shuttingDown || m.unitActive name ||
      (m.jobOf name).all fun j ↦ j.2.kind ≠ .stop || !j.2.held
  | .processPass (id :: _) _ => (m.jobs.get id).all fun job ↦ job.kind ≠ .stop || !job.held
  | .maybeStartJob id => (m.jobs.get id).all fun job ↦
      (m.jobOf job.unit).all fun j ↦ j.1 = id || j.2.kind ≠ .start || !j.2.held
  | _ => true

variable {w : World} {c : Call} {m m' m'' : Manager} {name : Name} {out : Out} {id i : JobId}
  {job : Job} {kind : JobKind} {cs rest : List Call}

/-- The job of the unit is no start job that a procedure holds. -/
def Clear (m : Manager) (name : Name) : Prop :=
  ∀ id job, m.unitJob.get name = some id → m.jobs.get id = some job → job.kind = .start →
    job.held = false

section Spares

theorem modifyJob_spares {f : Job → Job} (h : i ≠ id) :
    (m.modifyJob id f).jobs.get i = m.jobs.get i := by
  rw [Manager.modifyJob, Table.get_modify, if_neg h]

theorem removeJob_spares {ok : Bool} {error : Option String} (h : i ≠ id) :
    ((m.recordJobResult id ok error).removeJob id name).jobs.get i = m.jobs.get i :=
  Table.get_remove.trans (if_neg h)

theorem finishJob_spares (h : i ≠ id) : (m.finishJob w id).1.jobs.get i = m.jobs.get i := by
  unfold Manager.finishJob
  split
  · rfl
  · exact removeJob_spares h

theorem finishJobFailed_spares (h : i ≠ id) :
    (m.finishJobFailed w id).1.jobs.get i = m.jobs.get i := by
  unfold Manager.finishJobFailed
  split
  · rfl
  · exact removeJob_spares h

theorem cancelJob_spares {msg : String} (h : i ≠ id) :
    (m.cancelJob w id msg).1.jobs.get i = m.jobs.get i := by
  unfold Manager.cancelJob
  split
  · rfl
  · exact removeJob_spares h

theorem tryAdvanceJob_spares (h : i ≠ id) : (m.tryAdvanceJob w id).2.1.jobs.get i = m.jobs.get i := by
  unfold Manager.tryAdvanceJob
  split
  · rfl
  · split
    · split
      · rfl
      · split
        · exact finishJobFailed_spares h
        · split <;> rfl
    · split <;> rfl
    · rfl

theorem releaseWait_spares (h : i ≠ id) :
    (m.releaseWait w id job name).1.jobs.get i = m.jobs.get i := by
  unfold Manager.releaseWait
  dsimp only
  split
  · exact modifyJob_spares h
  · exact (tryAdvanceJob_spares h).trans (modifyJob_spares h)

theorem jobCompleted_spares {ok : Bool} (h : i ≠ id) :
    (m.jobCompleted w id name ok).1.jobs.get i = m.jobs.get i := by
  unfold Manager.jobCompleted
  split
  · rfl
  · split
    · exact modifyJob_spares h
    · exact releaseWait_spares h

theorem pokeFailedJob_spares (h : i ≠ id) :
    (m.pokeFailedJob w id name).1.jobs.get i = m.jobs.get i := by
  unfold Manager.pokeFailedJob
  split
  · rfl
  · split
    · exact (finishJobFailed_spares h).trans (modifyJob_spares h)
    · exact releaseWait_spares h

theorem completeJob_spares {kinds : JobKind → Bool} (h : m.completeJob w name kinds = some out)
    (hi : ∀ job, m.unitJob.get name = some i → m.jobs.get i = some job → kinds job.kind = false) :
    out.1.jobs.get i = m.jobs.get i := by
  rcases completeJob_cases h with ⟨-, rfl⟩ | ⟨jid, job, hx, hj, ⟨hk, rfl⟩ | ⟨-, rfl⟩⟩
  · rfl
  · refine finishJob_spares fun he ↦ ?_
    subst he
    rw [hi job hx hj] at hk
    cases hk
  · rfl

/-- The end of a start spares the jobs that are not the start job of the unit, and the end of a stop
those that are not the job of the unit. -/
theorem Ends.spares (h : Ends w name kind m out)
    (hi : ∀ job, m.unitJob.get name = some i → m.jobs.get i = some job →
      kind = .start ∧ job.kind = .stop) : out.1.jobs.get i = m.jobs.get i := by
  induction h with
  | waits hk | fails _ _ hk => rw [hk.jobs]
  | completes hp _ ho =>
    rw [← hp.jobs]
    refine completeJob_spares ho fun job hx hj ↦ ?_
    rw [hp.unitJob] at hx
    rw [hp.jobs] at hj
    rw [(hi job hx hj).2]
    rfl
  | stops hp ho =>
    rw [← hp.jobs]
    refine completeJob_spares ho fun job hx hj ↦ ?_
    rw [hp.unitJob] at hx
    rw [hp.jobs] at hj
    cases (hi job hx hj).1
  | spawns idx main hk _ _ _ _ _ _ ih =>
    rw [ih fun job hx hj ↦ hi job (hk.unitJob ▸ hx) (hk.jobs ▸ hj)]
    exact congrArg (·.get i) hk.jobs

theorem newJob_spares {mode : JobMode} {next : Option Name} (h : i ≠ m.nextJob + 1) :
    (m.newJob kind name mode next).2.jobs.get i = m.jobs.get i :=
  Table.get_insert.trans (if_neg h)

theorem Expands.spares (h : Expands w m id name out) (hi : i ≠ id) :
    out.1.jobs.get i = m.jobs.get i := by
  cases h with
  | missing => exact modifyJob_spares hi
  | asserted => rfl
  | skipped => exact finishJob_spares hi
  | requisite => exact (modifyJob_spares hi).trans (modifyJob_spares hi)
  | opens => exact modifyJob_spares hi

theorem Opens.spares {needs ds : List Name} {waiting : List WaitEntry}
    (h : Opens w m id name needs waiting ds out) (hi : i ≠ id) :
    out.1.jobs.get i = m.jobs.get i := by
  cases h with
  | finish | missing => exact modifyJob_spares hi
  | skip | pending | new => rfl

end Spares

/-- The unit whose failure a call deals with. -/
def Call.fails : Call → Option Name
  | .failUnit name _ => some name
  | _ => none

/-- The calls are about no job, and none of them is the failure of a unit. -/
def Plain (cs : List Call) : Prop := ∀ c ∈ cs, c.jobId = none ∧ c.fails = none

/-- The job that the call is about is there, and a job that is being expanded is held. -/
def Found (m : Manager) : Call → Prop
  | .expandOpen id .. => ∃ job, m.jobs.get id = some job ∧ job.held
  | .maybeStartJob id | .maybeStopJob id => (m.jobs.get id).isSome
  | _ => True

/-- The call holds the job that it is about. -/
def Holds (m : Manager) (c : Call) : Prop :=
  ∀ id ∈ c.jobId, ∃ job, m.jobs.get id = some job ∧ job.held

/-- What a call leaves to do: the failure of a unit comes first, and at most one call is about a
job, which is the job of the caller or one that nobody holds. -/
inductive Builds (c : Call) (m : Manager) : Out → Prop
  | plain {m' : Manager} {cs : List Call} : Plain cs → Builds c m (m', cs)
  | fails {m' : Manager} {cs : List Call} (name : Name) (msg : String) :
      (c.nested → Clear m' name) → Plain cs → Builds c m (m', .failUnit name msg :: cs)
  | job {m' : Manager} {pre post : List Call} {c' : Call} {id : JobId} : Plain pre → Plain post →
      Nested pre → c'.nested → c'.fails = none → c'.jobId = some id →
      (c.jobId = some id ∨ ∀ job, m.jobs.get id = some job → job.held = false) → Found m' c' →
      (pre = [] ∨ Holds m' c') → Builds c m (m', pre ++ c' :: post)

namespace Plain

theorem nil : Plain [] := List.forall_mem_nil _

theorem single (h : c.jobId = none ∧ c.fails = none) : Plain [c] := List.forall_mem_singleton.mpr h

theorem append {cs' : List Call} (h : Plain cs) (h' : Plain cs') : Plain (cs ++ cs') :=
  List.forall_mem_append.mpr ⟨h, h'⟩

theorem of_settles (h : ∀ c ∈ cs, c.settles) : Plain cs := by
  intro c hc
  have hs := h c hc
  cases c <;> first | exact ⟨rfl, rfl⟩ | cases hs

theorem pokeFailed : Plain (m.pokeFailed w name) := by
  intro c hc
  obtain ⟨id, -, rfl⟩ := List.mem_map.mp hc
  exact ⟨rfl, rfl⟩

theorem map {f : Name → Call} (h : ∀ n, (f n).jobId = none ∧ (f n).fails = none) (ns : List Name) :
    Plain (ns.map f) := by
  intro c hc
  obtain ⟨n, -, rfl⟩ := List.mem_map.mp hc
  exact h n

end Plain

namespace Builds

theorem append (h : Builds c m out) (hp : Plain cs) : Builds c m (out.andThen cs) := by
  cases h with
  | plain h => exact .plain (h.append hp)
  | fails name msg hc h => exact .fails name msg hc (h.append hp)
  | job hpre hpost hn hn' hf hj ho hfound hh =>
    have he : ∀ (pre post : List Call) (c' : Call),
        (pre ++ c' :: post) ++ cs = pre ++ c' :: (post ++ cs) := by simp
    rw [Out.andThen, he]
    exact .job hpre (hpost.append hp) hn hn' hf hj ho hfound hh

theorem nil : Builds c m (m', []) := .plain .nil

/-- The one call is about a job that is there and that nobody holds. -/
theorem next {c' : Call} (hn : c'.nested) (hf : c'.fails = none) (hj : c'.jobId = some id)
    (ho : c.jobId = some id ∨ ∀ job, m.jobs.get id = some job → job.held = false)
    (hfound : Found m' c') : Builds c m (m', [c']) := by
  have hb : Builds c m (m', [] ++ c' :: []) := .job .nil .nil .nil hn hf hj ho hfound (.inl rfl)
  exact hb

theorem ends (h : Ends w name kind m out) (hc : c.nested → Clear m name) : Builds c m' out := by
  induction h with
  | waits => exact nil
  | fails msg rest hk hr =>
    refine .fails name msg (fun hn id job hx hj ↦ hc hn id job ?_ ?_) ?_
    · rwa [hk.unitJob] at hx
    · rwa [hk.jobs] at hj
    · rcases hr with rfl | rfl
      · exact .nil
      · exact .single ⟨rfl, rfl⟩
  | completes _ _ ho => exact .plain (.of_settles (Settles.completeJob ho))
  | stops _ ho => exact .plain (.of_settles (Settles.completeJob ho))
  | spawns idx main hk _ _ _ _ _ _ ih =>
    refine ih fun hn id job hx hj ↦ hc hn id job ?_ ?_
    · rwa [← hk.unitJob]
    · rwa [← hk.jobs]

theorem tryAdvanceJob (hj : m'.jobs.get id = some job)
    (h : job.kind = .start ∧ job.expanding ∨ ∀ job, m.jobs.get id = some job → job.held = false) :
    Builds c m (m'.tryAdvanceJob w id).2 := by
  unfold Manager.tryAdvanceJob
  rw [hj]
  dsimp only
  split
  · split
    · exact nil
    · next hk he =>
      have ho := h.resolve_left fun hx ↦ he hx.2
      split
      · exact .plain (.of_settles Settles.finishJobFailed)
      · split
        · exact next rfl rfl rfl (.inr ho) (by rw [Found, hj]; rfl)
        · exact nil
  · next hk =>
    have ho := h.resolve_left fun hx ↦ by rw [hk] at hx; cases hx.1
    split
    · exact next rfl rfl rfl (.inr ho) (by rw [Found, hj]; rfl)
    · exact nil
  · exact nil

theorem releaseWait (hj : m.jobs.get id = some job) : Builds c m (m.releaseWait w id job name) := by
  unfold Manager.releaseWait
  dsimp only
  split
  · exact nil
  · next hw =>
    have hj' : (m.modifyJob id (Manager.withoutWait name)).jobs.get id =
        some (Manager.withoutWait name job) := by
      rw [Manager.modifyJob, Table.get_modify, if_pos rfl, hj]
      rfl
    refine tryAdvanceJob hj' (.inr fun job₀ hj₀ ↦ ?_)
    rw [hj] at hj₀
    cases hj₀
    cases hwait : job.waiting with
    | nil => simp [Manager.withoutWait, hwait] at hw
    | cons e es => simp [Job.held, hwait]

theorem expands (h : Expands w m' id name out) (hj : m'.jobs.get id = some job)
    (hs : job.started = false) (hw : job.waiting = [])
    (hx : m'.unitJob.get name = some id) (hh : job.held = false)
    (ho : m.jobs.get id = none) : Builds c m out := by
  have hnone : ∀ job, m.jobs.get id = some job → job.held = false := by
    intro job h'
    rw [ho] at h'
    cases h'
  have hmod : ∀ f : Job → Job, (m'.modifyJob id f).jobs.get id = some (f job) := by
    intro f
    rw [Manager.modifyJob, Table.get_modify, if_pos rfl, hj]
    rfl
  cases h with
  | missing msg =>
    exact next rfl rfl rfl (.inr hnone) (by rw [Found, Manager.setFailed, hmod]; rfl)
  | asserted msg =>
    refine .fails _ _ (fun _ id' job' hx' hj' _ ↦ ?_) .nil
    have he : id = id' := Option.some.inj (hx.symm.trans hx')
    have hjob : job = job' := Option.some.inj (hj.symm.trans (he ▸ hj'))
    rw [← hjob, hh]
  | skipped => exact .plain (.of_settles Settles.finishJob)
  | requisite msg =>
    refine next rfl rfl rfl (.inr hnone) ?_
    rw [Found, Manager.setFailed, Manager.modifyJob, Table.get_modify, if_pos rfl, Option.isSome_map,
      Manager.markExpanding, hmod]
    rfl
  | opens waiting =>
    have held : Holds (m'.markExpanding id) (.expandOpen id name (startClosure m'.units name).1 waiting
        (Manager.openList (startClosure m'.units name).1 (startClosure m'.units name).2.1)) := by
      intro id' hid
      cases hid
      exact ⟨_, hmod _, by simp [Job.held, hs, hw]⟩
    refine .job (.map (fun _ ↦ ⟨rfl, rfl⟩) _) .nil (fun c hc ↦ ?_) rfl rfl rfl (.inr hnone)
      (held id rfl) (.inr held)
    obtain ⟨n, -, rfl⟩ := List.mem_map.mp hc
    rfl

theorem newJob_get_self {mode : JobMode} {next : Option Name} :
    (m.newJob kind name mode next).2.jobs.get (m.nextJob + 1) =
      some { unit := name, kind, mode, startAfterStop := next } :=
  Table.get_insert_self

theorem fresh_none (hm : Sound m) : m.jobs.get (m.nextJob + 1) = none := by
  cases h : m.jobs.get (m.nextJob + 1) with
  | none => rfl
  | some job => exact absurd (hm.fresh _ job h) (by simp)

theorem enqueueStartJob {mode : JobMode} (hm : Sound m) (hn : m'.nextJob = m.nextJob)
    (h : m'.enqueueStartJobMode w name mode = some out) : Builds c m out := by
  refine expands (expandStartJob_cases h) newJob_get_self rfl rfl Table.get_insert_self rfl ?_
  change m.jobs.get (m'.nextJob + 1) = none
  rw [hn, fresh_none hm]

theorem enqueueStop {mode : JobMode} {next : Option Name} (hm : Sound m)
    (hn : m'.nextJob = m.nextJob) : Builds c m (m'.enqueueStopJobAfterMode w name next mode) := by
  have hget : (m'.newJob .stop name mode next).2.jobs.get (m'.nextJob + 1) =
      some { unit := name, kind := .stop, mode, startAfterStop := next } := newJob_get_self
  have held : Holds (m'.newJob .stop name mode next).2 (.maybeStopJob (m'.nextJob + 1)) := by
    intro id hid
    cases hid
    exact ⟨_, hget, rfl⟩
  refine .job (.map (fun _ ↦ ⟨rfl, rfl⟩) _) .nil (fun c hc ↦ ?_) rfl rfl rfl ?_ ?_ (.inr held)
  · obtain ⟨n, -, rfl⟩ := List.mem_map.mp hc
    rfl
  · change _ ∨ ∀ job, m.jobs.get (m'.nextJob + 1) = some job → _
    rw [hn, fresh_none hm]
    exact .inr fun _ h ↦ by cases h
  · change ((m'.newJob .stop name mode next).2.jobs.get (m'.nextJob + 1)).isSome
    rw [hget]
    rfl

theorem opens {needs ds : List Name} {waiting : List WaitEntry}
    (h : Opens w m id name needs waiting ds out) (hc : c.jobId = some id) (hj : m.jobs.get id = some job)
    (hh : job.held) : Builds c m out := by
  have hmod : ∀ f : Job → Job, (m.modifyJob id f).jobs.get id = some (f job) := by
    intro f
    rw [Manager.modifyJob, Table.get_modify, if_pos rfl, hj]
    rfl
  cases h with
  | finish u after before =>
    exact next rfl rfl rfl (.inl hc) (by rw [Found, Manager.commitWaiting, hmod]; rfl)
  | missing d ds msg => exact next rfl rfl rfl (.inl hc) (by rw [Found, Manager.setFailed, hmod]; rfl)
  | skip d ds => exact next rfl rfl rfl (.inl hc) ⟨job, hj, hh⟩
  | pending d ds => exact next rfl rfl rfl (.inl hc) ⟨job, hj, hh⟩
  | new d ds =>
    have held : Holds m (.expandOpen id name needs (waiting ++ [⟨d, decide (d ∈ needs)⟩]) ds) := by
      intro id' hid
      cases hid
      exact ⟨job, hj, hh⟩
    have hpre : Plain [.enqueueStartJob d] := .single ⟨rfl, rfl⟩
    exact .job hpre .nil (.single rfl) rfl rfl rfl (.inl hc) ⟨job, hj, hh⟩ (.inr held)

theorem starts {mode : JobMode} {reply : Manager.StartReply} (hm : Sound m)
    (h : Starts w m name mode reply out) : Builds c m out := by
  cases h with
  | unloadable | shutdown | active | pending | irreversible => exact nil
  | cancels => exact .plain ((Plain.of_settles Settles.cancelJob).append (.single ⟨rfl, rfl⟩))
  | enqueues hl _ _ _ ho =>
    have ha := ensureUnitLoaded_adds hl
    exact (enqueueStartJob hm ha.nextJob ho).append (.single ⟨rfl, rfl⟩)

theorem restart {reply : Manager.Reply} (hm : Sound m) (h : m.restart w name = some (reply, out)) :
    Builds c m out := by
  rcases restart_cases h with ⟨-, rfl⟩ | ⟨-, rfl, -⟩ | ⟨-, cs, hcs, rfl⟩ | ⟨-, reply', h, -⟩
  · exact nil
  · exact nil
  · have hn : (m.dropStartJob name).nextJob = m.nextJob := by
      unfold Manager.dropStartJob
      split
      · rfl
      · split <;> rfl
    refine (enqueueStop hm hn).append fun c hc ↦ ?_
    rcases List.mem_cons.mp hc with rfl | hc
    · exact ⟨rfl, rfl⟩
    · rcases hcs with rfl | ⟨service, rfl⟩
      · cases hc
      · rw [List.mem_singleton.mp hc]
        exact ⟨rfl, rfl⟩
  · exact starts hm h

theorem stopWithMode {mode : JobMode} (hm : Sound m) : Builds c m (m.stopWithMode w name mode).2 := by
  unfold Manager.stopWithMode
  split
  · exact nil
  · split
    · exact nil
    · split
      · exact (enqueueStop hm rfl).append (.single ⟨rfl, rfl⟩)
      · split
        · refine .plain ((Plain.of_settles Settles.cancelJob).append fun c hc ↦ ?_)
          simp only [List.mem_cons, List.not_mem_nil, or_false] at hc
          rcases hc with rfl | rfl <;> exact ⟨rfl, rfl⟩
        · exact nil

theorem startIgnoreDependencies (hm : Sound m) :
    Builds c m (m.startIgnoreDependencies name).2 := by
  unfold Manager.startIgnoreDependencies
  split
  · exact nil
  · split
    · exact nil
    · have hn : (m.dropJob name).nextJob = m.nextJob := by
        unfold Manager.dropJob
        split <;> rfl
      have hj : c.jobId = some ((m.dropJob name).nextJob + 1) ∨
          ∀ job, m.jobs.get ((m.dropJob name).nextJob + 1) = some job → job.held = false := by
        rw [hn, fresh_none hm]
        exact .inr fun _ h ↦ by cases h
      have hb : Builds c m (((m.dropJob name).newJob .start name .replace none).2,
          [.maybeStartJob ((m.dropJob name).nextJob + 1)]) :=
        next rfl rfl rfl hj (by rw [Found, newJob_get_self]; rfl)
      exact hb.append (.single ⟨rfl, rfl⟩)

theorem activeExit (h : ActiveExit w name m' out) : Builds c m out := by
  have hf : Plain [.fireOnFailure name] := .single ⟨rfl, rfl⟩
  cases h with
  | limit => exact .plain .pokeFailed
  | restart => exact nil
  | ended _ _ ho =>
    have hs := Settles.completeJob ho
    exact .plain ((Plain.of_settles hs).append (.single ⟨rfl, rfl⟩))
  | failed => exact .plain (Plain.pokeFailed.append hf)

theorem mainExit {exit : ChildExit} (hc : c.nested = false) (h : m'.mainExit w name exit = some out) :
    Builds c m out := by
  have event {P : Prop} : c.nested → P := fun hn ↦ by rw [hc] at hn; cases hn
  obtain ⟨u, -, h⟩ := mainExit_ends h
  cases h with
  | stopped _ he => exact ends he event
  | vanished => exact nil
  | fails => exact .fails _ _ event .nil
  | active _ _ he => exact activeExit he

theorem failUnit {msg : String} (h : m.failUnit w name msg = some out) : Builds c m out := by
  have hf : Plain [.fireOnFailure name] := .single ⟨rfl, rfl⟩
  obtain ⟨m', -, ⟨jid, job, -, -, -, rfl⟩ | ⟨-, rfl⟩⟩ := failUnit_ends h
  · exact .plain ((Plain.of_settles Settles.finishJobFailed).append hf)
  · exact .plain (Plain.pokeFailed.append hf)

theorem fireTimer {kind : TimerKind} (hc : c.nested = false)
    (h : m.fireTimer w name kind = some out) : Builds c m out := by
  have event {P : Prop} : c.nested → P := fun hn ↦ by rw [hc] at hn; cases hn
  rcases fireTimer_cases h with h | ⟨m', target, hq, rfl⟩
  · cases h with
    | ignored => exact nil
    | restart _ _ ho =>
      obtain ⟨m₁, -, -, he⟩ := (doStart_begins ho).ends
      exact (ends he event).append (.single ⟨rfl, rfl⟩)
    | start msg _ hk => exact .fails _ _ event .nil
    | stop _ he => exact ends he event
  · refine .plain fun c hc ↦ ?_
    simp only [List.mem_cons, List.not_mem_nil, or_false] at hc
    rcases hc with rfl | rfl | rfl <;> exact ⟨rfl, rfl⟩

theorem processExit {pid : Pid} {exit : ChildExit} (hc : c.nested = false)
    (h : m.processExit w pid exit = some out) : Builds c m out := by
  have event {P : Prop} : c.nested → P := fun hn ↦ by rw [hc] at hn; cases hn
  cases processExit_cases h with
  | ignored => exact nil
  | main => exact .plain (.single ⟨rfl, rfl⟩)
  | control _ _ _ _ h =>
    rcases handleControlExit_cases h with ⟨-, he⟩ | ⟨-, m', -, he⟩ | ⟨-, rfl⟩ | rfl
    · exact ends he event
    · exact ends he event
    · exact .plain (.single ⟨rfl, rfl⟩)
    · exact nil

/-- The start job that begins leaves the jobs of its unit clear. -/
theorem maybeStartJob (hC : keepsJobs w (.maybeStartJob id) m) (h : m.maybeStartJob w id = some out) :
    Builds (.maybeStartJob id) m out := by
  obtain ⟨job, hj, ⟨-, rfl⟩ | ⟨-, -, rfl⟩ | ⟨-, -, -, -, m', hk, h⟩⟩ := maybeStartJob_cases h
  · exact .plain (.of_settles Settles.finishJobFailed)
  · exact nil
  · rcases h with ⟨msg, rfl⟩ | h
    · exact .plain (.of_settles Settles.finishJobFailed)
    · obtain ⟨m₁, hl, -, he⟩ := (doStart_begins h).ends
      refine ends he fun _ i other hx hi hkind ↦ ?_
      rw [hl.unitJob, hk.unitJob] at hx
      rw [hl.jobs, hk.jobs, Manager.markStarted, Manager.modifyJob, Table.get_modify] at hi
      split at hi
      · obtain ⟨j, -, rfl⟩ := Option.map_eq_some_iff.mp hi
        rfl
      · next hne =>
        have hof : m.jobOf job.unit = some (i, other) := by
          rw [Manager.jobOf, show m.unitJob.get job.unit = some i from hx, Option.bind_some, hi]
          rfl
        have := (Bool.and_eq_true ..).mp hC
        simpa [hj, hof, hne, hkind] using this.2

theorem maybeStopJob (h : m.maybeStopJob w id = some out) : Builds (.maybeStopJob id) m out := by
  obtain ⟨job, hj, ⟨-, rfl⟩ | ⟨-, -, rfl⟩ | ⟨-, -, h⟩⟩ := maybeStopJob_cases h
  · exact .plain (.of_settles Settles.finishJob)
  · exact nil
  · obtain ⟨m₁, hp, he⟩ := doStop_begins h
    refine ends he fun _ i other hx hi hkind ↦ ?_
    rw [hp.unitJob] at hx
    have hid : id = i := Option.some.inj (Table.get_insert_self.symm.trans hx)
    subst hid
    rw [hp.jobs, Manager.markStarted, Manager.modifyJob, Table.get_modify, if_pos rfl] at hi
    obtain ⟨j, -, rfl⟩ := Option.map_eq_some_iff.mp hi
    rfl

end Builds

theorem exec_builds (hm : Sound m) (hf : Found m c) (hC : keepsJobs w c m)
    (h : exec w c m = some out) : Builds c m out := by
  have ofMap {α : Type} {f : α → Call} {l : List α}
      (hp : ∀ a, (f a).jobId = none ∧ (f a).fails = none) : Plain (l.map f) := by
    intro c hc
    obtain ⟨a, -, rfl⟩ := List.mem_map.mp hc
    exact hp a
  cases c with
  | start name mode =>
    obtain ⟨r, hr, rfl⟩ := Option.map_eq_some_iff.mp h
    exact .starts hm (startWithMode_cases hr)
  | startIgnoreDependencies name => cases h; exact .startIgnoreDependencies hm
  | stop name mode => cases h; exact .stopWithMode hm
  | enqueueStop name mode => cases h; exact .enqueueStop hm rfl
  | revive name =>
    obtain ⟨m', -, rfl⟩ := revive_puts h
    exact .nil
  | restart name =>
    obtain ⟨r, hr, rfl⟩ := Option.map_eq_some_iff.mp h
    exact .restart hm hr
  | restartActivated name | tryRestart name =>
    change (if _ then _ else _) = _ at h
    split at h
    · obtain ⟨r, hr, rfl⟩ := Option.map_eq_some_iff.mp h
      exact .restart hm hr
    · cases h
      exact .nil
  | restartOrStart name =>
    change (if _ then _ else _) = _ at h
    split at h
    · obtain ⟨r, hr, rfl⟩ := Option.map_eq_some_iff.mp h
      exact .restart hm hr
    · obtain ⟨r, hr, rfl⟩ := Option.map_eq_some_iff.mp h
      exact .starts hm (startWithMode_cases hr)
  | reload name => exact .ends (reload_ends h .start) nofun
  | kill name sig =>
    obtain ⟨u, -, h⟩ := Option.bind_eq_some_iff.mp h
    cases h
    exact .nil
  | isolate name =>
    cases h
    exact .plain ((ofMap fun _ ↦ ⟨rfl, rfl⟩).append (.single ⟨rfl, rfl⟩))
  | shutdown =>
    cases h
    unfold Manager.shutdown
    split
    · exact .nil
    · exact .plain ((ofMap fun _ ↦ ⟨rfl, rfl⟩).append (.single ⟨rfl, rfl⟩))
  | tick =>
    cases h
    refine .plain ((ofMap fun _ ↦ ⟨rfl, rfl⟩).append fun c hc ↦ ?_)
    simp only [List.mem_cons, List.not_mem_nil, or_false] at hc
    rcases hc with rfl | rfl | rfl <;> exact ⟨rfl, rfl⟩
  | reap => cases h; exact .plain (ofMap fun _ ↦ ⟨rfl, rfl⟩)
  | pollPaths =>
    cases h
    refine .plain fun c hc ↦ ?_
    rcases pollPaths_calls hc with rfl | ⟨name, rfl⟩ <;> exact ⟨rfl, rfl⟩
  | notify ready pid =>
    rcases handleNotify_ends h with rfl | ⟨name, -, he⟩
    · exact .nil
    · exact .ends he nofun
  | nameAcquired busName =>
    obtain ⟨name, m', hk, rfl | ⟨-, he⟩⟩ := nameAcquired_ends h
    · exact .nil
    · exact .ends he nofun
  | socketReady fd =>
    cases h
    refine .plain fun c hc ↦ ?_
    obtain ⟨t, -, rfl⟩ := Option.map_eq_some_iff.mp (Option.mem_toList.mp hc)
    exact ⟨rfl, rfl⟩
  | enqueueStartJob name => exact .enqueueStartJob hm rfl h
  | stopConflict name =>
    rcases stopConflict_cases h with rfl | ⟨-, rfl, -⟩
    · exact .nil
    · exact .enqueueStop hm rfl
  | stopDependent name =>
    cases h
    rcases stopDependent_cases name with he | ⟨-, -, he⟩
    · rw [he]
      exact .nil
    · rw [he]
      exact .enqueueStop hm rfl
  | expandOpen id name needs waiting ds =>
    obtain ⟨job, hj, hh⟩ := hf
    exact .opens (expandOpen_cases h) rfl hj hh
  | maybeStartJob id => exact .maybeStartJob hC h
  | maybeStopJob id => exact .maybeStopJob h
  | processJobs => cases h; exact .plain (.single ⟨rfl, rfl⟩)
  | processPass ids changed =>
    cases h
    unfold Manager.processPass
    split
    · split
      · exact .plain (.single ⟨rfl, rfl⟩)
      · exact .nil
    · next id ids =>
      refine Builds.append ?_ (.single ⟨rfl, rfl⟩)
      cases hj : m.jobs.get id with
      | none =>
        rw [Manager.tryAdvanceJob, hj]
        exact .nil
      | some job =>
        refine .tryAdvanceJob hj ?_
        rw [or_iff_not_imp_left]
        intro he job' hj'
        rw [hj] at hj'
        cases hj'
        have := (Bool.and_eq_true ..).mp hC
        have hs : ¬ job.kind = .stop ∨ job.held = false := by simpa [hj] using this.2
        refine hs.elim (fun hk ↦ ?_) fun h ↦ h
        have hr := hm.kinds id job hj
        cases hkind : job.kind with
        | start => simp_all [Job.held]
        | stop => exact absurd hkind hk
        | restart => exact absurd hkind hr
  | jobCompleted id unit ok =>
    cases h
    change Builds _ m (m.jobCompleted w id unit ok)
    unfold Manager.jobCompleted
    split
    · exact .nil
    · next hj =>
      split
      · exact .nil
      · exact .releaseWait hj
  | pokeFailedJob id name =>
    cases h
    change Builds _ m (m.pokeFailedJob w id name)
    unfold Manager.pokeFailedJob
    split
    · exact .nil
    · next hj =>
      split
      · exact .plain (.of_settles Settles.finishJobFailed)
      · exact .releaseWait hj
  | failUnit name msg => exact .failUnit h
  | fireOnFailure name =>
    obtain ⟨u, -, h⟩ := Option.bind_eq_some_iff.mp h
    cases h
    exact .plain ((ofMap fun _ ↦ ⟨rfl, rfl⟩).append (.single ⟨rfl, rfl⟩))
  | armStartTimeout name =>
    obtain ⟨u, -, h⟩ := Option.map_eq_some_iff.mp h
    cases h
    exact .nil
  | loadAll | timerDepCheck | rearmTimer =>
    obtain ⟨m', -, rfl⟩ := Option.map_eq_some_iff.mp h
    exact .nil
  | resetFailed | loadUnit | udevRegister | udevRemove => cases h; exact .nil
  | fireTimer name kind => exact .fireTimer rfl h
  | processExit pid exit => exact .processExit rfl h
  | mainExit name exit => exact .mainExit rfl h

theorem Job.held_waiting (h : job.held) : job.waiting = [] := by
  simp only [Job.held, Bool.and_eq_true] at h
  exact List.isEmpty_iff.mp h.1.2

theorem jobOf_of_get (hx : m.unitJob.get name = some id) (hj : m.jobs.get id = some job) :
    m.jobOf name = some (id, job) := by
  rw [Manager.jobOf, hx, Option.bind_some, hj, Option.map_some]

/-- A held job waits for nothing, so there is nothing to release. -/
theorem releaseWait_held (hj : m.jobs.get id = some job) (hh : job.held) :
    (m.releaseWait w id job name).1.jobs.get id = some job := by
  have hsame : Manager.withoutWait name job = job := by
    cases job
    simp_all [Manager.withoutWait, Job.held]
  have hget : (m.modifyJob id (Manager.withoutWait name)).jobs.get id = some job := by
    rw [Manager.modifyJob, Table.get_modify, if_pos rfl, hj, Option.map_some, hsame]
  unfold Manager.releaseWait
  rw [hsame, if_pos rfl]
  exact hget

theorem waitsRequired_held (hh : job.held) : Manager.waitsRequired job name = false := by
  rw [Manager.waitsRequired, Job.held_waiting hh]
  rfl

theorem tryAdvanceJob_held (hj : m.jobs.get id = some job) (hh : job.held)
    (hk : job.kind ≠ .stop) : (m.tryAdvanceJob w id).2.1.jobs.get id = some job := by
  have he : job.expanding := by simp_all [Job.held]
  unfold Manager.tryAdvanceJob
  rw [hj]
  cases hkind : job.kind with
  | start => simpa [hkind, he] using hj
  | stop => exact absurd hkind hk
  | restart => simpa [hkind] using hj

theorem Starts.spares {mode : JobMode} {reply : Manager.StartReply} (hm : Sound m)
    (h : Starts w m name mode reply out) (hC : keepsJobs w (.start name mode) m)
    (hj : m.jobs.get i = some job) (hh : job.held) : out.1.jobs.get i = m.jobs.get i := by
  cases h with
  | unloadable => rfl
  | shutdown hl | active hl | pending hl | irreversible _ hl => rw [(ensureUnitLoaded_adds hl).jobs]
  | cancels msg hl hs ha hof hk =>
    have hadds := ensureUnitLoaded_adds hl
    refine (cancelJob_spares ?_).trans (congrArg (·.get i) hadds.jobs)
    rintro rfl
    obtain ⟨hx, hj'⟩ := jobOf_eq hof
    rw [hadds.unitJob] at hx
    rw [hadds.jobs, hj] at hj'
    cases hj'
    have hna : m.unitActive name = false := by
      refine eq_false_of_ne_true fun hna ↦ ?_
      obtain ⟨u, hu, hua⟩ := (Option.any_eq_true ..).mp hna
      rw [Manager.unitActive, hadds.units.kept name u hu] at ha
      simp_all
    rw [hadds.shuttingDown] at hs
    have hC' := ((Bool.and_eq_true ..).mp hC).2
    have hr := hm.kinds _ job hj
    cases hkind : job.kind with
    | start => exact hk hkind
    | stop => simp [hs, hna, jobOf_of_get hx hj, hkind, hh] at hC'
    | restart => exact hr hkind
  | enqueues hl _ _ _ ho =>
    have hadds := ensureUnitLoaded_adds hl
    have hfresh : i ≠ m.nextJob + 1 := by
      rintro rfl
      rw [Builds.fresh_none hm] at hj
      cases hj
    rw [← hadds.nextJob] at hfresh
    exact ((expandStartJob_cases ho).spares hfresh).trans
      ((newJob_spares hfresh).trans (congrArg (·.get i) hadds.jobs))

/-- What a nested call leaves of a job that another one holds. -/
theorem exec_spares (hm : Sound m) (hn : c.nested) (hC : keepsJobs w c m)
    (hclear : ∀ name msg, c = .failUnit name msg → Clear m name) (h : exec w c m = some out)
    (hj : m.jobs.get i = some job) (hh : job.held) (hi : c.jobId ≠ some i) :
    out.1.jobs.get i = some job := by
  have hfresh : i ≠ m.nextJob + 1 := by
    rintro rfl
    rw [Builds.fresh_none hm] at hj
    cases hj
  rw [← hj]
  cases c with
  | start name mode =>
    obtain ⟨r, hr, rfl⟩ := Option.map_eq_some_iff.mp h
    exact (startWithMode_cases hr).spares hm hC hj hh
  | revive name =>
    obtain ⟨m', hp, rfl⟩ := revive_puts h
    rw [hp.jobs]
  | enqueueStop name mode => cases h; exact newJob_spares hfresh
  | enqueueStartJob name =>
    exact ((expandStartJob_cases h).spares hfresh).trans (newJob_spares hfresh)
  | stopConflict name =>
    rcases stopConflict_cases h with rfl | ⟨-, rfl, -⟩
    · rfl
    · exact newJob_spares hfresh
  | stopDependent name =>
    cases h
    rcases stopDependent_cases name with he | ⟨-, -, he⟩
    · rw [he]
    · rw [he]
      exact newJob_spares hfresh
  | expandOpen id name needs waiting ds =>
    refine (expandOpen_cases h).spares fun he ↦ hi ?_
    rw [he, Call.jobId]
  | maybeStartJob id =>
    have hne : i ≠ id := fun he ↦ hi (by rw [he, Call.jobId])
    obtain ⟨job', hj', ⟨-, rfl⟩ | ⟨-, -, rfl⟩ | ⟨-, -, -, -, m', hk, h⟩⟩ := maybeStartJob_cases h
    · exact finishJobFailed_spares hne
    · rfl
    · have hm' : m'.jobs.get i = m.jobs.get i := by
        rw [hk.jobs, Manager.markStarted, modifyJob_spares hne]
      rcases h with ⟨msg, rfl⟩ | h
      · exact (finishJobFailed_spares hne).trans ((modifyJob_spares hne).trans hm')
      · obtain ⟨m₁, hl, -, he⟩ := (doStart_begins h).ends
        rw [he.spares fun j hx hj₁ ↦ ?_, hl.jobs, hm']
        rw [hl.jobs, hm', hj] at hj₁
        rw [hl.unitJob, hk.unitJob] at hx
        cases hj₁
        have hC' := ((Bool.and_eq_true ..).mp hC).2
        have hr := hm.kinds i job hj
        have hs : job.kind ≠ .start := by
          intro hkind
          simp [hj', jobOf_of_get (show m.unitJob.get job'.unit = some i from hx) hj, hne, hkind,
            hh] at hC'
        cases hkind : job.kind with
        | start => exact absurd hkind hs
        | stop => exact ⟨rfl, rfl⟩
        | restart => exact absurd hkind hr
  | maybeStopJob id =>
    have hne : i ≠ id := fun he ↦ hi (by rw [he, Call.jobId])
    obtain ⟨job', hj', ⟨-, rfl⟩ | ⟨-, -, rfl⟩ | ⟨-, -, h⟩⟩ := maybeStopJob_cases h
    · exact finishJob_spares hne
    · rfl
    · obtain ⟨m₁, hp, he⟩ := doStop_begins h
      rw [he.spares fun j hx hj₁ ↦ ?_, hp.jobs, Manager.markStarted, modifyJob_spares hne]
      rw [hp.unitJob] at hx
      exact absurd (Option.some.inj (Table.get_insert_self.symm.trans hx)) hne.symm
  | processJobs => cases h; rfl
  | processPass ids changed =>
    cases h
    change (m.processPass w ids changed).1.jobs.get i = _
    unfold Manager.processPass
    split
    · rfl
    · next id ids =>
      change (m.tryAdvanceJob w id).2.1.jobs.get i = _
      by_cases hne : i = id
      · subst hne
        rw [hj]
        refine tryAdvanceJob_held hj hh fun hk ↦ ?_
        have hC' := ((Bool.and_eq_true ..).mp hC).2
        simp [hj, hk, hh] at hC'
      · exact tryAdvanceJob_spares hne
  | jobCompleted id unit ok =>
    cases h
    by_cases hne : i = id
    · subst hne
      change (m.jobCompleted w i unit ok).1.jobs.get i = _
      rw [Manager.jobCompleted, hj]
      simpa [waitsRequired_held hh] using releaseWait_held hj hh
    · exact jobCompleted_spares hne
  | pokeFailedJob id name =>
    cases h
    by_cases hne : i = id
    · subst hne
      change (m.pokeFailedJob w i name).1.jobs.get i = _
      rw [Manager.pokeFailedJob, hj]
      simpa [waitsRequired_held hh] using releaseWait_held hj hh
    · exact pokeFailedJob_spares hne
  | failUnit name msg =>
    obtain ⟨m', hp, ⟨jid, job', hx, hj', hk, rfl⟩ | ⟨-, rfl⟩⟩ := failUnit_ends h
    · have hne : i ≠ jid := by
        rintro rfl
        rw [hj] at hj'
        cases hj'
        rw [hclear name msg rfl i job hx hj hk] at hh
        cases hh
      exact (finishJobFailed_spares hne).trans ((modifyJob_spares hne).trans
        (congrArg (·.get i) hp.jobs))
    · rw [hp.jobs]
  | fireOnFailure name =>
    obtain ⟨u, -, h⟩ := Option.bind_eq_some_iff.mp h
    cases h
    rfl
  | armStartTimeout name =>
    obtain ⟨u, -, h⟩ := Option.map_eq_some_iff.mp h
    cases h
    rfl
  | timerDepCheck =>
    obtain ⟨m', hm', rfl⟩ := Option.map_eq_some_iff.mp h
    rw [(Quiet.rearmTimers hm').jobs]
  | _ => cases hn

end Rystemd
