import Rystemd.JobIndex

namespace Rystemd

open Worklist

/-- The state of a unit while its job of this kind runs. -/
def JobKind.during : JobKind → ActiveState
  | .start => .activating
  | .stop | .restart => .deactivating

namespace Manager

end Manager

/-- Each job is the one of its unit, and each started one finds its unit in the state of
such a job, less the unit `x`. -/
structure Coherent (x : Option Name) (m : Manager) : Prop where
  covers : Index.Covers Job.unit m.jobs m.unitJob
  started : ∀ id job, m.jobs.get id = some job → job.started → some job.unit ≠ x →
    m.activeOf job.unit = some job.kind.during

/-- The unit that the next call is about to fail. -/
def failing : List Call → Option Name
  | .failUnit name _ :: _ => some name
  | _ => none

/-- What a procedure leaves of a coherent table. -/
def Tidy (out : Out) : Prop := Coherent (failing out.2) out.1

variable {w : World} {m m' : Manager} {name : Name} {out : Out} {id : JobId} {job : Job}
  {kind : JobKind} {x : Option Name} {s : ActiveState} {cs : List Call}

namespace Coherent

theorem weaken (h : Coherent none m) : Coherent x m :=
  ⟨h.covers, fun id job hj hs _ ↦ h.started id job hj hs (by simp)⟩

theorem tidy (h : Coherent none out.1) : Tidy out := h.weaken

theorem during (h : Coherent none m) (hj : m.jobs.get id = some job) (hs : job.started) :
    m.activeOf job.unit = some job.kind.during :=
  h.started id job hj hs (by simp)

theorem eq_of_unit (h : Coherent x m) {id' : JobId} {job' : Job} (hj : m.jobs.get id = some job)
    (hj' : m.jobs.get id' = some job') (hu : job.unit = job'.unit) : id = id' ∧ job = job' := by
  obtain rfl := h.covers.inj hj hj' hu
  rw [hj] at hj'
  exact ⟨rfl, Option.some.inj hj'⟩

theorem jobOf (h : Coherent x m) (hj : m.jobs.get id = some job) :
    m.jobOf job.unit = some (id, job) := by
  rw [Manager.jobOf, h.covers id job hj, Option.bind_some, hj]
  rfl

theorem of_eq (h : Coherent x m) (hj : m'.jobs = m.jobs) (hx : m'.unitJob = m.unitJob)
    (ha : ∀ n, m'.activeOf n = m.activeOf n) : Coherent x m' where
  covers := by rw [hj, hx]; exact h.covers
  started id job := by rw [hj, ha]; exact h.started id job

theorem same (h : Coherent x m) (hl : Local name m m') (ha : m'.activeOf name = m.activeOf name) :
    Coherent x m' := by
  refine h.of_eq hl.jobs hl.unitJob fun n ↦ ?_
  by_cases hn : n = name
  · rw [hn, ha]
  · exact hl.activeOf_ne hn

theorem keeps (h : Coherent x m) (hk : Keeps name m m') : Coherent x m' :=
  h.same hk.toLocal hk.active

theorem quiet (h : Coherent x m) (hq : Quiet m m') : Coherent x m' :=
  h.of_eq hq.jobs hq.unitJob hq.activeOf

/-- The unit may change under its own started job only if this is allowed for later. -/
theorem local_ (h : Coherent x m) (hl : Local name m m') (hx : x = none ∨ x = some name) :
    Coherent (some name) m' where
  covers := by rw [hl.jobs, hl.unitJob]; exact h.covers
  started id job hj hs hne := by
    have hn : job.unit ≠ name := fun he ↦ hne (by rw [he])
    rw [hl.activeOf_ne hn]
    rw [hl.jobs] at hj
    refine h.started id job hj hs ?_
    rcases hx with rfl | rfl
    · nofun
    · exact hne

/-- The allowance for a unit is not needed if its started job agrees with its state. -/
theorem settle (h : Coherent (some name) m) (hs : ∀ id job, m.jobs.get id = some job →
    job.unit = name → job.started → m.activeOf name = some job.kind.during) : Coherent none m where
  covers := h.covers
  started id job hj hst _ := by
    by_cases hn : job.unit = name
    · rw [hn]
      exact hs id job hj hn hst
    · exact h.started id job hj hst fun he ↦ hn (Option.some.inj he)

theorem puts (h : Coherent none m) (hp : Puts name s m m') (hs : ∀ id job, m.jobs.get id = some job →
    job.unit = name → job.started → job.kind.during = s) : Coherent none m' := by
  refine (h.local_ hp.toLocal (.inl rfl)).settle fun id job hj hu hst ↦ ?_
  rw [hp.jobs] at hj
  rw [hp.active, hs id job hj hu hst]

theorem modifyJob (h : Coherent x m) {f : Job → Job} (hf : ∀ j, (f j).unit = j.unit ∧
    (f j).kind = j.kind ∧ ((f j).started → j.started)) : Coherent x (m.modifyJob id f) where
  covers := h.covers.modify fun j ↦ (hf j).1
  started id' job' hj hs hx := by
    rw [Manager.modifyJob, Table.get_modify] at hj
    split at hj
    · obtain ⟨job, hj', rfl⟩ := Option.map_eq_some_iff.mp hj
      rw [(hf job).1, (hf job).2.1]
      rw [(hf job).1] at hx
      exact h.started id' job hj' ((hf job).2.2 hs) hx
    · exact h.started id' job' hj hs hx

theorem markStarted (h : Coherent none m) (hj : m.jobs.get id = some job) :
    Coherent (some job.unit) (m.markStarted id) where
  covers := h.covers.modify fun _ ↦ rfl
  started id' job' hj' hs hx := by
    rw [Manager.markStarted, Manager.modifyJob, Table.get_modify] at hj'
    split at hj'
    · next he =>
      rw [he, hj] at hj'
      cases hj'
      exact absurd rfl hx
    · exact h.during hj' hs

theorem removeJob (h : Coherent x m) (hj : m.jobs.get id = some job)
    (hx : ∀ n, x = some n → n = job.unit) {ok : Bool} {error : Option String} :
    Coherent none ((m.recordJobResult id ok error).removeJob id job.unit) where
  covers := h.covers.remove
  started id' job' hj' hs _ := by
    simp only [Manager.removeJob, Manager.recordJobResult, Table.get_remove] at hj'
    split at hj'
    · cases hj'
    · next hne =>
      refine h.started id' job' hj' hs fun he ↦ hne ?_
      exact (h.eq_of_unit hj' hj (hx _ he.symm)).1

theorem newJob (h : Coherent none m) (hn : m.unitJob.get name = none) {mode : JobMode}
    {next : Option Name} : Coherent none (m.newJob kind name mode next).2 where
  covers := h.covers.insert hn
  started id' job' hj hs _ := by
    simp only [Manager.newJob, Table.get_insert] at hj
    split at hj
    · cases hj
      cases hs
    · exact h.during hj hs

theorem eraseJob (h : Coherent none m) (hx : m.unitJob.get name = some id) :
    Coherent none { m with unitJob := m.unitJob.remove name, jobs := m.jobs.remove id } where
  covers := h.covers.erase hx
  started id' job' hj hs _ := by
    dsimp only at hj
    rw [Table.get_remove] at hj
    split at hj
    · cases hj
    · exact h.during hj hs

end Coherent

theorem Tidy.append (h : Tidy out) : Coherent (failing (out.2 ++ cs)) out.1 := by
  obtain ⟨m', calls⟩ := out
  cases calls with
  | nil => exact Coherent.weaken h
  | cons c calls =>
    have he : failing (c :: calls ++ cs) = failing (c :: calls) := by cases c <;> rfl
    rw [he]
    exact h

theorem finishJob_coherent (h : Coherent x m) (hx : ∀ n, x = some n → ∃ job,
    m.jobs.get id = some job ∧ n = job.unit) : Coherent none (m.finishJob w id).1 := by
  unfold Manager.finishJob
  split
  · next hj =>
    cases x with
    | none => exact h
    | some n =>
      obtain ⟨job, hj', -⟩ := hx n rfl
      rw [hj] at hj'
      cases hj'
  · next job hj =>
    refine h.removeJob hj fun n hn ↦ ?_
    obtain ⟨job', hj', rfl⟩ := hx n hn
    rw [hj] at hj'
    cases hj'
    rfl

theorem cancelJob_coherent {msg : String} (h : Coherent none m) :
    Coherent none (m.cancelJob w id msg).1 := by
  unfold Manager.cancelJob
  split
  · exact h
  · next job hj => exact h.removeJob hj nofun

/-- A started job of the unit is of a kind that is completed. -/
theorem completeJob_coherent {kinds : JobKind → Bool} (h : Coherent (some name) m)
    (hk : ∀ id job, m.jobs.get id = some job → job.unit = name → job.started → kinds job.kind)
    (ho : m.completeJob w name kinds = some out) : Coherent none out.1 := by
  rcases completeJob_cases ho with ⟨hx, rfl⟩ | ⟨jid, job, hx, hj, ⟨-, rfl⟩ | ⟨hf, rfl⟩⟩
  · refine h.settle fun id job hj hu _ ↦ ?_
    have hx' := h.covers id job hj
    rw [hu, hx] at hx'
    cases hx'
  · by_cases hu : job.unit = name
    · exact finishJob_coherent h fun n hn ↦ ⟨job, hj, by rw [← Option.some.inj hn, hu]⟩
    · refine finishJob_coherent (x := none) (h.settle fun id' job' hj' hu' _ ↦ ?_) nofun
      have hx' := h.covers id' job' hj'
      rw [hu', hx] at hx'
      cases hx'
      rw [hj] at hj'
      cases hj'
      exact absurd hu' hu
  · refine h.settle fun id' job' hj' hu' hs ↦ ?_
    have hx' := h.covers id' job' hj'
    rw [hu', hx] at hx'
    cases hx'
    rw [hj] at hj'
    cases hj'
    rw [hk _ job hj hu' hs] at hf
    cases hf

/-- Every started job of the unit is of this kind. -/
def OnlyStarted (m : Manager) (name : Name) (kind : JobKind) : Prop :=
  ∀ id job, m.jobs.get id = some job → job.unit = name → job.started → job.kind = kind

theorem OnlyStarted.of_jobs (h : OnlyStarted m name kind) (hj : m'.jobs = m.jobs) :
    OnlyStarted m' name kind := by
  unfold OnlyStarted
  rwa [hj]

theorem Ends.tidy (h : Ends w name kind m out) (hc : Coherent (some name) m)
    (hk : OnlyStarted m name kind) (hw : out.2 = [] → Tidy out) : Tidy out := by
  induction h with
  | waits _ => exact hw rfl
  | fails msg rest hk' _ => exact hc.keeps hk'
  | completes hp _ ho _ =>
    refine (completeJob_coherent (hc.local_ hp.toLocal (.inr rfl)) ?_ ho).tidy
    intro id job hj hu hs
    exact decide_eq_true (hk.of_jobs hp.jobs id job hj hu hs)
  | stops hp ho =>
    refine (completeJob_coherent (hc.local_ hp.toLocal (.inr rfl)) ?_ ho).tidy
    intro id job hj hu hs
    rw [hk.of_jobs hp.jobs id job hj hu hs]
    rfl
  | spawns idx main hk' _ _ _ _ _ _ ih =>
    exact ih ((hc.keeps hk').same .recordSpawn activeOf_recordSpawn)
      (hk.of_jobs (Local.recordSpawn.jobs.trans hk'.jobs)) hw

theorem ActiveExit.tidy (h : ActiveExit w name m out) (hc : Coherent none m)
    (hn : ∀ id job, m.jobs.get id = some job → job.unit = name → job.started = false) :
    Tidy out := by
  have hput {m'} (hl : Local name m m') : Coherent none m' :=
    (hc.local_ hl (.inl rfl)).settle fun id job hj hu hs ↦ by
      rw [hl.jobs] at hj
      rw [hn id job hj hu] at hs
      cases hs
  cases h with
  | limit hp => exact (hput hp.toLocal).weaken
  | restart delay hk _ => exact (hput (hk.toLocal.trans scheduleRestart_local)).weaken
  | ended hp _ ho =>
    refine (completeJob_coherent (hput hp.toLocal).weaken (fun id job hj hu hs ↦ ?_) ho).weaken
    rw [hp.jobs] at hj
    rw [hn id job hj hu] at hs
    cases hs
  | failed hp => exact (hput hp.toLocal).weaken

theorem Begins.tidy (h : Begins w name .activating m out) (hu : (m.units.get name).isSome)
    (hc : Coherent (some name) m) (hk : OnlyStarted m name .start) : Tidy out := by
  obtain ⟨m', hl, -, he⟩ := h.ends
  have hc' : Coherent (some name) m' := hc.local_ hl.toLocal (.inr rfl)
  have hk' : OnlyStarted m' name .start := hk.of_jobs hl.jobs
  refine he.tidy hc' hk' fun hnil ↦ Coherent.weaken ?_
  have hw := he.local_of_nil hnil
  refine (hc'.local_ hw (.inr rfl)).settle fun id job hj hu' hs ↦ ?_
  rw [hk'.of_jobs hw.jobs id job hj hu' hs]
  exact h.waits hnil hu

theorem Expands.tidy (hc : Coherent none m) (h : Expands w m id name out) : Tidy out := by
  have hf {m'} (msg : String) (hc' : Coherent none m') : Coherent none (m'.setFailed id msg) :=
    hc'.modifyJob fun _ ↦ ⟨rfl, rfl, fun hs ↦ hs⟩
  have he : Coherent none (m.markExpanding id) := hc.modifyJob fun _ ↦ ⟨rfl, rfl, fun hs ↦ hs⟩
  cases h with
  | missing msg _ => exact (hf msg hc).weaken
  | asserted msg => exact (hc.keeps .setResult).weaken
  | skipped => exact (finishJob_coherent hc nofun).weaken
  | requisite msg => exact (hf msg he).weaken
  | opens waiting _ => exact he.weaken

theorem enqueueStartJobMode_tidy {mode : JobMode} (hc : Coherent none m)
    (hx : m.unitJob.get name = none) (h : m.enqueueStartJobMode w name mode = some out) : Tidy out :=
  (expandStartJob_cases h).tidy (hc.newJob hx)

theorem Opens.tidy {needs ds : List Name} {waiting : List WaitEntry} (hc : Coherent none m)
    (h : Opens w m id name needs waiting ds out) : Tidy out := by
  cases h with
  | finish u after before _ _ _ =>
    refine Coherent.weaken (hc.modifyJob fun _ ↦ ?_)
    split <;> exact ⟨rfl, rfl, fun hs ↦ hs⟩
  | skip | pending | new => exact hc.weaken
  | missing d ds msg =>
    refine Coherent.weaken (hc.modifyJob fun _ ↦ ?_)
    exact ⟨rfl, rfl, fun hs ↦ hs⟩

theorem Coherent.adds (hc : Coherent none m) (h : Adds m m') : Coherent none m' where
  covers := by rw [h.jobs, h.unitJob]; exact hc.covers
  started id job hj hs _ := by
    rw [h.jobs] at hj
    have ha := hc.during hj hs
    rw [h.activeOf, ha]
    cases hu : m.units.get job.unit with
    | none => rw [Manager.activeOf, hu] at ha; cases ha
    | some u => rfl

/-- In a sound table `jobOf` misses no job that the index has. -/
theorem Sound.unitJob_none (hm : Sound m) (h : m.jobOf name = none) : m.unitJob.get name = none := by
  cases hx : m.unitJob.get name with
  | none => rfl
  | some jid =>
    obtain ⟨job, hj, -⟩ := hm.points name jid hx
    rw [Manager.jobOf, hx, Option.bind_some, hj] at h
    cases h

theorem Starts.tidy {mode : JobMode} {reply : Manager.StartReply} (hm : Sound m)
    (hc : Coherent none m) (h : Starts w m name mode reply out) : Tidy out := by
  have hadd {m'} (hl : m.ensureUnitLoaded w name = .ok m') : Coherent none m' :=
    hc.adds (ensureUnitLoaded_adds hl)
  cases h with
  | unloadable e => exact hc.weaken
  | shutdown hl _ => exact (hadd hl).weaken
  | active hl _ => exact (hadd hl).weaken
  | pending hl _ _ => exact (hadd hl).weaken
  | irreversible e hl => exact (hadd hl).weaken
  | cancels msg hl _ _ _ _ => exact (cancelJob_coherent (hadd hl)).weaken
  | enqueues hl _ _ hn ho =>
    have hm' := ((ensureUnitLoaded_adds hl).fine hm).sound
    exact (enqueueStartJobMode_tidy (hadd hl) (hm'.unitJob_none hn) ho).append

end Rystemd
