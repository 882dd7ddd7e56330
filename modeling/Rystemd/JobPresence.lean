import Rystemd.HeldJobs

namespace Rystemd

open Worklist

variable {w : World} {c : Call} {m m' : Manager} {name : Name} {out : Out} {id : JobId}
  {cs rest : List Call}

/-- What holds of the calls that are left to do in a run all of whose calls leave held jobs alone. -/
structure Building (m : Manager) (todo : List Call) : Prop where
  head : ∀ c ∈ todo.head?, Found m c
  tail : ∀ c ∈ todo.tail, Holds m c ∧ c.fails = none
  ids : (todo.filterMap Call.jobId).Nodup
  clear : ∀ n msg, todo.head? = some (.failUnit n msg) → Clear m n ∨ ∀ c ∈ todo.tail, c.jobId = none
  events : todo.Pairwise fun c c' ↦ c.nested = false → c'.jobId = none

theorem Holds.found (h : Holds m c) : Found m c := by
  cases c with
  | expandOpen id => exact h id rfl
  | maybeStartJob id | maybeStopJob id =>
    obtain ⟨job, hj, -⟩ := h id rfl
    exact Option.isSome_iff_exists.mpr ⟨job, hj⟩
  | _ => trivial

theorem Plain.filterMap (h : Plain cs) : cs.filterMap Call.jobId = [] :=
  List.filterMap_eq_nil_iff.mpr fun c hc ↦ (h c hc).1

theorem Plain.holds (h : Plain cs) : ∀ c ∈ cs, Holds m c ∧ c.fails = none := by
  refine fun c hc ↦ ⟨fun id hid ↦ ?_, (h c hc).2⟩
  rw [(h c hc).1] at hid
  cases hid

theorem Plain.pairwise (h : Plain cs) : cs.Pairwise fun c c' ↦ c.nested = false → c'.jobId = none := by
  refine List.pairwise_of_forall_mem_list fun _ _ c' hc' _ ↦ ?_
  exact (h c' hc').1

theorem Building.single (hf : Found m c) : Building m [c] where
  head c' hc' := by
    cases hc'
    exact hf
  tail := List.forall_mem_nil _
  ids := by cases h : c.jobId <;> simp [h]
  clear _ _ _ := .inr (List.forall_mem_nil _)
  events := List.pairwise_singleton ..

theorem Plain.building (h : Plain cs) : Building m cs where
  head c hc := (h.holds c (List.mem_of_mem_head? hc)).1.found
  tail c hc := h.holds c (List.mem_of_mem_tail hc)
  ids := by rw [h.filterMap]; exact List.nodup_nil
  clear _ _ _ := .inr fun c hc ↦ (h c (List.mem_of_mem_tail hc)).1
  events := h.pairwise

theorem Building.append (h : Building m cs) (hr : ∀ c ∈ rest, Holds m c ∧ c.fails = none)
    (hids : (rest.filterMap Call.jobId).Nodup)
    (hnew : ∀ id ∈ cs.filterMap Call.jobId, id ∉ rest.filterMap Call.jobId)
    (hclear : ∀ n msg, cs.head? = some (.failUnit n msg) → Clear m n ∨ ∀ c ∈ rest, c.jobId = none)
    (hevents : rest.Pairwise fun c c' ↦ c.nested = false → c'.jobId = none)
    (hcross : ∀ c ∈ cs, ∀ c' ∈ rest, c.nested = false → c'.jobId = none) :
    Building m (cs ++ rest) where
  head c hc := by
    cases cs with
    | nil => exact (hr c (List.mem_of_mem_head? hc)).1.found
    | cons c₁ cs => exact h.head c hc
  tail c hc := by
    cases cs with
    | nil => exact hr c (List.mem_of_mem_tail hc)
    | cons c₁ cs => exact (List.mem_append.mp hc).elim (h.tail c) (hr c)
  ids := by
    rw [List.filterMap_append]
    refine List.nodup_append.mpr ⟨h.ids, hids, ?_⟩
    rintro id hid _ hid' rfl
    exact hnew id hid hid'
  clear n msg hh := by
    cases cs with
    | nil => cases (hr _ (List.mem_of_mem_head? hh)).2
    | cons c₁ cs =>
      rcases h.clear n msg hh, hclear n msg hh with ⟨h₁ | h₁, h₂ | h₂⟩
      · exact .inl h₁
      · exact .inl h₁
      · exact .inl h₂
      · exact .inr fun c hc ↦ (List.mem_append.mp hc).elim (h₁ c) (h₂ c)
  events := List.pairwise_append.mpr ⟨h.events, hevents, hcross⟩

/-- The calls that a call leaves are in order among themselves. -/
theorem Builds.building (h : Builds c m (m', cs)) : Building m' cs := by
  cases h with
  | plain hp => exact hp.building
  | fails name msg hclear hp =>
    have hone : Building m' [.failUnit name msg] := .single trivial
    refine hone.append hp.holds ?_ ?_ (fun _ _ _ ↦ .inr fun c hc ↦ (hp c hc).1) hp.pairwise
      fun _ _ c' hc' _ ↦ (hp c' hc').1
    · rw [hp.filterMap]
      exact List.nodup_nil
    · rw [hp.filterMap]
      exact fun _ _ ↦ List.not_mem_nil
  | job hpre hpost hn hn' hf hj ho hfound hh =>
    rename_i pre post c' id
    have hone : Building m' [c'] := .single hfound
    have hlast : Building m' (c' :: post) := by
      refine hone.append hpost.holds ?_ ?_ (fun _ _ hx ↦ ?_) hpost.pairwise
        fun _ _ c hc _ ↦ (hpost c hc).1
      · rw [hpost.filterMap]
        exact List.nodup_nil
      · rw [hpost.filterMap]
        exact fun _ _ ↦ List.not_mem_nil
      · exact .inr fun c hc ↦ (hpost c hc).1
    rcases hh with rfl | hh
    · exact hlast
    · refine hpre.building.append (fun c hc ↦ ?_) hlast.ids ?_ (fun n msg hx ↦ ?_) hlast.events ?_
      · rcases List.mem_cons.mp hc with rfl | hc
        · exact ⟨hh, hf⟩
        · exact hpost.holds c hc
      · rw [hpre.filterMap]
        exact fun _ hx ↦ by cases hx
      · cases (hpre _ (List.mem_of_mem_head? hx)).2
      · intro c hc _ _ hfalse
        rw [hn c hc] at hfalse
        cases hfalse

/-- A job that a call leaves to do is its own, or nobody holds it. -/
theorem Builds.ids (h : Builds c m (m', cs)) {c' : Call} (hc' : c' ∈ cs) (hid : c'.jobId = some id) :
    c.jobId = some id ∨ ∀ job, m.jobs.get id = some job → job.held = false := by
  have plain {cs : List Call} (hp : Plain cs) (hc' : c' ∈ cs) : False := by
    rw [(hp c' hc').1] at hid
    cases hid
  cases h with
  | plain hp => exact (plain hp hc').elim
  | fails name msg _ hp =>
    rcases List.mem_cons.mp hc' with rfl | hc'
    · cases hid
    · exact (plain hp hc').elim
  | job hpre hpost _ _ _ hj ho =>
    rcases List.mem_append.mp hc' with hc' | hc'
    · exact (plain hpre hc').elim
    · rcases List.mem_cons.mp hc' with rfl | hc'
      · rw [hj] at hid
        cases hid
        exact ho
      · exact (plain hpost hc').elim

theorem Builds.clear (h : Builds c m (m', cs)) (hn : c.nested) {msg : String}
    (hh : cs.head? = some (.failUnit name msg)) : Clear m' name := by
  cases h with
  | plain hp => cases (hp _ (List.mem_of_mem_head? hh)).2
  | fails n msg' hclear =>
    cases hh
    exact hclear hn
  | job hpre hpost hn₁ hn₂ hf hj ho hfound hheld =>
    rename_i pre post c' id
    cases pre with
    | nil =>
      cases hh
      cases hf
    | cons c₁ pre =>
      cases hh
      cases (hpre _ (List.mem_cons_self ..)).2

namespace Building

/-- The calls that were left to do before are left to do after a call. -/
theorem kept (h : Building m (c :: rest)) (hm : Sound m) (hC : keepsJobs w c m)
    (he : exec w c m = some out) : ∀ c' ∈ rest, Holds out.1 c' ∧ c'.fails = none := by
  intro c' hc'
  obtain ⟨hh, hf⟩ := h.tail c' hc'
  refine ⟨fun id hid ↦ ?_, hf⟩
  obtain ⟨job, hj, hheld⟩ := hh id hid
  cases hn : c.nested with
  | false =>
    have := (List.pairwise_cons.mp h.events).1 c' hc' hn
    rw [this] at hid
    cases hid
  | true =>
    refine ⟨job, exec_spares hm hn hC (fun name msg heq ↦ ?_) he hj hheld fun hc ↦ ?_, hheld⟩
    · subst heq
      refine (h.clear name msg rfl).resolve_right fun hnone ↦ ?_
      rw [hnone c' hc'] at hid
      cases hid
    · have hids := h.ids
      rw [List.filterMap_cons_some hc, List.nodup_cons] at hids
      exact hids.1 (List.mem_filterMap.mpr ⟨c', hc', hid⟩)

theorem step (h : Building m (c :: rest)) (hm : Sound m) (hC : keepsJobs w c m)
    (he : exec w c m = some (m', cs)) : Building m' (cs ++ rest) := by
  have hb := exec_builds hm (h.head c rfl) hC he
  have hpair := List.pairwise_cons.mp h.events
  have hjobless : c.nested = false → ∀ c' ∈ rest, c'.jobId = none := fun hn c' hc' ↦ hpair.1 c' hc' hn
  have hids : (rest.filterMap Call.jobId).Nodup ∧ ∀ id ∈ c.jobId, id ∉ rest.filterMap Call.jobId := by
    have hids := h.ids
    cases hc : c.jobId with
    | none =>
      rw [List.filterMap_cons_none hc] at hids
      exact ⟨hids, fun _ hx ↦ by cases hx⟩
    | some id =>
      rw [List.filterMap_cons_some hc, List.nodup_cons] at hids
      refine ⟨hids.2, fun id' hid' ↦ ?_⟩
      cases hid'
      exact hids.1
  refine hb.building.append (h.kept hm hC he) hids.1 (fun id hid hid' ↦ ?_) (fun n msg hh ↦ ?_)
    hpair.2 fun c₁ h₁ c₂ h₂ hn₁ ↦ ?_
  · obtain ⟨c₁, h₁, hid⟩ := List.mem_filterMap.mp hid
    rcases hb.ids h₁ hid with hown | hfree
    · exact hids.2 id hown hid'
    · obtain ⟨c₂, h₂, hid'⟩ := List.mem_filterMap.mp hid'
      obtain ⟨job, hj, hheld⟩ := (h.tail c₂ h₂).1 id hid'
      rw [hfree job hj] at hheld
      cases hheld
  · cases hn : c.nested with
    | false => exact .inr (hjobless hn)
    | true => exact .inl (hb.clear hn hh)
  · cases hn : c.nested with
    | false => exact hjobless hn c₂ h₂
    | true =>
      rw [exec_nested hn he c₁ h₁] at hn₁
      cases hn₁

end Building

/-- The index is sound, every job is there that the job engine comes back to, and nothing crashes but
a kill of a unit that is not loaded. -/
structure JobsPresent (a : Config Manager Call) : Prop where
  pointed : Pointed a.state
  present : ∀ c rest, a.todo = c :: rest → ∀ id ∈ c.jobId, a.state.jobs.contains id
  runs : ∀ c rest w, a.todo = c :: rest → exec w c a.state = none →
    ∃ name sig, c = .kill name sig ∧ a.state.units.contains name = false

theorem Building.reaches {a : Config Manager Call} (h : Reaches (keepsJobs · · ·) a) :
    Building a.state a.todo := by
  obtain ⟨m, hb, hr⟩ := h
  have hinv : SoundConfig a ∧ Building a.state a.todo := by
    refine hr.invariant (I := fun a ↦ SoundConfig a ∧ Building a.state a.todo)
      (fun h hc ↦ ⟨h.1.arrive hc, .single ?_⟩)
      (fun h _ hC he ↦ ⟨h.1.step he, h.2.step h.1.sound hC he⟩) ⟨⟨hb.sound, nofun⟩, Plain.nil.building⟩
    revert hc
    cases ‹Call› <;> simp [engine, external, Found]
  exact hinv.2

/-- This holds of every run all of whose calls leave the jobs alone that other ones hold. -/
theorem jobs_present {a : Config Manager Call} (h : Reaches (keepsJobs · · ·) a) : JobsPresent a := by
  have hsound := h.sound.sound
  have hbuild := Building.reaches h
  obtain ⟨m, hb, hr⟩ := h
  have hloaded := names_loaded (a := a)
    ⟨m, hb, hr.mono fun w c s hC ↦ ((Bool.and_eq_true ..).mp hC).1⟩
  have hpresent : ∀ c rest, a.todo = c :: rest → ∀ id ∈ c.jobId, (a.state.jobs.get id).isSome := by
    intro c rest htodo id hid
    have hf := hbuild.head c (by rw [htodo]; rfl)
    cases c with
    | expandOpen i =>
      obtain ⟨job, hj, -⟩ := hf
      cases hid
      rw [hj]
      rfl
    | maybeStartJob i | maybeStopJob i =>
      cases hid
      exact hf
    | _ => cases hid
  refine ⟨hsound.points, hpresent, fun c rest w htodo he ↦ ?_⟩
  by_contra hk
  simp only [not_exists, not_and, Bool.not_eq_false] at hk
  have hs := exec_isSome (w := w) hsound (hloaded.2 c (by rw [htodo]; exact List.mem_cons_self ..))
    hloaded.1.jobs (hpresent c rest htodo) hk
  rw [he] at hs
  cases hs

/-- A machine with a mount unit that requires a target. -/
def mountMachine : World :=
  .ofFiles [("t.target", {}), ("d.mount",
    { unit := { requires := ["t.target"] }, mount := some { where_ := some "/mnt", fsType := some "ext4" } })]

/-- Both units are active. -/
def startMounted : List (Move Call World) :=
  [.arrive (.start "d.mount" .replace), .calls mountMachine 20]

/-- The target is to be stopped; the mount unit is stopped already. -/
def mountStopped : Shown (keepsJobs · · ·) fun a ↦
    a.todo.head? = some (.maybeStopJob 3) && a.state.jobs.contains 3 :=
  .play _ mountMachine (startMounted ++ [.arrive (.stop "t.target" .replace), .calls mountMachine 5]) _
    (by decide +kernel)

theorem jobs_present_stopping : ∃ a, Reaches (keepsJobs · · ·) a ∧ JobsPresent a ∧
    (a.todo.head? = some (.maybeStopJob 3) && a.state.jobs.contains 3) = true :=
  ⟨_, mountStopped.reached, jobs_present mountStopped.reached, mountStopped.shows⟩

/-- The target is to be stopped, but `umount(2)` fails. -/
def mountBusy : Shown (fun _ _ _ ↦ True) fun a ↦
    a.todo.head? = some (.maybeStopJob 3) && !a.state.jobs.contains 3 :=
  .play _ mountMachine (startMounted ++ [.arrive (.stop "t.target" .replace),
    .calls { mountMachine with unmount := some "busy" } 17]) _ (by decide +kernel)

/-- The failure of the mount unit runs the stop job of the target to its end, and the procedure
that enqueued this job crashes when it comes back to it. -/
theorem failed_stop_crashes : ¬ ∀ a, Reaches (fun _ _ _ ↦ True) a → JobsPresent a := by
  intro h
  have hs := mountBusy.shows
  simp only [Bool.and_eq_true, decide_eq_true_eq, Bool.not_eq_true', Table.not_contains_iff] at hs
  obtain ⟨rest, htodo⟩ := List.head?_eq_some_iff.mp hs.1
  have he : exec {} (.maybeStopJob 3) mountBusy.config.state = none := by
    change Manager.maybeStopJob {} _ 3 = none
    rw [Manager.maybeStopJob, hs.2]
    rfl
  obtain ⟨name, sig, hc, -⟩ := (h _ mountBusy.reached).runs _ rest _ htodo he
  cases hc

end Rystemd
