import Rystemd.DropIns
import Rystemd.WaitGraph

namespace Rystemd

open Text Worklist

def Effect.spawnsFor (name : Name) : Effect → Bool
  | .spawn unit .. => unit = name
  | _ => false

/-- No process of the unit was spawned. -/
def Unspawned (name : Name) (m m' : Manager) : Prop :=
  ∃ es, m'.kernel.effects = es ++ m.kernel.effects ∧ ∀ e ∈ es, e.spawnsFor name = false

/-- There is nothing to run for the unit. -/
def Inert (name : Name) (m : Manager) : Prop := (m.units.get name).bind Unit.serviceCfg = none

variable {w : World} {c : Call} {m m' m'' : Manager} {n name : Name} {out : Out} {kind : JobKind}

section Spawns

theorem Unspawned.refl : Unspawned n m m := ⟨[], rfl, by simp⟩

theorem Unspawned.trans (h : Unspawned n m m') (h' : Unspawned n m' m'') : Unspawned n m m'' := by
  obtain ⟨es, he, hn⟩ := h
  obtain ⟨es', he', hn'⟩ := h'
  refine ⟨es' ++ es, by rw [he', he, List.append_assoc], fun e hmem ↦ ?_⟩
  rcases List.mem_append.mp hmem with hmem | hmem
  · exact hn' e hmem
  · exact hn e hmem

theorem Signals.unspawned (h : Signals m m') : Unspawned n m m' := by
  obtain ⟨es, he, hno⟩ := h
  refine ⟨es, he, fun e hmem ↦ ?_⟩
  have hsignal := hno e hmem
  cases e with
  | spawn => cases hsignal
  | killCgroup | killGroup => rfl

theorem Unspawned.of_effects (h : m'.kernel.effects = m.kernel.effects) : Unspawned n m m' :=
  ⟨[], h, by simp⟩

theorem JobsOnly.unspawned (h : JobsOnly m m') : Unspawned n m m' := .of_effects (by rw [h.kernel])

theorem Calm.unspawned (h : Calm m m') : Unspawned n m m' := h.signals.unspawned

theorem Inert.of_setupOf (h : m'.setupOf n = m.setupOf n) (hi : Inert n m) : Inert n m' := by
  have hs := congrArg (Option.bind · fun s ↦ s.2.bind UnitFile.service) h
  rw [Manager.setupOf, Manager.setupOf, Option.bind_map, Option.bind_map] at hs
  exact hs.trans hi

theorem recordSpawn_unspawned {cmd : ControlCommand} {idx : Nat} {pid : Pid} {main : Bool}
    (hn : name ≠ n) : Unspawned n m (m.recordSpawn name cmd idx pid main) := by
  refine ⟨[.spawn name cmd idx pid], rfl, fun e he ↦ ?_⟩
  rw [List.mem_singleton.mp he]
  simpa [Effect.spawnsFor] using hn

/-- A procedure spawns processes of its own unit only, and of a service only. -/
theorem Ends.unspawned (h : Ends w name kind m out) (hi : Inert n m) : Unspawned n m out.1 := by
  induction h with
  | waits hk => exact hk.toCalm.unspawned
  | fails msg rest hk _ => exact hk.toCalm.unspawned
  | completes hp _ ho _ =>
    have hj := JobsOnly.completeJob ho
    exact hp.toCalm.unspawned.trans hj.unspawned
  | stops hp ho =>
    have hj := JobsOnly.completeJob ho
    exact hp.toCalm.unspawned.trans hj.unspawned
  | spawns idx main hk hsc _ _ _ _ _ ih =>
    have hi' := hi.of_setupOf (hk.toLocal.setupOf n)
    have hne : name ≠ n := by
      rintro rfl
      rw [hi'] at hsc
      cases hsc
    refine (hk.toCalm.unspawned.trans (recordSpawn_unspawned hne)).trans (ih ?_)
    exact hi'.of_setupOf (Local.recordSpawn.setupOf n)

theorem doStart_unspawned (h : m.doStart w name = some out) (hi : Inert n m) :
    Unspawned n m out.1 := by
  obtain ⟨m', ht, -, he⟩ := (doStart_begins h).ends
  exact ht.toCalm.unspawned.trans (he.unspawned (hi.of_setupOf (ht.toLocal.setupOf n)))

theorem doStop_unspawned (h : m.doStop w name = some out) (hi : Inert n m) :
    Unspawned n m out.1 := by
  obtain ⟨m', hp, he⟩ := doStop_begins h
  exact hp.toCalm.unspawned.trans (he.unspawned (hi.of_setupOf (hp.toLocal.setupOf n)))

theorem ActiveExit.unspawned (h : ActiveExit w name m out) : Unspawned n m out.1 := by
  cases h with
  | limit hp | failed hp => exact hp.toCalm.unspawned
  | restart delay hk _ => exact hk.toCalm.unspawned.trans (.of_effects rfl)
  | ended hp _ ho =>
    have hj := JobsOnly.completeJob ho
    exact hp.toCalm.unspawned.trans hj.unspawned

theorem mainExit_unspawned {exit : ChildExit} (h : m.mainExit w name exit = some out)
    (hi : Inert n m) : Unspawned n m out.1 := by
  have hf : Touches name m (m.forgetMain name) := Touches.forgetMain
  have hi' := hi.of_setupOf (hf.toLocal.setupOf n)
  obtain ⟨u, -, h⟩ := mainExit_ends h
  refine hf.toCalm.unspawned.trans ?_
  cases h with
  | stopped _ he => exact he.unspawned hi'
  | vanished _ _ hp => exact hp.toCalm.unspawned
  | fails _ hk => exact hk.toCalm.unspawned
  | active _ _ he => exact he.unspawned

theorem handleControlExit_unspawned {exit : ChildExit}
    (h : m.handleControlExit w name exit = some out) (hi : Inert n m) : Unspawned n m out.1 := by
  have hf : Touches name m (m.forgetControl name) := Touches.forgetControl
  have hi' := hi.of_setupOf (hf.toLocal.setupOf n)
  rcases handleControlExit_cases h with ⟨-, he⟩ | ⟨-, m₀, rfl | ⟨pid, rfl⟩, he⟩ | ⟨-, rfl⟩ | rfl
  · exact hf.toCalm.unspawned.trans (he.unspawned hi')
  · exact hf.toCalm.unspawned.trans (he.unspawned hi')
  · have hadopt : Unspawned n (m.forgetControl name) ((m.forgetControl name).adoptPid name pid) :=
      .of_effects rfl
    refine hf.toCalm.unspawned.trans (hadopt.trans (he.unspawned ?_))
    exact hi'.of_setupOf (Local.adoptPid.setupOf n)
  · exact hf.toCalm.unspawned
  · exact hf.toCalm.unspawned

theorem maybeStartJob_unspawned {id : JobId} (h : m.maybeStartJob w id = some out)
    (hi : Inert n m) : Unspawned n m out.1 := by
  obtain ⟨job, -, ⟨-, rfl⟩ | ⟨-, -, rfl⟩ | ⟨-, -, -, -, m', hk, ⟨msg, rfl⟩ | h⟩⟩ :=
    maybeStartJob_cases h
  · exact JobsOnly.finishJobFailed.unspawned
  · exact .refl
  · refine hk.toCalm.unspawned.trans (JobsOnly.unspawned ?_)
    exact JobsOnly.modifyJob.trans .finishJobFailed
  · exact hk.toCalm.unspawned.trans (doStart_unspawned h (hi.of_setupOf (hk.toLocal.setupOf n)))

theorem exec_unspawned (h : exec w c m = some out) (hi : Inert n m) : Unspawned n m out.1 := by
  cases exec_acts h with
  | rests hr => exact hr.signals.unspawned
  | pops => exact .of_effects rfl
  | shuts hs =>
    rw [Manager.shutdown, if_neg (by simp [hs])]
    exact .of_effects rfl
  | loads hl =>
    obtain ⟨m₁, ha, -, hs⟩ := loadAll_cases hl
    exact .trans (.of_effects (by rw [ha.kernel])) hs.signals.unspawned
  | removes => exact .of_effects rfl
  | revives hp | resets _ hp => exact hp.toCalm.unspawned
  | begins => exact maybeStartJob_unspawned h hi
  | stops _ _ _ hj ho =>
    exact hj.unspawned.trans (doStop_unspawned ho (hi.of_setupOf (hj.setupOf n)))
  | reloads ho => exact (reload_ends ho .restart).unspawned hi
  | runs _ hr _ ho =>
    have hj := JobsOnly.completeJob ho
    exact hr.signals.unspawned.trans (.trans (.of_effects rfl) hj.unspawned)
  | fails _ hj => exact .trans (.of_effects rfl) hj.unspawned
  | restarts _ _ ho =>
    have hs := doStart_unspawned ho hi
    exact hs
  | expires _ ho => exact (Keeps.killTree.ends (finalizeStop_ends ho)).unspawned hi
  | @exits pid exit out ho =>
    have hq : Unspawned n m (m.forgetPid pid) := .of_effects rfl
    cases processExit_cases ho with
    | ignored | main => exact hq
    | control _ _ _ _ h =>
      exact hq.trans (handleControlExit_unspawned h (hi.of_setupOf (Quiet.forgetPid.setupOf n)))
  | mainExits ho => exact mainExit_unspawned ho hi

end Spawns

namespace Disk

def nullDevice : Path := ["dev", "null"]

/-- The first link of the name in the search path decides. -/
def isMasked (disk : Disk) (name : Name) : Bool :=
  (disk.paths.unitPath.findSome? fun dir ↦ disk.fs.readLink (dir.join (normalizeFileName name))) =
    some nullDevice

/-- What `mask` makes: a link to the null device in the first search directory. -/
def Masked (disk : Disk) (name : Name) : Prop :=
  ∃ root rest, disk.paths.unitPath = root :: rest ∧
    disk.fs.readLink (root.join (normalizeFileName name)) = some nullDevice ∧
    disk.fs.isFile (root.join (normalizeFileName name)) = false

/-- No service is found under the name. -/
def Hides (disk : Disk) (name : Name) : Prop :=
  ∀ file, disk.unitFile name = .ok (some file) → file.service = none

variable {disk : Disk}

theorem Masked.isMasked (h : disk.Masked name) : disk.isMasked name := by
  obtain ⟨root, rest, hpath, hlink, -⟩ := h
  simp [Disk.isMasked, hpath, hlink]

theorem unitKindOf_service (h : (stripSuffix ".service" name).isSome) :
    unitKindOf name = .service := by
  have hsuffix : '.' :: "service".toList <:+ name.toList := by
    rw [stripSuffix] at h
    split at h
    · assumption
    · cases h
  rw [unitKindOf, rtakeWhile_of_suffix (by decide) hsuffix]
  rfl

/-- A mask hides a service of which no other directory has a copy or a template. -/
theorem Masked.hides (h : disk.Masked name) (hname : (stripSuffix ".service" name).isSome)
    (hcopy : ∀ dir ∈ disk.paths.unitPath.tail, disk.fs.isFile (dir.join name) = false)
    (htemplate : ∀ tmpl ∈ templateOf name, ∀ dir ∈ disk.paths.unitPath,
      disk.fs.isFile (dir.join tmpl) = false) : disk.Hides name := by
  obtain ⟨root, rest, hpath, -, hfile⟩ := h
  have hnorm : normalizeFileName name = name := by
    have hdot : "." ++ "service" = ".service" := by decide +kernel
    rw [normalizeFileName, if_pos]
    refine List.any_eq_true.mpr ⟨"service", List.mem_cons_self, ?_⟩
    rwa [hdot]
  rw [hnorm] at hfile
  have hmain : disk.paths.findUnit disk.fs name = none := by
    have hfirst : disk.paths.firstFile disk.fs name = none := by
      rw [hpath, List.tail_cons] at hcopy
      rw [Paths.firstFile, hpath, List.find?_eq_none]
      simpa [hfile] using hcopy
    have hother : (templateOf name).bind (disk.paths.firstFile disk.fs) = none := by
      rw [Option.bind_eq_none_iff]
      intro tmpl ht
      rw [Paths.firstFile, List.find?_eq_none]
      simpa using htemplate tmpl ht
    rw [Paths.findUnit]
    split
    · rw [hfirst, Option.none_or]
      exact hother
    · rfl
  have hkind := unitKindOf_service hname
  have hbuiltin : disk.isBuiltin name = false := by
    rw [← Bool.not_eq_true]
    intro hb
    rw [isBuiltin, decide_eq_true_eq] at hb
    have htarget : unitKindOf name = .target := by
      rcases hb with rfl | rfl | rfl | ⟨-, rfl | rfl | rfl⟩ <;> decide +kernel
    rw [hkind] at htarget
    cases htarget
  intro file hload
  rw [unitFile, hmain, hkind, hbuiltin] at hload
  cases hload

end Disk

section Masks

open Disk

/-- The mask of the unit stays. -/
def staysMasked (name : Name) (w : World) (_ : Call) (_ : Manager) : Prop :=
  ∃ disk : Disk, disk.Masked name ∧ w.discovered = disk.discoverNames ∧ w.unitFile = disk.unitFile

/-- Moreover it hides the unit whenever the file of the unit is read. -/
def maskHides (name : Name) (w : World) (c : Call) (_ : Manager) : Prop :=
  ∃ disk : Disk, disk.Masked name ∧ w.discovered = disk.discoverNames ∧
    w.unitFile = disk.unitFile ∧ (c = .loadAll ∨ c.loads name → disk.Hides name)

theorem loadUnit_inert {u : Unit} (hw : ∀ file, w.unitFile n = .ok (some file) → file.service = none)
    (h : Manager.loadUnit w n = .ok (some u)) : u.serviceCfg = none := by
  rw [Manager.loadUnit] at h
  split at h
  · cases h
  · cases h
  · next file hfile =>
    cases h
    exact hw file hfile

theorem ensureUnitLoaded_inert (hi : Inert n m)
    (hw : name = n → ∀ file, w.unitFile n = .ok (some file) → file.service = none)
    (h : m.ensureUnitLoaded w name = .ok m') : Inert n m' := by
  rw [Manager.ensureUnitLoaded] at h
  split at h
  · cases h
    exact hi
  · split at h
    · cases h
    · cases h
    · next u hu =>
      cases h
      rw [Inert, Table.get_insert]
      split
      · next he =>
        subst he
        exact loadUnit_inert (hw rfl) hu
      · exact hi

theorem udevRegister_inert {device : Device} (hi : Inert n m) : Inert n (m.udevRegister w device) := by
  rw [Manager.udevRegister, Inert]
  rw [Inert] at hi
  dsimp only
  generalize m.units = t at hi
  induction device.unitNames generalizing t with
  | nil => exact hi
  | cons a names ih =>
    refine ih _ ?_
    rw [Manager.registerDevice]
    split
    · exact hi
    · rw [Table.get_insert]
      split
      · rfl
      · exact hi

theorem loadAll_inert (hw : ∀ file, w.unitFile n = .ok (some file) → file.service = none)
    (h : m.loadAll w = some m') : Inert n m' := by
  have hunits : Inert n { m with units := m.reloadUnits w } := by
    rw [Inert, reloadUnits_get_eq]
    split
    · rw [Manager.reloadUnit]
      split
      · rfl
      · next u hu =>
        have hnone := loadUnit_inert hw hu
        cases m.units.get n with
        | none => exact hnone
        | some old =>
          dsimp only [Option.bind_some]
          split
          · exact hnone
          · exact hnone
      · rfl
    · rfl
  have hdevices (devices : List Device) {m₀ : Manager} (hi : Inert n m₀) :
      Inert n (devices.foldl (Manager.udevRegister w) m₀) := by
    induction devices generalizing m₀ with
    | nil => exact hi
    | cons d devices ih => exact ih (udevRegister_inert hi)
  exact (hdevices _ hunits).of_setupOf ((Quiet.rearmTimers h).setupOf n)

theorem exec_inert (h : exec w c m = some out) (hi : Inert n m)
    (hw : c = .loadAll ∨ c.loads n → ∀ file, w.unitFile n = .ok (some file) → file.service = none) :
    Inert n out.1 := by
  cases hc : c.unloads with
  | false =>
    obtain ⟨m₁, hadds, hs⟩ := exec_setups h hc
    refine Inert.of_setupOf (hs n) ?_
    cases hadds with
    | none => exact hi
    | loads hn hl => exact ensureUnitLoaded_inert hi (fun he ↦ hw (.inr (he ▸ hn))) hl
    | registers => exact udevRegister_inert hi
  | true =>
    cases c with
    | loadAll =>
      obtain ⟨m', hl, rfl⟩ := Option.map_eq_some_iff.mp h
      exact loadAll_inert (hw (.inl rfl)) hl
    | udevRemove device =>
      cases h
      rw [Inert, Option.bind_eq_none_iff]
      intro u hu
      exact Option.bind_eq_none_iff.mp hi u (udevRemove_get hu)
    | _ => cases hc

/-- A unit is masked, and the unit files are read again. As long as no service shows through the
mask, no process of the unit is spawned. -/
theorem masked_never_runs {b : Config Manager Call}
    (h : Run engine (maskHides name) ⟨m, [.loadAll]⟩ b) : Unspawned name m b.state := by
  suffices b = ⟨m, [.loadAll]⟩ ∨ (Inert name b.state ∧ Unspawned name m b.state) by
    rcases this with rfl | ⟨-, hs⟩
    · exact .refl
    · exact hs
  refine h.invariant (I := fun a ↦ a = ⟨m, [.loadAll]⟩ ∨
    (Inert name a.state ∧ Unspawned name m a.state)) ?_ ?_ (.inl rfl)
  · intro s c hs _
    refine .inr (hs.resolve_left fun he ↦ ?_)
    cases he
  · intro w c s s' cs rest hs _ hC he
    obtain ⟨disk, -, -, hfiles, hhides⟩ := hC
    have hw : c = .loadAll ∨ c.loads name →
        ∀ file, w.unitFile name = .ok (some file) → file.service = none := by
      intro hc
      rw [hfiles]
      exact hhides hc
    right
    rcases hs with hs | ⟨hi, hun⟩
    · cases hs
      obtain ⟨m', hl, ho⟩ := Option.map_eq_some_iff.mp he
      cases ho
      obtain ⟨m₁, ha, -, hsilent⟩ := loadAll_cases hl
      refine ⟨loadAll_inert (hw (.inl rfl)) hl, ?_⟩
      exact .trans (.of_effects (by rw [ha.kernel])) hsilent.signals.unspawned
    · exact ⟨exec_inert he hi hw, hun.trans (exec_unspawned he hi)⟩

/-- A disk whose first directory masks `a.service`, with these other files. -/
def maskingDisk (files : List (Path × Except String String)) : Disk where
  paths := { unitPath := [["etc"], ["lib"]], configDir := ["etc"] }
  fs := { Fs.ofFiles files with
    readLink := fun path ↦ if path = ["etc", "a.service"] then some nullDevice else none }
  build _ name := .ok { service :=
    if (stripSuffix ".service" name).isSome then some { execStart := [{ argv := ["a"] }] } else none }

theorem maskingDisk_masked {files : List (Path × Except String String)}
    (h : files.lookup ["etc", "a.service"] = none) : (maskingDisk files).Masked "a.service" := by
  have hlink : Path.join ["etc"] (normalizeFileName "a.service") = ["etc", "a.service"] := by
    decide +kernel
  refine ⟨["etc"], [["lib"]], rfl, ?_, ?_⟩
  · rw [hlink]
    rfl
  · rw [hlink]
    simp [maskingDisk, Fs.ofFiles, h]

/-- The machine on such a disk. -/
def maskingWorld (files : List (Path × Except String String)) (discovered : List Name) : World where
  discovered
  unitFile := (maskingDisk files).unitFile
  spawn _ := .ok 7

def targetNames : List Name := ["basic.target", "default.target", "multi-user.target"]

theorem discoverNames_masked : (maskingDisk []).discoverNames = targetNames := by
  have hnames : ((maskingDisk []).listed ++ (maskingDisk []).implied).dedup =
      ["basic.target", "multi-user.target", "default.target"] := by
    decide +kernel
  rw [discoverNames, hnames]
  simp [List.mergeSort, List.MergeSort.Internal.splitInTwo, targetNames]

theorem discoverNames_copy :
    (maskingDisk [(["lib", "a.service"], .ok "[Service]")]).discoverNames =
      "a.service" :: targetNames := by
  have hnames : ((maskingDisk [(["lib", "a.service"], .ok "[Service]")]).listed ++
      (maskingDisk [(["lib", "a.service"], .ok "[Service]")]).implied).dedup =
      ["a.service", "basic.target", "multi-user.target", "default.target"] := by
    decide +kernel
  rw [discoverNames, hnames]
  simp [List.mergeSort, List.MergeSort.Internal.splitInTwo, targetNames]

/-- Read the unit files anew, and then handle a request as far as `n` calls. -/
def reloaded (C : World → Call → Manager → Prop) [∀ w c m, Decidable (C w c m)] (w : World)
    (c : Call) (n : Nat) (p : Manager → Manager → Bool) : Bool :=
  (Manager.loadAll w {}).any fun m ↦
    (play engine C [.calls w 1, .arrive c, .calls w n] ⟨m, [.loadAll]⟩).any fun b ↦ p m b.state

theorem reloaded_run {C D : World → Call → Manager → Prop} [∀ w c m, Decidable (C w c m)]
    {i : Nat} {p : Manager → Manager → Bool} (hw : ∀ c m, D w c m) (h : reloaded C w c i p) :
    ∃ m b, Booted m ∧ Run engine D ⟨m, [.loadAll]⟩ b ∧ p m b.state := by
  obtain ⟨m, hm, h⟩ := (Option.any_eq_true ..).mp h
  obtain ⟨b, hb, hp⟩ := (Option.any_eq_true ..).mp h
  refine ⟨m, b, ⟨w, true, 0, hm⟩, Run.mono ?_ (play_run_in (P := fun w' ↦ w' = w) ?_ hb), hp⟩
  · rintro w' c m ⟨-, rfl⟩
    exact hw c m
  · intro w' n hmem
    simp only [List.mem_cons, Move.calls.injEq, reduceCtorEq, List.not_mem_nil, or_false,
      false_or] at hmem
    rcases hmem with ⟨rfl, -⟩ | ⟨rfl, -⟩
    · rfl
    · rfl

/-- A mask with nothing behind it. -/
theorem masked_never_runs_alone : ∃ m b, Booted m ∧
    Run engine (maskHides "a.service") ⟨m, [.loadAll]⟩ b ∧
      Unspawned "a.service" m b.state := by
  have hmask : (maskingDisk []).Masked "a.service" := maskingDisk_masked rfl
  have hhides : (maskingDisk []).Hides "a.service" := by
    apply hmask.hides <;> decide +kernel
  have hrun : reloaded (fun _ _ _ ↦ True) (maskingWorld [] targetNames)
      (.start "a.service" .replace) 1 fun _ m' ↦ !m'.units.contains "a.service" := by
    decide +kernel
  obtain ⟨m, b, hboot, hb, -⟩ := reloaded_run (D := maskHides "a.service") (fun _ _ ↦
    ⟨maskingDisk [], hmask, discoverNames_masked.symm, rfl, fun _ ↦ hhides⟩) hrun
  exact ⟨m, b, hboot, hb, masked_never_runs hb⟩

/-- A restart runs a masked unit of which a directory of lower precedence has a copy. -/
theorem restart_runs_masked : ¬ ∀ (name : Name) (m : Manager) (b : Config Manager Call),
    Reaches (fun _ _ _ ↦ True) ⟨m, []⟩ → m.activeOf name = some .inactive →
    Run engine (staysMasked name) ⟨m, [.loadAll]⟩ b → Unspawned name m b.state := by
  intro h
  have hrun : reloaded (fun _ _ _ ↦ True) (maskingWorld [(["lib", "a.service"], .ok "[Service]")]
      ("a.service" :: targetNames)) (.restart "a.service") 3 fun m m' ↦
        m.activeOf "a.service" = some .inactive && m.kernel.effects.isEmpty &&
          m'.kernel.effects.any (Effect.spawnsFor "a.service") := by
    decide +kernel
  obtain ⟨m, b, hboot, hb, hp⟩ := reloaded_run (D := staysMasked "a.service") (fun _ _ ↦
    ⟨maskingDisk _, maskingDisk_masked (by decide +kernel), discoverNames_copy.symm, rfl⟩) hrun
  simp only [Bool.and_eq_true, decide_eq_true_eq, List.isEmpty_iff, List.any_eq_true] at hp
  obtain ⟨⟨hinactive, hnone⟩, e, he, hspawn⟩ := hp
  obtain ⟨es, heffects, hno⟩ := h "a.service" m b ⟨m, hboot, .refl⟩ hinactive hb
  rw [hnone, List.append_nil] at heffects
  rw [hno e (heffects ▸ he)] at hspawn
  cases hspawn

end Masks

end Rystemd
