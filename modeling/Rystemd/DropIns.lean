import Rystemd.Disk

namespace Rystemd

open Text

namespace Disk

variable {disk : Disk} {name : Name} {path : Path} {main : RawUnitFile} {file : UnitFile}

/-- The sections of a unit's main file followed by those of its drop-ins. -/
def combined (disk : Disk) (main : RawUnitFile) (name : Name) : RawUnitFile where
  sections := main.sections ++ (disk.paths.dropins disk.fs name).flatMap fun dropin ↦
    ((disk.document dropin).map fun doc ↦ (fromRepositoryDocument doc).sections).getD []

theorem fromUnitName_conf {e : String}
    (h : (rsplitOnce '.' e).any fun p ↦ p.1 ≠ "" ∧ p.2 = "conf") :
    UnitType.fromUnitName e = none := by
  rw [UnitType.fromUnitName]
  cases hsplit : rsplitOnce '.' e with
  | none => rfl
  | some p =>
    have hconf : p.2 = "conf" := by
      simp only [hsplit, Option.any_some, decide_eq_true_eq] at h
      exact h.2
    simp [UnitType.fromSuffix, hconf]

/-- No drop-in has a name that the repository takes for a unit. -/
theorem readUnitFile_dropin (h : path ∈ disk.paths.dropins disk.fs name) :
    ∃ e, disk.readUnitFile path = .error e := by
  rw [Paths.dropins, List.mem_mergeSort, List.mem_flatMap] at h
  obtain ⟨dir, -, h⟩ := h
  dsimp only at h
  rw [List.mem_map] at h
  obtain ⟨e, he, rfl⟩ := h
  rw [List.mem_filter, decide_eq_true_eq] at he
  obtain ⟨hmem, hext, -⟩ := he
  have hcomponent := Fs.isComponent_of_mem hmem
  have htype := fromUnitName_conf hext
  have hname : Path.fileName (dir.join (name ++ ".d") |>.join e) = some e := by
    rw [Path.join_component hcomponent, Path.fileName_component hcomponent]
  rw [readUnitFile, Repo.readPath, hname]
  cases disk.fs.readToString ((dir.join (name ++ ".d")).join e) with
  | error err => exact ⟨_, rfl⟩
  | ok text =>
    simp only [UnitDefinition.parse, htype]
    exact ⟨_, rfl⟩

theorem dropins_applied (hmain : disk.paths.findUnit disk.fs name = some path)
    (hparse : disk.readUnitFile path = .ok main)
    (hbuild : disk.build (disk.combined main name) name = .ok file) :
    disk.unitFile name = .ok (some (disk.complete true name file)) ↔
      disk.paths.dropins disk.fs name = [] := by
  have hload : disk.unitFile name = (disk.rawUnitFile (some path) name).bind fun raw ↦
      (disk.build raw name).bind fun file ↦ .ok (some (disk.complete true name file)) := by
    rw [unitFile, hmain, if_neg (by simp), if_neg (by simp)]
    rfl
  have hraw : disk.rawUnitFile (some path) name =
      (disk.paths.dropins disk.fs name).foldlM disk.addDropin main := by
    rw [rawUnitFile, hparse]
    rfl
  rw [hload, hraw]
  constructor
  · intro h
    by_contra hne
    obtain ⟨p, rest, hcons⟩ := List.exists_cons_of_ne_nil hne
    obtain ⟨e, he⟩ := readUnitFile_dropin (hcons ▸ List.mem_cons_self .. :
      p ∈ disk.paths.dropins disk.fs name)
    rw [hcons, List.foldlM_cons, addDropin, he] at h
    cases h
  · intro h
    have hcombined : disk.combined main name = main := by
      simp [combined, h]
    rw [hcombined] at hbuild
    rw [h, List.foldlM_nil]
    show (disk.build main name).bind _ = _
    rw [hbuild]
    rfl

/-- A disk with these files in `/etc`, and a builder that accepts everything. -/
def etc (files : List (Path × Except String String)) : Disk where
  paths := { unitPath := [["etc"]], configDir := ["etc"] }
  fs := Fs.ofFiles files
  build _ _ := .ok { service := some {} }

def serviceAlone : Disk := etc [(["etc", "a.service"], .ok "[Service]")]

def serviceWithDropin : Disk :=
  etc [(["etc", "a.service"], .ok "[Service]"),
    (["etc", "a.service.d", "nice.conf"], .ok "[Service]\nNice=5")]

theorem dropins_applied_none :
    serviceAlone.paths.dropins serviceAlone.fs "a.service" = [] ∧
    serviceAlone.unitFile "a.service" =
      .ok (some (serviceAlone.complete true "a.service" { service := some {} })) := by
  have hmain : serviceAlone.paths.findUnit serviceAlone.fs "a.service" =
      some ["etc", "a.service"] := by
    decide +kernel
  have hparse : serviceAlone.readUnitFile ["etc", "a.service"] =
      .ok { sections := [{ name := "Service", entries := [] }] } := by
    decide +kernel
  have hnone : serviceAlone.paths.dropins serviceAlone.fs "a.service" = [] := by
    decide +kernel
  exact ⟨hnone, (dropins_applied hmain hparse rfl).mpr hnone⟩

/-- A drop-in that sets `Nice=` keeps its unit from loading. -/
theorem dropin_breaks_unit : ¬ ∀ (disk : Disk) (name : Name) (path : Path) (main : RawUnitFile)
    (file : UnitFile), disk.paths.findUnit disk.fs name = some path →
    disk.readUnitFile path = .ok main →
    (∀ p ∈ disk.paths.dropins disk.fs name, (disk.document p).isSome) →
    disk.build (disk.combined main name) name = .ok file →
    disk.unitFile name = .ok (some (disk.complete true name file)) := by
  intro h
  have hmain : serviceWithDropin.paths.findUnit serviceWithDropin.fs "a.service" =
      some ["etc", "a.service"] := by
    decide +kernel
  have hparse : serviceWithDropin.readUnitFile ["etc", "a.service"] =
      .ok { sections := [{ name := "Service", entries := [] }] } := by
    decide +kernel
  have hdropins : ∀ p ∈ serviceWithDropin.paths.dropins serviceWithDropin.fs "a.service",
      (serviceWithDropin.document p).isSome := by
    decide +kernel
  have hfails : (serviceWithDropin.unitFile "a.service").toOption.isNone := by
    decide +kernel
  rw [h _ _ _ _ _ hmain hparse hdropins rfl] at hfails
  cases hfails

end Disk

end Rystemd
