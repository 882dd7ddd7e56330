import Rystemd.StrayLinks
import Rystemd.UnitNames

namespace Rystemd

open Text FileTree.Tree Recursion

variable {paths : Paths} {name : String} {t t' : Tree} {path : Path} {install : InstallConfig}

section Own

variable {make : String → Tree → Except String String × Tree} {names messages out : List String}
  {L : Path → FileTree.Target → Prop} {place : String → Path} {link : FileTree.Target}
  {target alias_ message e : String}

section PlaceLink

variable {dir place : Path} {remove : Tree → Tree} {text : String}

end PlaceLink

end Own

section Lookup

end Lookup

section Asked

/-- The file name of a unit of any kind. -/
def unitFileName (name : String) : String :=
  if (UnitType.fromUnitName name).isSome then name else name ++ ".service"

/-- The names of all values of a key in the `[Install]` section. -/
def installNames (raw : RawUnitFile) (unitName key : String) : List String :=
  (raw.list "Install" key).flatMap fun v ↦ splitWhitespace ((installContext unitName).expand v)

/-- The `[Install]` section as `list_of` reads it when the unit is loaded. -/
def askedConfig (raw : RawUnitFile) (unitName : String) : InstallConfig where
  wantedBy := installNames raw unitName "WantedBy"
  requiredBy := installNames raw unitName "RequiredBy"
  also := installNames raw unitName "Also"
  alias_ := installNames raw unitName "Alias"

def ReadsAs (t : Tree) (path : Path) (raw : RawUnitFile) : Prop :=
  ∃ text, readToString t path = .ok text ∧ RawUnitFile.parse text = .ok raw

/-- The file of the unit in a call of `enable`, and what its `[Install]` section asks for. -/
def Asks (paths : Paths) (y : String × Tree) (path : Path) (asked : InstallConfig) : Prop :=
  paths.findUnit (treeFs y.2) (unitFileName y.1) = some path ∧
    ∃ raw, ReadsAs y.2 path raw ∧ askedConfig raw (unitFileName y.1) = asked

/-- What `enable` reads off the name and the `[Install]` section of a unit is what is asked for. -/
structure ReadAsAsked (paths : Paths) (y : String × Tree) : Prop where
  name : normalizeFileName y.1 = unitFileName y.1
  oneName : ∀ path raw, paths.findUnit (treeFs y.2) (unitFileName y.1) = some path →
    ReadsAs y.2 path raw → ∀ v ∈ raw.list "Install" "Also" ++ raw.list "Install" "Alias",
      splitWhitespace ((installContext (unitFileName y.1)).expand v) =
        [(installContext (unitFileName y.1)).expand v]
  suffixes : ∀ path asked, Asks paths y path asked → ∀ a ∈ asked.also ++ asked.alias_,
    normalizeFileName a = unitFileName a
  targets : ∀ path asked, Asks paths y path asked →
    ∀ target ∈ asked.requiredBy, target ∉ asked.wantedBy

variable {y : String × Tree} {asked : InstallConfig} {messages names : List String} {e : String}
  {depth : Nat} {r : Except String (List String)}

theorem ReadsAs.unique {raw raw' : RawUnitFile} (h : ReadsAs t path raw) (h' : ReadsAs t path raw') :
    raw = raw' := by
  obtain ⟨text, htext, hraw⟩ := h
  obtain ⟨text', htext', hraw'⟩ := h'
  rw [htext] at htext'
  cases htext'
  rw [hraw] at hraw'
  exact Except.ok.inj hraw'

theorem Asks.unique {path' : Path} {asked' : InstallConfig} (h : Asks paths y path asked)
    (h' : Asks paths y path' asked') : path = path' ∧ asked = asked' := by
  obtain ⟨hfind, raw, hraw, hasked⟩ := h
  obtain ⟨hfind', raw', hraw', hasked'⟩ := h'
  rw [hfind] at hfind'
  cases hfind'
  obtain rfl := hraw.unique hraw'
  exact ⟨rfl, hasked.symm.trans hasked'⟩

theorem installSection_iff : installSection t path name = some install ↔
    ∃ raw, ReadsAs t path raw ∧ installConfig raw name = install := by
  unfold installSection ReadsAs
  cases readToString t path with
  | error e => simp
  | ok text =>
    dsimp only
    cases hraw : RawUnitFile.parse text with
    | error e => simp [hraw]
    | ok raw => simp [hraw]

theorem ReadAsAsked.section_iff (h : ReadAsAsked paths y) :
    Asks paths y path asked ↔ paths.findUnit (treeFs y.2) (unitFileName y.1) = some path ∧
      installSection y.2 path (unitFileName y.1) = some asked := by
  apply and_congr_right
  intro hfind
  rw [installSection_iff]
  apply exists_congr
  intro raw
  apply and_congr_right
  intro hraw
  have hone := h.oneName path raw hfind hraw
  have hnames : ∀ key, (∀ v ∈ raw.list "Install" key, splitWhitespace
        ((installContext (unitFileName y.1)).expand v) =
          [(installContext (unitFileName y.1)).expand v]) →
      installNames raw (unitFileName y.1) key =
        (raw.list "Install" key).map (installContext (unitFileName y.1)).expand := by
    intro key hkey
    rw [installNames, List.flatMap_congr hkey, List.map_eq_flatMap]
  have halso := hnames "Also" fun v hv ↦ hone v (List.mem_append_left _ hv)
  have halias := hnames "Alias" fun v hv ↦ hone v (List.mem_append_right _ hv)
  have hsame : askedConfig raw (unitFileName y.1) = installConfig raw (unitFileName y.1) := by
    rw [askedConfig, halso, halias]
    rfl
  rw [hsame]

/-- The work of a call makes the links that are asked for, if it does not fail. -/
theorem ReadAsAsked.own (h : ReadAsAsked paths y)
    (hown : enableOwn paths y.1 y.2 = (.ok (messages, names), t')) :
    ∃ path asked, Asks paths y path asked ∧
      makeLinks paths (unitFileName y.1) path asked y.2 = (.ok messages, t') ∧
      asked.also.map unitFileName = names := by
  obtain ⟨path, install, hfind, hsection, hlinks, halso⟩ := (enableOwn_ok paths).mp hown
  rw [h.name] at hfind hsection hlinks
  have hasks := h.section_iff.mpr ⟨hfind, hsection⟩
  refine ⟨path, install, hasks, hlinks, ?_⟩
  rw [← halso]
  apply List.map_congr_left
  intro a ha
  exact (h.suffixes path install hasks a (List.mem_append_left _ ha)).symm

/-- A disk with this unit file, and nothing in the configuration directory. -/
def soleUnit (text : String) : Tree := bare.addNode ["usr", "a.service"] (.file (some text))

def wanted : Tree := soleUnit "[Install]\nWantedBy=b.target\n"

end Asked

end Rystemd
