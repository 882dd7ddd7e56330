import Mathlib.Data.List.Dedup
import Rystemd.Library.Overlay
import Rystemd.Manager
import Rystemd.UnitDocument

namespace Rystemd

open Text

/-- An absolute path by its components. -/
abbrev Path := List String

namespace Path

def parse (s : String) : Path :=
  ((s.toList.splitOn '/').map String.ofList).filter fun c ↦ c ≠ "" ∧ c ≠ "."

def join (dir : Path) (name : String) : Path :=
  if startsWith '/' name then parse name else dir ++ parse name

def fileName (p : Path) : Option String := p.getLast?.filter fun c ↦ c ≠ ".."

def display (p : Path) : String := "/" ++ "/".intercalate p

/-- The order in which a list of paths is sorted. -/
def le (p q : Path) : Bool := !q.lex p fun a b ↦ decide (a < b)

/-- A name that an entry of a directory can have. -/
def IsComponent (s : String) : Prop := '/' ∉ s.toList ∧ s ≠ "" ∧ s ≠ "." ∧ s ≠ ".."

theorem join_component {dir : Path} {s : String} (h : IsComponent s) : dir.join s = dir ++ [s] := by
  obtain ⟨hslash, hne, hdot, -⟩ := h
  have hstart : startsWith '/' s = false := by
    rw [startsWith, decide_eq_false_iff_not]
    intro hhead
    exact hslash (List.mem_of_mem_head? hhead)
  have hsplit : s.toList.splitOn '/' = [s.toList] := by
    apply List.splitOnP_eq_singleton
    intro c hc
    simp only [beq_eq_false_iff_ne]
    rintro rfl
    exact hslash hc
  rw [join, hstart, if_neg Bool.false_ne_true, parse, hsplit]
  simp [hne, hdot]

theorem fileName_component {dir : Path} {s : String} (h : IsComponent s) :
    fileName (dir ++ [s]) = some s := by
  simp [fileName, h.2.2.2]

end Path

/-- What the manager can ask of the file system; an entry of a directory may be unreadable. -/
structure Fs where
  readDir : Path → Except IoError (List (Except IoError String))
  readToString : Path → Except IoError String
  readLink : Path → Option Path
  isFile : Path → Bool
  isSymlink : Path → Bool
  entry_component : ∀ dir entries name, readDir dir = .ok entries → .ok name ∈ entries →
    Path.IsComponent name
  /-- A regular file is listed by its directory unless an error hides it. -/
  file_listed : ∀ dir name, Path.IsComponent name → isFile (dir ++ [name]) →
    readDir dir ≠ .error .notFound ∧ ∀ entries, readDir dir = .ok entries →
      .ok name ∈ entries ∨ ∃ e, .error e ∈ entries
  file_found : ∀ path, isFile path → readToString path ≠ .error .notFound

/-- The entries of a directory as far as they can be read. -/
def Fs.entries (fs : Fs) (dir : Path) : List String :=
  match fs.readDir dir with
  | .error _ => []
  | .ok entries => entries.filterMap Except.toOption

instance (s : String) : Decidable (Path.IsComponent s) :=
  inferInstanceAs (Decidable ('/' ∉ s.toList ∧ s ≠ "" ∧ s ≠ "." ∧ s ≠ ".."))

/-- A file system that has these regular files and no links; an error is what reading one gives. -/
def Fs.ofFiles (files : List (Path × Except String String)) : Fs where
  readDir dir := .ok (((files.filterMap fun f ↦
    if dir <+: f.1 then f.1[dir.length]? else none).filter Path.IsComponent).dedup.map .ok)
  readToString path := match files.lookup path with
    | none => .error .notFound
    | some (.error e) => .error (.other e)
    | some (.ok text) => .ok text
  readLink _ := none
  isFile path := (files.lookup path).isSome
  isSymlink _ := false
  entry_component dir entries name h hmem := by
    obtain rfl := Except.ok.inj h
    obtain ⟨e, he, hname⟩ := List.mem_map.mp hmem
    obtain rfl := Except.ok.inj hname
    exact of_decide_eq_true (List.mem_filter.mp (List.mem_dedup.mp he)).2
  file_listed dir name hname hfile := by
    refine ⟨(fun h ↦ by cases h), fun entries h ↦ .inl ?_⟩
    obtain rfl := Except.ok.inj h
    apply List.mem_map_of_mem
    rw [List.mem_dedup, List.mem_filter, decide_eq_true_eq, List.mem_filterMap]
    obtain ⟨content, hlookup⟩ := Option.isSome_iff_exists.mp hfile
    obtain ⟨before, after, hfiles, -⟩ := List.lookup_eq_some_iff.mp hlookup
    exact ⟨⟨(dir ++ [name], content), by simp [hfiles], by simp⟩, hname⟩
  file_found path hfile := by
    obtain ⟨content, hlookup⟩ := Option.isSome_iff_exists.mp hfile
    rw [hlookup]
    cases content <;> (intro h; cases h)

theorem Fs.isComponent_of_mem {fs : Fs} {dir : Path} {e : String} (h : e ∈ fs.entries dir) :
    Path.IsComponent e := by
  rw [Fs.entries] at h
  split at h
  · cases h
  · next entries hdir =>
    obtain ⟨entry, hmem, he⟩ := List.mem_filterMap.mp h
    cases entry with
    | error err => cases he
    | ok name =>
      obtain rfl := Option.some.inj he
      exact fs.entry_component dir entries name hdir hmem

/-- Where the manager looks for unit files, and whether it boots the system. -/
structure Paths where
  unitPath : List Path
  configDir : Path
  boot : Bool := false

def isPlainUnitName (name : String) : Bool :=
  name ≠ "" ∧ name ≠ "." ∧ name ≠ ".." ∧ '/' ∉ name.toList ∧ '\\' ∉ name.toList

theorem isComponent_of_plain {name : String} (h : isPlainUnitName name) :
    Path.IsComponent name := by
  rw [isPlainUnitName, decide_eq_true_eq] at h
  exact ⟨h.2.2.2.1, h.1, h.2.1, h.2.2.1⟩

/-- The template of an instance: `getty@.service` of `getty@tty1.service`. -/
def templateOf (name : String) : Option String :=
  if '.' ∈ name.toList.dropWhile (· ≠ '@') then
    some (String.ofList (name.toList.takeWhile (· ≠ '@')) ++ "@." ++
      String.ofList (name.toList.rtakeWhile (· ≠ '.')))
  else none

namespace Paths

variable (paths : Paths) (fs : Fs)

def defaultTarget : Path := paths.configDir.join "default.target"

/-- The file of a name in the first search directory that has one. -/
def firstFile (name : String) : Option Path :=
  (paths.unitPath.map fun dir ↦ dir.join name).find? fs.isFile

/-- The highest-precedence unit file of a name. -/
def findUnit (name : String) : Option Path :=
  if isPlainUnitName name then
    (paths.firstFile fs name).or ((templateOf name).bind fun tmpl ↦ paths.firstFile fs tmpl)
  else none

/-- The drop-in files of a name, sorted by path. -/
def dropins (name : String) : List Path :=
  (paths.unitPath.reverse.flatMap fun dir ↦
    let d := dir.join (name ++ ".d")
    ((fs.entries d).filter fun e ↦ (rsplitOnce '.' e).any (fun p ↦ p.1 ≠ "" ∧ p.2 = "conf") ∧
      fs.isFile (d.join e)).map fun e ↦ d.join e).mergeSort Path.le

/-- The entries of the `<name>.wants` or `<name>.requires` directories. -/
def dirDeps (name kind : String) : List String :=
  paths.unitPath.flatMap fun dir ↦
    let d := dir.join (name ++ "." ++ kind)
    (fs.entries d).filter fun e ↦ fs.isSymlink (d.join e) ∨ fs.isFile (d.join e)

end Paths

namespace Repo

variable (fs : Fs)

/-- The unit files of a directory by name. -/
def listNames (root : Path) : Except RepoError (List String) :=
  match fs.readDir root with
  | .error .notFound => .ok []
  | .error e => .error (.io e)
  | .ok entries => do
    let names ← entries.mapM (Except.mapError RepoError.io)
    return (names.filter fun name ↦
      fs.isFile (root.join name) ∧ (UnitType.fromUnitName name).isSome).mergeSort

def read (root : Path) (name : String) : Except RepoError (Option UnitDefinition) :=
  match fs.readToString (root.join name) with
  | .ok text => (UnitDefinition.parse name text).map some
  | .error .notFound => .ok none
  | .error e => .error (.io e)

def readPath (path : Path) : Except RepoError UnitDefinition :=
  match path.fileName with
  | none => .error (.invalidName s!"{path.display} is not a unit file name")
  | some name =>
    match fs.readToString path with
    | .ok text => UnitDefinition.parse name text
    | .error e => .error (.io e)

/-- The units of all roots, those of earlier roots first where names collide. -/
def list (roots : List Path) : Except RepoError (List UnitDefinition) :=
  (Overlay.scan (listNames fs) (read fs) roots).map fun out ↦
    out.mergeSort fun a b ↦ decide (a.name ≤ b.name)

end Repo

def suffixes : List String := ["service", "timer", "target"]

/-- The file name of a unit as `enable`, `mask` and their like take it. -/
def normalizeFileName (name : String) : String :=
  if suffixes.any fun s ↦ (stripSuffix ("." ++ s) name).isSome then name else name ++ ".service"

/-- The disk of a manager, and how it builds a unit file from raw sections. -/
structure Disk where
  paths : Paths
  fs : Fs
  build : RawUnitFile → Name → Except String UnitFile

namespace Disk

variable (disk : Disk)

def isBuiltin (name : Name) : Bool :=
  name = "basic.target" ∨ name = "multi-user.target" ∨ name = "default.target" ∨
    (disk.paths.boot ∧
      (name = "sysinit.target" ∨ name = "graphical.target" ∨ name = "getty.target"))

/-- The suffixes of which `discover_names` takes the names of the repository. -/
def supported (name : Name) : Bool :=
  [".service", ".timer", ".target", ".path", ".socket", ".mount"].any fun suffix ↦
    (stripSuffix suffix name).isSome

/-- The names that an entry of a search directory implies. -/
def impliedBy (dir : Path) (entry : String) : List Name :=
  match stripSuffix ".wants" entry with
  | some base => (base ++ ".target") :: disk.fs.entries (dir.join entry)
  | none =>
    match stripSuffix ".requires" entry with
    | some base => [base ++ ".target"]
    | none => []

/-- The names that are known without the repository. -/
def implied : List Name :=
  (disk.paths.unitPath.flatMap fun dir ↦ (disk.fs.entries dir).flatMap (disk.impliedBy dir)) ++
    ["basic.target"] ++
    (if disk.paths.boot then ["sysinit.target", "graphical.target", "getty.target"] else []) ++
    ["multi-user.target", "default.target"] ++
    ((disk.fs.readLink disk.paths.defaultTarget).bind Path.fileName).toList

/-- The names that the repository lists. -/
def listed : List Name :=
  match Repo.list disk.fs disk.paths.unitPath with
  | .error _ => []
  | .ok units => (units.map UnitDefinition.name).filter supported

def discoverNames : List Name := (disk.listed ++ disk.implied).dedup.mergeSort

/-- The document of a file that has the syntax of a unit file. -/
def document (path : Path) : Option UnitDocument :=
  (disk.fs.readToString path).toOption.bind fun text ↦ (UnitDocument.parse text).toOption

def readUnitFile (path : Path) : Except String RawUnitFile :=
  match Repo.readPath disk.fs path with
  | .ok definition => .ok (fromRepositoryDocument definition.document)
  | .error e => .error s!"can't read {path.display}: {e.text}"

def addDropin (raw : RawUnitFile) (dropin : Path) : Except String RawUnitFile :=
  match disk.readUnitFile dropin with
  | .ok d => .ok { raw with sections := raw.sections ++ d.sections }
  | .error e => .error s!"drop-in error: {e}"

/-- The sections of a unit in the order in which the builder sees them. -/
def rawUnitFile (main : Option Path) (name : Name) : Except String RawUnitFile := do
  let raw ← match main with
    | some path => match disk.readUnitFile path with
      | .ok parsed => .ok parsed
      | .error e => .error s!"parse error: {e}"
    | none => .ok {}
  (disk.paths.dropins disk.fs name).foldlM disk.addDropin raw

/-- What a unit file gets from its directories, and a target from having no file. -/
def complete (hasMain : Bool) (name : Name) (file : UnitFile) : UnitFile :=
  let unit := { file.unit with
    wants := file.unit.wants ++ disk.paths.dirDeps disk.fs name "wants"
    requires := file.unit.requires ++ disk.paths.dirDeps disk.fs name "requires" }
  let unit := if unitKindOf name = .target ∧ !hasMain ∧ name = "default.target" ∧ unit.after = [] ∧
      unit.wants = [] ∧ unit.requires = [] then
    { unit with wants := ["multi-user.target"], after := ["multi-user.target"] }
  else unit
  { file with unit }

/-- `load_unit` up to the runtime state: the file of a unit, if the unit exists. -/
def unitFile (name : Name) : Except String (Option UnitFile) :=
  let main := disk.paths.findUnit disk.fs name
  if unitKindOf name = .target ∧ main = none ∧ !disk.isBuiltin name then .ok (some {})
  else if main = none ∧ !disk.isBuiltin name ∧ unitKindOf name ≠ .target then .ok none
  else do
    let raw ← disk.rawUnitFile main name
    let file ← disk.build raw name
    return some (disk.complete main.isSome name file)

/-- A world in which the disk answers what concerns unit files. -/
def world (w : World) : World :=
  { w with discovered := disk.discoverNames, unitFile := disk.unitFile }

end Disk

end Rystemd
