import Rystemd.Directories
import Rystemd.Library.FileTree
import Rystemd.Library.Recursion
import Rystemd.RawUnitFile

namespace Rystemd

open Text FileTree.Tree

abbrev Tree := FileTree.Tree

def fsErrorText : FileTree.Error → String
  | .notFound => "No such file or directory (os error 2)"
  | .exists_ => "File exists (os error 17)"
  | .notDir => "Not a directory (os error 20)"
  | .isDir => "Is a directory (os error 21)"

section Reading

variable (t : Tree)

def isFile (p : Path) : Bool :=
  match t.stat p with
  | some (.file _) => true
  | _ => false

def readToString (p : Path) : Except IoError String :=
  match t.stat p with
  | some (.file (some text)) => .ok text
  | some .dir => .error (.other (fsErrorText .isDir))
  | some _ => .error (.other "stream did not contain valid UTF-8")
  | none => .error .notFound

/-- The file tree as the manager's file system. -/
def treeFs : Fs where
  readDir p := match t.readDir p with
    | some names => .ok (names.map .ok)
    | none => .error (if t.node p = none then .notFound else .other (fsErrorText .notDir))
  readToString := readToString t
  readLink p := (t.readLink p).map FileTree.Target.raw
  isFile := isFile t
  isSymlink p := (t.readLink p).isSome
  entry_component dir entries name h hmem := by
    split at h
    · next hread =>
      obtain rfl := Except.ok.inj h
      obtain ⟨e, he, hname⟩ := List.mem_map.mp hmem
      obtain rfl := Except.ok.inj hname
      exact ((mem_readDir hread).mp he).1
    · cases h
  file_listed dir name hname hfile := by
    have hclean : FileTree.clean (dir ++ [name]) = FileTree.clean dir ++ [name] :=
      FileTree.clean_append dir hname.2.2.2
    have hnode : t.node (dir ++ [name]) ≠ none := by
      intro hnone
      rw [isFile, stat_none hnone] at hfile
      cases hfile
    have hdir := dir_above hnode
    rw [hclean, List.dropLast_concat] at hdir
    cases hread : t.readDir dir with
    | none =>
      rw [FileTree.Tree.readDir, FileTree.Tree.node, if_pos hdir] at hread
      cases hread
    | some names =>
      refine ⟨(fun h ↦ by cases h), fun entries h ↦ Or.inl ?_⟩
      obtain rfl := Except.ok.inj h
      apply List.mem_map_of_mem
      rw [FileTree.Tree.node, hclean] at hnode
      exact (mem_readDir hread).mpr ⟨hname, hnode⟩
  file_found path hfile := by
    unfold isFile at hfile
    unfold readToString
    split at hfile
    · next text hstat =>
      rw [hstat]
      cases text with
      | none =>
        intro h
        cases h
      | some text =>
        intro h
        cases h
    · cases hfile

end Reading

/-- The `[Install]` section. -/
structure InstallConfig where
  wantedBy : List String := []
  requiredBy : List String := []
  also : List String := []
  alias_ : List String := []
  deriving DecidableEq

/-- `enable` expands no specifiers but those of the name. -/
def installContext (unitName : String) : SpecifierContext where
  unitName := unitName
  runtimeDir := ""
  userName := ""
  uid := ""
  home := ""
  hostname := ""
  machineId := ""

/-- The values of the targets are split at white space, the other ones are not. -/
def installConfig (raw : RawUnitFile) (unitName : String) : InstallConfig :=
  let exp := (installContext unitName).expand
  { wantedBy := (raw.list "Install" "WantedBy").flatMap fun v ↦ splitWhitespace (exp v)
    requiredBy := (raw.list "Install" "RequiredBy").flatMap fun v ↦ splitWhitespace (exp v)
    also := (raw.list "Install" "Also").map exp
    alias_ := (raw.list "Install" "Alias").map exp }

def installSection (t : Tree) (path : Path) (unitName : String) : Option InstallConfig :=
  match readToString t path with
  | .error _ => none
  | .ok text =>
    match RawUnitFile.parse text with
    | .error _ => none
    | .ok raw => some (installConfig raw unitName)

section Masks

variable (paths : Paths)

def devNull : FileTree.Target := .absolute ["dev", "null"]

/-- The first link with the name in a search directory decides. -/
def isMasked (name : String) (t : Tree) : Bool :=
  (paths.unitPath.findSome? fun dir ↦ t.readLink (dir.join (normalizeFileName name))) = some devNull

def mask (name : String) (t : Tree) : Except String PUnit.{1} × Tree :=
  match paths.unitPath.head? with
  | none => (.error "no unit search path to mask into", t)
  | some root =>
    let link := root.join (normalizeFileName name)
    match t.createDirAll link.dropLast with
    | (some e, t) => (.error (fsErrorText e), t)
    | (none, t) =>
      match (t.removeFile link).2.symlink devNull link with
      | (some e, t) => (.error (fsErrorText e), t)
      | (none, t) => (.ok .unit, t)

def unmask (name : String) (t : Tree) : Except String PUnit.{1} × Tree :=
  match paths.unitPath.head? with
  | none => (.ok .unit, t)
  | some root =>
    let link := root.join (normalizeFileName name)
    if t.node link ≠ none ∧ isMasked paths name t then
      match t.removeFile link with
      | (some e, t) => (.error (fsErrorText e), t)
      | (none, t) => (.ok .unit, t)
    else (.ok .unit, t)

end Masks

/-- What a loop makes for each of some names, with a message for each, up to the first that fails. -/
def makeAll (make : String → Tree → Except String String × Tree) :
    List String → List String → Tree → Except String (List String) × Tree
  | [], messages, t => (.ok messages, t)
  | name :: names, messages, t =>
    match make name t with
    | (.error e, t) => (.error e, t)
    | (.ok message, t) => makeAll make names (messages ++ [message]) t

section Enable

variable (paths : Paths)

/-- The directory of a target that gets the link. A target in both lists is taken for a wanted one. -/
def linkDir (install : InstallConfig) (target : String) : Path :=
  let suffix := if target ∈ install.wantedBy then "wants" else "requires"
  paths.configDir.join s!"{target}.{suffix}"

def linkTarget (name : String) (path : Path) (install : InstallConfig) (target : String) (t : Tree) :
    Except String String × Tree :=
  let dir := linkDir paths install target
  match t.createDirAll dir with
  | (some e, t) => (.error (fsErrorText e), t)
  | (none, t) =>
    let link := dir.join name
    let t := if (t.stat link).isSome then (t.removeFile link).2 else t
    match (t.removeFile link).2.symlink (.absolute path) link with
    | (some e, t) => (.error (fsErrorText e), t)
    | (none, t) => (.ok s!"Created symlink {link.display} -> {path.display}", t)

def linkAlias (path : Path) (alias_ : String) (t : Tree) : Except String String × Tree :=
  let link := paths.configDir.join (normalizeFileName alias_)
  match t.createDirAll paths.configDir with
  | (some e, t) => (.error (fsErrorText e), t)
  | (none, t) =>
    match (t.removeFile link).2.symlink (.absolute path) link with
    | (some e, t) => (.error (fsErrorText e), t)
    | (none, t) => (.ok s!"Created alias {link.display} -> {path.display}", t)

/-- The links of one unit. -/
def makeLinks (name : String) (path : Path) (install : InstallConfig) (t : Tree) :
    Except String (List String) × Tree :=
  match makeAll (linkTarget paths name path install) (install.wantedBy ++ install.requiredBy) [] t with
  | (.error e, t) => (.error e, t)
  | (.ok messages, t) => makeAll (linkAlias paths path) install.alias_ messages t

/-- What `enable` does before it comes to the units of `Also=`, which it calls itself for. -/
def enableOwn (name : String) (t : Tree) : Except String (List String × List String) × Tree :=
  let name := normalizeFileName name
  match paths.findUnit (treeFs t) name with
  | none => (.error s!"Failed to enable unit: Unit file {name} not found.", t)
  | some path =>
    match installSection t path name with
    | none => (.error s!"Unit {name} has no installation config (no [Install] section).", t)
    | some install =>
      match makeLinks paths name path install t with
      | (.error e, t) => (.error e, t)
      | (.ok messages, t) => (.ok (messages, install.also.map normalizeFileName), t)

def enableProcedure : Recursion.Procedure String Tree String String where
  own := enableOwn paths
  finish _ messages := messages

/-- `enable` with so many calls nested, or none if that is not enough. -/
def enable (depth : Nat) (name : String) (t : Tree) : Option (Except String (List String) × Tree) :=
  (enableProcedure paths).run depth name t

theorem enableOwn_ok {name : String} {t t₁ : Tree} {messages names : List String} :
    enableOwn paths name t = (.ok (messages, names), t₁) ↔ ∃ path install,
      paths.findUnit (treeFs t) (normalizeFileName name) = some path ∧
      installSection t path (normalizeFileName name) = some install ∧
      makeLinks paths (normalizeFileName name) path install t = (.ok messages, t₁) ∧
      install.also.map normalizeFileName = names := by
  constructor
  · intro h
    rw [enableOwn] at h
    cases hfind : paths.findUnit (treeFs t) (normalizeFileName name) with
    | none =>
      rw [hfind] at h
      cases h
    | some path =>
      rw [hfind] at h
      dsimp only at h
      cases hsection : installSection t path (normalizeFileName name) with
      | none =>
        rw [hsection] at h
        cases h
      | some install =>
        rw [hsection] at h
        dsimp only at h
        split at h
        · cases h
        · next hlinks =>
          cases h
          exact ⟨path, install, rfl, hsection, hlinks, rfl⟩
  · rintro ⟨path, install, hfind, hsection, hlinks, rfl⟩
    rw [enableOwn, hfind]
    dsimp only
    rw [hsection]
    dsimp only
    rw [hlinks]

/-- Remove the entries of a directory with this name. -/
def removeNamed (name : String) (dir : Path) (t : Tree) : Tree :=
  match t.readDir dir with
  | none => t
  | some links =>
    links.foldl (fun t l ↦ if l = name then (t.removeFile (dir ++ [l])).2 else t) t

/-- What `link_existing` does for an entry of the configuration directory. The stripped name keeps
the dot before the suffix. -/
def linkExistingAt (name suffix : String) (t : Tree) (f : String) : Tree :=
  match stripSuffix suffix f with
  | none => t
  | some base =>
    if '.' ∈ base.toList then removeNamed name (paths.configDir.join s!"{base}.{suffix}") t else t

def linkExistingFor (name : String) (t : Tree) (suffix : String) : Tree :=
  match t.readDir paths.configDir with
  | none => t
  | some names => names.foldl (linkExistingAt paths name suffix) t

def linkExisting (name : String) (t : Tree) : Tree :=
  ["wants", "requires"].foldl (linkExistingFor paths name) t

/-- The places of the links that the `[Install]` section names. -/
def installPlaces (name : String) (install : InstallConfig) : List Path :=
  ((install.wantedBy ++ install.requiredBy).flatMap fun target ↦
    [(paths.configDir.join s!"{target}.wants").join name,
      (paths.configDir.join s!"{target}.requires").join name]) ++
    install.alias_.map fun a ↦ paths.configDir.join (normalizeFileName a)

/-- Remove what is at some places, with a message for each where something is. -/
def removeAll : List Path → List String → Tree → List String × Tree
  | [], removed, t => (removed, t)
  | link :: links, removed, t =>
    if t.node link ≠ none then
      removeAll links (removed ++ [s!"Removed {link.display}"]) (t.removeFile link).2
    else removeAll links removed t

/-- The `[Install]` section of the file of a unit. -/
def installOf (name : String) (t : Tree) : Option InstallConfig :=
  (paths.findUnit (treeFs t) name).bind fun path ↦ installSection t path name

/-- What `disable` does before it comes to the units of `Also=`. -/
def disableOwn (name : String) (t : Tree) : Except String (List String × List String) × Tree :=
  let name := normalizeFileName name
  let t := linkExisting paths name t
  match installOf paths name t with
  | none => (.ok ([], []), t)
  | some install =>
    let r := removeAll (installPlaces paths name install) [] t
    (.ok (r.1, install.also.map normalizeFileName), r.2)

theorem disableOwn_ok {name : String} {t t₁ : Tree} {removed names : List String}
    {install : InstallConfig}
    (h : installOf paths (normalizeFileName name)
      (linkExisting paths (normalizeFileName name) t) = some install) :
    disableOwn paths name t = (.ok (removed, names), t₁) ↔
      removeAll (installPlaces paths (normalizeFileName name) install) []
        (linkExisting paths (normalizeFileName name) t) = (removed, t₁) ∧
      install.also.map normalizeFileName = names := by
  unfold disableOwn
  dsimp only
  generalize linkExisting paths (normalizeFileName name) t = t₀ at *
  rw [h]
  dsimp only
  generalize removeAll (installPlaces paths (normalizeFileName name) install) [] t₀ = r
  constructor
  · intro heq
    cases heq
    exact ⟨rfl, rfl⟩
  · rintro ⟨rfl, rfl⟩
    rfl

theorem disableOwn_none {name : String} {t : Tree}
    (h : installOf paths (normalizeFileName name)
      (linkExisting paths (normalizeFileName name) t) = none) :
    disableOwn paths name t = (.ok ([], []), linkExisting paths (normalizeFileName name) t) := by
  unfold disableOwn
  dsimp only
  generalize linkExisting paths (normalizeFileName name) t = t₀ at *
  rw [h]

def disableProcedure : Recursion.Procedure String Tree String String where
  own := disableOwn paths
  finish name removed :=
    if removed = [] then [s!"Unit {normalizeFileName name} was not enabled."] else removed

def disable (depth : Nat) (name : String) (t : Tree) : Option (Except String (List String) × Tree) :=
  (disableProcedure paths).run depth name t

def installLinksExist (name : String) (install : InstallConfig) (t : Tree) : Bool :=
  (installPlaces paths name install).any fun place ↦ (t.stat place).isSome

def enabledState (name : String) (t : Tree) : String :=
  let name := normalizeFileName name
  if isMasked paths name t then "masked"
  else match paths.findUnit (treeFs t) name with
    | none => "not-found"
    | some path =>
      match installSection t path name with
      | none => "static"
      | some install =>
        if install.wantedBy = [] ∧ install.requiredBy = [] ∧ install.alias_ = [] then "static"
        else if installLinksExist paths name install t then "enabled" else "disabled"

end Enable

end Rystemd
