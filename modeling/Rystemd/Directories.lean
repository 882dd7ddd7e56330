import Rystemd.Disk
import Rystemd.Library.Calls
import Rystemd.Library.Descent
import Rystemd.Library.Fallible

namespace Rystemd

open Text Calls Fallible

structure SpecifierContext where
  unitName : String
  runtimeDir : String
  userName : String
  uid : String
  home : String
  hostname : String
  machineId : String

namespace SpecifierContext

variable (spec : SpecifierContext)

/-- The prefix of the unit: what stands before the `@`, or before the first dot. -/
def unitPrefix : String :=
  String.ofList <| spec.unitName.toList.takeWhile fun c ↦
    if '@' ∈ spec.unitName.toList then c ≠ '@' else c ≠ '.'

/-- The instance of the unit: what stands between the `@` and the next dot. -/
def unitInstance : String :=
  match splitOnce '@' spec.unitName with
  | none => ""
  | some (_, rest) => ((splitOnce '.' rest).map Prod.fst).getD ""

/-- What a specifier stands for; an unknown one is left as it is. -/
def specifier (c : Char) : String :=
  if c = '%' then "%"
  else if c = 'n' ∨ c = 'N' then spec.unitName
  else if c = 'p' ∨ c = 'P' then spec.unitPrefix
  else if c = 'i' ∨ c = 'I' then spec.unitInstance
  else if c = 't' then spec.runtimeDir
  else if c = 'u' then spec.userName
  else if c = 'U' then spec.uid
  else if c = 'h' then spec.home
  else if c = 'H' then spec.hostname
  else if c = 'm' then spec.machineId
  else String.ofList ['%', c]

def expandChars : List Char → String
  | [] => ""
  | ['%'] => "%"
  | '%' :: c :: cs => spec.specifier c ++ expandChars cs
  | c :: cs => String.singleton c ++ expandChars cs

def expand (s : String) : String := spec.expandChars s.toList

end SpecifierContext

namespace RawUnitFile

variable (raw : RawUnitFile)

def entries (name : String) : List (String × String) :=
  (raw.sections.filter fun s ↦ s.name = name).flatMap RawSection.entries

def list (name key : String) : List String :=
  ((raw.entries name).filter fun e ↦ e.1 = key).map Prod.snd

end RawUnitFile

/-- Which root a `*Directory=` directive lives under. -/
inductive DirectoryKind
  | runtime | state | cache | logs | configuration
  deriving DecidableEq

structure DirectorySpec where
  kind : DirectoryKind
  name : String
  mode : Option Nat := none
  recursive : Bool := false
  deriving DecidableEq

/-- A number in octal, with an optional plus sign. -/
def parseOctal (s : String) : Option Nat :=
  let digits := match s.toList with
    | '+' :: rest => rest
    | cs => cs
  if !digits.isEmpty && digits.all fun c ↦ '0' ≤ c && c ≤ '7' then
    let n := digits.foldl (fun n c ↦ 8 * n + (c.toNat - 48)) 0
    if n < 4294967296 then some n else none
  else none

/-- The name in an entry, without its mode or marker. -/
def directoryName (value : String) : String := trim (((splitOnce ':' value).map Prod.fst).getD value)

def parseDirectory (kind : DirectoryKind) (value : String) : Except String DirectorySpec :=
  if directoryName value = "" then .error s!"empty directory name in `{value}`"
  else
    let spec : DirectorySpec := { kind, name := directoryName value }
    match splitOnce ':' value with
    | none => .ok spec
    | some (_, suffix) =>
      if trim suffix = "" then .ok spec
      else if trim suffix = "recursive" then .ok { spec with recursive := true }
      else match parseOctal (trim suffix) with
        | some mode => .ok { spec with mode := some mode }
        | none => .error s!"invalid directory mode/option `{value}`"

def directoryDirectives : List (String × DirectoryKind) :=
  [("RuntimeDirectory", .runtime), ("StateDirectory", .state), ("CacheDirectory", .cache),
    ("LogsDirectory", .logs), ("ConfigurationDirectory", .configuration)]

/-- The entries of the directives of a file after specifier expansion. -/
def directoryEntries (spec : SpecifierContext) (raw : RawUnitFile) :
    List (DirectoryKind × String) :=
  directoryDirectives.flatMap fun directive ↦
    (raw.list "Service" directive.1).flatMap fun v ↦
      (splitWhitespace (spec.expand v)).map fun tok ↦ (directive.2, tok)

/-- What `build_service` makes of the directives. -/
def buildDirectories (spec : SpecifierContext) (raw : RawUnitFile) :
    Except String (List DirectorySpec) :=
  (directoryEntries spec raw).mapM fun entry ↦ parseDirectory entry.1 entry.2

def pathJoin (base name : String) : String :=
  if startsWith '/' name then name
  else if base = "" ∨ base.toList.getLast? = some '/' then base ++ name
  else base ++ "/" ++ name

/-- What decides where the roots of the directories are. -/
structure DirectoryRoots where
  env : String → Option String
  user : Bool
  runtimeDir : String
  home : String
  workingDir : Path

namespace DirectoryRoots

variable (roots : DirectoryRoots)

def envOr (key default : String) : String := (roots.env key).getD default

def baseDir : DirectoryKind → String
  | .runtime => roots.envOr "RYSTEMD_RUNTIME_DIR" roots.runtimeDir
  | .state => roots.envOr "RYSTEMD_STATE_DIR" <|
    if roots.user then
      roots.envOr "XDG_STATE_HOME" (pathJoin (pathJoin roots.home ".local") "state")
    else "/var/lib"
  | .cache => roots.envOr "RYSTEMD_CACHE_DIR" <|
    if roots.user then roots.envOr "XDG_CACHE_HOME" (pathJoin roots.home ".cache")
    else "/var/cache"
  | .logs => roots.envOr "RYSTEMD_LOG_DIR" <|
    if roots.user then
      pathJoin (roots.envOr "XDG_STATE_HOME" (pathJoin (pathJoin roots.home ".local") "state")) "log"
    else "/var/log"
  | .configuration => roots.envOr "RYSTEMD_CONFIG_ROOT" <|
    if roots.user then roots.envOr "XDG_CONFIG_HOME" (pathJoin roots.home ".config")
    else "/etc"

/-- The directory that a path denotes. -/
def denoted (path : String) : Path := Descent.walk ".." [] (roots.workingDir.join path)

end DirectoryRoots

/-- A call that concerns a directory; it is answered by an error or not (`isDir` says no by an
error). -/
inductive DirectoryCall
  | isDir (path : String)
  | createDirAll (path : String)
  | createDir (path : String)
  | setPermissions (path : String) (mode : Nat)
  | chown (path : String) (uid gid : Nat)
  | removeDirAll (path : String)
  | removeDir (path : String)

def DirectoryCall.path : DirectoryCall → String
  | isDir path | createDirAll path | createDir path | setPermissions path _ | chown path _ _
  | removeDirAll path | removeDir path => path

abbrev DirectoryProg := Prog DirectoryCall (Option IoError) String

namespace DirectoryProg

/-- A call that must succeed. -/
def must (what : String) (c : DirectoryCall) : DirectoryProg PUnit := do
  match ← Prog.ask c with
  | some e => .fail s!"{what} {c.path}: {e.text}"
  | none => pure ()

/-- A call whose failure is ignored. -/
def ignore (c : DirectoryCall) : DirectoryProg PUnit := do
  let _ ← Prog.ask c
  pure ()

end DirectoryProg

/-- The accounts of the system: user and primary group of a user name, group of a group name. -/
structure Accounts where
  resolveUser : String → Option (Nat × Nat)
  resolveGroup : String → Option Nat

section Operations

open DirectoryProg

variable (roots : DirectoryRoots)

/-- The user and the group that a directory is given to. -/
def directoryOwner (accounts : Accounts) (user group : Option String) : Option (Nat × Nat) :=
  (user.bind accounts.resolveUser).map fun ids ↦
    (ids.1, (group.bind accounts.resolveGroup).getD ids.2)

def createDirectory (path : String) (recursive : Bool) : DirectoryProg PUnit :=
  if recursive then must "create" (.createDirAll path)
  else do
    match ← Prog.ask (.isDir path) with
    | none => pure ()
    | some _ => must "create" (.createDir path)

def giveDirectory (path : String) : Option (Nat × Nat) → DirectoryProg PUnit
  | some (uid, gid) => must "chown" (.chown path uid gid)
  | none => pure ()

def applyDirectory (owner : Option (Nat × Nat)) (d : DirectorySpec) : DirectoryProg PUnit := do
  let path := pathJoin (roots.baseDir d.kind) d.name
  createDirectory path d.recursive
  must "chmod" (.setPermissions path (d.mode.getD 0o755 &&& 0o7777))
  giveDirectory path owner

def applyDirectories (accounts : Accounts) (user group : Option String)
    (dirs : List DirectorySpec) : DirectoryProg PUnit :=
  dirs.forM (applyDirectory roots (directoryOwner accounts user group))

def cleanupDirectories (dirs : List DirectorySpec) : DirectoryProg PUnit :=
  dirs.forM fun d ↦
    let path := pathJoin (roots.baseDir d.kind) d.name
    match d.kind with
    | .runtime => ignore (.removeDirAll path)
    | .state => ignore (.removeDir path)
    | .cache | .logs | .configuration => pure ()

/-- The part of `clean_units` that concerns the directories of one unit. -/
def cleanDirectories (dirs : List DirectorySpec) : DirectoryProg PUnit :=
  dirs.forM fun d ↦ ignore (.removeDirAll (pathJoin (roots.baseDir d.kind) d.name))

end Operations

theorem Path.parse_append (a b : String) :
    Path.parse (a ++ "/" ++ b) = Path.parse a ++ Path.parse b := by
  have hab : (a ++ "/" ++ b).toList = a.toList ++ '/' :: b.toList := by
    simp [String.toList_append]
  rw [parse, hab, List.splitOn_append_cons_self, List.map_append, List.filter_append]
  rfl

theorem startsWith_append {a : String} (h : a ≠ "") (c : Char) (b : String) :
    startsWith c (a ++ b) = startsWith c a := by
  obtain ⟨first, rest, ha⟩ := List.exists_cons_of_ne_nil (mt String.toList_eq_nil_iff.mp h)
  simp [startsWith, String.toList_append, ha]

theorem parse_pathJoin {base name : String} (h : startsWith '/' name = false) :
    Path.parse (pathJoin base name) = Path.parse base ++ Path.parse name := by
  have hempty : Path.parse "" = [] := by decide
  rw [pathJoin, h, if_neg Bool.false_ne_true]
  by_cases hbase : base = ""
  · rw [if_pos (.inl hbase), hbase, hempty, String.empty_append, List.nil_append]
  · by_cases hlast : base.toList.getLast? = some '/'
    · obtain ⟨front, hfront⟩ := List.getLast?_eq_some_iff.mp hlast
      have hsplit : base = String.ofList front ++ "/" := by
        apply String.toList_inj.mp
        rw [hfront, String.toList_append, String.toList_ofList]
        rfl
      have hparse := Path.parse_append (String.ofList front) ""
      rw [String.append_empty, ← hsplit, hempty, List.append_nil] at hparse
      rw [if_pos (.inr hlast), hparse, hsplit, Path.parse_append]
    · rw [if_neg (not_or.mpr ⟨hbase, hlast⟩), Path.parse_append]

theorem join_pathJoin (dir : Path) (base : String) {name : String}
    (h : startsWith '/' name = false) :
    dir.join (pathJoin base name) = dir.join base ++ Path.parse name := by
  have hstart : startsWith '/' (pathJoin base name) = startsWith '/' base := by
    rw [pathJoin, h, if_neg Bool.false_ne_true]
    by_cases hbase : base = ""
    · rw [if_pos (.inl hbase), hbase, String.empty_append, h]
      rfl
    · split
      · exact startsWith_append hbase _ _
      · rw [String.append_assoc]
        exact startsWith_append hbase _ _
  rw [Path.join, Path.join, hstart, parse_pathJoin h]
  split
  · rfl
  · rw [List.append_assoc]

/-- A relative name is looked up below the directory that it is joined to. -/
theorem denoted_pathJoin (roots : DirectoryRoots) (base : String) {name : String}
    (h : startsWith '/' name = false) :
    roots.denoted (pathJoin base name) =
      Descent.walk ".." (roots.denoted base) (Path.parse name) := by
  rw [DirectoryRoots.denoted, join_pathJoin _ _ h, Descent.walk_append]
  rfl

namespace DirectoryRoots

variable (roots : DirectoryRoots)

/-- A path denotes something strictly below the directory that another one denotes. -/
def StrictlyBelow (base path : String) : Prop :=
  roots.denoted base <+: roots.denoted path ∧ roots.denoted path ≠ roots.denoted base

/-- A name is relative, no part of it leads out of the directory that it is joined to, and the whole
leads below that directory. -/
structure StaysBelow (base name : String) : Prop where
  relative : startsWith '/' name = false
  inside : ∀ way, way <+: Path.parse name →
    roots.denoted base <+: Descent.walk ".." (roots.denoted base) way
  below : roots.StrictlyBelow base (pathJoin base name)

/-- All directories of a service stay below their roots, and nothing else is touched when it starts
and stops and when its directories are cleaned. -/
structure Confines (dirs : List DirectorySpec) : Prop where
  entries : ∀ d ∈ dirs, roots.StaysBelow (roots.baseDir d.kind) d.name
  start : ∀ accounts user group, (applyDirectories roots accounts user group dirs).Only
    fun c ↦ ∃ kind, roots.StrictlyBelow (roots.baseDir kind) c.path
  stop : (cleanupDirectories roots dirs).Only
    fun c ↦ ∃ kind, roots.StrictlyBelow (roots.baseDir kind) c.path
  clean : (cleanDirectories roots dirs).Only
    fun c ↦ ∃ kind, roots.StrictlyBelow (roots.baseDir kind) c.path

/-- A name is relative, no beginning of it has more parts `..` than names (unless it is joined to the
root of the file system), and the whole leads to a subdirectory. -/
structure Nested (base : Path) (name : String) : Prop where
  relative : startsWith '/' name = false
  stays : base = [] ∨ Descent.stays ".." 0 (Path.parse name)
  nonempty : 0 < Descent.depth ".." 0 (Path.parse name)

variable {roots}

theorem staysBelow_iff {base name : String} :
    roots.StaysBelow base name ↔ Nested (roots.denoted base) name := by
  constructor
  · rintro ⟨hrelative, hinside, -, hbelow⟩
    rw [denoted_pathJoin roots base hrelative] at hbelow
    obtain ⟨hstays, hdepth⟩ := Descent.inside_and_below_iff.mp ⟨hinside, hbelow⟩
    exact ⟨hrelative, hstays, hdepth⟩
  · rintro ⟨hrelative, hstays, hdepth⟩
    obtain ⟨hinside, hbelow⟩ := Descent.inside_and_below_iff.mpr ⟨hstays, hdepth⟩
    refine ⟨hrelative, hinside, ?_⟩
    rw [StrictlyBelow, denoted_pathJoin roots base hrelative]
    exact ⟨hinside _ List.prefix_rfl, hbelow⟩

section Only

variable {P : DirectoryCall → Prop} {c : DirectoryCall}

theorem only_must {what : String} (h : P c) : (DirectoryProg.must what c).Only P := by
  apply Prog.only_bind (Prog.only_ask h)
  intro answer
  cases answer <;> trivial

theorem only_ignore (h : P c) : (DirectoryProg.ignore c).Only P :=
  Prog.only_bind (Prog.only_ask h) fun _ ↦ Prog.only_pure _

theorem only_applyDirectory {owner : Option (Nat × Nat)} {d : DirectorySpec}
    (h : ∀ c : DirectoryCall, c.path = pathJoin (roots.baseDir d.kind) d.name → P c) :
    (applyDirectory roots owner d).Only P := by
  obtain ⟨path, hpath⟩ : ∃ path, path = pathJoin (roots.baseDir d.kind) d.name := ⟨_, rfl⟩
  rw [← hpath] at h
  have hcreate : (createDirectory path d.recursive).Only P := by
    unfold createDirectory
    split
    · exact only_must (h (.createDirAll path) rfl)
    · apply Prog.only_bind (Prog.only_ask (h (.isDir path) rfl))
      intro answer
      cases answer with
      | none => exact Prog.only_pure _
      | some e => exact only_must (h (.createDir path) rfl)
  have hgive : (giveDirectory path owner).Only P := by
    cases owner with
    | none => exact Prog.only_pure _
    | some ids => exact only_must (h (.chown path ids.1 ids.2) rfl)
  unfold applyDirectory
  rw [← hpath]
  apply Prog.only_bind hcreate
  intro _
  apply Prog.only_bind (only_must (h (.setPermissions path _) rfl))
  intro _
  exact hgive

end Only

/-- Directories that stay below their roots are all that is touched. -/
theorem Confines.of_entries {dirs : List DirectorySpec}
    (h : ∀ d ∈ dirs, roots.StaysBelow (roots.baseDir d.kind) d.name) : roots.Confines dirs where
  entries := h
  start accounts user group := Prog.only_forM fun d hd ↦
    only_applyDirectory fun c hc ↦ ⟨d.kind, hc ▸ (h d hd).below⟩
  stop := Prog.only_forM fun d hd ↦ by
    have hbelow := (h d hd).below
    cases hk : d.kind with
    | runtime => exact only_ignore ⟨d.kind, hk ▸ hbelow⟩
    | state => exact only_ignore ⟨d.kind, hk ▸ hbelow⟩
    | cache => exact Prog.only_pure _
    | logs => exact Prog.only_pure _
    | configuration => exact Prog.only_pure _
  clean := Prog.only_forM fun d hd ↦ only_ignore ⟨d.kind, (h d hd).below⟩

theorem parseDirectory_ok {kind : DirectoryKind} {value : String} {d : DirectorySpec}
    (h : parseDirectory kind value = .ok d) : d.kind = kind ∧ d.name = directoryName value := by
  unfold parseDirectory at h
  split at h
  · cases h
  · split at h
    · obtain rfl := Except.ok.inj h
      exact ⟨rfl, rfl⟩
    · split at h
      · obtain rfl := Except.ok.inj h
        exact ⟨rfl, rfl⟩
      · split at h
        · obtain rfl := Except.ok.inj h
          exact ⟨rfl, rfl⟩
        · split at h
          · obtain rfl := Except.ok.inj h
            exact ⟨rfl, rfl⟩
          · cases h

/-- The directories of a file stay below their roots exactly if the names in its entries do. -/
theorem directories_confined_iff (roots : DirectoryRoots) (spec : SpecifierContext)
    {raw : RawUnitFile} {dirs : List DirectorySpec} (h : buildDirectories spec raw = .ok dirs) :
    roots.Confines dirs ↔ ∀ entry ∈ directoryEntries spec raw,
      Nested (roots.denoted (roots.baseDir entry.1)) (directoryName entry.2) := by
  have hnames : (∀ d ∈ dirs, roots.StaysBelow (roots.baseDir d.kind) d.name) ↔
      ∀ entry ∈ directoryEntries spec raw,
        Nested (roots.denoted (roots.baseDir entry.1)) (directoryName entry.2) := by
    refine forall_mapM_iff (fun entry d hd ↦ ?_) h
    obtain ⟨hkind, hname⟩ := parseDirectory_ok hd
    rw [hkind, hname, staysBelow_iff]
  rw [← hnames]
  exact ⟨Confines.entries, Confines.of_entries⟩

/-- A system manager on a machine without any override. -/
def systemRoots : DirectoryRoots where
  env _ := none
  user := false
  runtimeDir := "/run"
  home := "/root"
  workingDir := []

def appContext : SpecifierContext where
  unitName := "app@x.service"
  runtimeDir := "/run"
  userName := "root"
  uid := "0"
  home := "/root"
  hostname := "box"
  machineId := "abcd"

def serviceFile (key value : String) : RawUnitFile where
  sections := [{ name := "Service", entries := [(key, value)] }]

theorem directories_confined_app :
    systemRoots.Confines [⟨.state, "app/x", some 0o750, false⟩, ⟨.state, "a/../b", none, true⟩] ↔
      ∀ entry ∈ directoryEntries appContext
          (serviceFile "StateDirectory" "app/%i:0750 a/../b:recursive"),
        Nested (systemRoots.denoted (systemRoots.baseDir entry.1)) (directoryName entry.2) :=
  directories_confined_iff systemRoots appContext (by decide +kernel)

/-- The runtime directory of a service leads out of the runtime directories. -/
theorem parent_removed_on_stop :
    buildDirectories appContext (serviceFile "RuntimeDirectory" "../home") =
        .ok [⟨.runtime, "../home", none, false⟩] ∧
      ¬ systemRoots.Confines [⟨.runtime, "../home", none, false⟩] := by
  refine ⟨by decide +kernel, fun h ↦ ?_⟩
  have hnested := staysBelow_iff.mp (h.entries _ List.mem_cons_self)
  obtain hroot | hstays := hnested.stays
  · revert hroot
    decide +kernel
  · revert hstays
    decide +kernel

end DirectoryRoots

end Rystemd
