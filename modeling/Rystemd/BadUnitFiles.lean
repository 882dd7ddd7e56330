import Rystemd.Cases
import Rystemd.DropIns

namespace Rystemd

open Text

namespace Repo

variable {fs : Fs} {root : Path} {roots : List Path} {name : String} {names : List String}

/-- The names that a root lists, if it can be listed. -/
def lists (fs : Fs) (root : Path) : List String := (listNames fs root).toOption.getD []

theorem mapM_mapError_eq_ok {entries : List (Except IoError String)} :
    entries.mapM (Except.mapError RepoError.io) = .ok names ↔ entries = names.map .ok := by
  induction entries generalizing names with
  | nil =>
    rw [List.mapM_nil]
    change Except.ok [] = Except.ok names ↔ _
    rw [Except.ok.injEq, eq_comm, @eq_comm _ [], List.map_eq_nil_iff]
  | cons e entries ih =>
    rw [List.mapM_cons]
    cases e with
    | error err =>
      refine ⟨(fun h ↦ by cases h), fun h ↦ ?_⟩
      cases names <;> cases h
    | ok n =>
      change (entries.mapM (Except.mapError RepoError.io)).bind _ = _ ↔ _
      cases hrest : entries.mapM (Except.mapError RepoError.io) with
      | error err =>
        refine ⟨(fun h ↦ by cases h), fun h ↦ ?_⟩
        cases names with
        | nil => cases h
        | cons a names =>
          rw [List.map_cons, List.cons.injEq] at h
          rw [ih.mpr h.2] at hrest
          cases hrest
      | ok l =>
        change Except.ok (n :: l) = Except.ok names ↔ _
        rw [ih.mp hrest, Except.ok.injEq, ← List.map_cons]
        exact (List.map_injective_iff.mpr fun _ _ ↦ Except.ok.inj).eq_iff.symm

/-- A root that cannot be listed is one with an unreadable entry or an error of its own. -/
theorem listNames_isOk : (∃ names, listNames fs root = .ok names) ↔
    fs.readDir root = .error .notFound ∨ ∃ l : List String, fs.readDir root = .ok (l.map .ok) := by
  rw [listNames]
  cases hdir : fs.readDir root with
  | error e =>
    cases e with
    | notFound => simp
    | other text => simp
  | ok entries =>
    simp only [reduceCtorEq, false_or, Except.ok.injEq]
    constructor
    · rintro ⟨names, h⟩
      cases hm : entries.mapM (Except.mapError RepoError.io) with
      | error e => rw [hm] at h; cases h
      | ok l => exact ⟨l, mapM_mapError_eq_ok.mp hm⟩
    · rintro ⟨l, hl⟩
      rw [mapM_mapError_eq_ok.mpr hl]
      exact ⟨_, rfl⟩

theorem mem_listNames (h : listNames fs root = .ok names) :
    name ∈ names ↔ Path.IsComponent name ∧ (UnitType.fromUnitName name).isSome ∧
      fs.isFile (root.join name) := by
  rcases listNames_isOk.mp ⟨names, h⟩ with hdir | ⟨l, hdir⟩
  · rw [listNames, hdir] at h
    cases h
    refine ⟨(fun h ↦ by cases h), ?_⟩
    rintro ⟨hc, -, hfile⟩
    rw [Path.join_component hc] at hfile
    exact absurd hdir (fs.file_listed root name hc hfile).1
  · rw [listNames, hdir] at h
    change ((l.map Except.ok).mapM (Except.mapError RepoError.io)).bind _ = _ at h
    rw [mapM_mapError_eq_ok.mpr rfl] at h
    obtain rfl := Except.ok.inj h
    simp only [List.mem_mergeSort, List.mem_filter, decide_eq_true_eq]
    constructor
    · rintro ⟨hmem, hfile, htype⟩
      exact ⟨fs.entry_component root _ name hdir (List.mem_map_of_mem hmem), htype, hfile⟩
    · rintro ⟨hc, htype, hfile⟩
      refine ⟨?_, hfile, htype⟩
      rw [Path.join_component hc] at hfile
      rcases (fs.file_listed root name hc hfile).2 _ hdir with hmem | ⟨e, he⟩
      · obtain ⟨n, hn, heq⟩ := List.mem_map.mp hmem
        exact Except.ok.inj heq ▸ hn
      · obtain ⟨n, -, heq⟩ := List.mem_map.mp he
        cases heq

/-- The root from which the repository reads a name is that of the first file of the name. -/
theorem owner_lists (hroots : ∀ r ∈ roots, listNames fs r = .ok (lists fs r))
    (hc : Path.IsComponent name) (htype : (UnitType.fromUnitName name).isSome) :
    (Overlay.owner (lists fs) roots name).map (·.join name) =
      (roots.map (·.join name)).find? fs.isFile := by
  induction roots with
  | nil => rfl
  | cons r roots ih =>
    have hmem := @mem_listNames _ _ name _ (hroots r List.mem_cons_self)
    rw [Overlay.owner_cons, List.map_cons, List.find?_cons]
    by_cases hfile : fs.isFile (r.join name)
    · rw [if_pos (hmem.mpr ⟨hc, htype, hfile⟩), hfile]
      rfl
    · rw [if_neg fun h ↦ hfile (hmem.mp h).2.2, Bool.eq_false_iff.mpr hfile]
      exact ih fun r' hr' ↦ hroots r' (List.mem_cons_of_mem r hr')

end Repo

namespace Disk

variable {disk : Disk} {root path : Path} {name : Name}

/-- A unit file that cannot be read or has no valid text. -/
def bad (disk : Disk) (path : Path) : Bool :=
  disk.fs.isFile path && (path.fileName.bind UnitType.fromUnitName).isSome &&
    (disk.document path).isNone

/-- A name whose first file is bad. -/
def BadName (disk : Disk) (name : Name) : Prop :=
  Path.IsComponent name ∧ (UnitType.fromUnitName name).isSome ∧
    ∃ path, disk.paths.firstFile disk.fs name = some path ∧ disk.bad path

/-- Every search directory can be listed. -/
def Listable (disk : Disk) : Prop :=
  ∀ root ∈ disk.paths.unitPath, ∃ names, Repo.listNames disk.fs root = .ok names

theorem listable_iff : disk.Listable ↔
    ∀ root ∈ disk.paths.unitPath, Repo.listNames disk.fs root = .ok (Repo.lists disk.fs root) := by
  apply forall₂_congr
  intro root _
  rw [Repo.lists]
  cases Repo.listNames disk.fs root <;> simp [Except.toOption]

theorem bad_join (hc : Path.IsComponent name) : disk.bad (root.join name) ↔
    disk.fs.isFile (root.join name) ∧ (UnitType.fromUnitName name).isSome ∧
      disk.document (root.join name) = none := by
  have hname : Path.fileName (root.join name) = some name := by
    rw [Path.join_component hc, Path.fileName_component hc]
  rw [bad, hname]
  simp [and_assoc]

theorem read_isOk (hfile : disk.fs.isFile (root.join name))
    (htype : (UnitType.fromUnitName name).isSome) :
    (∃ v, Repo.read disk.fs root name = .ok v) ↔ disk.document (root.join name) ≠ none := by
  obtain ⟨kind, hkind⟩ := Option.isSome_iff_exists.mp htype
  have hfound := disk.fs.file_found _ hfile
  rw [Repo.read, document]
  cases hread : disk.fs.readToString (root.join name) with
  | error e =>
    cases e with
    | notFound => exact absurd hread hfound
    | other text => simp [Except.toOption]
  | ok text =>
    simp only [UnitDefinition.parse, hkind]
    cases hdoc : UnitDocument.parse text <;> simp [Except.toOption, Except.map, hdoc]

theorem name_of_read {u : UnitDefinition} (h : Repo.read disk.fs root name = .ok (some u)) :
    u.name = name := by
  rw [Repo.read] at h
  split at h
  · next text _ =>
    rw [UnitDefinition.parse] at h
    split at h
    · cases h
    · cases hdoc : UnitDocument.parse text with
      | error e => rw [hdoc] at h; cases h
      | ok doc => rw [hdoc] at h; cases h; rfl
  · cases h
  · cases h

theorem read_some {v : Option UnitDefinition} (hfile : disk.fs.isFile (root.join name))
    (h : Repo.read disk.fs root name = .ok v) : ∃ u, v = some u := by
  rw [Repo.read] at h
  split at h
  · next text _ =>
    cases hdef : UnitDefinition.parse name text with
    | error e => rw [hdef] at h; cases h
    | ok u => rw [hdef] at h; cases h; exact ⟨u, rfl⟩
  · next hread => exact absurd hread (disk.fs.file_found _ hfile)
  · cases h

/-- The first file of a name, by the root that it is in. -/
theorem firstFile_iff (hl : disk.Listable) (hc : Path.IsComponent name)
    (htype : (UnitType.fromUnitName name).isSome) :
    disk.paths.firstFile disk.fs name = some path ↔
      ∃ r, Overlay.owner (Repo.lists disk.fs) disk.paths.unitPath name = some r ∧
        r.join name = path := by
  rw [Paths.firstFile, ← Repo.owner_lists (listable_iff.mp hl) hc htype, Option.map_eq_some_iff]

theorem owner_component {r : Path} (hl : disk.Listable)
    (h : Overlay.owner (Repo.lists disk.fs) disk.paths.unitPath name = some r) :
    Path.IsComponent name ∧ (UnitType.fromUnitName name).isSome ∧
      disk.fs.isFile (r.join name) := by
  have hmem := List.find?_some h
  rw [decide_eq_true_eq] at hmem
  exact (Repo.mem_listNames (listable_iff.mp hl r (List.mem_of_find?_eq_some h))).mp hmem

/-- One bad file that is the first of its name makes the whole repository unlistable. -/
theorem mem_listed : name ∈ disk.listed ↔ disk.Listable ∧ (∀ n, ¬ disk.BadName n) ∧
    supported name ∧ Path.IsComponent name ∧ (UnitType.fromUnitName name).isSome ∧
      (disk.paths.firstFile disk.fs name).isSome := by
  have hlists : ∀ r ∈ disk.paths.unitPath, ∀ l, Repo.listNames disk.fs r = .ok l →
      l = Repo.lists disk.fs r := by
    intro r _ l hr
    rw [Repo.lists, hr]
    rfl
  have hok : (∃ vs, Overlay.scan (Repo.listNames disk.fs) (Repo.read disk.fs)
      disk.paths.unitPath = .ok vs) ↔ _ := Overlay.scan_isOk hlists
  rw [← listable_iff] at hok
  have hreads (hl : disk.Listable) : (∀ k r, Overlay.owner (Repo.lists disk.fs)
      disk.paths.unitPath k = some r → ∃ v, Repo.read disk.fs r k = .ok v) ↔
      ∀ n, ¬ disk.BadName n := by
    constructor
    · rintro h n ⟨hc, htype, path, hfirst, hbad⟩
      obtain ⟨r, hr, rfl⟩ := (firstFile_iff hl hc htype).mp hfirst
      obtain ⟨hfile, -, hdoc⟩ := (bad_join hc).mp hbad
      exact (read_isOk hfile htype).mp (h n r hr) hdoc
    · intro h k r hr
      obtain ⟨hc, htype, hfile⟩ := owner_component hl hr
      rw [read_isOk hfile htype]
      intro hdoc
      exact h k ⟨hc, htype, _, (firstFile_iff hl hc htype).mpr ⟨r, hr, rfl⟩,
        (bad_join hc).mpr ⟨hfile, htype, hdoc⟩⟩
  rw [listed, Repo.list]
  cases hscan : Overlay.scan (Repo.listNames disk.fs) (Repo.read disk.fs) disk.paths.unitPath with
  | error e =>
    refine ⟨(fun h ↦ by cases h), ?_⟩
    rintro ⟨hl, hgood, -⟩
    obtain ⟨vs, hvs⟩ := hok.mpr ⟨hl, (hreads hl).mpr hgood⟩
    rw [hscan] at hvs
    cases hvs
  | ok units =>
    obtain ⟨hl, hread⟩ := hok.mp ⟨units, hscan⟩
    have hgood := (hreads hl).mp hread
    change name ∈ ((units.mergeSort _).map UnitDefinition.name).filter supported ↔ _
    rw [List.mem_filter, List.mem_map]
    simp only [List.mem_mergeSort, Overlay.mem_scan hlists hscan]
    constructor
    · rintro ⟨⟨u, ⟨k, r, hr, hu⟩, rfl⟩, hsup⟩
      obtain rfl := name_of_read hu
      obtain ⟨hc, htype, hfile⟩ := owner_component hl hr
      refine ⟨hl, hgood, hsup, hc, htype, ?_⟩
      rw [(firstFile_iff hl hc htype).mpr ⟨r, hr, rfl⟩]
      rfl
    · rintro ⟨-, -, hsup, hc, htype, hfirst⟩
      obtain ⟨path, hpath⟩ := Option.isSome_iff_exists.mp hfirst
      obtain ⟨r, hr, -⟩ := (firstFile_iff hl hc htype).mp hpath
      obtain ⟨v, hv⟩ := hread name r hr
      obtain ⟨u, rfl⟩ := read_some (owner_component hl hr).2.2 hv
      exact ⟨⟨u, ⟨name, r, hr, hv⟩, name_of_read hv⟩, hsup⟩

/-- The same disk without its bad files; what refers to one by its name is left dangling. -/
def withoutBad (disk : Disk) : Disk where
  paths := disk.paths
  build := disk.build
  fs :=
    { readDir := disk.fs.readDir
      readToString := fun path ↦
        if disk.bad path then .error .notFound else disk.fs.readToString path
      readLink := disk.fs.readLink
      isFile := fun path ↦ disk.fs.isFile path && !disk.bad path
      isSymlink := fun path ↦ disk.fs.isSymlink path || disk.bad path
      entry_component := disk.fs.entry_component
      file_listed := fun dir name hc hfile ↦
        disk.fs.file_listed dir name hc ((Bool.and_eq_true _ _).mp hfile).1
      file_found := fun path hfile ↦ by
        obtain ⟨hfile, hgood⟩ := (Bool.and_eq_true _ _).mp hfile
        rw [if_neg (by simpa using hgood)]
        exact disk.fs.file_found path hfile }

theorem bad_withoutBad : disk.withoutBad.bad path = false := by
  by_contra h
  rw [Bool.not_eq_false, bad, Bool.and_eq_true, Bool.and_eq_true] at h
  obtain ⟨⟨hfile, htype⟩, hdoc⟩ := h
  obtain ⟨hfile, hgood⟩ := (Bool.and_eq_true _ _).mp hfile
  rw [Bool.not_eq_true'] at hgood
  have hsame : disk.withoutBad.document path = disk.document path := by
    simp [document, withoutBad, hgood]
  rw [hsame] at hdoc
  rw [bad, hfile, htype, hdoc] at hgood
  cases hgood

theorem not_badName_withoutBad : ¬ disk.withoutBad.BadName name := by
  rintro ⟨-, -, path, -, hbad⟩
  rw [bad_withoutBad] at hbad
  cases hbad

theorem listable_withoutBad : disk.withoutBad.Listable ↔ disk.Listable := by
  apply forall₂_congr
  intro root _
  rw [Repo.listNames_isOk, Repo.listNames_isOk]
  rfl

theorem firstFile_withoutBad (h : disk.paths.firstFile disk.fs name = some path)
    (hgood : disk.bad path = false) :
    disk.withoutBad.paths.firstFile disk.withoutBad.fs name = some path := by
  rw [Paths.firstFile, List.find?_eq_some_iff_append] at h ⊢
  obtain ⟨hfile, before, after, hpaths, hbefore⟩ := h
  refine ⟨by simp [withoutBad, hfile, hgood], before, after, hpaths, fun p hp ↦ ?_⟩
  have hno := hbefore p hp
  rw [Bool.not_eq_true'] at hno
  simp [withoutBad, hno]

theorem firstFile_withoutBad_none (h : disk.paths.firstFile disk.fs name = none) :
    disk.withoutBad.paths.firstFile disk.withoutBad.fs name = none := by
  rw [Paths.firstFile, List.find?_eq_none] at h ⊢
  intro p hp
  have hno := h p hp
  simp [withoutBad, hno]

theorem findUnit_withoutBad (h : disk.paths.findUnit disk.fs name = some path)
    (hgood : disk.bad path = false) :
    disk.withoutBad.paths.findUnit disk.withoutBad.fs name = some path := by
  rw [Paths.findUnit] at h ⊢
  split at h
  · next hplain =>
    rw [if_pos hplain]
    rcases Option.or_eq_some_iff.mp h with hfirst | ⟨hnone, htmpl⟩
    · rw [firstFile_withoutBad hfirst hgood, Option.some_or]
    · obtain ⟨tmpl, ht, hfirst⟩ := Option.bind_eq_some_iff.mp htmpl
      rw [firstFile_withoutBad_none hnone, ht, Option.none_or, Option.bind_some]
      exact firstFile_withoutBad hfirst hgood
  · cases h

theorem readUnitFile_withoutBad (hgood : disk.bad path = false) :
    disk.withoutBad.readUnitFile path = disk.readUnitFile path := by
  have hread : disk.withoutBad.fs.readToString path = disk.fs.readToString path := by
    simp [withoutBad, hgood]
  rw [readUnitFile, readUnitFile, Repo.readPath, Repo.readPath, hread]

theorem not_bad_conf {dir : Path} {e : String} (hc : Path.IsComponent e)
    (hext : (rsplitOnce '.' e).any fun p ↦ p.1 ≠ "" ∧ p.2 = "conf") :
    disk.bad (dir.join e) = false := by
  rw [← Bool.not_eq_true, bad_join hc]
  rintro ⟨-, htype, -⟩
  rw [fromUnitName_conf hext] at htype
  cases htype

theorem dropins_withoutBad : disk.withoutBad.paths.dropins disk.withoutBad.fs name =
    disk.paths.dropins disk.fs name := by
  rw [Paths.dropins, Paths.dropins]
  congr 1
  apply List.flatMap_congr
  intro dir _
  dsimp only
  congr 1
  apply List.filter_congr
  intro e he
  by_cases hext : (rsplitOnce '.' e).any fun p ↦ p.1 ≠ "" ∧ p.2 = "conf"
  · have hgood : disk.bad ((dir.join (name ++ ".d")).join e) = false :=
      not_bad_conf (Fs.isComponent_of_mem he) hext
    simp [withoutBad, hgood]
  · simp only [hext]
    simp

theorem not_bad_dropin (h : path ∈ disk.paths.dropins disk.fs name) : disk.bad path = false := by
  rw [Paths.dropins, List.mem_mergeSort, List.mem_flatMap] at h
  obtain ⟨dir, -, h⟩ := h
  dsimp only at h
  rw [List.mem_map] at h
  obtain ⟨e, he, rfl⟩ := h
  rw [List.mem_filter, decide_eq_true_eq] at he
  exact not_bad_conf (Fs.isComponent_of_mem he.1) he.2.1

theorem dirDeps_withoutBad (kind : String) :
    disk.withoutBad.paths.dirDeps disk.withoutBad.fs name kind =
      disk.paths.dirDeps disk.fs name kind := by
  rw [Paths.dirDeps, Paths.dirDeps]
  apply List.flatMap_congr
  intro dir _
  apply List.filter_congr
  intro e _
  have hfile (p : Path) (hbad : disk.bad p) : disk.fs.isFile p := by
    rw [bad, Bool.and_eq_true, Bool.and_eq_true] at hbad
    exact hbad.1.1
  generalize (dir.join (name ++ "." ++ kind)).join e = p
  cases hbad : disk.bad p
  · simp [withoutBad, hbad]
  · simp [withoutBad, hbad, hfile p hbad]

/-- The absence of bad files changes nothing for a unit that has a good file. -/
theorem unitFile_withoutBad (h : disk.paths.findUnit disk.fs name = some path)
    (hgood : disk.bad path = false) : disk.withoutBad.unitFile name = disk.unitFile name := by
  have hraw : disk.withoutBad.rawUnitFile (some path) name = disk.rawUnitFile (some path) name := by
    rw [rawUnitFile, rawUnitFile, readUnitFile_withoutBad hgood, dropins_withoutBad]
    cases disk.readUnitFile path with
    | error e => rfl
    | ok main =>
      change List.foldlM _ main _ = List.foldlM _ main _
      cases hdropins : disk.paths.dropins disk.fs name with
      | nil => rfl
      | cons p rest =>
        have hp : p ∈ disk.paths.dropins disk.fs name := hdropins ▸ List.mem_cons_self
        obtain ⟨e, he⟩ := readUnitFile_dropin hp
        rw [List.foldlM_cons, List.foldlM_cons, addDropin, addDropin,
          readUnitFile_withoutBad (not_bad_dropin hp), he]
        rfl
  have hcomplete (main : Bool) (file : UnitFile) :
      disk.withoutBad.complete main name file = disk.complete main name file := by
    rw [complete, complete, dirDeps_withoutBad, dirDeps_withoutBad]
  rw [unitFile, unitFile, findUnit_withoutBad h hgood, h, if_neg (by simp), if_neg (by simp),
    if_neg (by simp), if_neg (by simp), hraw]
  simp only [hcomplete]
  rfl

/-- A reload in which bad files concern their own units only: a unit that has a good file gets the
entry that it would get without the bad files, and a unit whose file is bad gets an error. -/
structure Isolates (disk : Disk) (m : Manager) (w : World) : Prop where
  others : ∀ n path, disk.paths.findUnit disk.fs n = some path → disk.bad path = false →
    supported n → (m.reloadUnits (disk.world w)).get n =
      (m.reloadUnits (disk.withoutBad.world w)).get n
  own : ∀ n, disk.BadName n → supported n →
    ∃ u, (m.reloadUnits (disk.world w)).get n = some u ∧ u.load = .error

variable {m : Manager} {w : World} {path : Path}

theorem mem_discoverNames : name ∈ disk.discoverNames ↔ name ∈ disk.listed ∨ name ∈ disk.implied := by
  rw [discoverNames, List.mem_mergeSort, List.mem_dedup, List.mem_append]

theorem fromUnitName_of_suffix {s : String} (hs : '.' ∉ s.toList)
    (htype : (UnitType.fromSuffix s).isSome) (h : '.' :: s.toList <:+ name.toList) :
    (UnitType.fromUnitName name).isSome := by
  obtain ⟨before, hsplit⟩ := rsplitOnce_of_suffix hs h
  rw [UnitType.fromUnitName, hsplit]
  exact htype

theorem fromUnitName_of_supported (h : supported name) : (UnitType.fromUnitName name).isSome := by
  obtain ⟨suffix, hmem, hs⟩ := List.any_eq_true.mp h
  have hsuffix : suffix.toList <:+ name.toList := by
    rw [stripSuffix] at hs
    split at hs
    · assumption
    · cases hs
  simp only [List.mem_cons, List.not_mem_nil, or_false] at hmem
  rcases hmem with rfl | rfl | rfl | rfl | rfl | rfl
  · apply @fromUnitName_of_suffix _ "service" (by decide) rfl hsuffix
  · apply @fromUnitName_of_suffix _ "timer" (by decide) rfl hsuffix
  · apply @fromUnitName_of_suffix _ "target" (by decide) rfl hsuffix
  · apply @fromUnitName_of_suffix _ "path" (by decide) rfl hsuffix
  · apply @fromUnitName_of_suffix _ "socket" (by decide) rfl hsuffix
  · apply @fromUnitName_of_suffix _ "mount" (by decide) rfl hsuffix

theorem findUnit_of_firstFile (hplain : isPlainUnitName name)
    (h : disk.paths.firstFile disk.fs name = some path) :
    disk.paths.findUnit disk.fs name = some path := by
  rw [Paths.findUnit, if_pos hplain, h, Option.some_or]

/-- A unit that has a file is never skipped by a reload that discovers it. -/
theorem reloadUnit_isSome (h : disk.paths.findUnit disk.fs name = some path) :
    (m.reloadUnit (disk.world w) name).isSome := by
  have hne : disk.unitFile name ≠ .ok none := by
    rw [unitFile, h, if_neg (by simp), if_neg (by simp)]
    cases disk.rawUnitFile (some path) name with
    | error e => exact fun h ↦ by cases h
    | ok raw =>
      change (disk.build raw name).bind _ ≠ _
      cases disk.build raw name <;> (intro h; cases h)
  have hworld : (disk.world w).unitFile name = disk.unitFile name := rfl
  rw [Manager.reloadUnit, Manager.loadUnit, hworld]
  cases hfile : disk.unitFile name with
  | error e => rfl
  | ok file =>
    cases file with
    | none => exact absurd hfile hne
    | some file => rfl

/-- A unit whose file is bad fails to load. -/
theorem reloadUnit_bad (h : disk.paths.findUnit disk.fs name = some path) (hbad : disk.bad path) :
    ∃ u, m.reloadUnit (disk.world w) name = some u ∧ u.load = .error := by
  have hread : ∃ e, disk.readUnitFile path = .error e := by
    rw [bad, Bool.and_eq_true, Bool.and_eq_true] at hbad
    obtain ⟨⟨-, htype⟩, hdoc⟩ := hbad
    rw [readUnitFile, Repo.readPath]
    cases hname : path.fileName with
    | none => exact ⟨_, rfl⟩
    | some n =>
      rw [hname] at htype
      obtain ⟨kind, hkind⟩ := Option.isSome_iff_exists.mp htype
      rw [document] at hdoc
      cases hread : disk.fs.readToString path with
      | error e => exact ⟨_, rfl⟩
      | ok text =>
        change UnitType.fromUnitName n = some kind at hkind
        simp only [UnitDefinition.parse, hkind]
        cases hparse : UnitDocument.parse text with
        | error e => exact ⟨_, rfl⟩
        | ok doc =>
          rw [hread] at hdoc
          simp [Except.toOption, hparse] at hdoc
  obtain ⟨e, he⟩ := hread
  have hunit : (disk.world w).unitFile name = .error s!"parse error: {e}" := by
    change disk.unitFile name = _
    rw [unitFile, h, if_neg (by simp), if_neg (by simp), rawUnitFile, he]
    rfl
  rw [Manager.reloadUnit, Manager.loadUnit, hunit]
  exact ⟨_, rfl, rfl⟩

/-- A name that no unit may have gives no error. -/
theorem reloadUnit_not_plain {u : Unit} (h : isPlainUnitName name = false)
    (hu : m.reloadUnit (disk.world w) name = some u) : u.load ≠ .error := by
  have hmain : disk.paths.findUnit disk.fs name = none := by
    rw [Paths.findUnit, h]
    rfl
  have hbuiltin : disk.isBuiltin name = false := by
    rw [← Bool.not_eq_true]
    intro hb
    rw [isBuiltin, decide_eq_true_eq] at hb
    have hplain : isPlainUnitName name := by
      rcases hb with rfl | rfl | rfl | ⟨-, rfl | rfl | rfl⟩ <;> decide
    rw [h] at hplain
    cases hplain
  have hworld : (disk.world w).unitFile name =
      if unitKindOf name = .target then .ok (some {}) else .ok none := by
    change disk.unitFile name = _
    rw [unitFile, hmain, hbuiltin]
    by_cases hk : unitKindOf name = .target <;> simp [hk]
  rw [Manager.reloadUnit, Manager.loadUnit, hworld] at hu
  by_cases hk : unitKindOf name = .target
  · rw [if_pos hk] at hu
    cases hu
    cases m.units.get name with
    | none => exact fun h ↦ by cases h
    | some old =>
      dsimp only
      split <;> (intro h; cases h)
  · rw [if_neg hk] at hu
    cases hu

theorem plain_of_findUnit (h : disk.paths.findUnit disk.fs name = some path) :
    isPlainUnitName name := by
  rw [Paths.findUnit] at h
  split at h
  · assumption
  · cases h

/-- The first file of a name is the file of its unit. -/
theorem firstFile_eq_of_findUnit {p : Path} (h : disk.paths.findUnit disk.fs name = some path)
    (hp : disk.paths.firstFile disk.fs name = some p) : p = path := by
  rw [findUnit_of_firstFile (plain_of_findUnit h) hp] at h
  exact Option.some.inj h

theorem firstFile_isSome_withoutBad (h : disk.paths.findUnit disk.fs name = some path)
    (hgood : disk.bad path = false) :
    (disk.withoutBad.paths.firstFile disk.withoutBad.fs name).isSome ↔
      (disk.paths.firstFile disk.fs name).isSome := by
  cases hp : disk.paths.firstFile disk.fs name with
  | none => rw [firstFile_withoutBad_none hp]
  | some p =>
    obtain rfl := firstFile_eq_of_findUnit h hp
    rw [firstFile_withoutBad hp hgood]

theorem reloadUnit_withoutBad (h : disk.paths.findUnit disk.fs name = some path)
    (hgood : disk.bad path = false) :
    m.reloadUnit (disk.withoutBad.world w) name = m.reloadUnit (disk.world w) name := by
  have hfile : (disk.withoutBad.world w).unitFile name = (disk.world w).unitFile name :=
    unitFile_withoutBad h hgood
  rw [Manager.reloadUnit, Manager.reloadUnit, Manager.loadUnit, Manager.loadUnit, hfile]
  rfl

theorem mem_listed_withoutBad (hplain : isPlainUnitName name) (hsup : supported name)
    (hfirst : disk.paths.firstFile disk.fs name = some path) (hgood : disk.bad path = false) :
    name ∈ disk.withoutBad.listed ↔ disk.Listable := by
  rw [mem_listed, listable_withoutBad]
  refine ⟨fun h ↦ h.1, fun hl ↦ ⟨hl, fun _ ↦ not_badName_withoutBad, hsup,
    isComponent_of_plain hplain, fromUnitName_of_supported hsup, ?_⟩⟩
  rw [firstFile_withoutBad hfirst hgood]
  rfl

theorem reloadUnits_world : (m.reloadUnits (disk.world w)).get name =
    if name ∈ disk.discoverNames then m.reloadUnit (disk.world w) name else none :=
  reloadUnits_get_eq

theorem isolates_iff : disk.Isolates m w ↔ (∀ n, ¬ disk.BadName n) ∨
    (∀ n, disk.BadName n → supported n → isPlainUnitName n ∧ n ∈ disk.implied) ∧
      (disk.Listable → ∀ n path, isPlainUnitName n → disk.paths.firstFile disk.fs n = some path →
        disk.bad path = false → supported n → n ∈ disk.implied) := by
  have himplied : disk.withoutBad.implied = disk.implied := rfl
  constructor
  · intro h
    by_cases hbad : ∀ n, ¬ disk.BadName n
    · exact .inl hbad
    · have hnone (n : Name) : n ∉ disk.listed := fun hn ↦ hbad (mem_listed.mp hn).2.1
      refine .inr ⟨?_, ?_⟩
      · intro n hn hsup
        obtain ⟨u, hu, herr⟩ := h.own n hn hsup
        rw [reloadUnits_world] at hu
        split at hu
        · next hd =>
          refine ⟨?_, (mem_discoverNames.mp hd).resolve_left (hnone n)⟩
          by_contra hplain
          exact reloadUnit_not_plain (Bool.eq_false_iff.mpr hplain) hu herr
        · cases hu
      · intro hl n path hplain hfirst hgood hsup
        have hfind := findUnit_of_firstFile hplain hfirst
        have heq := h.others n path hfind hgood hsup
        have hd : n ∈ disk.withoutBad.discoverNames :=
          mem_discoverNames.mpr (.inl ((mem_listed_withoutBad hplain hsup hfirst hgood).mpr hl))
        rw [reloadUnits_world, reloadUnits_world, if_pos hd, reloadUnit_withoutBad hfind hgood] at heq
        by_contra himp
        have hno : n ∉ disk.discoverNames := fun hn ↦
          (mem_discoverNames.mp hn).elim (hnone n) himp
        have hsome : (m.reloadUnit (disk.world w) n).isSome := reloadUnit_isSome hfind
        rw [if_neg hno] at heq
        rw [← heq] at hsome
        cases hsome
  · intro h
    constructor
    · intro n path hfind hgood hsup
      rw [reloadUnits_world, reloadUnits_world, reloadUnit_withoutBad hfind hgood]
      congr 1
      rw [eq_iff_iff, mem_discoverNames, mem_discoverNames, himplied]
      rcases h with hbad | ⟨-, himp⟩
      · rw [mem_listed, mem_listed, listable_withoutBad, firstFile_isSome_withoutBad hfind hgood]
        simp [hbad, not_badName_withoutBad]
      · refine ⟨?_, ?_⟩
        · rintro (hn | hn)
          · obtain ⟨hl, -, -, -, -, hfirst⟩ := mem_listed.mp hn
            obtain ⟨p, hp⟩ := Option.isSome_iff_exists.mp hfirst
            obtain rfl := firstFile_eq_of_findUnit hfind hp
            exact .inr (himp hl n p (plain_of_findUnit hfind) hp hgood hsup)
          · exact .inr hn
        · rintro (hn | hn)
          · obtain ⟨hl, -, -, -, -, hfirst⟩ := mem_listed.mp hn
            rw [listable_withoutBad] at hl
            rw [firstFile_isSome_withoutBad hfind hgood] at hfirst
            obtain ⟨p, hp⟩ := Option.isSome_iff_exists.mp hfirst
            obtain rfl := firstFile_eq_of_findUnit hfind hp
            exact .inr (himp hl n p (plain_of_findUnit hfind) hp hgood hsup)
          · exact .inr hn
    · intro n hn hsup
      rcases h with hgood | ⟨hown, -⟩
      · exact absurd hn (hgood n)
      · obtain ⟨hplain, himp⟩ := hown n hn hsup
        obtain ⟨-, -, path, hfirst, hbad⟩ := hn
        rw [reloadUnits_world, if_pos (mem_discoverNames.mpr (.inr himp))]
        exact reloadUnit_bad (findUnit_of_firstFile hplain hfirst) hbad

/-- A good unit and a unit without a section. -/
def oneBadFile : Disk :=
  etc [(["etc", "a.service"], .ok "[Service]"), (["etc", "x.service"], .ok "Nice=5")]

/-- A reload finds neither unit, and reports no error. -/
theorem bad_file_hides_others : ¬ ∀ (disk : Disk) (m : Manager) (w : World), disk.Isolates m w := by
  intro h
  have hmain : oneBadFile.paths.findUnit oneBadFile.fs "a.service" = some ["etc", "a.service"] := by
    decide +kernel
  have hgood : oneBadFile.bad ["etc", "a.service"] = false := by
    decide +kernel
  have hgone : "a.service" ∉ oneBadFile.discoverNames := by
    rw [mem_discoverNames, mem_listed, not_or]
    refine ⟨fun hlisted ↦ hlisted.2.1 "x.service" ⟨?_, ?_, ["etc", "x.service"], ?_⟩, ?_⟩
    all_goals decide +kernel
  have hfound : "a.service" ∈ oneBadFile.withoutBad.discoverNames := by
    rw [mem_discoverNames]
    decide +kernel
  have heq := (h oneBadFile {} {}).others _ _ hmain hgood (by decide +kernel)
  have hsome : (Manager.reloadUnit (oneBadFile.world {}) {} "a.service").isSome :=
    reloadUnit_isSome hmain
  rw [reloadUnits_world, reloadUnits_world, if_neg hgone, if_pos hfound,
    reloadUnit_withoutBad hmain hgood] at heq
  rw [← heq] at hsome
  cases hsome

end Disk

end Rystemd
