import Rystemd.Disk
import Rystemd.UnitText

namespace Rystemd

open Text Fallible Function

/-- What a call gives that has no value to return. -/
abbrev RepoResult := Except RepoError PUnit.{1}

/-- What reading the file at each path gives. -/
abbrev UnitFiles := Path → Except IoError String

/-- A path at which the repository looks for a unit definition. -/
def IsUnitPath (path : Path) : Prop := (path.fileName.bind UnitType.fromUnitName).isSome

/-- A call that fails leaves the unit files alone, and one that succeeds leaves files with `P`. -/
def Leaves (files : UnitFiles) (P : UnitFiles → Prop) : RepoResult × UnitFiles → Prop
  | (.error _, files') => ∀ path, IsUnitPath path → files' path = files path
  | (.ok _, files') => P files'

theorem Leaves.mono {files : UnitFiles} {P Q : UnitFiles → Prop} {result : RepoResult × UnitFiles}
    (h : Leaves files P result) (hpq : ∀ files', P files' → Q files') : Leaves files Q result := by
  obtain ⟨_ | _, files'⟩ := result
  · exact h
  · exact hpq files' h

theorem Leaves.error {files : UnitFiles} {P : UnitFiles → Prop} {e : RepoError} :
    Leaves files P (.error e, files) := fun _ _ ↦ rfl

/-- The process id and the paths at which no file can be created, with the error. -/
structure System where
  pid : Nat
  refuses : Path → Option IoError

/-- What the operating system answers during one call; a failed write may leave anything in the
temporary file. -/
structure WriteAnswers where
  seq : UInt64 := 0
  createDirAll : Option IoError := none
  create : Option IoError := none
  writeAll : Option (IoError × Except IoError String) := none
  rename : Option IoError := none
  removeFile : Option IoError := none

namespace Backend

variable (system : System) (answers : WriteAnswers)

def read (files : UnitFiles) (root : Path) (name : String) :
    Except RepoError (Option UnitDefinition) :=
  match files (root.join name) with
  | .ok text => (UnitDefinition.parse name text).map some
  | .error .notFound => .ok none
  | .error e => .error (.io e)

def removeFile (path : Path) (files : UnitFiles) : Option IoError × UnitFiles :=
  match answers.removeFile with
  | some e => (some e, files)
  | none => (none, update files path (.error .notFound))

def delete (root : Path) (name : String) (files : UnitFiles) :
    RepoResult × UnitFiles :=
  match removeFile answers (root.join name) files with
  | (none, files) => (.ok .unit, files)
  | (some .notFound, files) => (.ok .unit, files)
  | (some e, files) => (.error (.io e), files)

def tempName (pid : Nat) (seq : UInt64) (name : String) : String :=
  "." ++ name ++ ".rystemd-tmp-" ++ pid.repr ++ "-" ++ seq.toNat.repr

def fill (temp : Path) (text : String) (files : UnitFiles) : Option IoError × UnitFiles :=
  match (system.refuses temp).or answers.create with
  | some e => (some e, files)
  | none =>
    match answers.writeAll with
    | some (e, written) => (some e, update files temp written)
    | none => (none, update files temp (.ok text))

def write (root : Path) (definition : UnitDefinition) (files : UnitFiles) :
    RepoResult × UnitFiles :=
  match answers.createDirAll with
  | some e => (.error (.io e), files)
  | none =>
    let target := root.join definition.name
    let temp := root.join (tempName system.pid answers.seq definition.name)
    match fill system answers temp definition.document.toText files with
    | (none, files) =>
      match answers.rename with
      | none => (.ok .unit, update (update files target (files temp)) temp (.error .notFound))
      | some e => (.error (.io e), (removeFile answers temp files).2)
    | (some e, files) => (.error (.io e), (removeFile answers temp files).2)

theorem read_eq (fs : Fs) (root : Path) (name : String) :
    read fs.readToString root name = Repo.read fs root name := rfl

theorem tempName_split (pid : Nat) (seq : UInt64) (name : String) :
    ∃ rest : String, (tempName pid seq name).toList = '.' :: name.toList ++ '.' :: rest.toList ∧
      rest.toList.head? = some 'r' ∧ '.' ∉ rest.toList ∧ '/' ∉ rest.toList := by
  refine ⟨"rystemd-tmp-" ++ pid.repr ++ "-" ++ seq.toNat.repr, ?_, ?_, ?_, ?_⟩
  · simp [tempName, String.toList_append]
  · simp [String.toList_append]
  · simpa [String.toList_append] using
      And.intro (notMem_repr (c := '.') rfl pid) (notMem_repr (c := '.') rfl seq.toNat)
  · simpa [String.toList_append] using
      And.intro (notMem_repr (c := '/') rfl pid) (notMem_repr (c := '/') rfl seq.toNat)

variable {system} {answers} {files : UnitFiles} {root : Path} {name : String}

/-- No temporary file is taken for a unit definition. -/
theorem fromUnitName_tempName (pid : Nat) (seq : UInt64) (name : String) :
    UnitType.fromUnitName (tempName pid seq name) = none := by
  obtain ⟨rest, hrest, hhead, hdot, -⟩ := tempName_split pid seq name
  have hsuffix : '.' :: rest.toList <:+ (tempName pid seq name).toList := by
    rw [hrest]
    exact List.suffix_append _ _
  obtain ⟨before, hsplit⟩ := rsplitOnce_of_suffix hdot hsuffix
  have hne (s : String) (hs : s.toList.head? ≠ some 'r') : rest ≠ s := by
    intro he
    rw [he] at hhead
    exact hs hhead
  rw [UnitType.fromUnitName, hsplit, Option.bind_some, UnitType.fromSuffix,
    if_neg (hne _ (by decide)), if_neg (hne _ (by decide)), if_neg (hne _ (by decide)),
    if_neg (hne _ (by decide)), if_neg (hne _ (by decide)), if_neg (hne _ (by decide)),
    if_neg (hne _ (by decide))]

theorem isComponent_tempName (pid : Nat) (seq : UInt64) (h : isPlainUnitName name) :
    Path.IsComponent (tempName pid seq name) := by
  obtain ⟨rest, hrest, hhead, -, hslash⟩ := tempName_split pid seq name
  have hne (s : String) (hr : 'r' ∉ s.toList) : tempName pid seq name ≠ s := by
    intro he
    rw [he] at hrest
    apply hr
    rw [hrest]
    exact List.mem_append_right _ (List.mem_cons_of_mem _ (List.mem_of_mem_head? hhead))
  refine ⟨?_, hne _ (by decide), hne _ (by decide), hne _ (by decide)⟩
  rw [hrest]
  simp [(isComponent_of_plain h).1, hslash]

theorem not_isUnitPath_temp (pid : Nat) (seq : UInt64) (h : isPlainUnitName name) :
    ¬ IsUnitPath (root.join (tempName pid seq name)) := by
  rw [IsUnitPath, Path.join_component (isComponent_tempName pid seq h),
    Path.fileName_component (isComponent_tempName pid seq h), Option.bind_some,
    fromUnitName_tempName]
  decide

theorem isUnitPath_target (h : isPlainUnitName name) (hk : (UnitType.fromUnitName name).isSome) :
    IsUnitPath (root.join name) := by
  rwa [IsUnitPath, Path.join_component (isComponent_of_plain h),
    Path.fileName_component (isComponent_of_plain h), Option.bind_some]

theorem removeFile_of_ne {path other : Path} (h : other ≠ path) :
    (removeFile answers path files).2 other = files other := by
  unfold removeFile
  split
  · rfl
  · exact Function.update_of_ne h _ _

theorem fill_of_ne {temp other : Path} {text : String} (h : other ≠ temp) :
    (fill system answers temp text files).2 other = files other := by
  unfold fill
  split
  · rfl
  · split <;> exact Function.update_of_ne h _ _

theorem fill_ok {temp : Path} {text : String} {files' : UnitFiles}
    (h : fill system answers temp text files = (none, files')) :
    system.refuses temp = none ∧ files' temp = .ok text := by
  unfold fill at h
  split at h
  · cases h
  · rename_i hcreate
    split at h
    · cases h
    · obtain rfl := (Prod.mk.inj h).2
      exact ⟨(Option.or_eq_none_iff.mp hcreate).1, Function.update_self _ _ _⟩

/-- A write that fails changes no unit file, and a write that succeeds leaves the text in place. -/
theorem write_leaves {definition : UnitDefinition} (h : isPlainUnitName definition.name)
    (hk : (UnitType.fromUnitName definition.name).isSome) :
    Leaves files (fun files' ↦
        system.refuses (root.join (tempName system.pid answers.seq definition.name)) = none ∧
          files' (root.join definition.name) = .ok definition.document.toText)
      (write system answers root definition files) := by
  have hne (path : Path) (hp : IsUnitPath path) :
      path ≠ root.join (tempName system.pid answers.seq definition.name) := by
    rintro rfl
    exact not_isUnitPath_temp _ _ h hp
  unfold write
  cases answers.createDirAll with
  | some e => exact fun _ _ ↦ rfl
  | none =>
    obtain ⟨temp, htemp⟩ : ∃ temp,
        temp = root.join (tempName system.pid answers.seq definition.name) := ⟨_, rfl⟩
    rw [← htemp] at hne ⊢
    simp only
    cases hfill : fill system answers temp definition.document.toText files with
    | mk failure files' =>
      have hkeeps (path : Path) (hp : IsUnitPath path) : files' path = files path := by
        have hsame : (fill system answers temp definition.document.toText files).2 path = _ :=
          fill_of_ne (hne path hp)
        rwa [hfill] at hsame
      cases failure with
      | some e =>
        intro path hp
        rw [removeFile_of_ne (hne path hp), hkeeps path hp]
      | none =>
        obtain ⟨hcreate, htext⟩ := fill_ok hfill
        cases answers.rename with
        | some e =>
          intro path hp
          rw [removeFile_of_ne (hne path hp), hkeeps path hp]
        | none =>
          refine ⟨hcreate, ?_⟩
          rw [Function.update_of_ne (hne _ (isUnitPath_target h hk)), Function.update_self, htext]

theorem delete_leaves : Leaves files (fun _ ↦ True) (delete answers root name files) := by
  unfold delete removeFile
  cases answers.removeFile with
  | none => exact trivial
  | some e =>
    cases e with
    | notFound => exact trivial
    | other text => exact .error

theorem write_succeeds {definition : UnitDefinition} {seq : UInt64}
    (h : system.refuses (root.join (tempName system.pid seq definition.name)) = none) :
    ∃ files', write system { seq } root definition files = (.ok .unit, files') := by
  simp only [write, fill, h, Option.or_none]
  exact ⟨_, rfl⟩

end Backend

structure Repository where
  roots : List Path
  nonempty : roots ≠ []

namespace Repository

variable (repo : Repository) (system : System) (answers : WriteAnswers) (files : UnitFiles)

def root : Path := repo.roots.head repo.nonempty

def validateName (name : String) : RepoResult :=
  if !isPlainUnitName name then
    .error (.invalidName s!"unit name `{name}` is not a plain unit file name")
  else if UnitType.fromUnitName name = none then
    .error (.invalidName s!"unit name `{name}` has no recognized unit suffix")
  else .ok .unit

def readRoots (name : String) : List Path → Except RepoError (Option UnitDefinition)
  | [] => .ok none
  | root :: roots =>
    match Backend.read files root name with
    | .ok none => readRoots name roots
    | .ok (some definition) => .ok (some definition)
    | .error e => .error e

def read (name : String) : Except RepoError (Option UnitDefinition) :=
  (validateName name).bind fun _ ↦ readRoots files name repo.roots

def write (definition : UnitDefinition) : RepoResult × UnitFiles :=
  match validateName definition.name with
  | .error e => (.error e, files)
  | .ok _ => Backend.write system answers repo.root definition files

def create (definition : UnitDefinition) : RepoResult × UnitFiles :=
  match validateName definition.name with
  | .error e => (.error e, files)
  | .ok _ =>
    match Backend.read files repo.root definition.name with
    | .error e => (.error e, files)
    | .ok (some _) => (.error (.alreadyExists definition.name), files)
    | .ok none => Backend.write system answers repo.root definition files

/-- Writes a definition in place of one that exists. -/
def update (definition : UnitDefinition) : RepoResult × UnitFiles :=
  match validateName definition.name with
  | .error e => (.error e, files)
  | .ok _ =>
    match Backend.read files repo.root definition.name with
    | .error e => (.error e, files)
    | .ok none => (.error (.notFound definition.name), files)
    | .ok (some _) => Backend.write system answers repo.root definition files

def mutate (name : String) (f : Option UnitDefinition → Option UnitDefinition) :
    RepoResult × UnitFiles :=
  match validateName name with
  | .error e => (.error e, files)
  | .ok _ =>
    match Backend.read files repo.root name with
    | .error e => (.error e, files)
    | .ok previous =>
      match f previous with
      | some definition =>
        if definition.name ≠ name then
          (.error (.invalidName "mutate closure changed the unit name"), files)
        else Backend.write system answers repo.root definition files
      | none => Backend.delete answers repo.root name files

theorem validateName_ok {name : String} :
    validateName name = .ok .unit ↔
      isPlainUnitName name ∧ (UnitType.fromUnitName name).isSome := by
  unfold validateName
  cases hplain : isPlainUnitName name <;> cases hkind : UnitType.fromUnitName name <;> simp

end Repository

/-- What the file of the definition can express: the name decides the kind, and the document can be
printed. -/
def UnitDefinition.Expressible (definition : UnitDefinition) : Prop :=
  UnitType.fromUnitName definition.name = some definition.kind ∧ definition.document.Printable

theorem UnitDefinition.parse_toText_iff {definition : UnitDefinition} :
    UnitDefinition.parse definition.name definition.document.toText = .ok definition ↔
      definition.Expressible := by
  rw [Expressible, ← UnitDocument.parse_toText_iff]
  unfold UnitDefinition.parse
  cases UnitType.fromUnitName definition.name with
  | none => simp
  | some kind =>
    cases UnitDocument.parse definition.document.toText with
    | error e => simp [Except.map]
    | ok document =>
      obtain ⟨name, kind', document'⟩ := definition
      simp [Except.map]

theorem UnitDefinition.parse_expressible {name text : String} {definition : UnitDefinition}
    (h : UnitDefinition.parse name text = .ok definition) :
    definition.name = name ∧ definition.Expressible := by
  unfold UnitDefinition.parse at h
  split at h
  · cases h
  · rename_i kind hkind
    obtain ⟨document, hdocument, rfl⟩ := ok_of_map h
    exact ⟨rfl, hkind, UnitDocument.parse_printable hdocument⟩

theorem Backend.read_expressible {files : UnitFiles} {root : Path} {name : String}
    {previous : Option UnitDefinition} (h : Backend.read files root name = .ok previous) :
    ∀ p ∈ previous, p.name = name ∧ p.Expressible := by
  unfold Backend.read at h
  split at h
  · obtain ⟨definition, hparse, rfl⟩ := ok_of_map h
    intro p hp
    obtain rfl := Option.some.inj hp
    exact UnitDefinition.parse_expressible hparse
  · obtain rfl := Except.ok.inj h
    intro p hp
    cases hp
  · cases h

/-- A closure can be given every definition that a file can express. -/
theorem Backend.exists_read (root : Path) {name : String} {previous : Option UnitDefinition}
    (h : ∀ p ∈ previous, p.name = name ∧ p.Expressible) :
    ∃ files, Backend.read files root name = .ok previous := by
  cases previous with
  | none => exact ⟨fun _ ↦ .error .notFound, rfl⟩
  | some p =>
    obtain ⟨rfl, hp⟩ := h p rfl
    refine ⟨fun _ ↦ .ok p.document.toText, ?_⟩
    simp only [Backend.read, UnitDefinition.parse_toText_iff.mpr hp]
    rfl

/-- A call of the repository that may write a definition. -/
inductive RepoCall
  | write (definition : UnitDefinition)
  | create (definition : UnitDefinition)
  | update (definition : UnitDefinition)
  | mutate (name : String) (f : Option UnitDefinition → Option UnitDefinition)

namespace RepoCall

variable (repo : Repository) (system : System) (answers : WriteAnswers) (files : UnitFiles)

def run : RepoCall → RepoResult × UnitFiles
  | write definition => repo.write system answers files definition
  | create definition => repo.create system answers files definition
  | update definition => repo.update system answers files definition
  | mutate name f => repo.mutate system answers files name f

/-- The definition that a call is to write. -/
def Writes (call : RepoCall) (definition : UnitDefinition) : Prop :=
  match call with
  | write u | create u | update u => u = definition
  | mutate name f =>
    ∃ previous, Backend.read files repo.root name = .ok previous ∧ f previous = some definition

/-- A call that fails leaves the unit files alone, and what a call has written is read again. -/
def Faithful (call : RepoCall) : Prop :=
  ∀ answers files, Leaves files (fun files' ↦ ∀ definition, call.Writes repo files definition →
      repo.read files' definition.name = .ok (some definition))
    (call.run repo system answers files)

/-- The definitions that a call can come to write: a closure is given no definition or one of the
right name that a file can express. -/
def MayWrite (call : RepoCall) (definition : UnitDefinition) : Prop :=
  match call with
  | write u | create u | update u => u = definition
  | mutate name f => definition.name = name ∧
    ∃ previous, (∀ p ∈ previous, p.name = name ∧ p.Expressible) ∧ f previous = some definition

/-- The name passes `validate_name`, and a temporary file for it can be created. -/
def Accepts (name : String) : Prop :=
  (isPlainUnitName name ∧ (UnitType.fromUnitName name).isSome) ∧
    ∃ seq, system.refuses (repo.root.join (Backend.tempName system.pid seq name)) = none

/-- The definition was accepted, and its text has been put in place. -/
def Stored (files : UnitFiles) (definition : UnitDefinition) : Prop :=
  Accepts repo system definition.name ∧
    files (repo.root.join definition.name) = .ok definition.document.toText

variable {repo} {system} {answers} {files} {definition : UnitDefinition}

/-- What stands in the first root under a valid name is what is read. -/
theorem read_written {files' : UnitFiles}
    (h : isPlainUnitName definition.name ∧ (UnitType.fromUnitName definition.name).isSome)
    (htext : files' (repo.root.join definition.name) = .ok definition.document.toText) :
    repo.read files' definition.name = .ok (some definition) ↔ definition.Expressible := by
  obtain ⟨roots, hroots⟩ : ∃ roots, repo.roots = repo.root :: roots :=
    ⟨repo.roots.tail, (List.cons_head_tail repo.nonempty).symm⟩
  rw [← UnitDefinition.parse_toText_iff, Repository.read, Repository.validateName_ok.mpr h, hroots]
  simp only [Except.bind, Repository.readRoots, Backend.read, htext]
  cases UnitDefinition.parse definition.name definition.document.toText <;> simp [Except.map]

theorem write_leaves (h : Repository.validateName definition.name = .ok .unit) :
    Leaves files (fun files' ↦ Stored repo system files' definition)
      (Backend.write system answers repo.root definition files) := by
  obtain ⟨hplain, hkind⟩ := Repository.validateName_ok.mp h
  apply (Backend.write_leaves hplain hkind).mono
  rintro files' ⟨hcreate, htext⟩
  exact ⟨⟨⟨hplain, hkind⟩, _, hcreate⟩, htext⟩

/-- Every call fails and leaves the unit files alone, or it has stored what it was to write. -/
theorem run_leaves (call : RepoCall) :
    Leaves files (fun files' ↦ ∀ definition, call.Writes repo files definition →
        call.MayWrite definition ∧ Stored repo system files' definition)
      (call.run repo system answers files) := by
  have hwrite {u : UnitDefinition} (hv : Repository.validateName u.name = .ok .unit) :
      Leaves files (fun files' ↦ ∀ definition, u = definition →
          u = definition ∧ Stored repo system files' definition)
        (Backend.write system answers repo.root u files) := by
    apply (write_leaves hv).mono
    rintro files' hstored definition rfl
    exact ⟨rfl, hstored⟩
  cases call with
  | write u =>
    simp only [run, Repository.write, Writes, MayWrite]
    cases hv : Repository.validateName u.name with
    | error e => exact .error
    | ok _ => exact hwrite hv
  | create u =>
    simp only [run, Repository.create, Writes, MayWrite]
    cases hv : Repository.validateName u.name with
    | error e => exact .error
    | ok _ =>
      cases Backend.read files repo.root u.name with
      | error e => exact .error
      | ok previous =>
        cases previous with
        | some p => exact .error
        | none => exact hwrite hv
  | update u =>
    simp only [run, Repository.update, Writes, MayWrite]
    cases hv : Repository.validateName u.name with
    | error e => exact .error
    | ok _ =>
      cases Backend.read files repo.root u.name with
      | error e => exact .error
      | ok previous =>
        cases previous with
        | none => exact .error
        | some p => exact hwrite hv
  | mutate name f =>
    rw [run, Repository.mutate]
    cases hv : Repository.validateName name with
    | error e => exact .error
    | ok _ =>
      cases hread : Backend.read files repo.root name with
      | error e => exact .error
      | ok previous =>
        have hwrites (definition : UnitDefinition)
            (h : (mutate name f).Writes repo files definition) : f previous = some definition := by
          obtain ⟨previous', hread', hf⟩ := h
          obtain rfl : previous = previous' := Except.ok.inj (hread.symm.trans hread')
          exact hf
        simp only
        cases hf : f previous with
        | none =>
          apply Backend.delete_leaves.mono
          intro files' _ definition h
          rw [hwrites definition h] at hf
          cases hf
        | some u =>
          simp only
          by_cases hname : u.name = name
          · rw [if_neg (not_not_intro hname)]
            apply (write_leaves (by rw [hname, hv])).mono
            intro files' hstored definition h
            obtain rfl : definition = u := Option.some.inj ((hwrites definition h).symm.trans hf)
            exact ⟨⟨hname, previous, Backend.read_expressible hread, hf⟩, hstored⟩
          · rw [if_pos hname]
            exact .error

/-- Whatever a call may write, it writes in some files. -/
theorem exists_run {call : RepoCall} (h : call.MayWrite definition)
    (ha : Accepts repo system definition.name) :
    ∃ answers files files', call.Writes repo files definition ∧
      call.run repo system answers files = (.ok .unit, files') := by
  obtain ⟨hvalid, seq, hcreate⟩ := ha
  have hv := Repository.validateName_ok.mpr hvalid
  have hwrite (files : UnitFiles) :
      ∃ files', Backend.write system { seq } repo.root definition files = (.ok .unit, files') :=
    Backend.write_succeeds hcreate
  cases call with
  | write u =>
    obtain rfl : u = definition := h
    obtain ⟨files', hw⟩ := hwrite fun _ ↦ .error .notFound
    refine ⟨{ seq }, fun _ ↦ .error .notFound, files', rfl, ?_⟩
    simp only [run, Repository.write, hv, hw]
  | create u =>
    obtain rfl : u = definition := h
    have hnone : ∀ p ∈ (none : Option UnitDefinition), p.name = u.name ∧ p.Expressible := by simp
    obtain ⟨files, hread⟩ := Backend.exists_read repo.root hnone
    obtain ⟨files', hw⟩ := hwrite files
    refine ⟨{ seq }, files, files', rfl, ?_⟩
    simp only [run, Repository.create, hv, hread, hw]
  | update u =>
    obtain rfl : u = definition := h
    obtain ⟨kind, hkind⟩ := Option.isSome_iff_exists.mp hvalid.2
    have hempty : ∀ p ∈ some (⟨u.name, kind, {}⟩ : UnitDefinition),
        p.name = u.name ∧ p.Expressible := by
      intro p hp
      obtain rfl := Option.some.inj hp
      exact ⟨rfl, hkind, fun s hs ↦ by cases hs⟩
    obtain ⟨files, hread⟩ := Backend.exists_read repo.root hempty
    obtain ⟨files', hw⟩ := hwrite files
    refine ⟨{ seq }, files, files', rfl, ?_⟩
    simp only [run, Repository.update, hv, hread, hw]
  | mutate name f =>
    obtain ⟨rfl, previous, hprevious, hf⟩ := h
    obtain ⟨files, hread⟩ := Backend.exists_read repo.root hprevious
    obtain ⟨files', hw⟩ := hwrite files
    refine ⟨{ seq }, files, files', ⟨previous, hread, hf⟩, ?_⟩
    simp only [run, Repository.mutate, hv, hread, hf, hw, ne_eq, not_true_eq_false, if_false]

theorem expressible_of_faithful {call : RepoCall} (h : call.Faithful repo system)
    (hmay : call.MayWrite definition) (haccepts : Accepts repo system definition.name) :
    definition.Expressible := by
  obtain ⟨answers, files, files', hwrites, hrun⟩ := exists_run hmay haccepts
  have hread := h answers files
  have hstored : Leaves files _ (call.run repo system answers files) := run_leaves call
  rw [hrun] at hread hstored
  exact (read_written haccepts.1 (hstored definition hwrites).2.2).mp (hread definition hwrites)

/-- A call is faithful exactly if a file can express every definition that it can come to write. -/
theorem faithful_iff (repo : Repository) (system : System) (call : RepoCall) :
    call.Faithful repo system ↔
      ∀ definition, call.MayWrite definition → Accepts repo system definition.name →
        definition.Expressible := by
  constructor
  · intro h definition hmay haccepts
    exact expressible_of_faithful h hmay haccepts
  · intro h answers files
    apply (run_leaves call).mono
    intro files' hstored definition hwrites
    obtain ⟨hmay, haccepts, htext⟩ := hstored definition hwrites
    exact (read_written haccepts.1 htext).mpr (h definition hmay haccepts)

/-- A system that refuses only names with a null character. -/
def refusingNull : System where
  pid := 1
  refuses path := if path.any fun c ↦ '\x00' ∈ c.toList then
    some (.other "file name contained an unexpected NUL byte") else none

/-- One description that holds a second line. -/
def twoLines : UnitDefinition where
  name := "a.service"
  kind := .service
  document := { sections := [{ name := "Service", entries := [⟨"Description", "a\nUser=root"⟩] }] }

theorem second_line_becomes_entry :
    ¬ (write twoLines).Faithful { roots := [["etc", "rystemd"]], nonempty := by simp }
      refusingNull := by
  intro h
  have haccepts : Accepts { roots := [["etc", "rystemd"]], nonempty := by simp } refusingNull
      twoLines.name := ⟨by decide +kernel, 0, by decide +kernel⟩
  obtain ⟨-, hprintable⟩ := expressible_of_faithful h rfl haccepts
  have hentry := (hprintable _ List.mem_cons_self).entries _ List.mem_cons_self
  exact hentry.newline (by decide)

end RepoCall

end Rystemd
