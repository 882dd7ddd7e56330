import Rystemd.UnitText

namespace Rystemd

open Text Fallible

namespace RawUnitFile

structure ParseError where
  line : Nat
  msg : String
  deriving DecidableEq

/-- The position of the first `c`. -/
def find (c : Char) (s : String) : Option Nat :=
  if c ∈ s.toList then some (s.toList.takeWhile (· ≠ c)).length else none

/-- The text from one position up to another. -/
def slice (s : String) (start stop : Nat) : String :=
  String.ofList ((s.toList.take stop).drop start)

/-- The text from a position on. -/
def sliceFrom (s : String) (start : Nat) : String := String.ofList (s.toList.drop start)

def validKey (key : String) : Bool :=
  !key.toList.isEmpty && key.toList.all fun c ↦ c.isAlphanum || c = '_' || c = '-' || c = '.'

def parseHeader (line : Nat) (trimmed : String) : Except ParseError RawSection :=
  match find ']' trimmed with
  | none => .error ⟨line, "section header missing closing ']'"⟩
  | some close =>
    let name := trim (slice trimmed 1 close)
    if trim (sliceFrom trimmed (close + 1)) ≠ "" then
      .error ⟨line, s!"trailing garbage after section header `[{name}]`"⟩
    else if name = "" then .error ⟨line, "empty section name"⟩
    else .ok { name, entries := [] }

/-- An entry goes to the section that was opened last. -/
def parseEntry (line : Nat) (trimmed : String) (sections : List RawSection) :
    Except ParseError (List RawSection) :=
  match find '=' trimmed with
  | none => .error ⟨line, s!"invalid line `{trimmed}`"⟩
  | some eq =>
    let key := trim (slice trimmed 0 eq)
    if !validKey key then .error ⟨line, s!"invalid key `{key}`"⟩
    else
      let value := trimStart (sliceFrom trimmed (eq + 1))
      if sections = [] then .error ⟨line, s!"`{key}=` appears before any [Section] header"⟩
      else .ok (sections.modifyLast fun s ↦ { s with entries := s.entries ++ [(key, value)] })

def parseLine (sections : List RawSection) (raw : String × Nat) :
    Except ParseError (List RawSection) :=
  let trimmed := trim ((stripSuffix "\r" raw.1).getD raw.1)
  let line := raw.2 + 1
  match trimmed.toList with
  | [] => .ok sections
  | first :: _ =>
    if first = '#' ∨ first = ';' then .ok sections
    else if first = '[' then (parseHeader line trimmed).map fun s ↦ sections ++ [s]
    else parseEntry line trimmed sections

/-- The parser of unit-file text that `enable` uses. -/
def parse (text : String) : Except ParseError RawUnitFile :=
  ((lines text).zipIdx.foldlM parseLine []).map fun sections ↦ { sections }

/-- The two parsers report the same line. -/
def SameLine : RepoError → ParseError → Prop
  | .parse line _, e => e.line = line
  | _, _ => False

theorem sameLine (line : Nat) (message msg : String) :
    SameLine (.parse line message) ⟨line, msg⟩ := rfl

def ofSection (s : UnitSection) : RawSection where
  name := s.name
  entries := s.entries.map fun e ↦ (e.key, e.value)

theorem fromRepositoryDocument_eq (d : UnitDocument) :
    fromRepositoryDocument d = { sections := d.sections.map ofSection } := rfl

theorem validKey_eq (key : String) : validKey key = UnitDocument.validKey key := by
  have hempty : key.toList.isEmpty = decide (key = "") := by
    rw [Bool.eq_iff_iff, List.isEmpty_iff, String.toList_eq_nil_iff, decide_eq_true_eq]
  rw [validKey, hempty, UnitDocument.validKey, Bool.eq_iff_iff]
  simp

theorem splitOnce_eq_find (c : Char) (s : String) :
    splitOnce c s = (find c s).map fun n ↦ (slice s 0 n, sliceFrom s (n + 1)) := by
  unfold splitOnce find
  split
  · obtain ⟨left, hleft⟩ : ∃ left, left = s.toList.takeWhile (· ≠ c) := ⟨_, rfl⟩
    obtain ⟨right, hright⟩ : ∃ right, right = s.toList.dropWhile (· ≠ c) := ⟨_, rfl⟩
    have happend : s.toList = left ++ right := by
      rw [hleft, hright, List.takeWhile_append_dropWhile]
    have htake : s.toList.take left.length = left := by
      rw [happend, List.take_left]
    have hdrop : s.toList.drop left.length = right := by
      rw [happend, List.drop_left]
    rw [← hleft, ← hright, Option.map_some, slice, sliceFrom, htake, List.drop_zero,
      ← List.drop_drop, hdrop]
  · rfl

/-- A bracket is found in a header as in the text after its opening bracket. -/
theorem splitOnce_header {trimmed rest : String} (h : trimmed.toList = '[' :: rest.toList) :
    splitOnce ']' rest =
      (find ']' trimmed).map fun n ↦ (slice trimmed 1 n, sliceFrom trimmed (n + 1)) := by
  have hmem : ']' ∈ trimmed.toList ↔ ']' ∈ rest.toList := by simp [h]
  have hfind : find ']' trimmed = (find ']' rest).map (· + 1) := by
    unfold find
    by_cases hr : ']' ∈ rest.toList
    · rw [if_pos hr, if_pos (hmem.mpr hr), h]
      rfl
    · rw [if_neg hr, if_neg (mt hmem.mp hr)]
      rfl
  rw [splitOnce_eq_find, hfind, Option.map_map]
  congr 1
  funext n
  simp [slice, sliceFrom, h]

theorem parseHeader_agrees {line : Nat} {trimmed rest : String}
    (h : trimmed.toList = '[' :: rest.toList) :
    Agree SameLine (fun s s' ↦ s' = ofSection s ∧ s.entries = [])
      (UnitDocument.parseHeader line trimmed rest) (parseHeader line trimmed) := by
  unfold UnitDocument.parseHeader parseHeader
  rw [splitOnce_header h]
  cases find ']' trimmed with
  | none => exact .error (sameLine _ _ _)
  | some close =>
    simp only [Option.map_some]
    by_cases hgarbage : trim (sliceFrom trimmed (close + 1)) ≠ ""
    · rw [if_pos (.inr hgarbage), if_pos hgarbage]
      exact .error (sameLine _ _ _)
    · rw [if_neg hgarbage]
      by_cases hname : trim (slice trimmed 1 close) = ""
      · rw [if_pos (.inl hname), if_pos hname]
        exact .error (sameLine _ _ _)
      · rw [if_neg (not_or.mpr ⟨hname, hgarbage⟩), if_neg hname]
        exact .ok ⟨rfl, rfl⟩

theorem map_modifyLast {sections : List UnitSection} (hne : sections ≠ []) (e : UnitEntry) :
    (sections.map ofSection).modifyLast
        (fun s ↦ { s with entries := s.entries ++ [(e.key, e.value)] }) =
      (sections.modifyLast fun s ↦ { s with entries := s.entries ++ [e] }).map ofSection := by
  obtain ⟨front, last, rfl⟩ := (List.eq_nil_or_concat' sections).resolve_left hne
  rw [List.map_append, List.map_singleton, List.modifyLast_concat, List.modifyLast_concat,
    List.map_append, List.map_singleton]
  simp [ofSection]

theorem appendEntry_agrees (line : Nat) (sections : List UnitSection) (e : UnitEntry)
    (message msg : String) :
    Agree SameLine (fun s s' ↦ s' = s.map ofSection)
      (if sections = [] then .error (.parse line message)
        else .ok (sections.modifyLast fun s ↦ { s with entries := s.entries ++ [e] }))
      (if sections.map ofSection = [] then .error ⟨line, msg⟩
        else .ok ((sections.map ofSection).modifyLast
          fun s ↦ { s with entries := s.entries ++ [(e.key, e.value)] })) := by
  by_cases hs : sections = []
  · rw [if_pos hs, if_pos (List.map_eq_nil_iff.mpr hs)]
    exact .error (sameLine _ _ _)
  · rw [if_neg hs, if_neg (mt List.map_eq_nil_iff.mp hs)]
    exact .ok (map_modifyLast hs e)

theorem parseLine_agrees (sections : List UnitSection) (raw : String × Nat) :
    Agree SameLine (fun s s' ↦ s' = s.map ofSection) (UnitDocument.parseLine sections raw)
      (parseLine (sections.map ofSection) raw) := by
  unfold UnitDocument.parseLine parseLine
  extract_lets trimmed line
  cases ht : trimmed.toList with
  | nil =>
    rw [if_pos (.inl (String.toList_eq_nil_iff.mp ht))]
    exact .ok rfl
  | cons first rest =>
    have hne : trimmed ≠ "" := by
      intro he
      rw [he] at ht
      cases ht
    have hstarts (c : Char) : startsWith c trimmed = true ↔ first = c := by
      simp [startsWith, ht]
    simp only [hstarts, hne, false_or]
    by_cases hcomment : first = '#' ∨ first = ';'
    · rw [if_pos hcomment, if_pos hcomment]
      exact .ok rfl
    · rw [if_neg hcomment, if_neg hcomment]
      by_cases hbracket : first = '['
      · rw [if_pos hbracket]
        have hstrip : stripPrefix "[" trimmed = some (String.ofList rest) := by
          rw [stripPrefix, if_pos ⟨rest, by rw [ht, hbracket]; rfl⟩, ht]
          rfl
        have hrest : trimmed.toList = '[' :: (String.ofList rest).toList := by
          rw [ht, hbracket, String.toList_ofList]
        rw [hstrip]
        exact (parseHeader_agrees hrest).map fun s s' hs ↦ by simp [hs.1]
      · rw [if_neg hbracket]
        have hstrip : stripPrefix "[" trimmed = none := by
          rw [stripPrefix, if_neg]
          rintro ⟨r, hr⟩
          rw [ht] at hr
          exact hbracket (List.cons.inj hr).1.symm
        rw [hstrip]
        unfold UnitDocument.parseEntry parseEntry
        rw [splitOnce_eq_find]
        cases find '=' trimmed with
        | none => exact .error (sameLine _ _ _)
        | some eq =>
          simp only [Option.map_some, validKey_eq]
          cases hkey : UnitDocument.validKey (trim (slice trimmed 0 eq)) with
          | false => exact .error (sameLine _ _ _)
          | true =>
            simp only [if_true, Bool.not_true, Bool.false_eq_true, if_false]
            exact appendEntry_agrees _ _ ⟨_, _⟩ _ _

/-- The two parsers accept the same texts as the same sections, and refuse the others for the same
line. -/
theorem parsers_agree (text : String) :
    Agree SameLine (fun d f ↦ fromRepositoryDocument d = f) (UnitDocument.parse text)
      (parse text) := by
  have hfold : Agree SameLine (fun s s' ↦ s' = s.map ofSection)
      ((lines text).zipIdx.foldlM UnitDocument.parseLine [])
      ((lines text).zipIdx.foldlM parseLine []) := by
    refine Agree.foldlM (fun sections sections' raw hs ↦ ?_) rfl
    rw [hs]
    exact parseLine_agrees sections raw
  refine hfold.map fun sections sections' hs ↦ ?_
  rw [fromRepositoryDocument_eq, hs]

end RawUnitFile

end Rystemd
