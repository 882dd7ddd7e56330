import Rystemd.Library.Fallible
import Rystemd.UnitDocument
import Mathlib.Data.List.ModifyLast

namespace Rystemd

open Text Fallible

namespace UnitEntry

def line (e : UnitEntry) : String := e.key ++ "=" ++ e.value

/-- An entry that the text format can express. -/
structure Printable (e : UnitEntry) : Prop where
  key : UnitDocument.validKey e.key
  value : Trimmed e.value.toList
  newline : '\n' ∉ e.value.toList

end UnitEntry

namespace UnitSection

def header (s : UnitSection) : String := "[" ++ s.name ++ "]"

def textLines (s : UnitSection) : List String := s.header :: s.entries.map UnitEntry.line

/-- A section that the text format can express. -/
structure Printable (s : UnitSection) : Prop where
  name : Trimmed s.name.toList
  nonempty : s.name ≠ ""
  bracket : ']' ∉ s.name.toList
  newline : '\n' ∉ s.name.toList
  entries : ∀ e ∈ s.entries, e.Printable

end UnitSection

namespace UnitDocument

/-- The lines of `to_text`. A blank line stands before every section but the first one. -/
def textLines : List UnitSection → List String
  | [] => []
  | s :: rest => s.textLines ++ rest.flatMap fun s ↦ "" :: s.textLines

def toText (d : UnitDocument) : String := String.join ((textLines d.sections).map fun l ↦ l ++ "\n")

/-- A document that the text format can express. -/
def Printable (d : UnitDocument) : Prop := ∀ s ∈ d.sections, s.Printable

variable {sections : List UnitSection} {s : UnitSection} {e : UnitEntry} {line n : Nat}

theorem validKey_char {key : String} (h : validKey key) {c : Char} (hc : c ∈ key.toList) :
    c.isAlphanum ∨ c = '_' ∨ c = '-' ∨ c = '.' := by
  simp only [validKey, decide_eq_true_eq] at h
  have := List.all_eq_true.mp h.2 c hc
  simpa [or_assoc] using this

theorem not_isWhitespace_of_isAlphanum {c : Char} (h : c.isAlphanum) : isWhitespace c = false := by
  have hrange : 48 ≤ c.toNat ∧ c.toNat ≤ 122 := by
    change ((decide (65 ≤ c.val ∧ c.val ≤ 90) || (decide (97 ≤ c.val) && decide (c.val ≤ 122))) ||
      (decide (48 ≤ c.val) && decide (c.val ≤ 57))) = true at h
    simp only [Bool.or_eq_true, Bool.and_eq_true, decide_eq_true_eq, UInt32.le_iff_toNat_le] at h
    change ((65 ≤ c.toNat ∧ c.toNat ≤ 90) ∨ (97 ≤ c.toNat ∧ c.toNat ≤ 122)) ∨
      (48 ≤ c.toNat ∧ c.toNat ≤ 57) at h
    omega
  simp only [isWhitespace, Bool.or_eq_false_iff, Bool.and_eq_false_iff, decide_eq_false_iff_not,
    List.mem_cons, List.not_mem_nil, or_false]
  omega

theorem not_isWhitespace_of_validKey {key : String} (h : validKey key) {c : Char}
    (hc : c ∈ key.toList) : isWhitespace c = false := by
  obtain hc | rfl | rfl | rfl := validKey_char h hc
  · exact not_isWhitespace_of_isAlphanum hc
  · decide
  · decide
  · decide

theorem key_trimmed (h : validKey e.key) : Trimmed e.key.toList :=
  .of_forall fun _ ↦ not_isWhitespace_of_validKey h

theorem key_ne_nil (h : validKey e.key) : ∃ c cs, e.key.toList = c :: cs := by
  simp only [validKey, decide_eq_true_eq] at h
  cases hk : e.key.toList with
  | nil => exact absurd (String.toList_eq_nil_iff.mp hk) h.1
  | cons c cs => exact ⟨c, cs, rfl⟩

theorem equals_notMem_key (h : validKey e.key) : '=' ∉ e.key.toList := fun hc ↦ by
  obtain hc | hc | hc | hc := validKey_char h hc <;> revert hc <;> decide

theorem line_toList : e.line.toList = e.key.toList ++ '=' :: e.value.toList := by
  simp [UnitEntry.line, String.toList_append]

theorem line_trimmed (h : e.Printable) : Trimmed e.line.toList where
  head c hc := by
    obtain ⟨x, cs, hk⟩ := key_ne_nil h.key
    rw [line_toList, hk] at hc
    obtain rfl : x = c := Option.some.inj hc
    exact not_isWhitespace_of_validKey h.key (by rw [hk]; exact List.mem_cons_self)
  last c hc := by
    rw [line_toList, List.getLast?_append] at hc
    cases hv : e.value.toList.getLast? with
    | none =>
      have hnil := List.getLast?_eq_none_iff.mp hv
      rw [hnil] at hc
      obtain rfl : '=' = c := Option.some.inj hc
      decide
    | some x =>
      have hcons : ('=' :: e.value.toList).getLast? = some x := by
        rw [List.getLast?_cons, hv]
        rfl
      rw [hcons] at hc
      obtain rfl : x = c := Option.some.inj hc
      exact h.value.last x hv

theorem header_toList : s.header.toList = '[' :: (s.name.toList ++ [']']) := by
  simp [UnitSection.header, String.toList_append]

theorem header_trimmed : Trimmed s.header.toList where
  head c hc := by
    rw [header_toList] at hc
    obtain rfl : '[' = c := Option.some.inj hc
    decide
  last c hc := by
    rw [header_toList, ← List.cons_append, List.getLast?_concat] at hc
    obtain rfl : ']' = c := Option.some.inj hc
    decide

theorem parseLine_blank : parseLine sections ("", n) = .ok sections := by
  have htrim : trim ((stripSuffix "\r" "").getD "") = "" := by decide
  rw [parseLine, htrim]
  exact if_pos (.inl rfl)

/-- A trimmed line that is neither blank nor a comment. -/
theorem parseLine_trimmed {l : String} {c : Char} {cs : List Char} (h : Trimmed l.toList)
    (hl : l.toList = c :: cs) (hc : c ≠ '#' ∧ c ≠ ';') : parseLine sections (l, n) =
      match stripPrefix "[" l with
      | some rest => (parseHeader (n + 1) l rest).map fun section_ ↦ sections ++ [section_]
      | none => (parseEntry (n + 1) l).bind fun entry ↦
        if sections = [] then
          .error (.parse (n + 1) s!"`{entry.key}=` appears before any [Section] header")
        else .ok (sections.modifyLast fun s ↦ { s with entries := s.entries ++ [entry] }) := by
  have hcomment : ¬ (l = "" ∨ startsWith '#' l ∨ startsWith ';' l) := by
    rintro (rfl | hs | hs)
    · cases hl
    · simp [startsWith, hl, hc.1] at hs
    · simp [startsWith, hl, hc.2] at hs
  rw [parseLine, h.stripSuffix, h.trim]
  exact if_neg hcomment

theorem parseLine_header (h : s.Printable) :
    parseLine sections (s.header, n) = .ok (sections ++ [{ name := s.name }]) := by
  have hstrip : stripPrefix "[" s.header = some (s.name ++ String.singleton ']' ++ "") := by
    have hlist : "[".toList <+: s.header.toList := by
      rw [header_toList]
      exact ⟨_, rfl⟩
    rw [stripPrefix, if_pos hlist, header_toList]
    apply congrArg some
    apply String.toList_inj.mp
    simp [String.toList_append]
  have htrim : trim "" = "" := by decide
  rw [parseLine_trimmed header_trimmed header_toList (by decide), hstrip]
  simp only [parseHeader, splitOnce_append h.bracket, h.name.trim, h.nonempty, htrim, ne_eq,
    not_true_eq_false, or_self, if_false]
  rfl

theorem parseEntry_line (h : e.Printable) : parseEntry n e.line = .ok e := by
  have hsplit : splitOnce '=' e.line = some (e.key, e.value) :=
    splitOnce_append (equals_notMem_key h.key) _
  rw [parseEntry, hsplit]
  simp only [(key_trimmed h.key).trim, h.key, h.value.trimStart, if_true]

theorem parseLine_entry (h : e.Printable) : parseLine (sections ++ [s]) (e.line, n) =
    .ok (sections ++ [{ s with entries := s.entries ++ [e] }]) := by
  obtain ⟨c, cs, hk⟩ := key_ne_nil h.key
  have hl : e.line.toList = c :: (cs ++ '=' :: e.value.toList) := by
    rw [line_toList, hk]
    rfl
  have hc : c ≠ '#' ∧ c ≠ ';' ∧ c ≠ '[' := by
    have hmem : c ∈ e.key.toList := by
      rw [hk]
      exact List.mem_cons_self
    obtain hc | rfl | rfl | rfl := validKey_char h.key hmem
    · refine ⟨?_, ?_, ?_⟩ <;> (rintro rfl; revert hc; decide)
    · decide
    · decide
    · decide
  have hstrip : stripPrefix "[" e.line = none := by
    rw [stripPrefix, if_neg]
    rintro ⟨rest, hrest⟩
    rw [hl] at hrest
    exact hc.2.2 (List.cons.inj hrest).1.symm
  rw [parseLine_trimmed (line_trimmed h) hl ⟨hc.1, hc.2.1⟩, hstrip]
  simp only [parseEntry_line h]
  have hne : sections ++ [s] ≠ [] := by simp
  change (if _ then _ else _) = _
  rw [if_neg hne, List.modifyLast_concat]

theorem foldlM_entries {es : List UnitEntry} (h : ∀ e ∈ es, e.Printable) :
    ((es.map UnitEntry.line).zipIdx n).foldlM parseLine (sections ++ [s]) =
      .ok (sections ++ [{ s with entries := s.entries ++ es }]) := by
  induction es generalizing s n with
  | nil => simp [pure, Except.pure]
  | cons e es ih =>
    have he : parseLine (sections ++ [s]) (e.line, n) = _ := parseLine_entry (h e List.mem_cons_self)
    rw [List.map_cons, List.zipIdx_cons, List.foldlM_cons, he, ok_bind,
      ih fun e he ↦ h e (List.mem_cons_of_mem _ he)]
    simp

theorem foldlM_section (h : s.Printable) :
    (s.textLines.zipIdx n).foldlM parseLine sections = .ok (sections ++ [s]) := by
  rw [UnitSection.textLines, List.zipIdx_cons, List.foldlM_cons, parseLine_header h, ok_bind,
    foldlM_entries h.entries]
  rfl

theorem foldlM_sections {rest : List UnitSection} (h : ∀ s ∈ rest, s.Printable) :
    ((rest.flatMap fun s ↦ "" :: s.textLines).zipIdx n).foldlM parseLine sections =
      .ok (sections ++ rest) := by
  induction rest generalizing sections n with
  | nil => simp [pure, Except.pure]
  | cons s rest ih =>
    rw [List.flatMap_cons, List.zipIdx_append, List.foldlM_append, List.zipIdx_cons,
      List.foldlM_cons, parseLine_blank, ok_bind, foldlM_section (h s List.mem_cons_self), ok_bind,
      ih fun s hs ↦ h s (List.mem_cons_of_mem _ hs), List.append_assoc, List.singleton_append]

theorem mem_textLines {l : String} (h : l ∈ textLines sections) :
    l = "" ∨ ∃ s ∈ sections, l = s.header ∨ ∃ e ∈ s.entries, l = e.line := by
  have hsection {s : UnitSection} (hs : s ∈ sections) (hl : l ∈ s.textLines) :
      ∃ s ∈ sections, l = s.header ∨ ∃ e ∈ s.entries, l = e.line := by
    obtain hl | hl := List.mem_cons.mp hl
    · exact ⟨s, hs, .inl hl⟩
    · obtain ⟨e, he, rfl⟩ := List.mem_map.mp hl
      exact ⟨s, hs, .inr ⟨e, he, rfl⟩⟩
  cases sections with
  | nil => cases h
  | cons s rest =>
    obtain hl | hl := List.mem_append.mp h
    · exact .inr (hsection List.mem_cons_self hl)
    · obtain ⟨s, hs, hl⟩ := List.mem_flatMap.mp hl
      obtain hl | hl := List.mem_cons.mp hl
      · exact .inl hl
      · exact .inr (hsection (List.mem_cons_of_mem _ hs) hl)

theorem textLines_trimmed {d : UnitDocument} (h : d.Printable) {l : String}
    (hl : l ∈ textLines d.sections) : Trimmed l.toList ∧ '\n' ∉ l.toList := by
  obtain rfl | ⟨s, hs, rfl | ⟨e, he, rfl⟩⟩ := mem_textLines hl
  · exact ⟨.of_forall (by simp), by simp⟩
  · refine ⟨header_trimmed, ?_⟩
    rw [header_toList]
    simpa using (h s hs).newline
  · have hp := (h s hs).entries e he
    refine ⟨line_trimmed hp, ?_⟩
    rw [line_toList]
    have hkey : '\n' ∉ e.key.toList := fun hc ↦ by
      have hw := not_isWhitespace_of_validKey hp.key hc
      revert hw
      decide
    simpa [hkey] using hp.newline

/-- What can be expressed is read as it was written. -/
theorem parse_toText {d : UnitDocument} (h : d.Printable) : parse d.toText = .ok d := by
  have hlines : lines d.toText = textLines d.sections := by
    rw [toText, lines_join fun l hl ↦ (textLines_trimmed h hl).2]
    conv_rhs => rw [← List.map_id (textLines d.sections)]
    exact List.map_congr_left fun l hl ↦ (textLines_trimmed h hl).1.stripSuffix
  have hfold : (textLines d.sections).zipIdx.foldlM parseLine [] = .ok d.sections := by
    cases hd : d.sections with
    | nil => rfl
    | cons s rest =>
      have hs := fun s hs ↦ h s (by rw [hd]; exact hs)
      rw [textLines, List.zipIdx_append, List.foldlM_append,
        foldlM_section (hs s List.mem_cons_self), ok_bind,
        foldlM_sections fun s hrest ↦ hs s (List.mem_cons_of_mem _ hrest)]
      rfl
  rw [parse, hlines, hfold]
  rfl

theorem parseHeader_printable {trimmed rest : String} (h : parseHeader line trimmed rest = .ok s)
    (hn : '\n' ∉ rest.toList) : s.Printable := by
  unfold parseHeader at h
  split at h
  · cases h
  · rename_i name trailing hsplit
    split at h
    · cases h
    · rename_i hok
      obtain rfl := Except.ok.inj h
      obtain ⟨hname, hbracket⟩ := splitOnce_fst hsplit
      have hsub : ∀ c ∈ (trim name).toList, c ∈ name.toList := fun c hc ↦
        (trimStart_suffix name).subset ((trim_begins name).subset hc)
      exact ⟨trimmed_trim name, fun he ↦ hok (.inl he), fun hc ↦ hbracket (hsub _ hc),
        fun hc ↦ hn (hname.subset (hsub _ hc)), fun e he ↦ by cases he⟩

theorem parseEntry_printable {trimmed : String} (h : parseEntry line trimmed = .ok e)
    (ht : Trimmed trimmed.toList) (hn : '\n' ∉ trimmed.toList) : e.Printable := by
  unfold parseEntry at h
  split at h
  · cases h
  · rename_i key value hsplit
    split at h
    · rename_i hkey
      obtain rfl := Except.ok.inj h
      have hl := splitOnce_toList hsplit
      obtain ⟨before, hbefore⟩ := trimStart_suffix value
      refine ⟨hkey, ⟨fun c hc ↦ trimStart_head hc, fun c hc ↦ ht.last c ?_⟩, fun hc ↦ hn ?_⟩
      · rw [hl, ← hbefore, List.getLast?_append, List.getLast?_cons, List.getLast?_append, hc]
        rfl
      · rw [hl, ← hbefore]
        simp [hc]
    · cases h

theorem parseLine_printable {raw : String × Nat} {sections' : List UnitSection}
    (h : parseLine sections raw = .ok sections') (hn : '\n' ∉ raw.1.toList)
    (hs : ∀ s ∈ sections, s.Printable) : ∀ s ∈ sections', s.Printable := by
  unfold parseLine at h
  extract_lets trimmed line at h
  have ht : Trimmed trimmed.toList := trimmed_trim _
  have hnt : '\n' ∉ trimmed.toList := fun hc ↦ hn <| mem_of_mem_stripSuffix <|
    (trimStart_suffix _).subset ((trim_begins _).subset hc)
  split at h
  · obtain rfl := Except.ok.inj h
    exact hs
  · split at h
    · rename_i rest hrest
      have hnr : '\n' ∉ rest.toList := by
        unfold stripPrefix at hrest
        split at hrest
        · obtain rfl := Option.some.inj hrest
          rw [String.toList_ofList]
          exact fun hc ↦ hnt (List.mem_of_mem_drop hc)
        · cases hrest
      obtain ⟨s, hh, rfl⟩ := ok_of_map h
      intro s' hs'
      obtain hs' | hs' := List.mem_append.mp hs'
      · exact hs s' hs'
      · rw [List.mem_singleton.mp hs']
        exact parseHeader_printable hh hnr
    · obtain ⟨e, he, h⟩ := ok_of_bind h
      have hp := parseEntry_printable he ht hnt
      split at h
      · cases h
      · rename_i hne
        obtain rfl := Except.ok.inj h
        obtain ⟨front, last, rfl⟩ := (List.eq_nil_or_concat' sections).resolve_left hne
        rw [List.modifyLast_concat]
        intro s hmem
        obtain hmem | hmem := List.mem_append.mp hmem
        · exact hs s (List.mem_append_left _ hmem)
        · have hlast := hs last (List.mem_append_right _ List.mem_cons_self)
          rw [List.mem_singleton.mp hmem]
          refine { hlast with entries := fun e' he' ↦ ?_ }
          obtain he' | he' := List.mem_append.mp he'
          · exact hlast.entries e' he'
          · rw [List.mem_singleton.mp he']
            exact hp

/-- What is read can be expressed. -/
theorem parse_printable {text : String} {d : UnitDocument} (h : parse text = .ok d) :
    d.Printable := by
  obtain ⟨sections, hf, rfl⟩ := ok_of_map h
  refine foldlM_invariant (I := fun sections ↦ ∀ s ∈ sections, s.Printable)
    (fun before after raw hraw hs hl ↦ ?_) hf (by simp)
  exact parseLine_printable hl (newline_notMem_lines (List.fst_mem_of_mem_zipIdx hraw)) hs

/-- Reading what was written gives a document back exactly if it can be expressed. -/
theorem parse_toText_iff {d : UnitDocument} : parse d.toText = .ok d ↔ d.Printable :=
  ⟨parse_printable, parse_toText⟩

/-- A document that was read is read again from its text. -/
theorem reserialised {text : String} {d : UnitDocument} (h : parse text = .ok d) :
    parse d.toText = .ok d := parse_toText (parse_printable h)

/-- One section with an entry that has blanks, an equals sign and a number sign in its value. -/
def oddValue : UnitDocument where
  sections := [{ name := "Unit", entries := [⟨"Wants", "a = b #c"⟩] }]

theorem oddValue_reserialised : parse oddValue.toText = .ok oddValue := by
  have h : parse "; a comment\r\n [ Unit ]\n\nWants =a = b #c " = .ok oddValue := by decide +kernel
  exact reserialised h

end UnitDocument

end Rystemd
