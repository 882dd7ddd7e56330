import Rystemd.Disk
import Mathlib.Data.Nat.Digits.Defs
import Mathlib.Logic.Function.Basic

namespace Rystemd

open Function

structure JournalRecord where
  secs : UInt64
  unit : String
  text : String
  deriving DecidableEq, Repr

structure Journal where
  maxSegmentBytes : Nat
  maxSegments : Nat

/-- The files of the journal directory. -/
abbrev JournalFiles := String → Option String

namespace JournalFiles

def remove (files : JournalFiles) (name : String) : JournalFiles := update files name none

/-- Rename a file over another one. Without a file it fails, which the callers ignore. -/
def rename (files : JournalFiles) (source target : String) : JournalFiles :=
  match files source with
  | none => files
  | some content => update (update files source none) target (some content)

end JournalFiles

/-- The name of a numbered segment. -/
def segment (unit : String) (i : Nat) : String := unit ++ "." ++ i.repr

/-- One line of a segment file. -/
def JournalRecord.line (r : JournalRecord) : String :=
  r.secs.toNat.repr ++ "\t" ++ r.unit ++ "\t" ++ r.text ++ "\n"

/-- The record as it is written: its text is one line. -/
def JournalRecord.stored (r : JournalRecord) : JournalRecord :=
  { r with text := r.text.map fun c ↦ if c = '\n' then ' ' else c }

/-- Parse one on-disk line without its line feed. -/
def parseRecord (line : String) : Option JournalRecord :=
  match Text.splitOnce '\t' line with
  | none => none
  | some (ts, rest) =>
    match Text.parseU64 ts with
    | none => none
    | some secs =>
      match Text.splitOnce '\t' rest with
      | none => some ⟨secs, rest, ""⟩
      | some (unit, text) => some ⟨secs, unit, text⟩

/-- The records of one file. -/
def records (content : String) : List JournalRecord :=
  (Text.lines content).filterMap parseRecord

namespace Journal

/-- The segment files of a unit, oldest first. -/
def segmentPaths (j : Journal) (unit : String) : List String :=
  (List.range' 1 j.maxSegments).reverse.map (segment unit) ++ [unit]

/-- The loop of `rotate` over the numbers from `i` down to 1. -/
def shiftSegments (j : Journal) (unit : String) : Nat → JournalFiles → JournalFiles
  | 0, files => files
  | i + 1, files =>
    shiftSegments j unit i
      (if i + 1 = j.maxSegments then files.remove (segment unit (i + 1))
      else files.rename (segment unit (i + 2)) (segment unit (i + 1)))

def rotate (j : Journal) (unit : String) (files : JournalFiles) : JournalFiles :=
  (j.shiftSegments unit j.maxSegments files).rename unit (segment unit 1)

def reachedCap (j : Journal) (files : JournalFiles) (unit : String) : Bool :=
  (files unit).any fun content ↦ content.utf8ByteSize ≥ j.maxSegmentBytes

def append (j : Journal) (files : JournalFiles) (r : JournalRecord) : JournalFiles :=
  if !isPlainUnitName r.unit then files
  else
    let files := if j.reachedCap files r.unit then j.rotate r.unit files else files
    update files r.unit (some ((files r.unit).getD "" ++ r.stored.line))

def read (j : Journal) (files : JournalFiles) (unit : String) (since : Option UInt64) :
    List JournalRecord :=
  if !isPlainUnitName unit then []
  else
    (j.segmentPaths unit).flatMap fun path ↦
      ((files path).elim [] records).filter fun r ↦ since.all fun s ↦ r.secs ≥ s

/-- The journal directory after some appends to an empty one. -/
def filesAfter (j : Journal) (appends : List JournalRecord) : JournalFiles :=
  appends.foldl j.append fun _ ↦ none

end Journal

/-- What a unit's journal is for: the current segment and the rotated ones, the newest first. -/
structure Segments where
  active : List JournalRecord := []
  rotated : List (List JournalRecord) := []

/-- The text of a segment file. -/
def content : List JournalRecord → String
  | [] => ""
  | r :: rs => r.line ++ content rs

namespace Segments

/-- A current segment that an append finds at its size cap. -/
def Full (j : Journal) (s : Segments) : Prop :=
  s.active ≠ [] ∧ (content s.active).utf8ByteSize ≥ j.maxSegmentBytes

instance (j : Journal) (s : Segments) : Decidable (s.Full j) :=
  inferInstanceAs (Decidable (_ ∧ _))

def append (j : Journal) (s : Segments) (r : JournalRecord) : Segments :=
  if s.Full j then ⟨[r.stored], s.active :: s.rotated⟩ else ⟨s.active ++ [r.stored], s.rotated⟩

/-- The segments of one unit after the appends of all units. -/
def after (j : Journal) (unit : String) (appends : List JournalRecord) : Segments :=
  (appends.filter fun r ↦ r.unit = unit).foldl (append j) {}

/-- The records of the current segment and of the most recently rotated ones, oldest first. -/
def retained (j : Journal) (s : Segments) : List JournalRecord :=
  (s.rotated.take j.maxSegments).reverse.flatten ++ s.active

end Segments

section Records

theorem content_append (rs rs' : List JournalRecord) :
    content (rs ++ rs') = content rs ++ content rs' := by
  induction rs with
  | nil => simp [content]
  | cons r rs ih => simp [content, ih, String.append_assoc]

theorem parseU64_repr (n : UInt64) : Text.parseU64 n.toNat.repr = some n := by
  unfold Text.parseU64
  rw [Text.parseNat_repr, Option.bind_some, if_pos n.toNat_lt, UInt64.ofNat_toNat]

/-- What follows the first tab of a line decides the unit and the text. -/
theorem parseRecord_line (secs : UInt64) (rest : String) :
    ∃ unit text, parseRecord (secs.toNat.repr ++ "\t" ++ rest) = some ⟨secs, unit, text⟩ ∧
      unit.toList <+: rest.toList ∧ '\t' ∉ unit.toList := by
  have hs := Text.splitOnce_append (Text.notMem_repr (c := '\t') rfl secs.toNat) rest
  unfold parseRecord
  rw [show (secs.toNat.repr ++ "\t" ++ rest) =
    secs.toNat.repr ++ String.singleton '\t' ++ rest from rfl, hs]
  simp only [parseU64_repr]
  cases h : Text.splitOnce '\t' rest with
  | none =>
    refine ⟨rest, "", rfl, List.prefix_refl _, ?_⟩
    intro hmem
    rw [Text.splitOnce, if_pos hmem] at h
    cases h
  | some p =>
    obtain ⟨unit, text⟩ := p
    exact ⟨unit, text, rfl, Text.splitOnce_fst h⟩

theorem parseRecord_line_of_tab (secs : UInt64) {unit : String} (hu : '\t' ∉ unit.toList)
    (text : String) :
    parseRecord (secs.toNat.repr ++ "\t" ++ (unit ++ "\t" ++ text)) = some ⟨secs, unit, text⟩ := by
  have hs := Text.splitOnce_append (Text.notMem_repr (c := '\t') rfl secs.toNat) (unit ++ "\t" ++ text)
  have ht := Text.splitOnce_append hu text
  unfold parseRecord
  rw [show (secs.toNat.repr ++ "\t" ++ (unit ++ "\t" ++ text)) =
    secs.toNat.repr ++ String.singleton '\t' ++ (unit ++ "\t" ++ text) from rfl, hs]
  simp only [parseU64_repr]
  rw [show unit ++ "\t" ++ text = unit ++ String.singleton '\t' ++ text from rfl, ht]

/-- A line without its carriage return, as `lines` gives it. -/
def chomp (s : String) : String := (Text.stripSuffix "\r" s).getD s

theorem suffix_tab_append (a q : String) :
    "\r".toList <:+ (a ++ "\t" ++ q).toList ↔ "\r".toList <:+ q.toList := by
  have hr : "\r".toList = ['\r'] := by decide
  have ht : "\t".toList = ['\t'] := by decide
  simp only [String.toList_append, hr, ht, List.singleton_suffix_iff_getLast?_eq_some,
    List.getLast?_append]
  cases q.toList.getLast? with
  | none => simp
  | some c => simp

theorem chomp_tab_append (a q : String) : chomp (a ++ "\t" ++ q) = a ++ "\t" ++ chomp q := by
  unfold chomp Text.stripSuffix
  by_cases h : "\r".toList <:+ q.toList
  · have hlen : "\r".toList.length ≤ q.toList.length := h.length_le
    rw [if_pos h, if_pos ((suffix_tab_append a q).mpr h), Option.getD_some, Option.getD_some,
      ← String.toList_inj]
    simp only [String.toList_append, String.toList_ofList, List.rdrop, List.length_append]
    rw [Nat.add_sub_assoc hlen, ← List.length_append, List.take_length_add_append]
  · rw [if_neg h, if_neg fun h' ↦ h ((suffix_tab_append a q).mp h')]
    rfl

theorem chomp_eq_self_iff (s : String) : chomp s = s ↔ ¬ "\r".toList <:+ s.toList :=
  Text.stripSuffix_getD_eq_iff (by decide)

theorem records_empty : records "" = [] := rfl

theorem records_append (a b : String) :
    records (a ++ "\n" ++ b) = records (a ++ "\n") ++ records b := by
  unfold records
  rw [Text.lines_append, List.filterMap_append]

theorem records_line_append (r : JournalRecord) (b : String) :
    records (r.line ++ b) = records r.line ++ records b := records_append _ b

theorem records_content (rs : List JournalRecord) :
    records (content rs) = rs.flatMap fun r ↦ records r.line := by
  induction rs with
  | nil => rfl
  | cons r rs ih => rw [content, records_line_append, ih, List.flatMap_cons]

theorem records_content_append (rs : List JournalRecord) (b : String) :
    records (content rs ++ b) = records (content rs) ++ records b := by
  induction rs with
  | nil => simp [content, records_empty]
  | cons r rs ih =>
    rw [content, String.append_assoc, records_line_append, ih, records_line_append,
      List.append_assoc]

theorem stored_newline (r : JournalRecord) : '\n' ∉ r.stored.text.toList := by
  simp only [JournalRecord.stored, String.toList_map, List.mem_map, not_exists, not_and]
  intro c _
  split <;> simp_all

theorem stored_suffix (r : JournalRecord) :
    "\r".toList <:+ r.stored.text.toList ↔ "\r".toList <:+ r.text.toList := by
  have hr : "\r".toList = ['\r'] := by decide
  simp only [JournalRecord.stored, String.toList_map, hr,
    List.singleton_suffix_iff_getLast?_eq_some, List.getLast?_map]
  cases r.text.toList.getLast? with
  | none => simp
  | some c =>
    simp only [Option.map_some, Option.some.injEq]
    split
    · rename_i h
      simp [h]
    · rfl

/-- What a line of a unit without tabs and line feeds is read back as. -/
theorem records_stored {r : JournalRecord} (ht : '\t' ∉ r.unit.toList)
    (hn : '\n' ∉ r.unit.toList) :
    records r.stored.line = [⟨r.secs, r.unit, chomp r.stored.text⟩] := by
  have hassoc : r.stored.line =
      r.secs.toNat.repr ++ "\t" ++ (r.unit ++ "\t" ++ r.stored.text) ++ "\n" := by
    simp [JournalRecord.line, JournalRecord.stored, String.append_assoc]
  have hline : '\n' ∉ (r.secs.toNat.repr ++ "\t" ++ (r.unit ++ "\t" ++ r.stored.text)).toList := by
    have htab : '\n' ∉ "\t".toList := by decide
    simp only [String.toList_append, List.mem_append, not_or]
    exact ⟨⟨Text.notMem_repr rfl _, htab⟩, ⟨hn, htab⟩, stored_newline r⟩
  have hchomp : (Text.stripSuffix "\r"
      (r.secs.toNat.repr ++ "\t" ++ (r.unit ++ "\t" ++ r.stored.text))).getD
        (r.secs.toNat.repr ++ "\t" ++ (r.unit ++ "\t" ++ r.stored.text)) =
      r.secs.toNat.repr ++ "\t" ++ (r.unit ++ "\t" ++ chomp r.stored.text) := by
    rw [← chomp_tab_append, ← chomp_tab_append]
    rfl
  unfold records
  rw [hassoc, Text.lines_line hline, hchomp]
  simp [parseRecord_line_of_tab r.secs ht]

theorem prefix_of_prefix_append_cons {u a b : List Char} {c : Char} (h : u <+: a ++ c :: b)
    (hc : c ∉ u) : u <+: a := by
  obtain hle | hlt := le_or_gt u.length a.length
  · exact List.prefix_of_prefix_length_le h (List.prefix_append _ _) hle
  · exfalso
    apply hc
    have hp : a ++ [c] <+: u := by
      apply List.prefix_of_prefix_length_le _ h
      · rw [List.length_append, List.length_singleton]
        omega
      · exact ⟨b, by simp⟩
    apply hp.subset
    simp

/-- Whatever its unit is, a line is read back as at least one record, of a part of the unit. -/
theorem records_line (r : JournalRecord) :
    ∃ first rest, records r.line = first :: rest ∧ first.unit.toList <+: r.unit.toList ∧
      '\t' ∉ first.unit.toList ∧ '\n' ∉ first.unit.toList := by
  let x := r.unit ++ "\t" ++ r.text ++ "\n"
  have hmem : '\n' ∈ x.toList := by simp [x, String.toList_append]
  obtain ⟨q, tail, hx, hq⟩ := List.eq_append_cons_of_mem hmem
  have hline : r.line =
      r.secs.toNat.repr ++ "\t" ++ String.ofList q ++ "\n" ++ String.ofList tail := by
    have hxs : x = String.ofList q ++ "\n" ++ String.ofList tail := by
      rw [← String.toList_inj, hx]
      simp [String.toList_append]
    have hr : r.line = r.secs.toNat.repr ++ "\t" ++ x := by
      simp [x, JournalRecord.line, String.append_assoc]
    rw [hr, hxs]
    simp [String.append_assoc]
  have hfirst : '\n' ∉ (r.secs.toNat.repr ++ "\t" ++ String.ofList q).toList := by
    have htab : '\n' ∉ "\t".toList := by decide
    simp only [String.toList_append, List.mem_append, not_or, String.toList_ofList]
    exact ⟨⟨Text.notMem_repr rfl _, htab⟩, hq⟩
  obtain ⟨unit, text, hparse, hp, ht⟩ := parseRecord_line r.secs (chomp (String.ofList q))
  have hpq : unit.toList <+: q := by
    have hc := Text.stripSuffix_begins "\r" (String.ofList q)
    rw [String.toList_ofList] at hc
    exact hp.trans hc
  refine ⟨⟨r.secs, unit, text⟩, records (String.ofList tail), ?_, ?_, ht, ?_⟩
  · have hchomp : (Text.stripSuffix "\r" (r.secs.toNat.repr ++ "\t" ++ String.ofList q)).getD
        (r.secs.toNat.repr ++ "\t" ++ String.ofList q) =
          r.secs.toNat.repr ++ "\t" ++ chomp (String.ofList q) := chomp_tab_append ..
    rw [hline, records_append, records, Text.lines_line hfirst, hchomp]
    simp [hparse]
  · have hpx : unit.toList <+: x.toList := by
      rw [hx]
      exact hpq.trans (List.prefix_append _ _)
    have hsplit : x.toList = r.unit.toList ++ '\t' :: (r.text.toList ++ ['\n']) := by
      simp [x, String.toList_append]
    rw [hsplit] at hpx
    exact prefix_of_prefix_append_cons hpx ht
  · exact fun h ↦ hq (hpq.subset h)

end Records

section Files

theorem segment_length (unit : String) (i : Nat) : unit.length < (segment unit i).length := by
  simp only [segment, String.length_append]
  have : ".".length = 1 := by decide
  omega

theorem segment_ne (unit : String) (i : Nat) : segment unit i ≠ unit := by
  intro h
  have hlen := segment_length unit i
  rw [h] at hlen
  omega

theorem segment_inj {a b : String} {i k : Nat} (h : segment a i = segment b k) : a = b ∧ i = k := by
  have hdot : ∀ n : Nat, '.' ∉ n.repr.toList := by
    intro n hm
    rw [Nat.toList_repr] at hm
    exact absurd (Nat.isDigit_of_mem_toDigits (by omega) (by omega) hm) (by decide)
  have hlist : ∀ (u : String) (n : Nat),
      (segment u n).toList = u.toList ++ '.' :: n.repr.toList := by
    intro u n
    simp [segment, String.toList_append]
  have hdigits : i.repr = k.repr := by
    rw [← String.toList_inj]
    have hi := Text.rtakeWhile_of_suffix (hdot i) (s := (segment a i).toList)
      (by rw [hlist]; exact List.suffix_append ..)
    have hk := Text.rtakeWhile_of_suffix (hdot k) (s := (segment b k).toList)
      (by rw [hlist]; exact List.suffix_append ..)
    rw [← hi, ← hk, h]
  have hik : i = k := by
    have hp := congrArg Text.parseNat hdigits
    rwa [Text.parseNat_repr, Text.parseNat_repr, Option.some_inj] at hp
  subst hik
  have hl := congrArg String.toList h
  rw [hlist, hlist] at hl
  exact ⟨String.toList_inj.mp (List.append_cancel_right hl), rfl⟩

variable {files : JournalFiles} {j : Journal} {unit name : String}

theorem rename_get_of_ne {source target : String} (hs : name ≠ source) (ht : name ≠ target) :
    files.rename source target name = files name := by
  unfold JournalFiles.rename
  cases files source with
  | none => rfl
  | some c => simp [hs, ht]

theorem rename_get_source {source target : String} (h : source ≠ target) :
    files.rename source target source = none := by
  unfold JournalFiles.rename
  cases hf : files source with
  | none => exact hf
  | some c => simp [h]

open Classical in
/-- The loop takes everything down to the first segment. -/
theorem shiftSegments_get (i : Nat) (hi : i ≤ j.maxSegments)
    (hempty : ∀ k, i + 1 < k → k ≤ j.maxSegments → files (segment unit k) = none)
    (hname : name ≠ segment unit 1) :
    j.shiftSegments unit i files name =
      if ∃ k, 2 ≤ k ∧ k ≤ j.maxSegments ∧ name = segment unit k then none else files name := by
  induction i generalizing files with
  | zero =>
    unfold Journal.shiftSegments
    split
    · rename_i h
      obtain ⟨k, hk, hkm, rfl⟩ := h
      exact hempty k (by omega) hkm
    · rfl
  | succ i ih =>
    have hinj : ∀ a b, a ≠ b → segment unit a ≠ segment unit b :=
      fun a b hab h ↦ hab (segment_inj h).2
    unfold Journal.shiftSegments
    split
    · rename_i hlast
      rw [ih (by omega) fun k hk hkm ↦ by omega]
      split
      · rfl
      · rename_i h
        apply update_of_ne
        rintro rfl
        obtain rfl | hi0 := Nat.eq_zero_or_pos i
        · exact hname rfl
        · exact h ⟨i + 1, by omega, by omega, rfl⟩
    · rename_i hlast
      rw [ih (by omega) ?_]
      · split
        · rfl
        · rename_i h
          apply rename_get_of_ne
          · rintro rfl
            exact h ⟨i + 2, by omega, by omega, rfl⟩
          · rintro rfl
            obtain rfl | hi0 := Nat.eq_zero_or_pos i
            · exact hname rfl
            · exact h ⟨i + 1, by omega, by omega, rfl⟩
      · intro k hk hkm
        obtain rfl | hk2 : k = i + 2 ∨ i + 2 < k := by omega
        · exact rename_get_source (hinj _ _ (by omega))
        · rw [rename_get_of_ne (hinj _ _ (by omega)) (hinj _ _ (by omega))]
          exact hempty k (by omega) hkm

open Classical in
/-- After a rotation only the first segment is left. -/
theorem rotate_get {c : String} (hc : files unit = some c) :
    j.rotate unit files name =
      if name = segment unit 1 then some c
      else if name = unit ∨ ∃ k, 2 ≤ k ∧ k ≤ j.maxSegments ∧ name = segment unit k then none
      else files name := by
  have hunit : ∀ k, unit ≠ segment unit k := fun k ↦ (segment_ne unit k).symm
  have hshift (n : String) (hn : n ≠ segment unit 1) :
      j.shiftSegments unit j.maxSegments files n =
        if ∃ k, 2 ≤ k ∧ k ≤ j.maxSegments ∧ n = segment unit k then none else files n :=
    shiftSegments_get j.maxSegments le_rfl (fun k hk hkm ↦ by omega) hn
  have hactive : j.shiftSegments unit j.maxSegments files unit = some c := by
    rw [hshift unit (hunit 1), if_neg, hc]
    rintro ⟨k, -, -, h⟩
    exact hunit k h
  have hrotate : j.rotate unit files =
      update (update (j.shiftSegments unit j.maxSegments files) unit none) (segment unit 1)
        (some c) := by
    unfold Journal.rotate JournalFiles.rename
    rw [hactive]
  rw [hrotate]
  by_cases h₁ : name = segment unit 1
  · rw [if_pos h₁, h₁]
    simp
  · rw [if_neg h₁, update_of_ne h₁]
    by_cases h₂ : name = unit
    · rw [if_pos (.inl h₂), h₂]
      simp
    · rw [update_of_ne h₂, hshift name h₁]
      simp only [h₂, false_or]

end Files

namespace Journal

/-- An append that neither loses nor spoils a record of `unit`. -/
def KeepsRecords (j : Journal) (unit : String) (files : JournalFiles) (r : JournalRecord) : Prop :=
  if r.unit = unit then
    '\t' ∉ unit.toList ∧ '\n' ∉ unit.toList ∧ ¬ "\r".toList <:+ r.text.toList ∧
      (j.reachedCap files unit → j.maxSegments = 1 ∨ files (segment unit 1) = none)
  else
    isPlainUnitName r.unit →
      (∀ i, 1 ≤ i → i ≤ j.maxSegments → r.unit ≠ segment unit i) ∧
        (j.reachedCap files r.unit → ∀ i, 1 ≤ i → i ≤ j.maxSegments →
          unit = segment r.unit i → i ≠ 1 ∧ files unit = none)

/-- The files of a unit hold its current segment and its rotated ones. -/
structure Holds (j : Journal) (unit : String) (files : JournalFiles) (s : Segments) : Prop where
  active : files unit = if s.active = [] then none else some (content s.active)
  segments : ∀ i, 1 ≤ i → i ≤ j.maxSegments →
    files (segment unit i) = s.rotated[i - 1]?.map content
  rotated : j.maxSegments = 1 ∨ s.rotated.length ≤ 1
  nonempty : ∀ rs ∈ s.rotated, rs ≠ []
  readable : ∀ r ∈ s.rotated.flatten ++ s.active, r.unit = unit ∧ records r.line = [r]
  plain : s.rotated.flatten ++ s.active ≠ [] → '\t' ∉ unit.toList ∧ '\n' ∉ unit.toList

/-- Every file was written for units of which its name is an extension. -/
def Written (files : JournalFiles) : Prop :=
  ∀ name c, files name = some c →
    ∃ rs, rs ≠ [] ∧ c = content rs ∧ ∀ r ∈ rs, r.unit.toList <+: name.toList

end Journal

section Retention

open Journal

variable {j : Journal} {unit : String} {files : JournalFiles} {s : Segments} {r : JournalRecord}

theorem records_readable {rs : List JournalRecord} (h : ∀ r ∈ rs, records r.line = [r]) :
    records (content rs) = rs := by
  rw [records_content]
  induction rs with
  | nil => rfl
  | cons r rs ih =>
    rw [List.flatMap_cons, h r List.mem_cons_self,
      ih fun r' hr ↦ h r' (List.mem_cons_of_mem _ hr)]
    rfl

/-- The numbered segments from the last one down to the first are the rotated ones, oldest first. -/
theorem flatten_rotated (rotated : List (List JournalRecord)) (n : Nat) :
    (List.range' 1 n).reverse.flatMap (fun i ↦ (rotated[i - 1]?).getD []) =
      (rotated.take n).reverse.flatten := by
  induction n with
  | zero => rfl
  | succ n ih =>
    rw [List.range'_concat, List.reverse_append, List.flatMap_append, ih, List.take_add_one,
      List.reverse_append, List.flatten_append]
    congr 1
    have hn : 1 + 1 * n - 1 = n := by omega
    simp only [List.reverse_singleton, List.flatMap_singleton, hn]
    cases rotated[n]? with
    | none => rfl
    | some rs => simp

theorem Journal.Holds.fileRecords (h : j.Holds unit files s) :
    ((files unit).elim [] records = s.active) ∧
      ∀ i, 1 ≤ i → i ≤ j.maxSegments →
        (files (segment unit i)).elim [] records = (s.rotated[i - 1]?).getD [] := by
  constructor
  · rw [h.active]
    split
    · rename_i hn
      rw [hn]
      rfl
    · exact records_readable fun r hr ↦ (h.readable r (List.mem_append_right _ hr)).2
  · intro i hi him
    rw [h.segments i hi him]
    cases hr : s.rotated[i - 1]? with
    | none => rfl
    | some rs =>
      refine records_readable fun r hmem ↦ (h.readable r ?_).2
      apply List.mem_append_left
      exact List.mem_flatten.mpr ⟨rs, List.mem_of_getElem? hr, hmem⟩

/-- All that is read of a unit, segment by segment. -/
theorem read_eq (hu : isPlainUnitName unit) (since : Option UInt64) :
    j.read files unit since =
      ((List.range' 1 j.maxSegments).reverse.flatMap
        (fun i ↦ (files (segment unit i)).elim [] records) ++ (files unit).elim [] records).filter
        fun r ↦ since.all fun s ↦ r.secs ≥ s := by
  unfold Journal.read Journal.segmentPaths
  rw [hu]
  simp only [Bool.not_true, Bool.false_eq_true, if_false, List.flatMap_append, List.flatMap_map,
    List.flatMap_singleton, List.filter_append, List.filter_flatMap]

theorem Journal.Holds.read (h : j.Holds unit files s) (hu : isPlainUnitName unit)
    (since : Option UInt64) :
    j.read files unit since = (s.retained j).filter fun r ↦ since.all fun s ↦ r.secs ≥ s := by
  rw [read_eq hu, h.fileRecords.1]
  unfold Segments.retained
  rw [← flatten_rotated]
  congr 2
  apply List.flatMap_congr
  intro i hi
  rw [List.mem_reverse, List.mem_range'_1] at hi
  exact h.fileRecords.2 i hi.1 (by omega)

theorem Journal.Holds.reachedCap_iff (h : j.Holds unit files s) :
    j.reachedCap files unit ↔ s.Full j := by
  unfold Journal.reachedCap Segments.Full
  rw [h.active]
  split
  · rename_i hn
    simp [hn]
  · rename_i hn
    simp [hn]

/-- The files before the line is written. -/
def Journal.makeRoom (j : Journal) (files : JournalFiles) (unit : String) : JournalFiles :=
  if j.reachedCap files unit then j.rotate unit files else files

theorem append_plain (hp : isPlainUnitName r.unit) :
    j.append files r = update (j.makeRoom files r.unit) r.unit
      (some ((j.makeRoom files r.unit r.unit).getD "" ++ r.stored.line)) := by
  unfold Journal.append Journal.makeRoom
  simp only [hp, Bool.not_true, Bool.false_eq_true, if_false]

theorem exists_of_reachedCap (h : j.reachedCap files unit) : ∃ c, files unit = some c := by
  unfold Journal.reachedCap at h
  cases hc : files unit with
  | none =>
    rw [hc] at h
    cases h
  | some c => exact ⟨c, rfl⟩

theorem makeRoom_of_not (h : ¬ j.reachedCap files unit) : j.makeRoom files unit = files := if_neg h

open Classical in
theorem makeRoom_get {c name : String} (h : j.reachedCap files unit) (hc : files unit = some c) :
    j.makeRoom files unit name =
      if name = segment unit 1 then some c
      else if name = unit ∨ ∃ k, 2 ≤ k ∧ k ≤ j.maxSegments ∧ name = segment unit k then none
      else files name := by
  unfold Journal.makeRoom
  rw [if_pos h, rotate_get hc]

theorem makeRoom_unit (h : j.reachedCap files unit) : j.makeRoom files unit unit = none := by
  obtain ⟨c, hc⟩ := exists_of_reachedCap h
  rw [makeRoom_get h hc, if_neg (segment_ne unit 1).symm, if_pos (.inl rfl)]

/-- Making room for one unit leaves the files of others alone, but for those it takes over. -/
theorem makeRoom_of_ne {name : String} (hn : name ≠ unit)
    (hs : j.reachedCap files unit → name ≠ segment unit 1 ∧
      ∀ k, 2 ≤ k → k ≤ j.maxSegments → name = segment unit k → files name = none) :
    j.makeRoom files unit name = files name := by
  by_cases h : j.reachedCap files unit
  · obtain ⟨c, hc⟩ := exists_of_reachedCap h
    obtain ⟨h₁, hk⟩ := hs h
    rw [makeRoom_get h hc, if_neg h₁]
    split
    · rename_i hname
      obtain hname | ⟨k, h2, hkm, hname⟩ := hname
      · exact absurd hname hn
      · exact (hk k h2 hkm hname).symm
    · rfl
  · rw [makeRoom_of_not h]

theorem stored_good (ht : '\t' ∉ r.unit.toList) (hn : '\n' ∉ r.unit.toList)
    (hr : ¬ "\r".toList <:+ r.text.toList) : records r.stored.line = [r.stored] := by
  rw [records_stored ht hn, (chomp_eq_self_iff _).mpr (fun h ↦ hr ((stored_suffix r).mp h))]
  rfl

/-- A line that is read back as its record has a sound unit and text. -/
theorem good_of_stored (h : records r.stored.line = [r.stored]) :
    '\t' ∉ r.unit.toList ∧ '\n' ∉ r.unit.toList ∧ ¬ "\r".toList <:+ r.text.toList := by
  obtain ⟨first, rest, hl, -, ht, hn⟩ := records_line r.stored
  have hfirst : first = r.stored := by
    rw [h] at hl
    exact (List.cons.inj hl).1.symm
  rw [hfirst] at ht hn
  refine ⟨ht, hn, ?_⟩
  rw [records_stored (r := r) ht hn] at h
  have htext : chomp r.stored.text = r.stored.text :=
    congrArg JournalRecord.text (List.cons.inj h).1
  rw [← stored_suffix]
  exact (chomp_eq_self_iff _).mp htext

theorem content_of_active (h : j.Holds unit files s) : (files unit).getD "" = content s.active := by
  rw [h.active]
  split
  · rename_i hn
    rw [hn]
    rfl
  · rfl

theorem Journal.Holds.append_self (h : j.Holds unit files s) (hM : 1 ≤ j.maxSegments)
    (hu : isPlainUnitName unit) (hr : r.unit = unit) (hk : j.KeepsRecords unit files r) :
    j.Holds unit (j.append files r) (s.append j r) := by
  unfold KeepsRecords at hk
  rw [if_pos hr] at hk
  obtain ⟨ht, hn, htext, hroom⟩ := hk
  subst hr
  have hgood := stored_good ht hn htext
  have hne : s.active ++ [r.stored] ≠ [] := by simp
  rw [append_plain hu]
  by_cases hcap : j.reachedCap files r.unit
  · have hfull := h.reachedCap_iff.mp hcap
    have hactive : files r.unit = some (content s.active) := by
      rw [h.active, if_neg hfull.1]
    unfold Segments.append
    rw [if_pos hfull]
    have hshort : j.maxSegments = 1 ∨ s.rotated = [] := by
      obtain h₁ | h₁ := hroom hcap
      · exact .inl h₁
      · right
        rw [h.segments 1 le_rfl hM] at h₁
        simpa using h₁
    constructor
    · rw [update_self, makeRoom_unit hcap]
      simp [content]
    · intro i hi him
      rw [update_of_ne (segment_ne _ _), makeRoom_get hcap hactive]
      obtain rfl | hi2 := Nat.eq_or_lt_of_le hi
      · simp
      · have hrot : s.rotated = [] := by
          obtain h₁ | h₁ := hshort
          · omega
          · exact h₁
        have hne1 : segment r.unit i ≠ segment r.unit 1 := by
          intro heq
          have := (segment_inj heq).2
          omega
        rw [if_neg hne1, if_pos (.inr ⟨i, hi2, him, rfl⟩), hrot,
          List.getElem?_eq_none (by simp only [List.length_singleton]; omega)]
        rfl
    · obtain h₁ | h₁ := hshort
      · exact .inl h₁
      · right
        simp [h₁]
    · intro rs hrs
      obtain rfl | hrs := List.mem_cons.mp hrs
      · exact hfull.1
      · exact h.nonempty rs hrs
    · intro r' hr'
      simp only [List.flatten_cons, List.append_assoc, List.mem_append, List.mem_singleton] at hr'
      obtain hr' | hr' | rfl := hr'
      · exact h.readable r' (List.mem_append_right _ hr')
      · exact h.readable r' (List.mem_append_left _ hr')
      · exact ⟨rfl, hgood⟩
    · exact fun _ ↦ ⟨ht, hn⟩
  · have hfull : ¬ s.Full j := fun hf ↦ hcap (h.reachedCap_iff.mpr hf)
    unfold Segments.append
    rw [if_neg hfull, makeRoom_of_not hcap]
    constructor
    · rw [update_self, content_of_active h, if_neg hne, content_append]
      simp [content]
    · intro i hi him
      rw [update_of_ne (segment_ne _ _)]
      exact h.segments i hi him
    · exact h.rotated
    · exact h.nonempty
    · intro r' hr'
      rw [← List.append_assoc, List.mem_append, List.mem_singleton] at hr'
      obtain hr' | rfl := hr'
      · exact h.readable r' hr'
      · exact ⟨rfl, hgood⟩
    · exact fun _ ↦ ⟨ht, hn⟩

/-- An append to another unit that leaves the files of this one as they are. -/
theorem Journal.Holds.append_other (h : j.Holds unit files s) (hM : 1 ≤ j.maxSegments)
    (hr : r.unit ≠ unit) (hk : j.KeepsRecords unit files r) :
    j.Holds unit (j.append files r) s := by
  unfold KeepsRecords at hk
  rw [if_neg hr] at hk
  by_cases hp : isPlainUnitName r.unit
  · obtain ⟨hseg, hroom⟩ := hk hp
    have hunit : j.append files r unit = files unit := by
      rw [append_plain hp, update_of_ne hr.symm]
      apply makeRoom_of_ne hr.symm
      intro hcap
      refine ⟨?_, ?_⟩
      · intro h₁
        exact (hroom hcap 1 le_rfl hM h₁).1 rfl
      · intro k hk2 hkm hname
        exact (hroom hcap k (by omega) hkm hname).2
    have hsegments : ∀ i, 1 ≤ i → i ≤ j.maxSegments →
        j.append files r (segment unit i) = files (segment unit i) := by
      intro i hi him
      rw [append_plain hp, update_of_ne (hseg i hi him).symm]
      apply makeRoom_of_ne (hseg i hi him).symm
      intro _
      refine ⟨?_, ?_⟩
      · intro h₁
        exact hr (segment_inj h₁).1.symm
      · intro k _ _ hname
        exact absurd (segment_inj hname).1.symm hr
    refine ⟨?_, ?_, h.rotated, h.nonempty, h.readable, h.plain⟩
    · rw [hunit, h.active]
    · intro i hi him
      rw [hsegments i hi him, h.segments i hi him]
  · have hsame : j.append files r = files := by
      unfold Journal.append
      simp [hp]
    rwa [hsame]

theorem segment_prefix (unit : String) (i : Nat) : unit.toList <+: (segment unit i).toList := by
  simp only [segment, String.toList_append, List.append_assoc]
  exact List.prefix_append _ _

theorem Journal.Written.append (h : Written files) (j : Journal) (r : JournalRecord) :
    Written (j.append files r) := by
  by_cases hp : isPlainUnitName r.unit
  · intro name c hc
    rw [append_plain hp] at hc
    by_cases hname : name = r.unit
    · subst hname
      rw [update_self] at hc
      injection hc with hc
      have hline : r.stored.line = content [r.stored] := by simp [content]
      cases hold : j.makeRoom files r.unit r.unit with
      | none =>
        refine ⟨[r.stored], by simp, ?_, ?_⟩
        · rw [← hc, hold, hline]
          simp
        · intro r' hr'
          rw [List.mem_singleton.mp hr']
          exact List.prefix_refl _
      | some old =>
        have hcap : ¬ j.reachedCap files r.unit := by
          intro hcap
          rw [makeRoom_unit hcap] at hold
          cases hold
        rw [makeRoom_of_not hcap] at hold
        obtain ⟨rs, -, rfl, hrs⟩ := h r.unit old hold
        refine ⟨rs ++ [r.stored], by simp, ?_, ?_⟩
        · rw [← hc, makeRoom_of_not hcap, hold, content_append, hline]
          rfl
        · intro r' hr'
          obtain hr' | hr' := List.mem_append.mp hr'
          · exact hrs r' hr'
          · rw [List.mem_singleton.mp hr']
            exact List.prefix_refl _
    · rw [update_of_ne hname] at hc
      by_cases hcap : j.reachedCap files r.unit
      · obtain ⟨a, ha⟩ := exists_of_reachedCap hcap
        rw [makeRoom_get hcap ha] at hc
        split at hc
        · rename_i hseg
          obtain ⟨rs, hne, rfl, hrs⟩ := h r.unit a ha
          injection hc with hc
          refine ⟨rs, hne, hc.symm, fun r' hr' ↦ (hrs r' hr').trans ?_⟩
          rw [hseg]
          exact segment_prefix _ _
        · split at hc
          · cases hc
          · exact h name c hc
      · rw [makeRoom_of_not hcap] at hc
        exact h name c hc
  · have hsame : j.append files r = files := by
      unfold Journal.append
      simp [hp]
    rwa [hsame]

/-- Two ways to read the segments agree on a segment when they do on all others. -/
theorem flatMap_cancel {l : List Nat} {f g : Nat → List JournalRecord} {k : Nat} (hl : l.Nodup)
    (hk : k ∈ l) (hne : ∀ i ∈ l, i ≠ k → f i = g i) (h : l.flatMap f = l.flatMap g) :
    f k = g k := by
  obtain ⟨a, b, rfl⟩ := List.append_of_mem hk
  have hka : k ∉ a ∧ k ∉ b := by
    rw [List.nodup_append, List.nodup_cons] at hl
    exact ⟨fun ha ↦ hl.2.2 k ha k List.mem_cons_self rfl, hl.2.1.1⟩
  have ha : a.flatMap f = a.flatMap g := by
    apply List.flatMap_congr
    intro i hi
    apply hne i (by simp [hi])
    rintro rfl
    exact hka.1 hi
  have hb : b.flatMap f = b.flatMap g := by
    apply List.flatMap_congr
    intro i hi
    apply hne i (by simp [hi])
    rintro rfl
    exact hka.2 hi
  simp only [List.flatMap_append, List.flatMap_cons, ha, hb] at h
  exact List.append_cancel_right (List.append_cancel_left h)

/-- The segments of a unit after an append of some unit. -/
def Segments.next (j : Journal) (unit : String) (s : Segments) (r : JournalRecord) : Segments :=
  if r.unit = unit then s.append j r else s

theorem read_none (hu : isPlainUnitName unit) :
    j.read files unit none =
      (List.range' 1 j.maxSegments).reverse.flatMap
        (fun i ↦ (files (segment unit i)).elim [] records) ++ (files unit).elim [] records := by
  rw [read_eq hu]
  simp

/-- An append of the unit itself that reads back well. -/
theorem Journal.Holds.keeps_self (h : j.Holds unit files s) (hM : 1 ≤ j.maxSegments)
    (hu : isPlainUnitName unit) (hr : r.unit = unit)
    (hread : j.read (j.append files r) unit none = (s.append j r).retained j) :
    j.KeepsRecords unit files r := by
  unfold KeepsRecords
  rw [if_pos hr]
  subst hr
  rw [read_none hu, append_plain hu] at hread
  simp only [update_self, Option.elim_some] at hread
  have hsegs : ∀ i, update (j.makeRoom files r.unit) r.unit
      (some ((j.makeRoom files r.unit r.unit).getD "" ++ r.stored.line)) (segment r.unit i) =
        j.makeRoom files r.unit (segment r.unit i) := fun i ↦ update_of_ne (segment_ne _ _) _ _
  simp only [hsegs] at hread
  by_cases hcap : j.reachedCap files r.unit
  · have hfull := h.reachedCap_iff.mp hcap
    have hactive : files r.unit = some (content s.active) := by
      rw [h.active, if_neg hfull.1]
    have hplain := h.plain (by simp [hfull.1])
    have hone : ∀ i ∈ (List.range' 1 j.maxSegments).reverse,
        (j.makeRoom files r.unit (segment r.unit i)).elim [] records =
          ([s.active][i - 1]?).getD [] := by
      intro i hi
      rw [List.mem_reverse, List.mem_range'_1] at hi
      rw [makeRoom_get hcap hactive]
      obtain rfl | hi2 := Nat.eq_or_lt_of_le hi.1
      · have hrec := h.fileRecords.1
        rw [hactive] at hrec
        simpa using hrec
      · have hne : segment r.unit i ≠ segment r.unit 1 := by
          intro heq
          have := (segment_inj heq).2
          omega
        rw [if_neg hne, if_pos (.inr ⟨i, hi2, by omega, rfl⟩),
          List.getElem?_eq_none (by simp only [List.length_singleton]; omega)]
        rfl
    rw [List.flatMap_congr hone, flatten_rotated, makeRoom_unit hcap, Option.getD_none,
      String.empty_append, records_stored hplain.1 hplain.2] at hread
    unfold Segments.append Segments.retained at hread
    rw [if_pos hfull] at hread
    obtain ⟨hold, hlast⟩ := List.append_inj' hread rfl
    have hstored : records r.stored.line = [r.stored] := by
      rw [records_stored hplain.1 hplain.2, hlast]
    obtain ⟨ht, hn, htext⟩ := good_of_stored hstored
    refine ⟨ht, hn, htext, fun _ ↦ ?_⟩
    obtain ⟨M, hMs⟩ : ∃ M, j.maxSegments = M + 1 := ⟨j.maxSegments - 1, by omega⟩
    rw [hMs] at hold ⊢
    simp only [List.take_succ_cons, List.take_nil, List.reverse_cons, List.reverse_nil,
      List.nil_append, List.flatten_append, List.flatten_cons, List.flatten_nil,
      List.append_nil] at hold
    have hrot : (s.rotated.take M).reverse.flatten = [] := by
      have hlen := congrArg List.length hold
      rw [List.length_append] at hlen
      rw [← List.length_eq_zero_iff]
      omega
    obtain rfl | hMpos := Nat.eq_zero_or_pos M
    · exact .inl rfl
    · right
      cases hs : s.rotated with
      | nil =>
        rw [h.segments 1 le_rfl hM, hs]
        rfl
      | cons rs rotated =>
        exfalso
        have hmem : rs ∈ (s.rotated.take M).reverse := by
          rw [hs, List.mem_reverse]
          obtain ⟨K, rfl⟩ : ∃ K, M = K + 1 := ⟨M - 1, by omega⟩
          simp
        have hne := h.nonempty rs (by simp [hs])
        rw [List.flatten_eq_nil_iff] at hrot
        exact hne (hrot rs hmem)
  · have hfull : ¬ s.Full j := fun hf ↦ hcap (h.reachedCap_iff.mpr hf)
    have hold := h.read hu none
    rw [read_none hu] at hold
    rw [makeRoom_of_not hcap, content_of_active h, records_content_append,
      records_readable fun r' hr' ↦ (h.readable r' (List.mem_append_right _ hr')).2] at hread
    unfold Segments.append Segments.retained at hread
    rw [if_neg hfull] at hread
    simp only [Segments.retained, h.fileRecords.1, Option.all_none, List.filter_true] at hold
    rw [← List.append_assoc, hold, ← List.append_assoc] at hread
    obtain ⟨ht, hn, htext⟩ := good_of_stored (List.append_cancel_left hread)
    exact ⟨ht, hn, htext, fun hc ↦ absurd hc hcap⟩

/-- An append of another unit after which the unit still reads as before. -/
theorem Journal.Holds.keeps_other (h : j.Holds unit files s) (hw : Written files)
    (hu : isPlainUnitName unit) (hr : r.unit ≠ unit)
    (hread : j.read (j.append files r) unit none = s.retained j) :
    j.KeepsRecords unit files r := by
  unfold KeepsRecords
  rw [if_neg hr]
  intro hp
  have hbefore := h.read hu none
  simp only [Option.all_none, List.filter_true] at hbefore
  rw [← hbefore, read_none hu, read_none hu] at hread
  have hnodup : (List.range' 1 j.maxSegments).reverse.Nodup :=
    (List.reverse_perm _).nodup_iff.mpr List.nodup_range'
  have hget : ∀ name, name ≠ r.unit → (∀ k, name ≠ segment r.unit k) →
      j.append files r name = files name := by
    intro name hn hk
    rw [append_plain hp, update_of_ne hn]
    exact makeRoom_of_ne hn fun _ ↦ ⟨hk 1, fun k _ _ h ↦ absurd h (hk k)⟩
  have hother : ∀ i k, segment unit i ≠ segment r.unit k :=
    fun i k h ↦ hr (segment_inj h).1.symm
  constructor
  · intro k hk hkm hv
    have hunit : j.append files r unit = files unit := by
      apply hget unit hr.symm
      intro m hm
      have h₁ := segment_length unit k
      have h₂ := segment_length r.unit m
      rw [← hv] at h₁
      rw [← hm] at h₂
      omega
    rw [hunit] at hread
    have hcancel := flatMap_cancel (k := k) hnodup
      (List.mem_reverse.mpr (List.mem_range'_1.mpr ⟨hk, by omega⟩)) ?_
      (List.append_cancel_right hread)
    · rw [← hv, append_plain hp, update_self, Option.elim_some] at hcancel
      have hline := records_line r.stored
      obtain ⟨first, rest, hfirst, hpre, ht, hn⟩ := hline
      by_cases hcap : j.reachedCap files r.unit
      · rw [makeRoom_unit hcap, Option.getD_none, String.empty_append] at hcancel
        have hold := h.fileRecords.2 k hk hkm
        rw [← hv, ← hcancel] at hold
        have hmem : first ∈ (s.rotated[k - 1]?).getD [] := by
          rw [← hold, hfirst]
          exact List.mem_cons_self
        cases hrs : s.rotated[k - 1]? with
        | none =>
          rw [hrs] at hmem
          cases hmem
        | some rs =>
          rw [hrs] at hmem
          have hall : ∀ x ∈ rs, x ∈ s.rotated.flatten ++ s.active := by
            intro x hx
            apply List.mem_append_left
            exact List.mem_flatten.mpr ⟨rs, List.mem_of_getElem? hrs, hx⟩
          obtain ⟨hut, hun⟩ := h.plain (List.ne_nil_of_mem (hall first hmem))
          have hvt : '\t' ∉ r.unit.toList := by
            rw [hv]
            simp only [segment, String.toList_append, List.mem_append, not_or]
            exact ⟨⟨hut, by decide⟩, Text.notMem_repr rfl k⟩
          have hvn : '\n' ∉ r.unit.toList := by
            rw [hv]
            simp only [segment, String.toList_append, List.mem_append, not_or]
            exact ⟨⟨hun, by decide⟩, Text.notMem_repr rfl k⟩
          rw [records_stored hvt hvn] at hfirst
          have hfu : first.unit = r.unit := by rw [← (List.cons.inj hfirst).1]
          exact hr (hfu.symm.trans (h.readable first (hall first hmem)).1)
      · rw [makeRoom_of_not hcap] at hcancel
        cases hf : files r.unit with
        | none =>
          rw [hf, Option.getD_none, String.empty_append, Option.elim_none, hfirst] at hcancel
          cases hcancel
        | some c =>
          obtain ⟨rs, -, rfl, -⟩ := hw r.unit c hf
          rw [hf, Option.getD_some, records_content_append, Option.elim_some, hfirst] at hcancel
          have hlen := congrArg List.length hcancel
          rw [List.length_append, List.length_cons] at hlen
          omega
    · intro i _ hik
      rw [hget (segment unit i) _ (hother i)]
      rw [hv]
      exact fun h ↦ hik (segment_inj h).2
  · intro hcap i hi him hui
    obtain ⟨c, hc⟩ := exists_of_reachedCap hcap
    have hlen : r.unit.length < unit.length := by
      rw [hui]
      exact segment_length _ _
    have hsegs : (List.range' 1 j.maxSegments).reverse.flatMap
        (fun k ↦ (j.append files r (segment unit k)).elim [] records) =
          (List.range' 1 j.maxSegments).reverse.flatMap
            fun k ↦ (files (segment unit k)).elim [] records := by
      apply List.flatMap_congr
      intro k _
      rw [hget (segment unit k) _ (hother k)]
      intro h
      have hk := segment_length unit k
      rw [h] at hk
      omega
    rw [hsegs, h.fileRecords.1] at hread
    have hactive := List.append_cancel_left hread
    rw [append_plain hp, update_of_ne hr.symm, makeRoom_get hcap hc] at hactive
    by_cases hi₁ : i = 1
    · exfalso
      rw [if_pos (by rw [hui, hi₁])] at hactive
      obtain ⟨rs, hne, rfl, hrs⟩ := hw r.unit c hc
      cases rs with
      | nil => exact hne rfl
      | cons r₀ rs =>
        obtain ⟨first, rest, hfirst, hpre, -, -⟩ := records_line r₀
        rw [Option.elim_some, content, records_line_append, hfirst] at hactive
        have hmem : first ∈ s.active := by
          rw [← hactive]
          simp
        have hfu := (h.readable first (List.mem_append_right _ hmem)).1
        have hle := (hpre.trans (hrs r₀ List.mem_cons_self)).length_le
        rw [hfu, String.length_toList, String.length_toList] at hle
        omega
    · refine ⟨hi₁, ?_⟩
      have hne₁ : unit ≠ segment r.unit 1 := by
        intro h₁
        rw [hui] at h₁
        exact hi₁ (segment_inj h₁).2
      rw [if_neg hne₁, if_pos (.inr ⟨i, by omega, him, hui⟩), Option.elim_none] at hactive
      rw [h.active, if_pos hactive.symm]

theorem Segments.after_append_singleton (j : Journal) (unit : String)
    (before : List JournalRecord) (r : JournalRecord) :
    Segments.after j unit (before ++ [r]) = (Segments.after j unit before).next j unit r := by
  unfold Segments.after Segments.next
  rw [List.filter_append, List.foldl_append]
  by_cases h : r.unit = unit
  · simp [h]
  · simp [h]

theorem filesAfter_append_singleton (j : Journal) (before : List JournalRecord)
    (r : JournalRecord) : j.filesAfter (before ++ [r]) = j.append (j.filesAfter before) r := by
  simp [filesAfter]

theorem written_filesAfter (j : Journal) (appends : List JournalRecord) :
    Written (j.filesAfter appends) := by
  induction appends using List.reverseRecOn with
  | nil =>
    intro name c h
    cases h
  | append_singleton before r ih =>
    rw [filesAfter_append_singleton]
    exact ih.append j r

theorem holds_empty (j : Journal) (unit : String) : j.Holds unit (j.filesAfter []) {} where
  active := rfl
  segments _ _ _ := rfl
  rotated := .inr (Nat.zero_le 1)
  nonempty _ h := (List.not_mem_nil h).elim
  readable _ h := (List.not_mem_nil h).elim
  plain h := absurd rfl h

theorem Journal.Holds.next (h : j.Holds unit files s) (hM : 1 ≤ j.maxSegments)
    (hu : isPlainUnitName unit) (hk : j.KeepsRecords unit files r) :
    j.Holds unit (j.append files r) (s.next j unit r) := by
  unfold Segments.next
  split
  · rename_i hr
    exact h.append_self hM hu hr hk
  · rename_i hr
    exact h.append_other hM hr hk

theorem Journal.Holds.keeps (h : j.Holds unit files s) (hw : Written files)
    (hM : 1 ≤ j.maxSegments) (hu : isPlainUnitName unit)
    (hread : j.read (j.append files r) unit none = (s.next j unit r).retained j) :
    j.KeepsRecords unit files r := by
  unfold Segments.next at hread
  split at hread
  · rename_i hr
    exact h.keeps_self hM hu hr hread
  · rename_i hr
    exact h.keeps_other hw hu hr hread

/-- At every point of some appends to an empty journal the unit reads as it should. -/
def Journal.Retains (j : Journal) (unit : String) (appends : List JournalRecord) : Prop :=
  ∀ before after since, appends = before ++ after →
    j.read (j.filesAfter before) unit since =
      ((Segments.after j unit before).retained j).filter fun r ↦ since.all fun s ↦ r.secs ≥ s

theorem journal_retained_iff (j : Journal) (hM : 1 ≤ j.maxSegments) (unit : String)
    (hu : isPlainUnitName unit) (appends : List JournalRecord) :
    j.Retains unit appends ↔
      ∀ before r after, appends = before ++ r :: after →
        j.KeepsRecords unit (j.filesAfter before) r := by
  have hholds : ∀ before after, appends = before ++ after →
      (∀ done r rest, before = done ++ r :: rest → j.KeepsRecords unit (j.filesAfter done) r) →
        j.Holds unit (j.filesAfter before) (Segments.after j unit before) := by
    intro before
    induction before using List.reverseRecOn with
    | nil => exact fun _ _ _ ↦ holds_empty j unit
    | append_singleton before r ih =>
      intro after hs hk
      rw [filesAfter_append_singleton, Segments.after_append_singleton]
      apply (ih (r :: after) (by simp [hs]) ?_).next hM hu (hk before r [] rfl)
      intro done r' rest hd
      exact hk done r' (rest ++ [r]) (by simp [hd])
  constructor
  · intro hread
    have hkeeps : ∀ n before r after, before.length = n → appends = before ++ r :: after →
        j.KeepsRecords unit (j.filesAfter before) r := by
      intro n
      induction n using Nat.strong_induction_on with
      | _ n ih =>
        intro before r after hn hs
        have hbefore := hholds before (r :: after) hs fun done r' rest hd ↦
          ih done.length (by rw [← hn, hd]; simp) done r' (rest ++ r :: after) rfl
            (by simp [hs, hd])
        apply hbefore.keeps (written_filesAfter j before) hM hu
        have hnext := hread (before ++ [r]) after none (by simp [hs])
        rw [filesAfter_append_singleton, Segments.after_append_singleton] at hnext
        simpa using hnext
    exact fun before r after hs ↦ hkeeps before.length before r after rfl hs
  · intro hk before after since hs
    apply (hholds before after hs ?_).read hu since
    intro done r rest hd
    exact hk done r (rest ++ after) (by simp [hs, hd])

/-- Three records, each of which fills a segment. -/
def threeRecords : List JournalRecord := [⟨1, "u", "a"⟩, ⟨2, "u", "b"⟩, ⟨3, "u", "c"⟩]

theorem second_rotation_loses_segment : ¬ Journal.Retains ⟨1, 2⟩ "u" threeRecords := by
  intro h
  have hread := h threeRecords [] none (List.append_nil _).symm
  have hlost : Journal.read ⟨1, 2⟩ (filesAfter ⟨1, 2⟩ threeRecords) "u" none =
      [⟨2, "u", "b"⟩, ⟨3, "u", "c"⟩] := by decide +kernel
  have hkept : (Segments.after ⟨1, 2⟩ "u" threeRecords).retained ⟨1, 2⟩ = threeRecords := by
    decide +kernel
  rw [hlost, hkept] at hread
  cases hread

theorem one_segment_retained : Journal.Retains ⟨1, 1⟩ "u" threeRecords := by
  apply (journal_retained_iff ⟨1, 1⟩ le_rfl "u" (by decide) threeRecords).mpr
  intro before r after hs
  have hr : r ∈ threeRecords := by
    rw [hs]
    simp
  simp only [threeRecords, List.mem_cons, List.not_mem_nil, or_false] at hr
  obtain rfl | rfl | rfl := hr
  all_goals exact ⟨by decide, by decide, by decide, fun _ ↦ .inl rfl⟩

end Retention

end Rystemd
