import Rystemd.ControlClients
import Rystemd.Journal
import Rystemd.Library.Utf8

namespace Rystemd

open Utf8

/-- The last lines of a unit's output. -/
structure LogRing where
  maxLines : Nat
  lines : List String := []

/-- The lines of a text, with their line feeds. -/
def splitInclusive : List Char → List (List Char)
  | [] => []
  | c :: cs =>
    if c = '\n' then [c] :: splitInclusive cs
    else
      match splitInclusive cs with
      | [] => [[c]]
      | line :: lines => (c :: line) :: lines

/-- The lines that a chunk of output is split into. -/
def chunkLines (chunk : String) : List String :=
  (splitInclusive chunk.toList).map fun line ↦ String.ofList (line.rdropWhile (· = '\n'))

namespace LogRing

def push (ring : LogRing) (line : String) : LogRing :=
  if ring.maxLines = 0 then ring
  else if ring.lines.length ≥ ring.maxLines then { ring with lines := ring.lines.drop 1 ++ [line] }
  else { ring with lines := ring.lines ++ [line] }

/-- Append a chunk, which may contain newlines. -/
def pushChunk (ring : LogRing) (chunk : String) : LogRing := (chunkLines chunk).foldl push ring

end LogRing

example : (LogRing.pushChunk ⟨8, ["zero"]⟩ "one\ntwo\n\nthree").lines =
    ["zero", "one", "two", "", "three"] := by decide +kernel

/-- The size of the buffer for one read of a service's output. -/
def outputBuffer : Nat := 4096

/-- What one read of a service's output gives. -/
structure OutputChunk where
  bytes : List UInt8
  nonempty : bytes ≠ []
  fits : bytes.length ≤ outputBuffer

/-- The text of a chunk. -/
def OutputChunk.text (c : OutputChunk) : String := String.ofList (decodeLossy c.bytes)

/-- What is kept of a unit's output: the ring of the unit, if it exists, and the journal. -/
structure Capture where
  ring : Option LogRing
  files : JournalFiles
  watched : Bool := true

namespace Capture

variable (j : Journal) (unit : String)

/-- Keep what one read has given at some time. -/
def keep (s : Capture) (read : UInt64 × OutputChunk) : Capture :=
  { s with
    ring := s.ring.map fun ring ↦ ring.pushChunk read.2.text
    files := j.append s.files ⟨read.1, unit, read.2.text⟩ }

/-- Read until there is nothing to read, or the output ends. -/
def readStdout (reads : List (UInt64 × OutputChunk)) (last : ReadEnd) (s : Capture) : Capture :=
  if s.watched then
    let s := reads.foldl (keep j unit) s
    if last = .wouldBlock then s else { s with watched := false }
  else s

/-- The lines that the reads push to the ring. -/
def pushedLines (reads : List (UInt64 × OutputChunk)) : List String :=
  reads.flatMap fun read ↦ chunkLines read.2.text

/-- The records that the reads append to the journal. -/
def appended (reads : List (UInt64 × OutputChunk)) : List JournalRecord :=
  reads.map fun read ↦ ⟨read.1, unit, read.2.text⟩

variable {j unit} {s : Capture} {reads : List (UInt64 × OutputChunk)} {cs : List Char} {c : Char}

theorem foldl_keep : reads.foldl (keep j unit) s =
    { s with
      ring := s.ring.map fun ring ↦ (pushedLines reads).foldl LogRing.push ring
      files := (appended unit reads).foldl j.append s.files } := by
  induction reads generalizing s with
  | nil => simp [pushedLines, appended]
  | cons read reads ih =>
    rw [List.foldl_cons, ih]
    simp [keep, pushedLines, appended, List.foldl_append, LogRing.pushChunk, Function.comp_def]

/-- Over several calls that each end where there is nothing to read, the ring and the journal get
what all of the reads give. -/
theorem readStdout_calls (calls : List (List (UInt64 × OutputChunk))) (h : s.watched) :
    calls.foldl (fun s reads ↦ readStdout j unit reads .wouldBlock s) s =
      { s with
        ring := s.ring.map fun ring ↦ (pushedLines calls.flatten).foldl LogRing.push ring
        files := (appended unit calls.flatten).foldl j.append s.files } := by
  rw [← foldl_keep, List.foldl_flatten]
  induction calls generalizing s with
  | nil => rfl
  | cons reads calls ih =>
    have hfirst : readStdout j unit reads .wouldBlock s = reads.foldl (keep j unit) s := by
      rw [readStdout, if_pos h]
      exact if_pos rfl
    have hwatched : (reads.foldl (keep j unit) s).watched := by
      rw [foldl_keep]
      exact h
    rw [List.foldl_cons, List.foldl_cons, hfirst, ih hwatched]

theorem rdropWhile_cons (hc : c ≠ '\n') :
    (c :: cs).rdropWhile (· = '\n') = c :: cs.rdropWhile (· = '\n') := by
  induction cs using List.reverseRecOn with
  | nil => rw [List.rdropWhile_nil, List.rdropWhile_singleton, if_neg (by simpa using hc)]
  | append_singleton cs d ih =>
    rw [← List.cons_append]
    by_cases hd : d = '\n'
    · rw [List.rdropWhile_concat_pos _ _ _ (by simpa using hd),
        List.rdropWhile_concat_pos _ _ _ (by simpa using hd), ih]
    · rw [List.rdropWhile_concat_neg _ _ _ (by simpa using hd),
        List.rdropWhile_concat_neg _ _ _ (by simpa using hd), List.cons_append]

theorem splitInclusive_lines :
    (splitInclusive cs).flatMap (·.rdropWhile (· = '\n')) = cs.filter (· ≠ '\n') := by
  induction cs with
  | nil => rfl
  | cons c cs ih =>
    rw [splitInclusive]
    split
    · next hc =>
      rw [List.flatMap_cons, ih, hc]
      simp
    · next hc =>
      rw [List.filter_cons_of_pos (by simpa using hc), ← ih]
      cases splitInclusive cs with
      | nil => simp [rdropWhile_cons hc]
      | cons line lines => simp [rdropWhile_cons hc]

/-- What a chunk adds to the ring is its text without the line feeds. -/
theorem chunkLines_toList (text : String) :
    (chunkLines text).flatMap String.toList = text.toList.filter (· ≠ '\n') := by
  rw [← splitInclusive_lines, chunkLines, List.flatMap_map]
  simp only [String.toList_ofList]

/-- The texts of the ring and of the journal have the characters of the stream in order, with its
line feeds between lines, or as spaces. -/
structure Kept (unit : String) (reads : List (UInt64 × OutputChunk)) (cs : List Char) : Prop where
  lines : (pushedLines reads).flatMap String.toList = cs.filter (· ≠ '\n')
  records : (appended unit reads).flatMap (fun r ↦ r.stored.text.toList) =
    cs.map fun c ↦ if c = '\n' then ' ' else c

/-- A read that does not begin within a character. -/
def AtBoundary (read : UInt64 × OutputChunk) : Prop :=
  ∀ b ∈ read.2.bytes.head?, b.IsUTF8FirstByte

def bytes (reads : List (UInt64 × OutputChunk)) : List UInt8 := reads.flatMap fun r ↦ r.2.bytes

theorem bytes_head (read : UInt64 × OutputChunk) :
    (bytes (read :: reads)).head? = read.2.bytes.head? := by
  rw [bytes, List.flatMap_cons, List.head?_append_of_ne_nil _ read.2.nonempty]

theorem pushedLines_toList : (pushedLines reads).flatMap String.toList =
    (reads.flatMap fun r ↦ decodeLossy r.2.bytes).filter (· ≠ '\n') := by
  induction reads with
  | nil => rfl
  | cons read reads ih =>
    rw [pushedLines, List.flatMap_cons, List.flatMap_append, chunkLines_toList, List.flatMap_cons,
      List.filter_append, ← ih, OutputChunk.text, String.toList_ofList]
    rfl

theorem appended_toList : (appended unit reads).flatMap (fun r ↦ r.stored.text.toList) =
    (reads.flatMap fun r ↦ decodeLossy r.2.bytes).map fun c ↦ if c = '\n' then ' ' else c := by
  rw [appended, List.flatMap_map, List.map_flatMap]
  simp only [JournalRecord.stored, OutputChunk.text, String.toList_map, String.toList_ofList]

/-- Reads that begin between characters give the characters of the stream. -/
theorem decode_reads (h : bytes reads = encode cs) (hread : ∀ r ∈ reads, AtBoundary r) :
    (reads.flatMap fun r ↦ decodeLossy r.2.bytes) = cs := by
  induction reads generalizing cs with
  | nil =>
    cases cs with
    | nil => rfl
    | cons c cs =>
      obtain ⟨b, bs, hchar, -⟩ := encodeChar_first c
      rw [encode, List.flatMap_cons, hchar] at h
      cases h
  | cons read reads ih =>
    have hrest : ∀ r ∈ reads, AtBoundary r := fun r hr ↦ hread r (List.mem_cons_of_mem _ hr)
    have hcut : ∀ b ∈ (bytes reads).head?, b.IsUTF8FirstByte := by
      cases reads with
      | nil => exact fun b hb ↦ by cases hb
      | cons r reads =>
        rw [bytes_head]
        exact hrest r List.mem_cons_self
    have hsplit : encode cs = read.2.bytes ++ bytes reads := h.symm
    obtain ⟨cs₁, cs₂, rfl, hfirst, hlater⟩ := encode_eq_append hsplit hcut
    rw [List.flatMap_cons, hfirst, decodeLossy_encode, ih hlater hrest]

theorem firsts_le_decoded :
    firsts (bytes reads) ≤ (reads.flatMap fun r ↦ decodeLossy r.2.bytes).length := by
  induction reads with
  | nil => exact Nat.le_refl 0
  | cons read reads ih =>
    have hread : firsts read.2.bytes ≤ _ := firsts_le_length
    rw [bytes, List.flatMap_cons, firsts_append, List.flatMap_cons, List.length_append]
    exact Nat.add_le_add hread ih

/-- A read that begins within a character adds one. -/
theorem firsts_lt_decoded {read : UInt64 × OutputChunk} (hmem : read ∈ reads)
    (hread : ¬ AtBoundary read) :
    firsts (bytes reads) < (reads.flatMap fun r ↦ decodeLossy r.2.bytes).length := by
  obtain ⟨before, after, rfl⟩ := List.append_of_mem hmem
  have hbefore : firsts (bytes before) ≤ _ := firsts_le_decoded
  have hafter : firsts (bytes after) ≤ _ := firsts_le_decoded
  have hlt : firsts read.2.bytes < (decodeLossy read.2.bytes).length := by
    rw [AtBoundary] at hread
    push Not at hread
    obtain ⟨b, hb, hfirst⟩ := hread
    obtain ⟨bs, hbytes⟩ := List.head?_eq_some_iff.mp hb
    rw [hbytes]
    exact firsts_lt_length hfirst
  rw [bytes, List.flatMap_append, List.flatMap_cons, firsts_append, firsts_append,
    List.flatMap_append, List.flatMap_cons, List.length_append, List.length_append]
  rw [bytes] at hbefore hafter
  omega

/-- The output of a unit is kept as it is exactly where no read begins within a character. -/
theorem output_kept_iff (h : bytes reads = encode cs) :
    Kept unit reads cs ↔ ∀ read ∈ reads, AtBoundary read := by
  constructor
  · intro hkept read hmem
    by_contra hread
    have hlt := firsts_lt_decoded hmem hread
    have hlength := congrArg List.length (appended_toList.symm.trans hkept.records)
    rw [List.length_map, List.length_map] at hlength
    rw [h, firsts_encode] at hlt
    omega
  · intro hread
    have hdecoded := decode_reads h hread
    constructor
    · rw [pushedLines_toList, hdecoded]
    · rw [appended_toList, hdecoded]

/-- Two reads, the first of a character of two bytes. -/
theorem output_kept_iff_whole : Kept "a.service" [(0, ⟨[0xC3, 0xA9], by decide, by decide⟩),
    (1, ⟨[0x0A], by decide, by decide⟩)] ['é', '\n'] := by
  have hstream : encode ['é', '\n'] = [0xC3, 0xA9, 0x0A] := by decide +kernel
  refine (output_kept_iff ?_).mpr ?_
  · exact hstream.symm
  intro read hmem b hb
  rcases List.mem_cons.mp hmem with rfl | hmem
  · obtain rfl := Option.some.inj hb
    decide
  · rw [List.mem_singleton.mp hmem] at hb
    obtain rfl := Option.some.inj hb
    decide

/-- A character that two reads cut is replaced. -/
theorem character_cut : ¬ ∀ (unit : String) (reads : List (UInt64 × OutputChunk)) (cs : List Char),
    bytes reads = encode cs → Kept unit reads cs := by
  intro h
  have hstream : encode ['é'] = [0xC3, 0xA9] := by decide +kernel
  have hkept := h "a.service" [(0, ⟨[0xC3], by decide, by decide⟩),
    (0, ⟨[0xA9], by decide, by decide⟩)] ['é'] hstream.symm
  have hlines := hkept.lines
  revert hlines
  decide +kernel

end Capture

end Rystemd
