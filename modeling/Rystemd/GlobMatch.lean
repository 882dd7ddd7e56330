import Rystemd.Library.Glob
import Rystemd.Library.Utf8

namespace Rystemd

open Glob

/-- The matcher works on bytes: 42 is a star and 63 a question mark. -/
def globRec : List UInt8 → List UInt8 → Bool
  | [], name => name.isEmpty
  | c :: pat, name =>
    if c = 42 then
      (List.range (name.length + 1)).any fun k ↦ globRec (pat.dropWhile (· = 42)) (name.drop k)
    else if c = 63 then !name.isEmpty && globRec pat (name.drop 1)
    else name.head? = some c && globRec pat (name.drop 1)
termination_by pat => pat.length
decreasing_by
  · exact Nat.lt_succ_of_le (List.dropWhile_sublist _).length_le
  · exact Nat.lt_succ_self _
  · exact Nat.lt_succ_self _

def globMatch (pat name : String) : Bool :=
  globRec (Utf8.encode pat.toList) (Utf8.encode name.toList)

/-- The language of a glob, over characters. -/
def GlobLanguage (pat name : List Char) : Prop := Matches (elements (fun c ↦ [c]) pat) name

/-- The matcher tells whether a name is in the language of a pattern. -/
def GlobDecides (pat name : String) : Prop :=
  globMatch pat name = true ↔ GlobLanguage pat.toList name.toList

/-- Each run of wildcards has no question mark, or one and a star. -/
def BlursQuestions (pat : String) : Prop :=
  ∀ run ∈ runs pat.toList, run.count '?' = 0 ∨ run.count '?' = 1 ∧ '*' ∈ run

instance (pat : String) : Decidable (BlursQuestions pat) :=
  inferInstanceAs (Decidable (∀ run ∈ runs pat.toList,
    run.count '?' = 0 ∨ run.count '?' = 1 ∧ '*' ∈ run))

example : BlursQuestions "a*?*.conf" ∧ ¬ BlursQuestions "a?.conf" := by decide

variable {pat name : List UInt8} {cs ns run rest : List Char} {c : Char} {b : UInt8}

theorem globRec_nil : globRec [] name = true ↔ name = [] := by
  rw [globRec, List.isEmpty_iff]

theorem globRec_stars : globRec (42 :: pat) name = true ↔
    ∃ v w, name = v ++ w ∧ globRec (pat.dropWhile (· = 42)) w = true := by
  rw [globRec, if_pos rfl, List.any_eq_true]
  constructor
  · rintro ⟨k, -, hk⟩
    exact ⟨name.take k, name.drop k, (List.take_append_drop k name).symm, hk⟩
  · rintro ⟨v, w, rfl, hw⟩
    refine ⟨v.length, ?_, ?_⟩
    · rw [List.mem_range, List.length_append]
      omega
    · rw [List.drop_left]
      exact hw

/-- The stars that are collapsed stand for nothing more. -/
theorem globRec_star : globRec (42 :: pat) name = true ↔
    ∃ v w, name = v ++ w ∧ globRec pat w = true := by
  rw [globRec_stars]
  cases pat with
  | nil => rfl
  | cons c pat =>
    by_cases hc : c = 42
    · subst hc
      constructor
      · rintro ⟨v, w, rfl, hw⟩
        exact ⟨v, w, rfl, globRec_stars.mpr ⟨[], w, rfl, hw⟩⟩
      · rintro ⟨v, w, rfl, hw⟩
        obtain ⟨v', w', rfl, hw'⟩ := globRec_stars.mp hw
        exact ⟨v ++ v', w', (List.append_assoc ..).symm, hw'⟩
    · rw [List.dropWhile_cons_of_neg (by simpa using hc)]

theorem globRec_one : globRec (63 :: pat) name = true ↔
    ∃ a w, name = a :: w ∧ globRec pat w = true := by
  rw [globRec, if_neg (by decide), if_pos rfl]
  cases name with
  | nil => simp
  | cons a w => simp

theorem globRec_byte (hstar : b ≠ 42) (hone : b ≠ 63) : globRec (b :: pat) name = true ↔
    ∃ w, name = b :: w ∧ globRec pat w = true := by
  rw [globRec, if_neg hstar, if_neg hone]
  cases name with
  | nil => simp
  | cons a w => simp

theorem globRec_bytes {bs : List UInt8} (h : ∀ b ∈ bs, b ≠ 42 ∧ b ≠ 63) :
    globRec (bs ++ pat) name = true ↔ ∃ w, name = bs ++ w ∧ globRec pat w = true := by
  induction bs generalizing name with
  | nil => simp
  | cons b bs ih =>
    obtain ⟨hstar, hone⟩ := h b List.mem_cons_self
    have hbs := fun b' hb' ↦ h b' (List.mem_cons_of_mem _ hb')
    rw [List.cons_append, globRec_byte hstar hone]
    constructor
    · rintro ⟨_, rfl, hw⟩
      obtain ⟨w, rfl, hw'⟩ := (ih hbs).mp hw
      exact ⟨w, rfl, hw'⟩
    · rintro ⟨w, rfl, hw⟩
      exact ⟨bs ++ w, rfl, (ih hbs).mpr ⟨w, rfl, hw⟩⟩

/-- No byte of a literal is a wildcard. -/
theorem encodeChar_literal (h : isWild c = false) (hb : b ∈ String.utf8EncodeChar c) :
    b ≠ 42 ∧ b ≠ 63 := by
  rw [isWild, Bool.or_eq_false_iff, decide_eq_false_iff_not, decide_eq_false_iff_not] at h
  by_cases hc : c.toNat < 128
  · rw [Utf8.encodeChar_ascii hc, List.mem_singleton] at hb
    have hnat : b.toNat = c.toNat := by
      rw [hb, UInt8.toNat_ofNat']
      omega
    refine ⟨?_, ?_⟩
    · rintro rfl
      exact h.1 (Char.toNat_inj.mp hnat.symm)
    · rintro rfl
      exact h.2 (Char.toNat_inj.mp hnat.symm)
  · have hge := Utf8.encodeChar_great (Nat.not_lt.mp hc) hb
    refine ⟨?_, ?_⟩
    · rintro rfl
      revert hge
      decide
    · rintro rfl
      revert hge
      decide

/-- The matcher decides the language of the pattern in which a question mark is one byte. -/
theorem globRec_iff : globRec (Utf8.encode cs) name = true ↔
    Matches (elements String.utf8EncodeChar cs) name := by
  induction cs generalizing name with
  | nil => exact globRec_nil.trans matches_nil_iff.symm
  | cons c cs ih =>
    rw [Utf8.encode_cons]
    cases hwild : isWild c with
    | false =>
      rw [globRec_bytes fun b ↦ encodeChar_literal hwild, matches_literal_iff hwild]
      simp only [ih]
    | true =>
      rw [isWild, Bool.or_eq_true, decide_eq_true_eq, decide_eq_true_eq] at hwild
      rcases hwild with rfl | rfl
      · have hstar : String.utf8EncodeChar '*' ++ Utf8.encode cs = 42 :: Utf8.encode cs := rfl
        rw [hstar, globRec_star, matches_star_iff]
        simp only [ih]
      · have hone : String.utf8EncodeChar '?' ++ Utf8.encode cs = 63 :: Utf8.encode cs := rfl
        rw [hone, globRec_one, matches_one_iff]
        simp only [ih]

/-- If the runs of a pattern fit the bytes of a stretch of the name as they fit its characters, the
two languages agree on the name. -/
theorem language_iff (h : ∀ run ∈ runs cs, ∀ v, v ⊆ ns →
    (Fits run (Utf8.encode v).length ↔ Fits run v.length)) :
    Matches (elements String.utf8EncodeChar cs) (Utf8.encode ns) ↔ GlobLanguage cs ns := by
  unfold GlobLanguage
  induction cs using pattern_induction generalizing ns with
  | run run hrun =>
    rw [matches_wild_iff hrun, matches_wild_iff hrun]
    apply h run _ ns (List.Subset.refl ns)
    rw [runs_wild hrun]
    exact List.mem_singleton_self run
  | literal run c rest hrun hc ih =>
    rw [runs_segment hrun hc] at h
    rw [matches_segment_iff hrun hc, matches_segment_iff hrun hc]
    constructor
    · rintro ⟨v, w, hns, hfits, hrest⟩
      obtain ⟨n₁, n₂, rfl, rfl, rfl⟩ := Utf8.encode_eq_append_char hns
      refine ⟨n₁, n₂, rfl, (h run List.mem_cons_self n₁ (by simp)).mp hfits, (ih ?_).mp hrest⟩
      intro run' hrun' v hv
      exact h run' (List.mem_cons_of_mem _ hrun') v fun d hd ↦ by simp [hv hd]
    · rintro ⟨n₁, n₂, rfl, hfits, hrest⟩
      refine ⟨Utf8.encode n₁, Utf8.encode n₂, ?_,
        (h run List.mem_cons_self n₁ (by simp)).mpr hfits, (ih ?_).mpr hrest⟩
      · rw [List.singleton_append, Utf8.encode_append, Utf8.encode_cons]
      · intro run' hrun' v hv
        exact h run' (List.mem_cons_of_mem _ hrun') v fun d hd ↦ by simp [hv hd]

/-- A run with no question mark, or with one and a star, tells only the empty stretch apart. -/
theorem fits_blurred (h : run.count '?' = 0 ∨ run.count '?' = 1 ∧ '*' ∈ run) :
    Fits run (Utf8.encode ns).length ↔ Fits run ns.length := by
  have hle := (Utf8.length_encode ns).1
  have hnil : (Utf8.encode ns).length = 0 → ns.length = 0 := by omega
  have hzero : ns.length = 0 → (Utf8.encode ns).length = 0 := by
    intro hns
    rw [List.length_eq_zero_iff.mp hns]
    rfl
  constructor
  · rintro ⟨hleast, hmost⟩
    rcases h with h | ⟨h, hstar⟩
    · exact ⟨by omega, fun hstar ↦ by have := hmost hstar; omega⟩
    · exact ⟨by omega, fun hnot ↦ absurd hstar hnot⟩
  · rintro ⟨hleast, hmost⟩
    rcases h with h | ⟨h, hstar⟩
    · exact ⟨by omega, fun hstar ↦ by have := hmost hstar; omega⟩
    · exact ⟨by omega, fun hnot ↦ absurd hstar hnot⟩

/-- The characters that a name in the language of a pattern has at least. -/
def demand (pat : List Char) : Nat := pat.countP (· ≠ '*')

theorem demand_wild (h : ∀ c ∈ run, isWild c) : demand run = run.count '?' := by
  apply List.countP_congr
  intro c hc
  have hwild := h c hc
  rw [isWild, Bool.or_eq_true, decide_eq_true_eq, decide_eq_true_eq] at hwild
  rcases hwild with rfl | rfl
  · decide
  · decide

theorem demand_segment (h : ∀ c ∈ run, isWild c) (hc : isWild c = false) :
    demand (run ++ c :: rest) = run.count '?' + 1 + demand rest := by
  have hstar : c ≠ '*' := by
    rintro rfl
    cases hc
  rw [demand, List.countP_append, ← demand, demand_wild h,
    List.countP_cons_of_pos (by simpa using hstar), ← demand]
  omega

theorem demand_le (h : GlobLanguage cs ns) : demand cs ≤ ns.length := by
  unfold GlobLanguage at h
  induction cs using pattern_induction generalizing ns with
  | run run hrun =>
    rw [demand_wild hrun]
    exact ((matches_wild_iff hrun).mp h).least
  | literal run c rest hrun hc ih =>
    obtain ⟨v, w, rfl, hfits, hrest⟩ := (matches_segment_iff hrun hc).mp h
    have hv := hfits.least
    have hw := ih hrest
    rw [demand_segment hrun hc, List.length_append, List.singleton_append, List.length_cons]
    omega

/-- A stretch of as many bytes as a run has question marks, with fewer characters if it has two. -/
def narrow (n : Nat) : List Char :=
  if 2 ≤ n then 'é' :: List.replicate (n - 2) 'x' else List.replicate n 'x'

theorem length_encode_replicate (n : Nat) : (Utf8.encode (List.replicate n 'x')).length = n := by
  have hascii : ∀ c ∈ List.replicate n 'x', c.toNat < 128 := by
    intro c hc
    rw [List.eq_of_mem_replicate hc]
    decide
  rw [(Utf8.length_encode _).2.mpr hascii, List.length_replicate]

theorem length_encode_narrow (n : Nat) : (Utf8.encode (narrow n)).length = n := by
  unfold narrow
  split
  · next h =>
    have htwo : (String.utf8EncodeChar 'é').length = 2 := by decide
    rw [Utf8.encode_cons, List.length_append, htwo, length_encode_replicate]
    omega
  · exact length_encode_replicate n

theorem length_narrow (n : Nat) : (narrow n).length ≤ n ∧ (2 ≤ n → (narrow n).length < n) := by
  unfold narrow
  split
  · rw [List.length_cons, List.length_replicate]
    omega
  · rw [List.length_replicate]
    omega

/-- The bytes of some name fit a pattern although it has no more characters than it has to have, and
fewer if some run has two question marks. -/
theorem exists_short (cs : List Char) : ∃ ns,
    Matches (elements String.utf8EncodeChar cs) (Utf8.encode ns) ∧ ns.length ≤ demand cs ∧
      ((∃ run ∈ runs cs, 2 ≤ run.count '?') → ns.length < demand cs) := by
  induction cs using pattern_induction with
  | run run hrun =>
    obtain ⟨hle, hlt⟩ := length_narrow (run.count '?')
    refine ⟨narrow (run.count '?'), ?_, ?_, ?_⟩
    · rw [matches_wild_iff hrun, length_encode_narrow]
      exact fits_count
    · rw [demand_wild hrun]
      exact hle
    · rw [demand_wild hrun, runs_wild hrun]
      rintro ⟨run', hrun', htwo⟩
      rw [List.mem_singleton.mp hrun'] at htwo
      exact hlt htwo
  | literal run c rest hrun hc ih =>
    obtain ⟨ns, hmatch, hle, hlt⟩ := ih
    obtain ⟨hle', hlt'⟩ := length_narrow (run.count '?')
    refine ⟨narrow (run.count '?') ++ c :: ns, ?_, ?_, ?_⟩
    · rw [matches_segment_iff hrun hc]
      refine ⟨Utf8.encode (narrow (run.count '?')), Utf8.encode ns, ?_, ?_, hmatch⟩
      · rw [Utf8.encode_append, Utf8.encode_cons]
      · rw [length_encode_narrow]
        exact fits_count
    · rw [demand_segment hrun hc, List.length_append, List.length_cons]
      omega
    · rw [demand_segment hrun hc, List.length_append, List.length_cons, runs_segment hrun hc]
      rintro ⟨run', hrun', htwo⟩
      rcases List.mem_cons.mp hrun' with rfl | hmem
      · have := hlt' htwo
        omega
      · have := hlt ⟨run', hmem, htwo⟩
        omega

def isAscii (c : Char) : Bool := c.toNat < 128

/-- A run that is one question mark. -/
def isOne (run : List Char) : Bool := run.count '?' = 1 && '*' ∉ run

/-- The characters of ASCII that a name has at least if its bytes fit a pattern. -/
def asciiDemand (pat : List Char) : Nat :=
  pat.countP (fun c ↦ !isWild c && isAscii c) + (runs pat).countP isOne

theorem literals_wild (h : ∀ c ∈ run, isWild c) :
    run.countP (fun c ↦ !isWild c && isAscii c) = 0 := by
  rw [List.countP_eq_zero]
  intro c hc
  rw [h c hc]
  simp

theorem literals_segment (h : ∀ c ∈ run, isWild c) (hc : isWild c = false) :
    (run ++ c :: rest).countP (fun c ↦ !isWild c && isAscii c) =
      [c].countP isAscii + rest.countP fun c ↦ !isWild c && isAscii c := by
  rw [List.countP_append, literals_wild h, List.countP_cons, hc, List.countP_singleton]
  simp only [Bool.not_false, Bool.true_and]
  omega

/-- A run that is one question mark fits one character, of ASCII. -/
theorem isOne_le (hfits : Fits run (Utf8.encode ns).length) :
    [run].countP isOne ≤ ns.countP isAscii := by
  rw [List.countP_singleton]
  split
  · next hone =>
    rw [isOne, Bool.and_eq_true, decide_eq_true_eq, decide_eq_true_eq] at hone
    have hlength : (Utf8.encode ns).length = 1 := (hfits.most hone.2).trans hone.1
    obtain ⟨hle, hiff⟩ := Utf8.length_encode ns
    cases ns with
    | nil => cases hlength
    | cons c ns =>
      rw [hlength, List.length_cons] at hle hiff
      have hascii := hiff.mp (by omega) c List.mem_cons_self
      rw [List.countP_cons_of_pos (by simpa [isAscii] using hascii)]
      exact Nat.le_add_left ..
  · exact Nat.zero_le _

theorem asciiDemand_le (h : Matches (elements String.utf8EncodeChar cs) (Utf8.encode ns)) :
    asciiDemand cs ≤ ns.countP isAscii := by
  induction cs using pattern_induction generalizing ns with
  | run run hrun =>
    rw [asciiDemand, literals_wild hrun, runs_wild hrun, Nat.zero_add]
    exact isOne_le ((matches_wild_iff hrun).mp h)
  | literal run c rest hrun hc ih =>
    obtain ⟨v, w, hns, hfits, hrest⟩ := (matches_segment_iff hrun hc).mp h
    obtain ⟨n₁, n₂, rfl, rfl, rfl⟩ := Utf8.encode_eq_append_char hns
    have hone := isOne_le hfits
    have hih := ih hrest
    have hruns : (run :: runs rest).countP isOne =
        [run].countP isOne + (runs rest).countP isOne := by
      rw [← List.countP_append, List.singleton_append]
    have hname : (n₁ ++ c :: n₂).countP isAscii =
        n₁.countP isAscii + ([c].countP isAscii + n₂.countP isAscii) := by
      rw [← List.countP_append, ← List.countP_append, List.singleton_append]
    rw [asciiDemand] at hih ⊢
    rw [literals_segment hrun hc, runs_segment hrun hc, hruns, hname]
    omega

/-- Some name of a pattern has no character of ASCII but the literals. -/
theorem exists_wide (cs : List Char) : ∃ ns, GlobLanguage cs ns ∧
    ns.countP isAscii = cs.countP fun c ↦ !isWild c && isAscii c := by
  have hwide : ∀ n, (List.replicate n 'é').countP isAscii = 0 := by
    intro n
    rw [List.countP_replicate]
    rfl
  unfold GlobLanguage
  induction cs using pattern_induction with
  | run run hrun =>
    refine ⟨List.replicate (run.count '?') 'é', ?_, ?_⟩
    · rw [matches_wild_iff hrun, List.length_replicate]
      exact fits_count
    · rw [literals_wild hrun, hwide]
  | literal run c rest hrun hc ih =>
    obtain ⟨ns, hmatch, hcount⟩ := ih
    refine ⟨List.replicate (run.count '?') 'é' ++ c :: ns, ?_, ?_⟩
    · rw [matches_segment_iff hrun hc]
      refine ⟨_, ns, rfl, ?_, hmatch⟩
      rw [List.length_replicate]
      exact fits_count
    · rw [literals_segment hrun hc, List.countP_append, hwide, List.countP_cons, hcount,
        List.countP_singleton]
      omega

theorem globDecides_iff {pat name : String} : GlobDecides pat name ↔
    (Matches (elements String.utf8EncodeChar pat.toList) (Utf8.encode name.toList) ↔
      GlobLanguage pat.toList name.toList) := by
  rw [GlobDecides, globMatch, globRec_iff]

/-- The matcher decides the language of a pattern if no run of wildcards counts characters. -/
theorem globDecides_pattern (pat : String) :
    (∀ name, GlobDecides pat name) ↔ BlursQuestions pat := by
  constructor
  · intro h run hrun
    have hagree : ∀ ns, Matches (elements String.utf8EncodeChar pat.toList) (Utf8.encode ns) ↔
        GlobLanguage pat.toList ns := by
      intro ns
      have hname := globDecides_iff.mp (h (String.ofList ns))
      rwa [String.toList_ofList] at hname
    by_contra hcounts
    rw [not_or, not_and] at hcounts
    obtain ⟨hzero, hstar⟩ := hcounts
    by_cases hone : run.count '?' = 1
    · -- a name whose only characters of ASCII are the literals has none for this run
      obtain ⟨ns, hmatch, hcount⟩ := exists_wide pat.toList
      have hdemand := asciiDemand_le ((hagree ns).mpr hmatch)
      have hpos : 0 < (runs pat.toList).countP isOne := by
        rw [List.countP_pos_iff]
        exact ⟨run, hrun, by simpa [isOne, hone] using hstar hone⟩
      rw [asciiDemand, hcount] at hdemand
      omega
    · -- a name that is too short for the pattern has enough bytes
      obtain ⟨ns, hmatch, -, hlt⟩ := exists_short pat.toList
      have hle := demand_le ((hagree ns).mp hmatch)
      have := hlt ⟨run, hrun, by omega⟩
      omega
  · intro h name
    rw [globDecides_iff]
    apply language_iff
    intro run hrun v _
    exact fits_blurred (h run hrun)

/-- The matcher is right about a name under every pattern if the name is in ASCII. -/
theorem globDecides_name (name : String) :
    (∀ pat, GlobDecides pat name) ↔ ∀ c ∈ name.toList, c.toNat < 128 := by
  constructor
  · intro h
    have hquestions : ∀ c ∈ List.replicate name.toList.length '?', isWild c := by
      intro c hc
      rw [List.eq_of_mem_replicate hc]
      rfl
    have hstar : '*' ∉ List.replicate name.toList.length '?' := by
      intro hmem
      cases List.eq_of_mem_replicate hmem
    have hname := globDecides_iff.mp (h (String.ofList (List.replicate name.toList.length '?')))
    rw [String.toList_ofList, GlobLanguage, matches_wild_iff hquestions,
      matches_wild_iff hquestions] at hname
    have hfits : Fits (List.replicate name.toList.length '?') name.toList.length := by
      exact ⟨Nat.le_of_eq List.count_replicate_self, fun _ ↦ List.count_replicate_self.symm⟩
    have hlength := (hname.mpr hfits).most hstar
    rw [List.count_replicate_self] at hlength
    exact (Utf8.length_encode _).2.mp hlength
  · intro h pat
    rw [globDecides_iff]
    apply language_iff
    intro run _ v hv
    rw [(Utf8.length_encode v).2.mpr fun c hc ↦ h c (hv hc)]

/-- A pattern and a name are matched rightly if no run of wildcards counts characters or the name is
in ASCII; no other pattern is matched rightly against all names, and no other name against all
patterns. -/
theorem globMatch_decides_iff (pat name : String) :
    (BlursQuestions pat ∨ (∀ c ∈ name.toList, c.toNat < 128) → GlobDecides pat name) ∧
      ((∀ name, GlobDecides pat name) ↔ BlursQuestions pat) ∧
      ((∀ pat, GlobDecides pat name) ↔ ∀ c ∈ name.toList, c.toNat < 128) := by
  refine ⟨fun h ↦ ?_, globDecides_pattern pat, globDecides_name name⟩
  rcases h with hpat | hname
  · exact (globDecides_pattern pat).mpr hpat name
  · exact (globDecides_name name).mpr hname pat

/-- A question mark stands for one character, but not for one of two bytes. -/
theorem question_of_two_bytes : GlobLanguage ['?'] ['é'] ∧ globMatch "?" "é" = false ∧
    ¬ GlobDecides "?" "é" := by
  have hlanguage : GlobLanguage ['?'] ['é'] := matches_one_iff.mpr ⟨'é', [], rfl, .nil⟩
  have hmatch : ¬ globMatch "?" "é" = true := by
    have hpat : Utf8.encode "?".toList = [63] := by decide +kernel
    have hname : Utf8.encode "é".toList = [0xC3, 0xA9] := by decide +kernel
    rw [globMatch, hpat, hname, globRec_one]
    rintro ⟨a, w, hbytes, hw⟩
    rw [globRec_nil.mp hw] at hbytes
    cases hbytes
  exact ⟨hlanguage, Bool.eq_false_iff.mpr hmatch, fun h ↦ hmatch (h.mpr hlanguage)⟩

end Rystemd
