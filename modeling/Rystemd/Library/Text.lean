import Mathlib.Data.List.DropRight

namespace Text

/-- The characters of the Unicode property `White_Space`. -/
def isWhitespace (c : Char) : Bool :=
  let n := c.toNat
  9 ≤ n && n ≤ 13 || n ∈ [0x20, 0x85, 0xA0, 0x1680, 0x2028, 0x2029, 0x202F, 0x205F, 0x3000] ||
    0x2000 ≤ n && n ≤ 0x200A

section Letters

variable {c : Char}

theorem isUpper_iff : c.isUpper ↔ 65 ≤ c.toNat ∧ c.toNat ≤ 90 := by
  change decide (c.val ≥ 'A'.val ∧ c.val ≤ 'Z'.val) = true ↔ _
  rw [decide_eq_true_eq]
  exact Iff.rfl

theorem isLower_iff : c.isLower ↔ 97 ≤ c.toNat ∧ c.toNat ≤ 122 := by
  change (decide (c.val ≥ 'a'.val) && decide (c.val ≤ 'z'.val)) = true ↔ _
  rw [Bool.and_eq_true, decide_eq_true_eq, decide_eq_true_eq]
  exact Iff.rfl

theorem isDigit_iff : c.isDigit ↔ 48 ≤ c.toNat ∧ c.toNat ≤ 57 := by
  change (decide (c.val ≥ '0'.val) && decide (c.val ≤ '9'.val)) = true ↔ _
  rw [Bool.and_eq_true, decide_eq_true_eq, decide_eq_true_eq]
  exact Iff.rfl

theorem isAlpha_iff : c.isAlpha ↔ 65 ≤ c.toNat ∧ c.toNat ≤ 90 ∨ 97 ≤ c.toNat ∧ c.toNat ≤ 122 := by
  change (c.isUpper || c.isLower) = true ↔ _
  rw [Bool.or_eq_true, isUpper_iff, isLower_iff]

theorem isAlphanum_iff : c.isAlphanum ↔ 48 ≤ c.toNat ∧ c.toNat ≤ 57 ∨
    65 ≤ c.toNat ∧ c.toNat ≤ 90 ∨ 97 ≤ c.toNat ∧ c.toNat ≤ 122 := by
  change (c.isAlpha || c.isDigit) = true ↔ _
  rw [Bool.or_eq_true, isAlpha_iff, isDigit_iff, or_comm]

end Letters

/-- The words of a text. -/
def splitWhitespace (s : String) : List String :=
  ((s.toList.splitOnP isWhitespace).filter fun w ↦ !w.isEmpty).map String.ofList

def trimStart (s : String) : String := String.ofList (s.toList.dropWhile isWhitespace)

def trimEnd (s : String) : String := String.ofList (s.toList.rdropWhile isWhitespace)

def trim (s : String) : String := trimEnd (trimStart s)

def trimStartMatches (c : Char) (s : String) : String := String.ofList (s.toList.dropWhile (· = c))

def startsWith (c : Char) (s : String) : Bool := s.toList.head? = some c

def stripPrefix (p s : String) : Option String :=
  if p.toList <+: s.toList then some (String.ofList (s.toList.drop p.toList.length)) else none

def stripSuffix (p s : String) : Option String :=
  if p.toList <:+ s.toList then some (String.ofList (s.toList.rdrop p.toList.length)) else none

/-- The text before and after the first `c`. -/
def splitOnce (c : Char) (s : String) : Option (String × String) :=
  if c ∈ s.toList then
    some (String.ofList (s.toList.takeWhile (· ≠ c)),
      String.ofList ((s.toList.dropWhile (· ≠ c)).drop 1))
  else none

/-- The characters before and after the first occurrence of `p`. -/
def splitAtFirst (p : List Char) : List Char → Option (List Char × List Char)
  | [] => if p.isEmpty then some ([], []) else none
  | c :: cs =>
    if p.isPrefixOf (c :: cs) then some ([], (c :: cs).drop p.length)
    else (splitAtFirst p cs).map fun r ↦ (c :: r.1, r.2)

/-- The text before and after the first occurrence of `p`. -/
def splitOnceStr (p s : String) : Option (String × String) :=
  (splitAtFirst p.toList s.toList).map fun r ↦ (String.ofList r.1, String.ofList r.2)

def contains (p s : String) : Bool := (splitAtFirst p.toList s.toList).isSome

theorem splitAtFirst_isSome {p l : List Char} : (splitAtFirst p l).isSome ↔ p <:+: l := by
  induction l with
  | nil =>
    rw [splitAtFirst, List.infix_nil]
    cases p with
    | nil => simp
    | cons c p => simp
  | cons c l ih =>
    rw [splitAtFirst, List.infix_cons_iff, ← ih, ← List.isPrefixOf_iff_prefix]
    split
    · next h => simp [h]
    · next h => simp [h]

theorem contains_iff {p s : String} : contains p s ↔ p.toList <:+: s.toList := splitAtFirst_isSome

/-- The parts of a text between the characters that satisfy `p`. -/
def splitWhere (p : Char → Bool) (s : String) : List String :=
  (s.toList.splitOnP p).map String.ofList

/-- The text before and after the last `c`. -/
def rsplitOnce (c : Char) (s : String) : Option (String × String) :=
  if c ∈ s.toList then
    some (String.ofList (s.toList.rdropWhile (· ≠ c)).dropLast,
      String.ofList (s.toList.rtakeWhile (· ≠ c)))
  else none

section Splits

variable {α : Type} {a b : α} {l r w : List α}

theorem takeWhile_append_cons [DecidableEq α] (h : a ∉ l) : (l ++ a :: r).takeWhile (· ≠ a) = l := by
  rw [List.takeWhile_append_of_pos]
  · simp
  · intro c hc
    rw [decide_eq_true_eq]
    rintro rfl
    exact h hc

theorem dropWhile_append_cons [DecidableEq α] (h : a ∉ l) :
    (l ++ a :: r).dropWhile (· ≠ a) = a :: r := by
  rw [List.dropWhile_append_of_pos]
  · simp
  · intro c hc
    rw [decide_eq_true_eq]
    rintro rfl
    exact h hc

/-- What stands before the first `a`, with what stands after the last one, is all if there is one. -/
theorem takeWhile_append_iff [DecidableEq α] (hw : a ∉ w) (h : a :: w <:+ r) :
    r = r.takeWhile (· ≠ a) ++ a :: w ↔ r.count a = 1 := by
  obtain ⟨before, rfl⟩ := h
  have hcount : (before ++ a :: w).count a = before.count a + 1 := by
    rw [List.count_append, List.count_cons_self, List.count_eq_zero.mpr hw]
  rw [hcount]
  constructor
  · intro heq
    have hbefore := List.append_cancel_right heq
    have hmem : a ∉ before := by
      rw [hbefore]
      intro hmem
      simpa using List.mem_takeWhile_imp hmem
    rw [List.count_eq_zero.mpr hmem]
  · intro hone
    have hmem : a ∉ before := List.count_eq_zero.mp (by omega)
    rw [takeWhile_append_cons hmem]

/-- The end of a list from the last `a` on is after the first `b` if it has none. -/
theorem suffix_after (hb : b ∉ a :: w) (h : a :: w <:+ l ++ b :: r) : a :: w <:+ r := by
  have hsuffix : b :: r <:+ l ++ b :: r := List.suffix_append _ _
  rcases List.suffix_or_suffix_of_suffix h hsuffix with hin | hin
  · rcases List.suffix_cons_iff.mp hin with heq | hin
    · rw [heq] at hb
      exact absurd List.mem_cons_self hb
    · exact hin
  · exact absurd (hin.subset List.mem_cons_self) hb

end Splits

theorem rtakeWhile_of_suffix {c : Char} {w s : List Char} (hw : c ∉ w) (h : c :: w <:+ s) :
    s.rtakeWhile (· ≠ c) = w := by
  obtain ⟨before, rfl⟩ := h
  rw [List.rtakeWhile, List.reverse_append, List.reverse_cons, List.append_assoc,
    List.takeWhile_append_of_pos]
  · simp
  · intro a ha
    rw [decide_eq_true_eq]
    rintro rfl
    exact hw (List.mem_reverse.mp ha)

theorem rsplitOnce_of_suffix {c : Char} {w s : String} (hw : c ∉ w.toList)
    (h : c :: w.toList <:+ s.toList) : ∃ before, rsplitOnce c s = some (before, w) := by
  have hmem : c ∈ s.toList := h.subset List.mem_cons_self
  rw [rsplitOnce, if_pos hmem, rtakeWhile_of_suffix hw h, String.ofList_toList]
  exact ⟨_, rfl⟩

/-- The lines of a text, without the line feeds and a carriage return before each of them. -/
def lines (s : String) : List String :=
  let parts := s.toList.splitOn '\n'
  (parts.dropLast.map fun l ↦ (stripSuffix "\r" (String.ofList l)).getD (String.ofList l)) ++
    (parts.getLast?.toList.filter fun l ↦ !l.isEmpty).map String.ofList

theorem splitOnce_append {c : Char} {a : String} (h : c ∉ a.toList) (b : String) :
    splitOnce c (a ++ String.singleton c ++ b) = some (a, b) := by
  have hl : (a ++ String.singleton c ++ b).toList = a.toList ++ c :: b.toList := by
    simp [String.toList_append]
  have hmem : c ∈ (a ++ String.singleton c ++ b).toList := by
    rw [hl]
    simp
  have hp : ∀ x ∈ a.toList, decide (x ≠ c) = true := by
    intro x hx
    rw [decide_eq_true_eq]
    rintro rfl
    exact h hx
  rw [splitOnce, if_pos hmem, hl, List.takeWhile_append_of_pos hp, List.dropWhile_append_of_pos hp]
  simp

theorem splitOnce_eq_none {c : Char} {s : String} (h : c ∉ s.toList) : splitOnce c s = none :=
  if_neg h

/-- What stands before the first `c` is a prefix without it. -/
theorem splitOnce_fst {c : Char} {s a b : String} (h : splitOnce c s = some (a, b)) :
    a.toList <+: s.toList ∧ c ∉ a.toList := by
  unfold splitOnce at h
  split at h
  · simp only [Option.some.injEq, Prod.mk.injEq] at h
    rw [← h.1, String.toList_ofList]
    refine ⟨List.takeWhile_prefix _, ?_⟩
    intro hmem
    have := List.mem_takeWhile_imp hmem
    simp at this
  · cases h

theorem splitOnce_toList {c : Char} {s a b : String} (h : splitOnce c s = some (a, b)) :
    s.toList = a.toList ++ c :: b.toList := by
  unfold splitOnce at h
  split at h
  · rename_i hmem
    simp only [Option.some.injEq, Prod.mk.injEq] at h
    rw [← h.1, ← h.2, String.toList_ofList, String.toList_ofList]
    have hsplit := List.takeWhile_append_dropWhile (p := (· ≠ c)) (l := s.toList)
    cases hd : s.toList.dropWhile (· ≠ c) with
    | nil =>
      have hall := List.dropWhile_eq_nil_iff.mp hd c hmem
      simp at hall
    | cons x rest =>
      have hnot := List.head?_dropWhile_not (· ≠ c) s.toList
      rw [hd] at hnot
      have hx : x = c := by simpa using hnot
      rw [hd, hx] at hsplit
      exact hsplit.symm
  · cases h

/-- What is left of a text after its suffix has been taken off, if it has it. -/
theorem stripSuffix_eq_some {p s b : String} : stripSuffix p s = some b ↔ s = b ++ p := by
  unfold stripSuffix
  constructor
  · intro h
    split at h
    · next hsuffix =>
      cases h
      obtain ⟨before, hbefore⟩ := hsuffix
      apply String.toList_inj.mp
      rw [String.toList_append, String.toList_ofList, ← hbefore, List.rdrop_append_length]
    · cases h
  · rintro rfl
    rw [String.toList_append, if_pos (List.suffix_append _ _), List.rdrop_append_length,
      String.ofList_toList]

theorem stripSuffix_begins (p s : String) : ((stripSuffix p s).getD s).toList <+: s.toList := by
  unfold stripSuffix
  split
  · simp only [Option.getD_some, String.toList_ofList]
    exact List.take_prefix ..
  · exact List.prefix_refl _

theorem stripSuffix_getD_eq_iff {p s : String} (hp : p ≠ "") :
    (stripSuffix p s).getD s = s ↔ ¬ p.toList <:+ s.toList := by
  unfold stripSuffix
  split
  · rename_i h
    simp only [Option.getD_some, h, not_true_eq_false, iff_false]
    intro heq
    have hlen := congrArg (fun t : String ↦ t.toList.length) heq
    simp only [String.toList_ofList, List.rdrop, List.length_take] at hlen
    have hle := h.length_le
    have hpos : 0 < p.toList.length := by
      rw [List.length_pos_iff]
      simpa using hp
    omega
  · rename_i h
    simp [h]

theorem lines_append (a b : String) : lines (a ++ "\n" ++ b) = lines (a ++ "\n") ++ lines b := by
  have hsplit (t : List Char) :
      (a.toList ++ '\n' :: t).splitOn '\n' = a.toList.splitOn '\n' ++ t.splitOn '\n' :=
    List.splitOn_append_cons_self ..
  have hb : b.toList.splitOn '\n' ≠ [] := List.splitOn_ne_nil _ _
  have hab : (a ++ "\n" ++ b).toList = a.toList ++ '\n' :: b.toList := by
    simp [String.toList_append]
  have ha : (a ++ "\n").toList = a.toList ++ '\n' :: [] := by
    simp [String.toList_append]
  simp only [lines, hab, ha, hsplit, List.dropLast_append_of_ne_nil hb, List.getLast?_append,
    List.map_append, List.splitOn_nil]
  cases hl : (b.toList.splitOn '\n').getLast? with
  | none => exact absurd (List.getLast?_eq_none_iff.mp hl) hb
  | some l => simp

theorem lines_line {a : String} (h : '\n' ∉ a.toList) :
    lines (a ++ "\n") = [(stripSuffix "\r" a).getD a] := by
  have ha : (a ++ "\n").toList = a.toList ++ '\n' :: [] := by
    simp [String.toList_append]
  simp only [lines, ha, List.splitOn_append_cons_self_of_not_mem h, List.splitOn_nil]
  simp

/-- No white space stands at either end. -/
structure Trimmed (l : List Char) : Prop where
  head : ∀ c, l.head? = some c → isWhitespace c = false
  last : ∀ c, l.getLast? = some c → isWhitespace c = false

theorem trimStart_head {s : String} {c : Char} (h : (trimStart s).toList.head? = some c) :
    isWhitespace c = false := by
  rw [trimStart, String.toList_ofList] at h
  have hnot := List.head?_dropWhile_not isWhitespace s.toList
  rw [h] at hnot
  simpa using hnot

theorem trimStart_suffix (s : String) : (trimStart s).toList <:+ s.toList := by
  rw [trimStart, String.toList_ofList]
  exact List.dropWhile_suffix _

theorem trim_begins (s : String) : (trim s).toList <+: (trimStart s).toList := by
  rw [trim, trimEnd, String.toList_ofList]
  exact List.rdropWhile_prefix _ _

theorem trimmed_trim (s : String) : Trimmed (trim s).toList where
  head c hc := by
    obtain ⟨rest, hrest⟩ := trim_begins s
    apply trimStart_head (s := s)
    rw [← hrest, List.head?_append, hc]
    rfl
  last c hc := by
    rw [trim, trimEnd, String.toList_ofList] at hc
    cases hl : (Text.trimStart s).toList.rdropWhile isWhitespace with
    | nil =>
      rw [hl] at hc
      cases hc
    | cons x l =>
      have hne : (Text.trimStart s).toList.rdropWhile isWhitespace ≠ [] := by simp [hl]
      rw [List.getLast?_eq_some_getLast hne] at hc
      have hnot := List.rdropWhile_last_not _ _ hne
      rw [Option.some.inj hc] at hnot
      simpa using hnot

theorem Trimmed.trimStart {s : String} (h : Trimmed s.toList) : Text.trimStart s = s := by
  have hdrop : s.toList.dropWhile isWhitespace = s.toList := by
    cases hl : s.toList with
    | nil => rfl
    | cons c cs =>
      have hc := h.head c (by rw [hl]; rfl)
      rw [List.dropWhile_cons, hc]
      rfl
  rw [Text.trimStart, hdrop, String.ofList_toList]

theorem Trimmed.trim {s : String} (h : Trimmed s.toList) : Text.trim s = s := by
  have hdrop : s.toList.rdropWhile isWhitespace = s.toList := by
    apply List.rdropWhile_eq_self_iff.mpr
    intro hne
    have hlast := h.last _ (List.getLast?_eq_some_getLast hne)
    simp [hlast]
  rw [Text.trim, h.trimStart, trimEnd, hdrop, String.ofList_toList]

theorem Trimmed.of_forall {l : List Char} (h : ∀ c ∈ l, isWhitespace c = false) : Trimmed l where
  head c hc := h c (List.mem_of_head? hc)
  last c hc := h c (List.mem_of_getLast? hc)

/-- A trimmed text has no carriage return at its end. -/
theorem Trimmed.stripSuffix {s : String} (h : Trimmed s.toList) :
    (stripSuffix "\r" s).getD s = s := by
  apply (stripSuffix_getD_eq_iff (by decide)).mpr
  rintro ⟨before, hs⟩
  have hlast := h.last '\r' (by rw [← hs]; simp)
  revert hlast
  decide

theorem mem_of_mem_stripSuffix {p s : String} {c : Char} (h : c ∈ ((stripSuffix p s).getD s).toList) :
    c ∈ s.toList := (stripSuffix_begins p s).subset h

theorem not_mem_splitOn {c : Char} {l part : List Char} (h : part ∈ l.splitOn c) : c ∉ part := by
  induction l generalizing part with
  | nil =>
    rw [List.splitOn_nil, List.mem_singleton] at h
    rw [h]
    exact List.not_mem_nil
  | cons x l ih =>
    rw [List.splitOn_cons_eq_if_modifyHead] at h
    split at h
    · obtain rfl | h := List.mem_cons.mp h
      · exact List.not_mem_nil
      · exact ih h
    · rename_i hx
      cases hl : l.splitOn c with
      | nil => exact absurd hl (List.splitOn_ne_nil _ _)
      | cons first rest =>
        rw [hl] at h ih
        obtain rfl | h := List.mem_cons.mp h
        · have hfirst := ih List.mem_cons_self
          have hne : c ≠ x := by
            rintro rfl
            exact hx (BEq.refl c)
          simp [hne, hfirst]
        · exact ih (List.mem_cons_of_mem _ h)

/-- The last part of a text ends as the text does. -/
theorem exists_last_splitOn {c : Char} {w l : List Char} (hw : c ∉ w) (h : w <:+ l) :
    ∃ init last, l.splitOn c = init ++ [last] ∧ w <:+ last := by
  induction l with
  | nil => exact ⟨[], [], List.splitOn_nil c, h⟩
  | cons x l ih =>
    rcases List.suffix_cons_iff.mp h with rfl | h
    · exact ⟨[], x :: l, List.splitOn_eq_singleton hw, List.suffix_rfl⟩
    · obtain ⟨init, last, hsplit, hlast⟩ := ih h
      rw [List.splitOn_cons_eq_if_modifyHead, hsplit]
      split
      · exact ⟨[] :: init, last, rfl, hlast⟩
      · cases init with
        | nil => exact ⟨[], x :: last, rfl, hlast.trans (List.suffix_cons x last)⟩
        | cons first init => exact ⟨(x :: first) :: init, last, rfl, hlast⟩

theorem newline_notMem_lines {s l : String} (h : l ∈ lines s) : '\n' ∉ l.toList := by
  unfold lines at h
  obtain h | h := List.mem_append.mp h
  · obtain ⟨part, hpart, rfl⟩ := List.mem_map.mp h
    intro hmem
    have := mem_of_mem_stripSuffix hmem
    rw [String.toList_ofList] at this
    exact not_mem_splitOn ((List.dropLast_subset _) hpart) this
  · obtain ⟨part, hpart, rfl⟩ := List.mem_map.mp h
    rw [String.toList_ofList]
    apply not_mem_splitOn (l := s.toList)
    exact List.mem_of_getLast? (Option.mem_toList.mp (List.mem_filter.mp hpart).1)

/-- The lines of a text that was written line by line. -/
theorem lines_join {ls : List String} (h : ∀ l ∈ ls, '\n' ∉ l.toList) :
    lines (String.join (ls.map fun l ↦ l ++ "\n")) = ls.map fun l ↦ (stripSuffix "\r" l).getD l := by
  induction ls with
  | nil => rfl
  | cons l ls ih =>
    have hl := h l List.mem_cons_self
    rw [List.map_cons, List.map_cons, String.join_cons, lines_append, lines_line hl,
      ih fun l hl ↦ h l (List.mem_cons_of_mem _ hl)]
    rfl

def toAsciiLowercase (s : String) : String := s.map Char.toLower

def toAsciiUppercase (s : String) : String := s.map Char.toUpper

def eqIgnoreAsciiCase (s t : String) : Bool := toAsciiLowercase s = toAsciiLowercase t

/-- A number in decimal, with an optional plus sign. -/
def parseNat (s : String) : Option Nat :=
  let digits := match s.toList with
    | '+' :: rest => rest
    | cs => cs
  if !digits.isEmpty && digits.all Char.isDigit then
    some (digits.foldl (fun n c ↦ 10 * n + (c.toNat - 48)) 0)
  else none

theorem notMem_repr {c : Char} (hc : c.isDigit = false) (n : Nat) : c ∉ n.repr.toList := by
  intro h
  rw [Nat.toList_repr] at h
  rw [Nat.isDigit_of_mem_toDigits (by omega) (by omega) h] at hc
  cases hc

theorem parseNat_repr (n : Nat) : parseNat n.repr = some n := by
  have hdigits : ∀ c ∈ Nat.toDigits 10 n, c.isDigit := fun c hc ↦ Nat.isDigit_of_mem_toDigits
    (by omega) (by omega) hc
  have hne : Nat.toDigits 10 n ≠ [] := Nat.toDigits_ne_nil
  have hfold := Nat.ofDigitChars_toDigits (b := 10) (n := n) (by omega) (by omega)
  unfold parseNat
  rw [Nat.toList_repr]
  cases hd : Nat.toDigits 10 n with
  | nil => exact absurd hd hne
  | cons c cs =>
    rw [hd] at hdigits hfold
    have hc : c ≠ '+' := by
      rintro rfl
      exact absurd (hdigits '+' List.mem_cons_self) (by decide)
    split
    · rename_i heq
      injection heq with heq
      exact absurd heq hc
    · have hall : (c :: cs).all Char.isDigit = true := List.all_eq_true.mpr hdigits
      simp only [hall, List.isEmpty_cons, Bool.not_false, Bool.and_self, if_true]
      exact congrArg some hfold

def parseU64 (s : String) : Option UInt64 :=
  (parseNat s).bind fun n ↦ if n < 18446744073709551616 then some (UInt64.ofNat n) else none

def parseU32 (s : String) : Option UInt32 :=
  (parseNat s).bind fun n ↦ if n < 4294967296 then some (UInt32.ofNat n) else none

/-- A number in decimal with an optional sign. -/
def parseI32 (s : String) : Option Int :=
  match s.toList with
  | '-' :: rest =>
    if rest.head? = some '+' then none
    else (parseNat (String.ofList rest)).bind fun n ↦ if n ≤ 2147483648 then some (-n) else none
  | _ => (parseNat s).bind fun n ↦ if n < 2147483648 then some n else none

end Text
