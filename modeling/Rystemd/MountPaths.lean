import Rystemd.Disk
import Rystemd.Library.Hex
import Rystemd.Library.Utf8

namespace Rystemd.Mounts

/-- A number of one byte with one more digit of base 16. -/
def addDigit (n : Nat) (c : Char) : Option Nat :=
  (Hex.value c).bind fun d ↦ if 16 * n + d < 256 then some (16 * n + d) else none

/-- A number of one byte in base 16, with an optional plus sign. -/
def fromStrRadix16 (hex : List Char) : Option UInt8 :=
  let digits := if hex.head? = some '+' then hex.drop 1 else hex
  if digits = [] then none else (digits.foldlM addDigit 0).map UInt8.ofNat

/-- The loop over the bytes of a stem; the first argument counts those of an escape that has been
decoded already. -/
def unescape : Nat → List UInt8 → List UInt8
  | _, [] => []
  | n + 1, _ :: bs => unescape n bs
  | 0, b :: bs =>
    if b = 45 then 47 :: unescape 0 bs
    else if b = 92 ∧ 3 ≤ bs.length ∧ bs.head? = some 120 then
      match fromStrRadix16 ((Utf8.decode ((bs.drop 1).take 2)).getD []) with
      | some v => v :: unescape 3 bs
      | none => 92 :: unescape 0 bs
    else b :: unescape 0 bs

def mountPathFromUnitName (name : String) : Option String :=
  (Text.stripSuffix ".mount" name).bind fun stem ↦
    (Utf8.decode (47 :: unescape 0 (Utf8.encode stem.toList))).map String.ofList

example : mountPathFromUnitName "tmp-a\\x2db\\x5.mount" = some "/tmp/a-b\\x5" := by decide +kernel

/-- A byte that stands for itself; a dot does unless it is the first byte. -/
def isPlain (first : Bool) (b : UInt8) : Bool :=
  Utf8.isAlphanumeric b || b = 58 || b = 95 || b = 46 && !first

/-- What a byte of a path is written as. -/
def escapeByte (first : Bool) (b : UInt8) : List Char :=
  if b = 47 then ['-']
  else if isPlain first b then [Utf8.char b]
  else '\\' :: 'x' :: Hex.digits b

/-- The escape of a path: its leading slash is left out, and the root is one hyphen. -/
def pathEscape (p : String) : String :=
  match (Utf8.encode p.toList).drop 1 with
  | [] => "-"
  | b :: bs => String.ofList (escapeByte true b ++ bs.flatMap (escapeByte false))

/-- An absolute path without empty components, `.` and `..`. -/
def IsNormalised (p : String) : Prop :=
  p = "/" ∨ ∃ comps : List String, comps ≠ [] ∧ (∀ c ∈ comps, Path.IsComponent c) ∧
    p = "/" ++ "/".intercalate comps

variable {b : UInt8} {bs : List UInt8} {first : Bool}

theorem unescape_skip (n : Nat) : unescape n bs = unescape 0 (bs.drop n) := by
  induction n generalizing bs with
  | zero => rfl
  | succ n ih =>
    cases bs with
    | nil => simp [unescape]
    | cons b bs => exact ih

theorem addDigit_digit {n d : Nat} (hd : d < 16) (h : 16 * n + d < 256) :
    addDigit n (Hex.digit d) = some (16 * n + d) := by
  rw [addDigit, Hex.value_digit hd, Option.bind_some, if_pos h]

theorem fromStrRadix16_digits : fromStrRadix16 (Hex.digits b) = some b := by
  have hhigh := Hex.high_lt b
  have hlow := Hex.low_lt b
  have hrange := Hex.digit_range hhigh
  have hhead : (Hex.digits b).head? ≠ some '+' := by
    intro heq
    have hplus : Hex.digit (b.toNat / 16) = '+' := Option.some.inj heq
    rw [hplus] at hrange
    revert hrange
    decide
  have hfirst := addDigit_digit hhigh (n := 0) (by omega)
  have hsecond := addDigit_digit hlow (n := 16 * 0 + b.toNat / 16) (by omega)
  unfold fromStrRadix16
  dsimp only
  rw [if_neg hhead, if_neg (by simp [Hex.digits]), Hex.digits, List.foldlM_cons, hfirst]
  dsimp only [Option.bind_eq_bind, Option.bind_some]
  rw [List.foldlM_cons, hsecond]
  dsimp only [Option.bind_eq_bind, Option.bind_some]
  rw [List.foldlM_nil, Nat.mul_zero, Nat.zero_add]
  exact congrArg some (Hex.high_low b)

theorem length_encode_digits : (Utf8.encode (Hex.digits b)).length = 2 := by
  rw [Utf8.encode_ascii, List.length_map]
  · rfl
  · intro c hc
    rw [Hex.digits, List.mem_cons, List.mem_singleton] at hc
    rcases hc with rfl | rfl
    · have := Hex.digit_range (Hex.high_lt b)
      omega
    · have := Hex.digit_range (Hex.low_lt b)
      omega

/-- A byte that starts no escape stands for itself. -/
theorem unescape_plain (hdash : b ≠ 45) (hslash : b ≠ 92) :
    unescape 0 (b :: bs) = b :: unescape 0 bs := by
  rw [unescape, if_neg hdash, if_neg fun h ↦ hslash h.1]

theorem unescape_digits :
    unescape 0 (92 :: 120 :: (Utf8.encode (Hex.digits b) ++ bs)) = b :: unescape 0 bs := by
  have htake : (Utf8.encode (Hex.digits b) ++ bs).take 2 = Utf8.encode (Hex.digits b) :=
    List.take_left' length_encode_digits
  have hdrop : (Utf8.encode (Hex.digits b) ++ bs).drop 2 = bs :=
    List.drop_left' length_encode_digits
  have hlength : 3 ≤ (120 :: (Utf8.encode (Hex.digits b) ++ bs)).length := by
    rw [List.length_cons, List.length_append, length_encode_digits]
    omega
  rw [unescape, if_neg (by decide), if_pos ⟨rfl, hlength, rfl⟩, List.drop_succ_cons, List.drop_zero,
    htake, Utf8.decode_encode, Option.getD_some, fromStrRadix16_digits]
  dsimp only
  rw [unescape_skip, List.drop_succ_cons, hdrop]

theorem ne_of_isPlain (h : isPlain first b) : b.toNat < 128 ∧ b ≠ 45 ∧ b ≠ 92 := by
  have hall : ∀ (first : Bool) (n : Fin 256), isPlain first (UInt8.ofNat n.val) →
      n.val < 128 ∧ UInt8.ofNat n.val ≠ 45 ∧ UInt8.ofNat n.val ≠ 92 := by decide +kernel
  have hb := hall first ⟨b.toNat, b.toNat_lt⟩
  rw [UInt8.ofNat_toNat] at hb
  exact hb h

/-- What a byte is written as is read back. -/
theorem unescape_escapeByte :
    unescape 0 (Utf8.encode (escapeByte first b) ++ bs) = b :: unescape 0 bs := by
  unfold escapeByte
  split
  · next hslash =>
    rw [hslash]
    rfl
  · next hslash =>
    split
    · next hplain =>
      obtain ⟨hascii, hdash, hback⟩ := ne_of_isPlain hplain
      rw [Utf8.encode_char hascii]
      exact unescape_plain hdash hback
    · have hescape : Utf8.encode ('\\' :: 'x' :: Hex.digits b) =
          92 :: 120 :: Utf8.encode (Hex.digits b) := rfl
      rw [hescape]
      exact unescape_digits

theorem unescape_escape :
    unescape 0 (Utf8.encode (bs.flatMap (escapeByte false))) = bs := by
  induction bs with
  | nil => rfl
  | cons b bs ih => rw [List.flatMap_cons, Utf8.encode_append, unescape_escapeByte, ih]

/-- The escape of a path other than the root is decoded to the path. -/
theorem mountPath_pathEscape {p : String} {cs : List Char} (hp : p.toList = '/' :: cs)
    (hcs : cs ≠ []) : mountPathFromUnitName (pathEscape p ++ ".mount") = some p := by
  have hencode : Utf8.encode p.toList = 47 :: Utf8.encode cs := by
    rw [hp]
    rfl
  have hstem : Text.stripSuffix ".mount" (pathEscape p ++ ".mount") = some (pathEscape p) :=
    Text.stripSuffix_eq_some.mpr rfl
  have hbytes : unescape 0 (Utf8.encode (pathEscape p).toList) = Utf8.encode cs := by
    rw [pathEscape, hencode, List.drop_succ_cons, List.drop_zero]
    cases hrest : Utf8.encode cs with
    | nil =>
      have hnil : Utf8.encode cs = Utf8.encode [] := hrest
      exact absurd (Utf8.encode_injective hnil) hcs
    | cons b bs =>
      dsimp only
      rw [String.toList_ofList, Utf8.encode_append, unescape_escapeByte, unescape_escape]
  rw [mountPathFromUnitName, hstem, Option.bind_some, hbytes, ← hencode, Utf8.decode_encode,
    Option.map_some, String.ofList_toList]

/-- The name of a mount unit is decoded to its path unless that is the root. -/
theorem mountPath_iff {p : String} (h : IsNormalised p) :
    mountPathFromUnitName (pathEscape p ++ ".mount") = some p ↔ p ≠ "/" := by
  constructor
  · rintro hpath rfl
    revert hpath
    decide +kernel
  · intro hroot
    rcases h with hp | ⟨comps, hne, hcomps, hp⟩
    · exact absurd hp hroot
    · have hlist : p.toList = '/' :: ("/".intercalate comps).toList := by
        rw [hp, String.toList_append]
        rfl
      apply mountPath_pathEscape hlist
      intro hnil
      rw [hnil] at hlist
      exact hroot (String.toList_inj.mp hlist)

theorem mountPath_iff_nested : IsNormalised "/srv/a-b" ∧
    mountPathFromUnitName (pathEscape "/srv/a-b" ++ ".mount") = some "/srv/a-b" := by
  have h : IsNormalised "/srv/a-b" := .inr ⟨["srv", "a-b"], by decide, by decide, by decide⟩
  exact ⟨h, (mountPath_iff h).mpr (by decide)⟩

/-- The name of the root is decoded to two slashes. -/
theorem root_decoded : IsNormalised "/" ∧ pathEscape "/" = "-" ∧
    mountPathFromUnitName (pathEscape "/" ++ ".mount") = some "//" ∧
    mountPathFromUnitName (pathEscape "/" ++ ".mount") ≠ some "/" :=
  ⟨.inl rfl, by decide +kernel, by decide +kernel, by decide +kernel⟩

end Rystemd.Mounts
