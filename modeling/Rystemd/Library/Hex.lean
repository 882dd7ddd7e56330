import Mathlib.Data.List.Basic

namespace Hex

/-- A digit of base 16, in lower case. -/
def digit (n : Nat) : Char := Char.ofNat (if n < 10 then 48 + n else 87 + n)

/-- What a digit of base 16 stands for, in either case. -/
def value (c : Char) : Option Nat :=
  if 48 ≤ c.toNat ∧ c.toNat ≤ 57 then some (c.toNat - 48)
  else if 97 ≤ c.toNat ∧ c.toNat ≤ 102 then some (c.toNat - 87)
  else if 65 ≤ c.toNat ∧ c.toNat ≤ 70 then some (c.toNat - 55)
  else none

/-- The two digits of a byte. -/
def digits (b : UInt8) : List Char := [digit (b.toNat / 16), digit (b.toNat % 16)]

theorem value_digit {n : Nat} (h : n < 16) : value (digit n) = some n := by
  have hall : ∀ n : Fin 16, value (digit n) = some n.val := by decide
  exact hall ⟨n, h⟩

theorem digit_range {n : Nat} (h : n < 16) : 48 ≤ (digit n).toNat ∧ (digit n).toNat ≤ 57 ∨
    97 ≤ (digit n).toNat ∧ (digit n).toNat ≤ 102 := by
  have hall : ∀ n : Fin 16, 48 ≤ (digit n).toNat ∧ (digit n).toNat ≤ 57 ∨
      97 ≤ (digit n).toNat ∧ (digit n).toNat ≤ 102 := by decide
  exact hall ⟨n, h⟩

theorem high_lt (b : UInt8) : b.toNat / 16 < 16 := by
  have := b.toNat_lt
  omega

theorem low_lt (b : UInt8) : b.toNat % 16 < 16 := Nat.mod_lt _ (by decide)

theorem high_low (b : UInt8) : UInt8.ofNat (16 * (b.toNat / 16) + b.toNat % 16) = b := by
  rw [Nat.div_add_mod, UInt8.ofNat_toNat]

end Hex
