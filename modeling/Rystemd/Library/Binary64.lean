import Mathlib.Tactic.Ring

/-! Doubles that are not negative. A finite one is a number of units, which are the least positive
double. -/

namespace Binary64

def leastExponent : Nat := 1074

def unit : Nat := 2 ^ leastExponent

def greatestExponent : Nat := 1024

/-- The least number of units that is too great. -/
def limit : Nat := 2 ^ greatestExponent * unit

inductive Value
  | finite (units : Nat)
  | infinity
deriving DecidableEq

/-- The natural number that is nearest to `n / d`, the even one of two. -/
def roundHalfEven (n d : Nat) : Nat :=
  if 2 * (n % d) < d ∨ 2 * (n % d) = d ∧ n / d % 2 = 0 then n / d else n / d + 1

/-- The double that is nearest to `n / d`: it has 53 significant bits. -/
def round (n d : Nat) : Value :=
  let step := 2 ^ ((n * unit / d).log2 - 52)
  let units := roundHalfEven (n * unit) (d * step) * step
  if units < limit then .finite units else .infinity

/-- The product with a positive double. -/
def Value.mul : Value → Value → Value
  | .finite a, .finite b => round (a * b) (unit * unit)
  | _, _ => .infinity

def maxU128 : Nat := 340282366920938463463374607431768211455

/-- The cast to an unsigned number of 128 bits, which saturates. -/
def Value.toU128 : Value → Nat
  | .finite units => min (units / unit) maxU128
  | .infinity => maxU128

example : ((round 15 10).mul (round 1000000 1)).toU128 = 1500000 := by decide +kernel

variable {m n d k s c f : Nat}

theorem unit_pos : 0 < unit := Nat.two_pow_pos leastExponent

theorem roundHalfEven_scale (hc : 0 < c) : roundHalfEven (m * c) (s * c) = roundHalfEven m s := by
  have hmod : 2 * (m % s * c) < s * c ↔ 2 * (m % s) < s := by
    rw [← Nat.mul_assoc]
    exact Nat.mul_lt_mul_right hc
  have hmod' : 2 * (m % s * c) = s * c ↔ 2 * (m % s) = s := by
    rw [← Nat.mul_assoc]
    exact Nat.mul_left_inj (Nat.ne_of_gt hc)
  rw [roundHalfEven, roundHalfEven, Nat.mul_div_mul_right _ _ hc, Nat.mul_mod_mul_right]
  exact if_congr (or_congr hmod (and_congr_left' hmod')) rfl rfl

theorem roundHalfEven_mul (hs : 0 < s) : roundHalfEven (k * s) s = k := by
  rw [roundHalfEven, Nat.mul_mod_left, Nat.mul_div_cancel _ hs]
  exact if_pos (.inl (by omega))

/-- The error is at most half of a step. -/
theorem roundHalfEven_error (hs : 0 < s) : 2 * m ≤ 2 * (roundHalfEven m s * s) + s ∧
    roundHalfEven m s * s ≤ m + s := by
  have hm := Nat.div_add_mod m s
  have hlt := Nat.mod_lt m hs
  have hcomm : s * (m / s) = m / s * s := Nat.mul_comm _ _
  rw [roundHalfEven]
  split
  · omega
  · rw [Nat.add_mul]
    omega

theorem log2_mul_unit (hm : m ≠ 0) : (m * unit).log2 = m.log2 + leastExponent := by
  have hne : m * unit ≠ 0 := Nat.mul_ne_zero hm (Nat.ne_of_gt unit_pos)
  have hlow := Nat.mul_le_mul_right unit (Nat.log2_self_le hm)
  have hhigh := Nat.mul_lt_mul_of_pos_right (@Nat.lt_log2_self m) unit_pos
  have hadd : 2 ^ (m.log2 + leastExponent + 1) = 2 ^ (m.log2 + 1) * unit := by
    rw [unit, ← Nat.pow_add, Nat.add_right_comm]
  rw [Nat.log2_eq_iff hne, hadd, Nat.pow_add]
  exact ⟨hlow, hhigh⟩

/-- What the rounding of a natural number gives. -/
structure Rounded (m k : Nat) : Prop where
  exact : m < 2 ^ 53 → k = m
  lower : m * 2 ^ 53 ≤ k * 2 ^ 53 + m
  coarse : k < 2 ^ 118 ∨ 2 ^ 64 ∣ k

theorem Rounded.refl (hm : m < 2 ^ 53) : Rounded m m where
  exact _ := rfl
  lower := Nat.le_add_right _ _
  coarse := .inl (by omega)

theorem lt_limit (hm : m < 2 ^ 53) : m * unit < limit := by
  have hpow : 2 ^ 53 ≤ 2 ^ greatestExponent :=
    Nat.pow_le_pow_right (by decide) (by unfold greatestExponent; omega)
  exact Nat.mul_lt_mul_of_pos_right (Nat.lt_of_lt_of_le hm hpow) unit_pos

theorem div_units (hd : 0 < d) : m * d * unit / d = m * unit := by
  rw [Nat.mul_right_comm, Nat.mul_div_cancel _ hd]

/-- A number of at most 53 bits is a number of whole steps. -/
theorem round_small (hd : 0 < d) (hm : m < 2 ^ 53) : round (m * d) d = .finite (m * unit) := by
  by_cases hzero : m = 0
  · subst hzero
    have hnone : roundHalfEven 0 (d * 1) = 0 := by
      rw [roundHalfEven, Nat.zero_mod, Nat.zero_div]
      exact if_pos (.inl (by omega))
    have hlimit : 0 < limit := Nat.mul_pos (Nat.two_pow_pos greatestExponent) unit_pos
    rw [round, div_units hd]
    simp only [Nat.zero_mul, Nat.log2_zero, Nat.zero_sub, Nat.pow_zero, hnone]
    exact if_pos hlimit
  · have hlog : m.log2 < 53 := (Nat.log2_lt hzero).mpr hm
    have hexponent : 52 - m.log2 + (m.log2 + leastExponent - 52) = leastExponent := by
      unfold leastExponent
      omega
    have hstep : 2 ^ (52 - m.log2) * 2 ^ (m.log2 + leastExponent - 52) = unit := by
      rw [← Nat.pow_add, hexponent, unit]
    have hwhole : m * d * unit =
        m * 2 ^ (52 - m.log2) * (d * 2 ^ (m.log2 + leastExponent - 52)) := by
      rw [← hstep]
      ring
    have hpos := Nat.mul_pos hd (Nat.two_pow_pos (m.log2 + leastExponent - 52))
    rw [round, div_units hd, log2_mul_unit hzero, hwhole, roundHalfEven_mul hpos, Nat.mul_assoc,
      hstep]
    exact if_pos (lt_limit hm)

/-- The last significant bit of a number of more than 53 bits. -/
def lastBit (m : Nat) : Nat := 2 ^ (m.log2 - 52)

/-- A greater number is rounded to a multiple of its last significant bit. -/
theorem rounded_great (hm : 2 ^ 53 ≤ m) : Rounded m (roundHalfEven m (lastBit m) * lastBit m) := by
  have hzero : m ≠ 0 := by omega
  have hlog : 53 ≤ m.log2 := (Nat.le_log2 hzero).mpr hm
  have hpos : 0 < lastBit m := Nat.two_pow_pos _
  obtain ⟨hlower, hupper⟩ := @roundHalfEven_error m (lastBit m) hpos
  constructor
  · intro hlt
    omega
  · have hbit : lastBit m * 2 ^ 52 ≤ m := by
      have hexponent : m.log2 - 52 + 52 = m.log2 := by omega
      rw [lastBit, ← Nat.pow_add, hexponent]
      exact Nat.log2_self_le hzero
    calc m * 2 ^ 53 = 2 * m * 2 ^ 52 := by ring
      _ ≤ (2 * (roundHalfEven m (lastBit m) * lastBit m) + lastBit m) * 2 ^ 52 :=
        Nat.mul_le_mul_right _ hlower
      _ = roundHalfEven m (lastBit m) * lastBit m * 2 ^ 53 + lastBit m * 2 ^ 52 := by ring
      _ ≤ roundHalfEven m (lastBit m) * lastBit m * 2 ^ 53 + m := Nat.add_le_add_left hbit _
  · by_cases hfine : m.log2 < 116
    · left
      have hlt : m < 2 ^ 116 := (Nat.log2_lt hzero).mp hfine
      have hbit : lastBit m ≤ 2 ^ 64 := Nat.pow_le_pow_right (by decide) (by omega)
      omega
    · right
      have hbit : 2 ^ 64 ∣ lastBit m := Nat.pow_dvd_pow 2 (by omega)
      exact Dvd.dvd.mul_left hbit _

theorem round_great (hd : 0 < d) (hm : 2 ^ 53 ≤ m) :
    round (m * d) d = .infinity ∨ ∃ k, round (m * d) d = .finite (k * unit) ∧ Rounded m k := by
  have hzero : m ≠ 0 := by omega
  have hlog : 53 ≤ m.log2 := (Nat.le_log2 hzero).mpr hm
  have hexponent : m.log2 + leastExponent - 52 = m.log2 - 52 + leastExponent := by omega
  have hstep : 2 ^ (m.log2 + leastExponent - 52) = lastBit m * unit := by
    rw [hexponent, Nat.pow_add, unit, lastBit]
  have hscale : roundHalfEven (m * d * unit) (d * (lastBit m * unit)) =
      roundHalfEven m (lastBit m) := by
    rw [Nat.mul_assoc m d unit, Nat.mul_left_comm d (lastBit m) unit,
      roundHalfEven_scale (Nat.mul_pos hd unit_pos)]
  have hround : round (m * d) d =
      if roundHalfEven m (lastBit m) * lastBit m * unit < limit then
        .finite (roundHalfEven m (lastBit m) * lastBit m * unit) else .infinity := by
    rw [round, div_units hd, log2_mul_unit hzero, hstep, hscale, ← Nat.mul_assoc]
  by_cases hfits : roundHalfEven m (lastBit m) * lastBit m * unit < limit
  · rw [if_pos hfits] at hround
    exact .inr ⟨_, hround, rounded_great hm⟩
  · rw [if_neg hfits] at hround
    exact .inl hround

/-- A natural number is rounded to a natural number, or is too great for a double. -/
theorem round_natural (hd : 0 < d) (m : Nat) :
    round (m * d) d = .infinity ∧ 2 ^ 53 ≤ m ∨
      ∃ k, round (m * d) d = .finite (k * unit) ∧ Rounded m k := by
  by_cases hm : m < 2 ^ 53
  · exact .inr ⟨m, round_small hd hm, .refl hm⟩
  · rcases round_great hd (Nat.le_of_not_lt hm) with h | h
    · exact .inl ⟨h, Nat.le_of_not_lt hm⟩
    · exact .inr h

/-- What the cast of a product of two natural numbers gives. -/
structure Product (m f y : Nat) : Prop where
  exact : m * f < 2 ^ 53 → y = m * f
  half : y < maxU128 → m * f ≤ 2 * y
  coarse : y < maxU128 → y ≤ 2 ^ 128 - 2 ^ 64
  le : y ≤ maxU128

theorem Product.saturated (h : 2 ^ 53 ≤ m * f) : Product m f maxU128 where
  exact hlt := by omega
  half hlt := absurd hlt (Nat.lt_irrefl _)
  coarse hlt := absurd hlt (Nat.lt_irrefl _)
  le := Nat.le_refl _

/-- Two roundings lose less than half of a product. -/
theorem Product.of_rounded {k' : Nat} (h : Rounded m k) (h' : Rounded (k * f) k') (hf : 0 < f) :
    Product m f (min k' maxU128) where
  exact hlt := by
    have hm : m < 2 ^ 53 := Nat.lt_of_le_of_lt (Nat.le_mul_of_pos_right m hf) hlt
    have hk := h.exact hm
    subst hk
    have hk' := h'.exact hlt
    subst hk'
    have hmax : 2 ^ 53 ≤ maxU128 := by decide
    omega
  half hlt := by
    have hmin : min k' maxU128 = k' := by omega
    rw [hmin]
    have hfirst : m * f * 2 ^ 53 ≤ k * f * 2 ^ 53 + m * f :=
      calc m * f * 2 ^ 53 = m * 2 ^ 53 * f := Nat.mul_right_comm ..
        _ ≤ (k * 2 ^ 53 + m) * f := Nat.mul_le_mul_right f h.lower
        _ = k * f * 2 ^ 53 + m * f := by ring
    have hsecond := h'.lower
    omega
  coarse hlt := by
    rcases h'.coarse with hfine | ⟨c, hc⟩
    · omega
    · unfold maxU128 at hlt ⊢
      omega
  le := Nat.min_le_right _ _

/-- The cast of the product of two natural numbers as doubles. -/
theorem toU128_mul (m : Nat) (hf : 0 < f) (hsmall : f < 2 ^ 53) :
    Product m f ((round m 1).mul (round f 1)).toU128 := by
  have hfactor : round f 1 = .finite (f * unit) := by
    have hround := round_small Nat.one_pos hsmall
    rw [Nat.mul_one] at hround
    exact hround
  have hlarge : 2 ^ 53 ≤ m → 2 ^ 53 ≤ m * f := fun h ↦ Nat.le_trans h (Nat.le_mul_of_pos_right m hf)
  rw [hfactor]
  have hround := round_natural Nat.one_pos m
  rw [Nat.mul_one] at hround
  rcases hround with ⟨hinfinity, hm⟩ | ⟨k, hfinite, hk⟩
  · rw [hinfinity]
    exact .saturated (hlarge hm)
  · have hproduct : k * unit * (f * unit) = k * f * (unit * unit) := by ring
    rw [hfinite, Value.mul, hproduct]
    rcases round_natural (Nat.mul_pos unit_pos unit_pos) (k * f) with ⟨hinfinity, hkf⟩ | ⟨k', hk', h'⟩
    · rw [hinfinity]
      apply Product.saturated
      by_contra hlt
      have hm : m < 2 ^ 53 :=
        Nat.lt_of_le_of_lt (Nat.le_mul_of_pos_right m hf) (Nat.lt_of_not_le hlt)
      rw [hk.exact hm] at hkf
      exact hlt hkf
    · rw [hk', Value.toU128, Nat.mul_div_cancel _ unit_pos]
      exact .of_rounded hk h' hf

end Binary64
