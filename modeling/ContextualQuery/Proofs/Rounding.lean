import ContextualQuery.Number.Binary
import Mathlib.Algebra.Order.Field.Power
import Mathlib.Algebra.Order.Field.Rat
import Mathlib.Tactic.FieldSimp
import Mathlib.Tactic.Ring
/-!
# Numbers that are rounded to themselves

A magnitude stands for a fraction, and a fraction that has a magnitude is rounded to it. So a single
can be written as a double and is itself when this is read as a single.

* `floorLog2_spec`, `floorLog2_eq`: the exponent of a fraction;
* `BinaryFormat.value`: the fraction that a finite magnitude stands for;
* `BinaryFormat.Canonical`: a significand and an exponent as a magnitude has them, and
  `Canonical.round`: a fraction with these is rounded to the magnitude made of them;
* `BinaryFormat.round_of_value`: so the value of a finite magnitude is rounded to the magnitude;
* `exists_double_of_single`: every finite single has a double of its value;
* `Single.isFinite_toDouble`, `Single.toSingle_toDouble`: nothing of a finite single is lost.
-/

namespace ContextualQuery

/-! ## 1. The exponent of a fraction -/

theorem two_zpow_pos (e : Int) : (0 : ℚ) < 2 ^ e := zpow_pos (by norm_num) e

theorem two_zpow_mul_neg (e : Int) : (2 : ℚ) ^ e * 2 ^ (-e) = 1 := by
  rw [← zpow_add₀ (by norm_num), add_neg_cancel, zpow_zero]

/-- A power of two that is no fraction. -/
theorem two_zpow_toNat {e : Int} (h : 0 ≤ e) : (2 : ℚ) ^ e = (Nat.pow 2 e.toNat : Nat) := by
  obtain ⟨n, rfl⟩ := Int.eq_ofNat_of_zero_le h
  rw [zpow_natCast, Int.toNat_natCast]
  exact (Nat.cast_pow 2 n).symm

theorem log2_bounds {n : Nat} (h : 0 < n) :
    (2 : ℚ) ^ (n.log2 : Int) ≤ n ∧ (n : ℚ) < 2 ^ ((n.log2 : Int) + 1) := by
  have hlow : Nat.pow 2 n.log2 ≤ n := Nat.log2_self_le h.ne'
  have hhigh : n < Nat.pow 2 (n.log2 + 1) := Nat.lt_log2_self
  constructor
  · rw [zpow_natCast]
    exact_mod_cast hlow
  · have hcast : ((n.log2 : Int) + 1) = ((n.log2 + 1 : Nat) : Int) := rfl
    rw [hcast, zpow_natCast]
    exact_mod_cast hhigh

/-- What the search for the exponent asks for is that its power of two is at most the fraction. -/
theorem reached_iff {n d : Nat} (hd : 0 < d) (e : Int) :
    (if 0 ≤ e then d * Nat.pow 2 e.toNat ≤ n else d ≤ n * Nat.pow 2 (-e).toNat) ↔
      (2 : ℚ) ^ e ≤ (n : ℚ) / d := by
  have hpos : (0 : ℚ) < d := Nat.cast_pos.mpr hd
  rw [le_div_iff₀ hpos]
  split
  · rename_i h
    rw [two_zpow_toNat h]
    constructor
    · intro hle
      rw [mul_comm]
      exact_mod_cast hle
    · intro hle
      rw [mul_comm] at hle
      exact_mod_cast hle
  · rename_i h
    have hneg : 0 ≤ -e := by omega
    have hinv := two_zpow_mul_neg e
    have hp := two_zpow_pos (-e)
    constructor
    · intro hle
      have hcast : (d : ℚ) ≤ n * 2 ^ (-e) := by
        rw [two_zpow_toNat hneg]
        exact_mod_cast hle
      calc (2 : ℚ) ^ e * d ≤ 2 ^ e * (n * 2 ^ (-e)) :=
            mul_le_mul_of_nonneg_left hcast (two_zpow_pos e).le
        _ = n * (2 ^ e * 2 ^ (-e)) := by ring
        _ = n := by rw [hinv, mul_one]
    · intro hle
      have hcast : (d : ℚ) ≤ n * 2 ^ (-e) := by
        calc (d : ℚ) = (2 ^ e * d) * 2 ^ (-e) := by rw [mul_right_comm, hinv, one_mul]
          _ ≤ n * 2 ^ (-e) := mul_le_mul_of_nonneg_right hle hp.le
      rw [two_zpow_toNat hneg] at hcast
      exact_mod_cast hcast

/-- **The exponent of a fraction**: its power of two is at most the fraction, the next is not. -/
theorem floorLog2_spec {n d : Nat} (hn : 0 < n) (hd : 0 < d) :
    (2 : ℚ) ^ floorLog2 n d ≤ n / d ∧ (n : ℚ) / d < 2 ^ (floorLog2 n d + 1) := by
  have hdpos : (0 : ℚ) < d := Nat.cast_pos.mpr hd
  obtain ⟨hnl, hnh⟩ := log2_bounds hn
  obtain ⟨hdl, hdh⟩ := log2_bounds hd
  have hlow : (2 : ℚ) ^ ((n.log2 : Int) - d.log2 - 1) ≤ n / d := by
    have hsplit : ((n.log2 : Int) - d.log2 - 1) = n.log2 - (d.log2 + 1) := by ring
    rw [hsplit, zpow_sub₀ (by norm_num), div_le_div_iff₀ (two_zpow_pos _) hdpos]
    exact mul_le_mul hnl hdh.le hdpos.le (Nat.cast_nonneg n)
  have hhigh : (n : ℚ) / d < 2 ^ ((n.log2 : Int) - d.log2 + 1) := by
    have hsplit : ((n.log2 : Int) - d.log2 + 1) = (n.log2 + 1) - d.log2 := by ring
    rw [hsplit, zpow_sub₀ (by norm_num), div_lt_div_iff₀ hdpos (two_zpow_pos _)]
    exact mul_lt_mul hnh hdl (two_zpow_pos _) (two_zpow_pos _).le
  rw [floorLog2]
  simp only [reached_iff hd]
  split
  · exact ⟨‹_›, hhigh⟩
  · rename_i hreached
    rw [sub_add_cancel]
    exact ⟨hlow, not_le.mp hreached⟩

/-- There is one such exponent. -/
theorem floorLog2_eq {n d : Nat} (hn : 0 < n) (hd : 0 < d) {e : Int} (hl : (2 : ℚ) ^ e ≤ n / d)
    (hh : (n : ℚ) / d < 2 ^ (e + 1)) : floorLog2 n d = e := by
  obtain ⟨hl', hh'⟩ := floorLog2_spec hn hd
  have h1 : e < floorLog2 n d + 1 := (zpow_lt_zpow_iff_right₀ (by norm_num)).mp (hl.trans_lt hh')
  have h2 : floorLog2 n d < e + 1 := (zpow_lt_zpow_iff_right₀ (by norm_num)).mp (hl'.trans_lt hh)
  omega

/-- A fraction that is a whole number is rounded to it. -/
theorem roundHalfEven_mul (k : Nat) {d : Nat} (hd : 0 < d) : roundHalfEven (k * d) d = k := by
  unfold roundHalfEven
  simp only [Nat.mul_mod_left, Nat.mul_div_cancel k hd]
  exact if_pos (by omega)

/-! ## 2. Significands and exponents -/

namespace BinaryFormat

variable (f : BinaryFormat)

/-- The steps of one spacing of the grid. -/
def steps : Nat := Nat.pow 2 f.fractionBits

theorem steps_pos : 0 < f.steps := Nat.two_pow_pos f.fractionBits

/-- The value of a finite magnitude. -/
def value (m : Nat) : ℚ := (f.split m).1 * 2 ^ (f.split m).2

/-- A significand and an exponent as a magnitude has them: the significand is full, or the exponent
is the least one. -/
structure Canonical (k : Nat) (q : Int) : Prop where
  fits : k < 2 * f.steps
  least : f.leastExponent ≤ q
  full : f.steps ≤ k ∨ q = f.leastExponent

/-- The magnitude of a significand and an exponent. -/
def magnitudeOf (k : Nat) (q : Int) : Nat := (q - f.leastExponent).toNat * f.steps + k

theorem split_zero_field {m : Nat} (h : m / f.steps = 0) :
    f.split m = (m % f.steps, f.leastExponent) := by
  unfold split
  exact if_pos h

theorem split_field {m : Nat} (h : m / f.steps ≠ 0) : f.split m =
    (f.steps + m % f.steps, f.leastExponent + (m / f.steps - 1 : Nat)) := by
  unfold split
  exact if_neg h

theorem canonical_split (m : Nat) : f.Canonical (f.split m).1 (f.split m).2 := by
  have hmod := Nat.mod_lt m f.steps_pos
  by_cases h : m / f.steps = 0
  · rw [f.split_zero_field h]
    exact ⟨by simp only; omega, le_refl _, .inr rfl⟩
  · rw [f.split_field h]
    exact ⟨by simp only; omega, by simp only; omega, .inl (by simp only; omega)⟩

theorem magnitudeOf_split (m : Nat) : f.magnitudeOf (f.split m).1 (f.split m).2 = m := by
  have hdiv := Nat.div_add_mod m f.steps
  unfold magnitudeOf
  by_cases h : m / f.steps = 0
  · rw [f.split_zero_field h]
    rw [h] at hdiv
    simp only [sub_self, Int.toNat_zero]
    omega
  · rw [f.split_field h]
    obtain ⟨field, hfield⟩ := Nat.exists_eq_succ_of_ne_zero h
    rw [hfield, Nat.mul_succ] at hdiv
    rw [hfield]
    simp only [Nat.succ_sub_one, add_sub_cancel_left, Int.toNat_natCast]
    rw [Nat.mul_comm]
    omega

variable {f} {k : Nat} {q : Int}

/-- A magnitude has the significand and the exponent that it is made of. -/
theorem Canonical.split_magnitudeOf (h : f.Canonical k q) :
    f.split (f.magnitudeOf k q) = (k, q) := by
  obtain ⟨step, hstep⟩ := Int.eq_ofNat_of_zero_le (sub_nonneg.mpr h.least)
  have hm : f.magnitudeOf k q = step * f.steps + k := by
    unfold magnitudeOf
    rw [hstep, Int.toNat_natCast]
  have hpos := f.steps_pos
  have hfits := h.fits
  by_cases hk : f.steps ≤ k
  -- the first bit of a full significand is carried into the exponent
  · have hdiv : f.magnitudeOf k q / f.steps = step + 1 := by
      have hone : k / f.steps = 1 := Nat.div_eq_of_lt_le (by omega) (by omega)
      rw [hm, Nat.add_comm, Nat.add_mul_div_right k step hpos, hone, Nat.add_comm]
    have hmod : f.magnitudeOf k q % f.steps = k - f.steps := by
      rw [hm, Nat.add_comm, Nat.add_mul_mod_self_right, Nat.mod_eq_sub_mod hk]
      exact Nat.mod_eq_of_lt (by omega)
    rw [f.split_field (by omega), hdiv, hmod]
    refine Prod.ext (by simp only; omega) ?_
    show f.leastExponent + ((step + 1 - 1 : Nat) : Int) = q
    rw [Nat.add_sub_cancel]
    omega
  · have hq := h.full.resolve_left hk
    have hm0 : f.magnitudeOf k q = k := by
      have hzero : step = 0 := by omega
      rw [hm, hzero, Nat.zero_mul, Nat.zero_add]
    rw [hm0, f.split_zero_field (Nat.div_eq_of_lt (by omega)), Nat.mod_eq_of_lt (by omega), hq]

theorem Canonical.value (h : f.Canonical k q) : f.value (f.magnitudeOf k q) = k * 2 ^ q := by
  unfold BinaryFormat.value
  rw [h.split_magnitudeOf]

theorem log2_le_fractionBits (hk : 0 < k) (hfits : k < 2 * f.steps) : k.log2 ≤ f.fractionBits := by
  refine Nat.lt_succ_iff.mp ((Nat.log2_lt hk.ne').mpr ?_)
  rw [steps] at hfits
  rw [Nat.pow_succ, Nat.mul_comm]
  exact hfits

/-! ## 3. Rounding -/

/-- A magnitude as a fraction has its value. -/
theorem fraction_value (m : Nat) :
    0 < (f.fraction m).2 ∧ ((f.fraction m).1 : ℚ) / (f.fraction m).2 = f.value m := by
  unfold fraction BinaryFormat.value
  generalize f.split m = p
  obtain ⟨k, q⟩ := p
  simp only
  split
  · rename_i hq
    refine ⟨Nat.one_pos, ?_⟩
    rw [two_zpow_toNat hq, Nat.cast_one, div_one, Nat.cast_mul]
  · rename_i hq
    have hneg : 0 ≤ -q := by omega
    refine ⟨Nat.two_pow_pos _, ?_⟩
    rw [← two_zpow_toNat hneg, zpow_neg, div_inv_eq_mul]

/-- The exponent of a value is that of its significand, moved by its own. -/
theorem floorLog2_of_value {n d : Nat} (hd : 0 < d) (hk : 0 < k) (h : (n : ℚ) / d = k * 2 ^ q) :
    0 < n ∧ floorLog2 n d = k.log2 + q := by
  obtain ⟨hl, hh⟩ := log2_bounds hk
  have hp := two_zpow_pos q
  have hn : 0 < n := by
    rcases Nat.eq_zero_or_pos n with rfl | hn
    · have hzero : (k : ℚ) * 2 ^ q = 0 := by rw [← h, Nat.cast_zero, zero_div]
      have hkpos : (0 : ℚ) < k := Nat.cast_pos.mpr hk
      exact absurd hzero (mul_pos hkpos hp).ne'
    · exact hn
  refine ⟨hn, floorLog2_eq hn hd ?_ ?_⟩
  · rw [h, zpow_add₀ (by norm_num)]
    exact mul_le_mul_of_nonneg_right hl hp.le
  · rw [h, add_right_comm, zpow_add₀ (by norm_num)]
    exact mul_lt_mul_of_pos_right hh hp

/-- What lies on a grid is rounded to its place on it. -/
theorem roundHalfEven_of_value {n d : Nat} (hd : 0 < d) (h : (n : ℚ) / d = k * 2 ^ q) :
    (if 0 ≤ q then roundHalfEven n (d * Nat.pow 2 q.toNat)
      else roundHalfEven (n * Nat.pow 2 (-q).toNat) d) = k := by
  have hdpos : (d : ℚ) ≠ 0 := (Nat.cast_pos.mpr hd).ne'
  have hn : (n : ℚ) = k * 2 ^ q * d := (div_eq_iff hdpos).mp h
  split
  · rename_i hq
    rw [two_zpow_toNat hq] at hn
    have hnat : n = k * (d * Nat.pow 2 q.toNat) := by
      have hcast : (n : ℚ) = ((k * Nat.pow 2 q.toNat * d : Nat) : ℚ) := by
        rw [hn, Nat.cast_mul, Nat.cast_mul]
      rw [Nat.cast_injective hcast]
      ring
    rw [hnat]
    exact roundHalfEven_mul k (Nat.mul_pos hd (Nat.two_pow_pos _))
  · rename_i hq
    have hneg : 0 ≤ -q := by omega
    have hnat : n * Nat.pow 2 (-q).toNat = k * d := by
      have hcast : ((n * Nat.pow 2 (-q).toNat : Nat) : ℚ) = ((k * d : Nat) : ℚ) := by
        rw [Nat.cast_mul, ← two_zpow_toNat hneg, hn, Nat.cast_mul]
        calc (k : ℚ) * 2 ^ q * d * 2 ^ (-q) = k * d * (2 ^ q * 2 ^ (-q)) := by ring
          _ = k * d := by rw [two_zpow_mul_neg, mul_one]
      exact Nat.cast_injective hcast
    rw [hnat]
    exact roundHalfEven_mul k hd

/-- The step of the grid on which a fraction is rounded. -/
theorem Canonical.step (h : f.Canonical k q) (hk : 0 < k) :
    f.leastExponent + ((k.log2 + q - f.fractionBits - f.leastExponent).toNat : Int) = q := by
  have hleast := h.least
  have hlog := log2_le_fractionBits hk h.fits
  rcases h.full with hfull | hq
  · have hfullLog : f.fractionBits ≤ k.log2 := (Nat.le_log2 hk.ne').mpr hfull
    omega
  · omega

/-- **A fraction that some magnitude has as its value is rounded to this magnitude**, or to infinity
if it is too great. -/
theorem Canonical.round {n d : Nat} (h : f.Canonical k q) (hd : 0 < d)
    (hv : (n : ℚ) / d = k * 2 ^ q) : f.round n d = min (f.magnitudeOf k q) f.infinity := by
  rcases Nat.eq_zero_or_pos k with rfl | hk
  · have hq : q = f.leastExponent := by
      have hpos := f.steps_pos
      exact h.full.resolve_left (by omega)
    have hdpos : (d : ℚ) ≠ 0 := (Nat.cast_pos.mpr hd).ne'
    have hn : n = 0 := by
      rw [Nat.cast_zero, zero_mul, div_eq_zero_iff] at hv
      exact Nat.cast_eq_zero.mp (hv.resolve_right hdpos)
    rw [hn, BinaryFormat.round, if_pos rfl, magnitudeOf, hq, sub_self, Int.toNat_zero, Nat.zero_mul,
      Nat.zero_add, Nat.zero_min]
  · obtain ⟨hn, hlog⟩ := floorLog2_of_value hd hk hv
    have hstep := h.step hk
    have hsteps : ((k.log2 : Int) + q - f.fractionBits - f.leastExponent).toNat =
        (q - f.leastExponent).toNat := by omega
    rw [BinaryFormat.round, if_neg hn.ne']
    simp only [hlog, hstep, roundHalfEven_of_value hd hv]
    rw [hsteps, join, magnitudeOf, steps]

/-- **The value of a finite magnitude is rounded to this magnitude.** -/
theorem round_of_value {m n d : Nat} (hm : m < f.infinity) (hd : 0 < d)
    (hv : (n : ℚ) / d = f.value m) : f.round n d = m := by
  rw [(f.canonical_split m).round hd hv, f.magnitudeOf_split, Nat.min_eq_left hm.le]

/-! ## 4. Singles as doubles -/

/-- A significand that is not full can be filled up if the exponent is great enough. -/
theorem exists_canonical (hk : k < 2 * f.steps) (hq : f.leastExponent + f.fractionBits ≤ q) :
    ∃ k' q', f.Canonical k' q' ∧ (k' : ℚ) * 2 ^ q' = k * 2 ^ q ∧ q' ≤ q := by
  rcases Nat.eq_zero_or_pos k with rfl | hpos
  · have hcanonical : f.Canonical 0 f.leastExponent :=
      ⟨by have := f.steps_pos; omega, le_refl _, .inr rfl⟩
    exact ⟨0, f.leastExponent, hcanonical, by rw [Nat.cast_zero, zero_mul, zero_mul], by omega⟩
  · obtain ⟨s, hs⟩ := Nat.exists_eq_add_of_le (log2_le_fractionBits hpos hk)
    have hpow : f.steps = 2 ^ k.log2 * 2 ^ s := by
      rw [steps, hs]
      exact pow_add 2 _ _
    have hlow : 2 ^ k.log2 ≤ k := Nat.log2_self_le hpos.ne'
    have hhigh : k < 2 ^ (k.log2 + 1) := Nat.lt_log2_self
    refine ⟨k * 2 ^ s, q - s, ⟨?_, by omega, .inl ?_⟩, ?_, by omega⟩
    · rw [hpow, ← mul_assoc, ← pow_succ']
      exact Nat.mul_lt_mul_of_pos_right hhigh (Nat.two_pow_pos s)
    · rw [hpow]
      exact Nat.mul_le_mul_right _ hlow
    · rw [zpow_sub₀ (by norm_num), zpow_natCast, Nat.cast_mul, Nat.cast_pow, Nat.cast_ofNat]
      field_simp

theorem split_exponent_le {m : Nat} (hm : m < f.infinity) :
    (f.split m).2 ≤ f.leastExponent + (Nat.pow 2 f.exponentBits - 2 : Nat) := by
  have hfield : m / f.steps < Nat.pow 2 f.exponentBits - 1 :=
    (Nat.div_lt_iff_lt_mul f.steps_pos).mpr hm
  by_cases h : m / f.steps = 0
  · rw [f.split_zero_field h]
    simp only
    omega
  · rw [f.split_field h]
    simp only
    omega

end BinaryFormat

/-- **Every finite single has a double of its value.** -/
theorem exists_double_of_single {m : Nat} (hm : m < BinaryFormat.single.infinity) :
    ∃ m' < BinaryFormat.double.infinity,
      BinaryFormat.double.value m' = BinaryFormat.single.value m := by
  have hcanonical := BinaryFormat.single.canonical_split m
  have hexp := BinaryFormat.split_exponent_le hm
  have hfits := hcanonical.fits
  have hleast := hcanonical.least
  have hsteps : BinaryFormat.single.steps = 8388608 := by decide
  have hwide : BinaryFormat.double.steps = 4503599627370496 := by decide
  have hsl : BinaryFormat.single.leastExponent = -149 := by decide
  have hdl : BinaryFormat.double.leastExponent = -1074 := by decide
  have hbits : Nat.pow 2 BinaryFormat.single.exponentBits = 256 := by decide
  have hfraction : BinaryFormat.double.fractionBits = 52 := rfl
  rw [hsteps] at hfits
  rw [hsl] at hleast hexp
  rw [hbits] at hexp
  obtain ⟨k, q, hkq, hvalue, hq⟩ := @BinaryFormat.exists_canonical .double
    (BinaryFormat.single.split m).1 (BinaryFormat.single.split m).2 (by rw [hwide]; omega)
    (by rw [hdl, hfraction]; omega)
  refine ⟨BinaryFormat.double.magnitudeOf k q, ?_, by rw [hkq.value, hvalue]; rfl⟩
  have hk := hkq.fits
  have hinf : BinaryFormat.double.infinity = 9218868437227405312 := by decide
  rw [BinaryFormat.magnitudeOf, hinf, hdl, hwide]
  rw [hwide] at hk
  omega

namespace Double

theorem toNat_ofMagnitude (b : Bool) {m : Nat} (h : m < signBit) :
    (ofMagnitude b m).bits.toNat = m + if b then signBit else 0 := by
  have hfits : m + (if b then signBit else 0) < 2 ^ 64 := by
    unfold signBit at h ⊢
    split <;> omega
  exact (UInt64.toNat_ofNat').trans (Nat.mod_eq_of_lt hfits)

theorem magnitude_ofMagnitude (b : Bool) {m : Nat} (h : m < signBit) :
    (ofMagnitude b m).magnitude = m := by
  rw [magnitude, toNat_ofMagnitude b h]
  cases b with
  | false => exact Nat.mod_eq_of_lt h
  | true => exact (Nat.add_mod_right m signBit).trans (Nat.mod_eq_of_lt h)

theorem isNegative_ofMagnitude (b : Bool) {m : Nat} (h : m < signBit) :
    (ofMagnitude b m).isNegative = b := by
  rw [isNegative, toNat_ofMagnitude b h]
  cases b with
  | false => exact decide_eq_false (Nat.not_le.mpr h)
  | true => exact decide_eq_true (Nat.le_add_left signBit m)

end Double

namespace Single

/-- A number is its sign and its magnitude. -/
theorem ofMagnitude_magnitude (x : Single) : ofMagnitude x.isNegative x.magnitude = x := by
  obtain ⟨bits⟩ := x
  have hlt := bits.toNat_lt
  have hnat : bits.toNat % signBit + (if decide (signBit ≤ bits.toNat) = true then signBit else 0) =
      bits.toNat := by
    unfold signBit
    by_cases h : 0x80000000 ≤ bits.toNat
    · rw [if_pos (decide_eq_true h)]
      omega
    · rw [if_neg (by simpa using h)]
      omega
  show Single.mk (UInt32.ofNat _) = ⟨bits⟩
  rw [magnitude, isNegative, hnat, UInt32.ofNat_toNat]

/-- The magnitude of the double. -/
def wideMagnitude (m : Nat) : Nat :=
  if m < BinaryFormat.single.infinity then
    BinaryFormat.double.round (BinaryFormat.single.fraction m).1 (BinaryFormat.single.fraction m).2
  else if m = BinaryFormat.single.infinity then BinaryFormat.double.infinity
  else BinaryFormat.double.infinity +
    (0x8000000000000 + (m - BinaryFormat.single.infinity) % 0x400000 * 0x20000000)

theorem toDouble_eq (x : Single) :
    x.toDouble = Double.ofMagnitude x.isNegative (wideMagnitude x.magnitude) := rfl

/-- The double of a finite single has its value. -/
theorem wideMagnitude_finite {m : Nat} (hm : m < BinaryFormat.single.infinity) :
    wideMagnitude m < BinaryFormat.double.infinity ∧
      BinaryFormat.double.value (wideMagnitude m) = BinaryFormat.single.value m := by
  obtain ⟨hd, hv⟩ := @BinaryFormat.fraction_value .single m
  obtain ⟨m', hm', hvalue⟩ := exists_double_of_single hm
  have hround : wideMagnitude m = m' := by
    rw [wideMagnitude, if_pos hm]
    exact BinaryFormat.round_of_value hm' hd (hv.trans hvalue.symm)
  rw [hround]
  exact ⟨hm', hvalue⟩

theorem wideMagnitude_infinite {m : Nat} (hm : ¬ m < BinaryFormat.single.infinity) :
    BinaryFormat.double.infinity ≤ wideMagnitude m ∧ wideMagnitude m < Double.signBit := by
  have hinf : BinaryFormat.double.infinity = 9218868437227405312 := by decide
  unfold wideMagnitude Double.signBit
  rw [if_neg hm, hinf]
  split <;> omega

theorem wideMagnitude_lt (m : Nat) : wideMagnitude m < Double.signBit := by
  by_cases hm : m < BinaryFormat.single.infinity
  · exact (wideMagnitude_finite hm).1.trans (by decide)
  · exact (wideMagnitude_infinite hm).2

/-- A single and its double are finite together. -/
theorem isFinite_toDouble (x : Single) : x.toDouble.isFinite = x.isFinite := by
  have hmagnitude : x.toDouble.magnitude = wideMagnitude x.magnitude := by
    rw [toDouble_eq, Double.magnitude_ofMagnitude _ (wideMagnitude_lt _)]
  unfold Double.isFinite isFinite
  rw [hmagnitude]
  by_cases hm : x.magnitude < BinaryFormat.single.infinity
  · rw [decide_eq_true hm, decide_eq_true (wideMagnitude_finite hm).1]
  · rw [decide_eq_false hm, decide_eq_false (not_lt.mpr (wideMagnitude_infinite hm).1)]

/-- **A finite single is the single of its double.** -/
theorem toSingle_toDouble {x : Single} (h : x.isFinite = true) : x.toDouble.toSingle = x := by
  have hm : x.magnitude < BinaryFormat.single.infinity := of_decide_eq_true h
  obtain ⟨hwide, hvalue⟩ := wideMagnitude_finite hm
  have hmagnitude : x.toDouble.magnitude = wideMagnitude x.magnitude := by
    rw [toDouble_eq, Double.magnitude_ofMagnitude _ (wideMagnitude_lt _)]
  have hnegative : x.toDouble.isNegative = x.isNegative := by
    rw [toDouble_eq, Double.isNegative_ofMagnitude _ (wideMagnitude_lt _)]
  obtain ⟨hd, hv⟩ := @BinaryFormat.fraction_value .double (wideMagnitude x.magnitude)
  have hround := BinaryFormat.round_of_value hm hd (hv.trans hvalue)
  unfold Double.toSingle
  simp only [hmagnitude, hnegative, if_pos hwide, hround]
  exact x.ofMagnitude_magnitude

end Single

end ContextualQuery
