import HaxeBackend.Proofs.Binary.Rounding
import Mathlib.Tactic.Linarith
import Mathlib.Tactic.NormNum

/-!
# Shortest decimals read back

With seventeen digits the grid is finer than the rounding interval, so a neighbour of the value lies in it at the
latest there (`neighbour?_ne_none`); and whatever neighbour is taken, zeros dropped from its end leave its value
(`value_dropZeros`).  Main result: the shortest decimal lies in the rounding interval of the number that it was made for
(`contains_shortest`).
-/

namespace HaxeBackend.Decimal

open HaxeBackend.Binary (Format Number Contains twoPow tenPow)

variable {f : Format} {m : Nat} {e k : Int} {q : Quarters} {negative : Bool}

/-! ### Values -/

/-- The number that a decimal denotes. -/
def Digits.value (d : Digits) : ℚ := d.digits * 10 ^ d.exponent

/-- The number of the format nearest to a decimal. -/
def Digits.nearest (f : Format) (negative : Bool) (d : Digits) : Number :=
  f.roundRatio negative (d.digits * tenPow d.exponent.toNat) (tenPow (-d.exponent).toNat)

/-- A power as a ratio of whole numbers. -/
theorem zpow_eq_ratio {a : Nat} (ha : a ≠ 0) (k : Int) : (a : ℚ) ^ k = (a ^ k.toNat : Nat) / (a ^ (-k).toNat : Nat) := by
  have ha' : (a : ℚ) ≠ 0 := by exact_mod_cast ha
  obtain ⟨n, rfl | rfl⟩ := k.eq_nat_or_neg
  · simp
  · simp [zpow_neg]

theorem Digits.value_eq_ratio (d : Digits) :
    d.value = (d.digits * tenPow d.exponent.toNat : Nat) / (tenPow (-d.exponent).toNat : Nat) := by
  have hten : (10 : ℚ) ^ d.exponent = (10 ^ d.exponent.toNat : Nat) / (10 ^ (-d.exponent).toNat : Nat) := by
    exact_mod_cast zpow_eq_ratio (a := 10) (by decide) d.exponent
  show (d.digits : ℚ) * 10 ^ d.exponent =
    (d.digits * 10 ^ d.exponent.toNat : Nat) / (10 ^ (-d.exponent).toNat : Nat)
  rw [hten, Nat.cast_mul, mul_div_assoc]

theorem Digits.nearest_eq (hcanonical : f.IsCanonical m e) (hm : 0 < m) {d : Digits}
    (h : Contains (Quarters.ofNumber f m e) (d.value / 2 ^ (e - 2))) :
    d.nearest f negative = .finite negative m e := by
  rw [d.value_eq_ratio] at h
  exact Binary.roundRatio_eq hcanonical hm (Nat.pow_pos (by decide)) h

theorem nearest_zero (d : Digits) (h : d.digits = 0) :
    d.nearest f negative = .finite negative 0 f.minExponent := by
  unfold Digits.nearest Format.roundRatio
  rw [h]
  simp [Format.round]

theorem value_dropZeros (fuel : Nat) (d : Digits) : (dropZeros fuel d).value = d.value := by
  induction fuel generalizing d with
  | zero => rfl
  | succ fuel ih =>
    unfold dropZeros
    split
    · rename_i hzero
      rw [ih]
      have hten : d.digits = 10 * (d.digits / 10) := by omega
      have hten' : (d.digits : ℚ) = 10 * (d.digits / 10 : Nat) := by exact_mod_cast hten
      unfold Digits.value
      dsimp only
      rw [hten', zpow_add₀ (by norm_num), zpow_one]
      ring
    · rfl

/-! ### Neighbours on a grid -/

/-- The grid `10 ^ k`, measured in quarters of the last place. -/
def gridWidth (e k : Int) : ℚ := 10 ^ k / 2 ^ (e - 2)

private theorem gridWidth_eq (e k : Int) :
    gridWidth e k =
      (twoPow (2 - e).toNat * tenPow k.toNat : Nat) / (twoPow (e - 2).toNat * tenPow (-k).toNat : Nat) := by
  have hten : (10 : ℚ) ^ k = (10 ^ k.toNat : Nat) / (10 ^ (-k).toNat : Nat) := by
    exact_mod_cast zpow_eq_ratio (a := 10) (by decide) k
  have htwo : (2 : ℚ) ^ (e - 2) = (2 ^ (e - 2).toNat : Nat) / (2 ^ (2 - e).toNat : Nat) := by
    have h := zpow_eq_ratio (a := 2) (by decide) (e - 2)
    rw [neg_sub] at h
    exact_mod_cast h
  show gridWidth e k =
    (2 ^ (2 - e).toNat * 10 ^ k.toNat : Nat) / (2 ^ (e - 2).toNat * 10 ^ (-k).toNat : Nat)
  rw [gridWidth, hten, htwo]
  push_cast
  field_simp

private theorem growth_pos (e k : Int) : 0 < twoPow (e - 2).toNat * tenPow (-k).toNat :=
  Nat.mul_pos (Nat.pow_pos (by decide)) (Nat.pow_pos (by decide))

private theorem unit_pos (e k : Int) : 0 < twoPow (2 - e).toNat * tenPow k.toNat :=
  Nat.mul_pos (Nat.pow_pos (by decide)) (Nat.pow_pos (by decide))

/-- A neighbour lies in the interval. -/
private theorem contains_of_neighbour? (hlow : q.low < q.value) (hhigh : q.value < q.high) {digits : Nat}
    (h : neighbour? q e k = some digits) : Contains q (digits * gridWidth e k) := by
  have hgrow := growth_pos e k
  have hunit := unit_pos e k
  rw [gridWidth_eq, ← mul_div_assoc, ← Nat.cast_mul, Binary.contains_div_iff hgrow]
  unfold neighbour? at h
  dsimp only at h
  generalize twoPow (e - 2).toNat * tenPow (-k).toNat = grow at *
  generalize twoPow (2 - e).toNat * tenPow k.toNat = unit at *
  -- the value lies between the neighbour below and the one above
  have hlower : q.value * grow / unit * unit ≤ q.value * grow := Nat.div_mul_le_self _ _
  have hupper : q.value * grow < (q.value * grow / unit + 1) * unit := by
    rw [Nat.mul_comm _ unit]
    exact Nat.lt_mul_div_succ _ hunit
  have hlow' : q.low * grow < q.value * grow := Nat.mul_lt_mul_of_pos_right hlow hgrow
  have hhigh' : q.value * grow < q.high * grow := Nat.mul_lt_mul_of_pos_right hhigh hgrow
  generalize q.value * grow / unit = lower at *
  cases hclosed : q.closed <;> rw [hclosed] at h <;>
    simp only [Bool.false_eq_true, if_false, if_true] at h ⊢
  all_goals
    split at h
    · rename_i hfits
      cases h
      split <;> constructor <;> omega
    · split at h
      · cases h
        constructor <;> omega
      · split at h
        · cases h
          constructor <;> omega
        · cases h

/-- Where the interval has no neighbour of the value the grid is as wide as the interval. -/
private theorem gridWidth_of_neighbour?_none (hlow : q.low < q.value) (hhigh : q.value < q.high)
    (h : neighbour? q e k = none) : (q.high - q.low : Nat) ≤ gridWidth e k := by
  have hgrow := growth_pos e k
  have hunit := unit_pos e k
  have hgrow' : (0 : ℚ) < (twoPow (e - 2).toNat * tenPow (-k).toNat : Nat) := by exact_mod_cast hgrow
  rw [gridWidth_eq, le_div_iff₀ hgrow']
  unfold neighbour? at h
  dsimp only at h
  generalize twoPow (e - 2).toNat * tenPow (-k).toNat = grow at *
  generalize twoPow (2 - e).toNat * tenPow k.toNat = unit at *
  generalize q.value * grow / unit = lower at *
  have hsucc : (lower + 1) * unit = lower * unit + unit := by ring
  have hmono : q.low * grow ≤ q.high * grow := Nat.mul_le_mul_right _ (by omega)
  suffices hwide : (q.high - q.low) * grow ≤ unit by exact_mod_cast hwide
  rw [Nat.sub_mul]
  cases hclosed : q.closed <;> rw [hclosed] at h <;>
    simp only [Bool.false_eq_true, if_false, if_true] at h
  all_goals
    split at h
    · cases h
    · split at h
      · cases h
      · split at h
        · cases h
        · omega

/-! ### The first digit -/

/-- Between powers of ten and of two there are three digits for ten bits, a little more or less. -/
private theorem ten_zpow_le {j l : Int} (h : 0 ≤ j ∧ 103 * j ≤ 31 * l ∨ j ≤ 0 ∧ 93 * j ≤ 28 * l) :
    (10 : ℚ) ^ j ≤ 2 ^ l := by
  rcases h with ⟨hj, hle⟩ | ⟨hj, hle⟩
  · refine le_of_pow_le_pow_left₀ (n := 31) (by decide) (by positivity) ?_
    calc ((10 : ℚ) ^ j) ^ 31 = (10 ^ 31) ^ j := by rw [← zpow_natCast, ← zpow_natCast, zpow_comm]
      _ ≤ (2 ^ 103) ^ j := zpow_le_zpow_left₀ hj (by norm_num) (by norm_num)
      _ = 2 ^ (103 * j) := by rw [zpow_mul]; norm_cast
      _ ≤ 2 ^ (31 * l) := zpow_le_zpow_right₀ (by norm_num) hle
      _ = (2 ^ l) ^ 31 := by rw [mul_comm, zpow_mul]; norm_cast
  · refine le_of_pow_le_pow_left₀ (n := 28) (by decide) (by positivity) ?_
    calc ((10 : ℚ) ^ j) ^ 28 = (10 ^ 28) ^ j := by rw [← zpow_natCast, ← zpow_natCast, zpow_comm]
      _ ≤ (2 ^ 93) ^ j := by
        obtain ⟨i, rfl⟩ : ∃ i, j = -i := ⟨-j, by omega⟩
        rw [zpow_neg, zpow_neg]
        exact inv_anti₀ (by positivity) (zpow_le_zpow_left₀ (by omega) (by norm_num) (by norm_num))
      _ = 2 ^ (93 * j) := by rw [zpow_mul]; norm_cast
      _ ≤ 2 ^ (28 * l) := zpow_le_zpow_right₀ (by norm_num) hle
      _ = (2 ^ l) ^ 28 := by rw [mul_comm, zpow_mul]; norm_cast

/-- The place of the first digit is not above the value. -/
private theorem ten_zpow_topExponent_le (hm : 0 < m) (hleast : -16000 ≤ e) (hgreatest : e + m.log2 ≤ 16000) :
    (10 : ℚ) ^ topExponent m e ≤ m * 2 ^ e := by
  have hatMost : ∀ t : Int, tenPow t.toNat * twoPow (-e).toNat ≤ m * twoPow e.toNat * tenPow (-t).toNat →
      (10 : ℚ) ^ t ≤ m * 2 ^ e := by
    intro t ht
    have hten : (10 : ℚ) ^ t = (10 ^ t.toNat : Nat) / (10 ^ (-t).toNat : Nat) := by
      exact_mod_cast zpow_eq_ratio (a := 10) (by decide) t
    have htwo : (2 : ℚ) ^ e = (2 ^ e.toNat : Nat) / (2 ^ (-e).toNat : Nat) := by
      exact_mod_cast zpow_eq_ratio (a := 2) (by decide) e
    rw [hten, htwo, ← mul_div_assoc, div_le_div_iff₀ (by positivity) (by positivity)]
    exact_mod_cast ht
  have hestimate : ∀ t : Int, 100000 * t ≤ 30103 * (e + m.log2) → (10 : ℚ) ^ (t - 1) ≤ m * 2 ^ e := by
    intro t ht
    have hbits : (2 : ℚ) ^ (e + m.log2) ≤ m * 2 ^ e := by
      rw [zpow_add₀ two_ne_zero, mul_comm, zpow_natCast]
      have hlog : ((2 ^ m.log2 : Nat) : ℚ) ≤ m := by exact_mod_cast Nat.log2_self_le hm.ne'
      push_cast at hlog
      exact mul_le_mul_of_nonneg_right hlog (by positivity)
    exact (ten_zpow_le (by omega)).trans hbits
  unfold topExponent
  dsimp only
  split
  · rename_i h
    exact hatMost _ (by simpa using h)
  · split
    · rename_i h
      exact hatMost _ (by simpa using h)
    · exact hestimate _ (by omega)

/-! ### Shortest decimals -/

/-- The formats whose numbers seventeen digits tell apart. -/
structure IsNarrow (f : Format) : Prop where
  precision : 2 ^ f.precision ≤ 10 ^ 16
  least : -16000 ≤ f.minExponent
  greatest : f.maxExponent + f.precision ≤ 16000

private theorem neighbour?_ne_none (hnarrow : IsNarrow f) (hcanonical : f.IsCanonical m e) (hm : 0 < m) :
    neighbour? (Quarters.ofNumber f m e) e (topExponent m e - 16) ≠ none := by
  intro hnone
  have hlog : m.log2 < f.precision := (Nat.log2_lt hm.ne').2 hcanonical.fits
  have hleast : -16000 ≤ e := hnarrow.least.trans hcanonical.least
  have hgreatest : e + m.log2 ≤ 16000 := by
    have hformat := hnarrow.greatest
    have hnumber := hcanonical.greatest
    omega
  have htop := ten_zpow_topExponent_le hm hleast hgreatest
  have hwidth : gridWidth e (topExponent m e - 16) ≤ 4 * m / 10 ^ 16 := by
    unfold gridWidth
    rw [zpow_sub₀ (by norm_num), zpow_sub₀ two_ne_zero, div_div_eq_mul_div, div_mul_eq_mul_div, div_div,
      div_le_div_iff₀ (by positivity) (by positivity)]
    have hscaled := mul_le_mul_of_nonneg_right htop (show (0 : ℚ) ≤ 2 ^ (2 : Int) * 10 ^ 16 by positivity)
    norm_num at hscaled ⊢
    linarith
  have hwide := (gridWidth_of_neighbour?_none (by unfold Quarters.ofNumber; dsimp only; split <;> omega)
    (by unfold Quarters.ofNumber; dsimp only; omega) hnone).trans hwidth
  rw [le_div_iff₀ (by positivity)] at hwide
  have hwide' : ((Quarters.ofNumber f m e).high - (Quarters.ofNumber f m e).low) * 10 ^ 16 ≤ 4 * m := by
    exact_mod_cast hwide
  have hprecision := hnarrow.precision
  have hfits := hcanonical.fits
  have hhalf : 2 ^ f.precision = 2 * 2 ^ f.fractionBits := by rw [Format.precision, Nat.pow_succ, Nat.mul_comm]
  have hpow : twoPow f.fractionBits = 2 ^ f.fractionBits := rfl
  unfold Quarters.ofNumber at hwide'
  dsimp only at hwide'
  rw [hpow] at hwide'
  -- below a power of two the interval is only three quarters wide, but such a number has half the largest significand
  split at hwide'
  · omega
  · omega

theorem contains_shortest (hnarrow : IsNarrow f) (hcanonical : f.IsCanonical m e) (hm : 0 < m) :
    Contains (Quarters.ofNumber f m e) ((shortest f m e).value / 2 ^ (e - 2)) := by
  set q := Quarters.ofNumber f m e with hq
  obtain ⟨d, hd, k, digits, hneighbour, rfl⟩ : ∃ d, ((List.range 17).findSome? fun (n : Nat) =>
      (neighbour? q e (topExponent m e - n)).map fun digits => dropZeros 20 ⟨digits, topExponent m e - n⟩) = some d ∧
      ∃ k digits, neighbour? q e k = some digits ∧ d = dropZeros 20 ⟨digits, k⟩ := by
    cases hfound : (List.range 17).findSome? fun (n : Nat) =>
        (neighbour? q e (topExponent m e - n)).map fun digits => dropZeros 20 ⟨digits, topExponent m e - n⟩ with
    | none =>
      have hlast := List.findSome?_eq_none_iff.1 hfound 16 (by decide)
      rw [Option.map_eq_none_iff] at hlast
      exact absurd hlast (neighbour?_ne_none hnarrow hcanonical hm)
    | some d =>
      obtain ⟨n, -, hn⟩ := List.exists_of_findSome?_eq_some hfound
      obtain ⟨digits, hneighbour, rfl⟩ := Option.map_eq_some_iff.1 hn
      exact ⟨_, rfl, _, digits, hneighbour, rfl⟩
  have hshortest : shortest f m e = dropZeros 20 ⟨digits, k⟩ := by
    unfold shortest
    dsimp only
    rw [← hq, hd]
    rfl
  rw [hshortest, value_dropZeros, Digits.value, mul_div_assoc]
  exact contains_of_neighbour? (by rw [hq]; unfold Quarters.ofNumber; dsimp only; split <;> omega)
    (by rw [hq]; unfold Quarters.ofNumber; dsimp only; omega) hneighbour

theorem isNarrow_single : IsNarrow Binary.single := ⟨by decide, by decide, by decide⟩

theorem isNarrow_double : IsNarrow Binary.double := ⟨by decide, by decide, by decide⟩

end HaxeBackend.Decimal
