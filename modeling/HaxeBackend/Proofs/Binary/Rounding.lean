import HaxeBackend.Decimal.Shortest
import Mathlib.Algebra.Order.Field.Power
import Mathlib.Data.Rat.Cast.Order
import Mathlib.Tactic.FieldSimp
import Mathlib.Tactic.Positivity
import Mathlib.Tactic.Ring

/-!
# Rounding into an interval

The numbers that round to `m · 2 ^ e` are those of an interval around it, which `Quarters` describes.  A number in it
is rounded to `m · 2 ^ e` when it is given as a significand with enough bits (`round_eq`) and when it is given as a
ratio, whose quotient keeps one bit for what the division leaves over (`roundRatio_eq`).
-/

namespace HaxeBackend.Binary

open HaxeBackend.Decimal (Quarters)

variable {f : Format} {m n d b : Nat} {e : Int} {negative : Bool}

/-! ### Numbers of a format -/

/-- A significand and an exponent as the format has them: all bits are used, unless the exponent is the least. -/
structure Format.IsCanonical (f : Format) (m : Nat) (e : Int) : Prop where
  fits : m < 2 ^ f.precision
  least : f.minExponent ≤ e
  greatest : e ≤ f.maxExponent
  normal : f.minExponent < e → 2 ^ f.fractionBits ≤ m

theorem isCanonical_of_decode (hexponent : 2 ≤ f.exponentBits) {bits : Nat}
    (h : f.decode bits = .finite negative m e) : f.IsCanonical m e := by
  obtain ⟨k, hk⟩ := Nat.exists_eq_add_of_le hexponent
  -- the largest biased exponent belongs to the infinite numbers
  have hbias : twoPow f.exponentBits = 2 * f.bias + 2 ∧ 1 ≤ f.bias := by
    have hpos : 0 < 2 ^ k := Nat.two_pow_pos k
    have hsucc : 2 ^ (1 + k) = 2 * 2 ^ k := by rw [Nat.pow_add, Nat.pow_one]
    have hsucc' : 2 ^ (2 + k) = 4 * 2 ^ k := by rw [Nat.pow_add]
    unfold Format.bias
    rw [hk, show 2 + k - 1 = 1 + k by omega]
    show 2 ^ (2 + k) = 2 * (2 ^ (1 + k) - 1) + 2 ∧ 1 ≤ 2 ^ (1 + k) - 1
    omega
  have hfraction : bits % twoPow f.fractionBits < 2 ^ f.fractionBits := Nat.mod_lt _ (Nat.two_pow_pos _)
  have hprecision : 2 ^ f.precision = 2 * 2 ^ f.fractionBits := by rw [Format.precision, Nat.pow_succ, Nat.mul_comm]
  have hbiased : bits / twoPow f.fractionBits % twoPow f.exponentBits < twoPow f.exponentBits :=
    Nat.mod_lt _ (Nat.two_pow_pos _)
  have hpow : twoPow f.fractionBits = 2 ^ f.fractionBits := rfl
  have hleast : f.minExponent = 1 - f.bias - f.fractionBits := rfl
  have hgreatest : f.maxExponent = f.bias - f.fractionBits := rfl
  unfold Format.decode at h
  dsimp only at h
  split at h
  · split at h <;> cases h
  · split at h
    · cases h
      exact ⟨by omega, by omega, by omega, fun hlt => absurd hlt (by omega)⟩
    · cases h
      exact ⟨by omega, by omega, by omega, fun _ => by omega⟩

/-! ### Rounding intervals -/

/-- A number, measured in quarters of the last place, is one of those that round to the value. -/
def Contains (q : Quarters) (x : ℚ) : Prop :=
  if q.closed then q.low ≤ x ∧ x ≤ q.high else q.low < x ∧ x < q.high

theorem contains_div_iff {q : Quarters} (hd : 0 < d) :
    Contains q (n / d) ↔
      if q.closed then q.low * d ≤ n ∧ n ≤ q.high * d else q.low * d < n ∧ n < q.high * d := by
  have hd' : (0 : ℚ) < d := by exact_mod_cast hd
  unfold Contains
  rw [le_div_iff₀ hd', div_le_iff₀ hd', lt_div_iff₀ hd', div_lt_iff₀ hd']
  split <;> norm_cast

theorem Contains.pos {x : ℚ} (h : Contains (Quarters.ofNumber f m e) x) (hm : 0 < m) : 0 < x := by
  have hlow : 0 < (Quarters.ofNumber f m e).low := by
    unfold Quarters.ofNumber
    dsimp only
    split <;> omega
  have hlow' : (0 : ℚ) < (Quarters.ofNumber f m e).low := by exact_mod_cast hlow
  unfold Contains at h
  split at h
  · exact lt_of_lt_of_le hlow' h.1
  · exact lt_trans hlow' h.1

theorem Contains.le_high {q : Quarters} {x : ℚ} (h : Contains q x) : x ≤ q.high := by
  unfold Contains at h
  split at h
  · exact h.2
  · exact h.2.le

/-! ### Rounding a significand -/

/-- The nearest whole number; in the middle of two it is the even one. -/
theorem halfEven_eq {s r : Nat} (hlow : 2 * r * 2 ^ s ≤ 2 * n + 2 ^ s) (hhigh : 2 * n ≤ (2 * r + 1) * 2 ^ s)
    (htie : r % 2 = 0 ∨ 2 * r * 2 ^ s < 2 * n + 2 ^ s ∧ 2 * n < (2 * r + 1) * 2 ^ s) : halfEven n s = r := by
  have hunit : 0 < 2 ^ s := Nat.two_pow_pos s
  have hsplit : 2 ^ s * (n / 2 ^ s) + n % 2 ^ s = n := Nat.div_add_mod n (2 ^ s)
  have hrest : n % 2 ^ s < 2 ^ s := Nat.mod_lt _ hunit
  have hpow : twoPow s = 2 ^ s := rfl
  unfold halfEven
  rw [hpow]
  dsimp only
  generalize n / 2 ^ s = q at *
  generalize n % 2 ^ s = rest at *
  generalize 2 ^ s = unit at *
  subst hsplit
  -- the quotient is the nearest number or the one below it
  have hle : q ≤ r := by
    by_contra hlt
    have hstep : unit * (r + 1) ≤ unit * q := Nat.mul_le_mul_left _ (by omega)
    have hexpand : unit * (r + 1) = unit * r + unit := by ring
    have hexpand' : (2 * r + 1) * unit = 2 * (unit * r) + unit := by ring
    omega
  have hge : r ≤ q + 1 := by
    by_contra hlt
    have hstep : unit * (q + 2) ≤ unit * r := Nat.mul_le_mul_left _ (by omega)
    have hexpand : unit * (q + 2) = unit * q + 2 * unit := by ring
    have hexpand' : 2 * r * unit = 2 * (unit * r) := by ring
    omega
  have hleft : 2 * r * unit = 2 * (unit * r) := by ring
  have hright : (2 * r + 1) * unit = 2 * (unit * r) + unit := by ring
  rw [hleft] at hlow htie
  rw [hright] at hhigh htie
  rcases Nat.eq_or_lt_of_le hle with rfl | hlt
  · rw [if_neg]
    omega
  · obtain rfl : r = q + 1 := by omega
    have hexpand : unit * (q + 1) = unit * q + unit := by ring
    rw [hexpand] at hlow hhigh htie
    rw [if_pos]
    omega

/-- Rounding at the place of the last bit that is kept. -/
private theorem round_of_place {E : Int} (place : Int) (hn : n ≠ 0)
    (hplace : max (E + (n.log2 + 1 : Nat) - f.precision) f.minExponent = place) (hlt : E < place) :
    f.round negative n E =
      if halfEven n (place - E).toNat = 2 ^ f.precision then
        if place + 1 > f.maxExponent then .infinite negative else .finite negative (2 ^ f.fractionBits) (place + 1)
      else if place > f.maxExponent then .infinite negative
      else .finite negative (halfEven n (place - E).toNat) place := by
  have hwanted : (if E + (n.log2 + 1 : Nat) - (f.precision : Int) < f.minExponent then f.minExponent
      else E + (n.log2 + 1 : Nat) - (f.precision : Int)) = place := by
    rw [← hplace]
    split <;> omega
  unfold Format.round
  rw [if_neg hn]
  dsimp only
  rw [hwanted, if_neg (by omega : ¬place ≤ E)]
  by_cases hcarried : halfEven n (place - E).toNat = 2 ^ f.precision
  · simp only [hcarried, twoPow, beq_iff_eq, Nat.pow_eq, if_true]
  · simp only [hcarried, twoPow, beq_iff_eq, Nat.pow_eq, if_false]

/-- The bounds of the interval in whole units, of which a quarter of the last place has `2 ^ t`. -/
private theorem bounds_of_contains {t : Nat} (h : Contains (Quarters.ofNumber f m e) (n / (2 ^ t : Nat))) :
    4 * m * 2 ^ t ≤ n + (if m = 2 ^ f.fractionBits ∧ f.minExponent < e then 1 else 2) * 2 ^ t ∧
      n ≤ (4 * m + 2) * 2 ^ t ∧
      (m % 2 = 0 ∨ 4 * m * 2 ^ t < n + 2 * 2 ^ t ∧ n < (4 * m + 2) * 2 ^ t) := by
  rw [contains_div_iff (Nat.two_pow_pos t)] at h
  have hunit : 0 < 2 ^ t := Nat.two_pow_pos t
  have hsub : ∀ below, (4 * m - below) * 2 ^ t + below * 2 ^ t ≥ 4 * m * 2 ^ t := by
    intro below
    rw [← Nat.add_mul]
    exact Nat.mul_le_mul_right _ (by omega)
  have hpow : twoPow f.fractionBits = 2 ^ f.fractionBits := rfl
  unfold Quarters.ofNumber at h
  dsimp only at h
  rw [hpow] at h
  -- the interval is closed for an even number only, and its lower half is short at a power of two
  split at h
  · rename_i heven
    refine ⟨?_, h.2, .inl (by simpa using heven)⟩
    split
    · rename_i hedge
      rw [if_pos hedge] at h
      have := hsub 1
      omega
    · rename_i hedge
      rw [if_neg hedge] at h
      have := hsub 2
      omega
  · split
    · rename_i hedge
      rw [if_pos hedge] at h
      have := hsub 1
      exact ⟨by omega, h.2.le, .inr ⟨by omega, h.2⟩⟩
    · rename_i hedge
      rw [if_neg hedge] at h
      have := hsub 2
      exact ⟨by omega, h.2.le, .inr ⟨by omega, h.2⟩⟩

/-- The value has no bit above those of the number. -/
private theorem log2_lt_of_le {t : Nat} (hn : n ≠ 0) (hfits : m < 2 ^ f.precision) (hhigh : n ≤ (4 * m + 2) * 2 ^ t) :
    n.log2 < f.precision + (t + 2) := by
  have hunit : 0 < 2 ^ t := Nat.two_pow_pos t
  have htop : 2 ^ (f.precision + (t + 2)) = 4 * 2 ^ f.precision * 2 ^ t := by
    rw [Nat.pow_add, Nat.pow_add]
    ring
  rw [Nat.log2_lt hn, htop]
  have hroom : (4 * m + 3) * 2 ^ t ≤ 4 * 2 ^ f.precision * 2 ^ t := Nat.mul_le_mul_right _ (by omega)
  have hexpand : (4 * m + 3) * 2 ^ t = (4 * m + 2) * 2 ^ t + 2 ^ t := by ring
  omega

/-- Rounding at the last place of the number. -/
private theorem halfEven_kept {t : Nat} (hlow : 4 * m * 2 ^ t ≤ n + 2 * 2 ^ t) (hhigh : n ≤ (4 * m + 2) * 2 ^ t)
    (htie : m % 2 = 0 ∨ 4 * m * 2 ^ t < n + 2 * 2 ^ t ∧ n < (4 * m + 2) * 2 ^ t) : halfEven n (t + 2) = m := by
  have hquarters : 2 ^ (t + 2) = 4 * 2 ^ t := by rw [Nat.pow_add, Nat.mul_comm]
  have hleft : 2 * m * (4 * 2 ^ t) = 2 * (4 * m * 2 ^ t) := by ring
  have hright : (2 * m + 1) * (4 * 2 ^ t) = 2 * ((4 * m + 2) * 2 ^ t) := by ring
  refine halfEven_eq ?_ ?_ ?_ <;> rw [hquarters] <;> omega

/-- Rounding one bit behind the last place of a power of two, from below. -/
private theorem halfEven_carried {t k : Nat} (hlow : 4 * 2 ^ k * 2 ^ t ≤ n + 2 ^ t) (hless : n < 4 * 2 ^ k * 2 ^ t) :
    halfEven n (t + 1) = 2 ^ (k + 1) := by
  have hhalves : 2 ^ (t + 1) = 2 * 2 ^ t := by rw [Nat.pow_succ, Nat.mul_comm]
  have hcarry : 2 ^ (k + 1) = 2 * 2 ^ k := by rw [Nat.pow_succ, Nat.mul_comm]
  have hleft : 2 * (2 * 2 ^ k) * (2 * 2 ^ t) = 2 * (4 * 2 ^ k * 2 ^ t) := by ring
  have hright : (2 * (2 * 2 ^ k) + 1) * (2 * 2 ^ t) = 2 * (4 * 2 ^ k * 2 ^ t) + 2 * 2 ^ t := by ring
  rw [hcarry]
  refine halfEven_eq ?_ ?_ (.inl ?_)
  · rw [hhalves]
    omega
  · rw [hhalves]
    omega
  · omega

/-- Less than half a place below a power of two is still more than half of it. -/
private theorem le_log2_of_le {t k : Nat} (hn : n ≠ 0) (hlow : 4 * 2 ^ k * 2 ^ t ≤ n + 2 ^ t) :
    k + (t + 1) ≤ n.log2 := by
  have hhalf : 2 ^ (k + (t + 1)) = 2 * (2 ^ k * 2 ^ t) := by
    rw [Nat.pow_add, Nat.pow_succ]
    ring
  have hwhole : 4 * 2 ^ k * 2 ^ t = 4 * (2 ^ k * 2 ^ t) := by ring
  have hstep : 1 * 2 ^ t ≤ 2 ^ k * 2 ^ t := Nat.mul_le_mul_right _ (Nat.two_pow_pos _)
  rw [Nat.le_log2 hn, hhalf]
  omega

/-- A significand with at least two more bits that lies in the interval of a number is rounded to it. -/
theorem round_eq (hcanonical : f.IsCanonical m e) (hm : 0 < m) {t : Nat}
    (h : Contains (Quarters.ofNumber f m e) (n / (2 ^ t : Nat))) :
    f.round negative n (e - 2 - t) = .finite negative m e := by
  obtain ⟨hfits, hleast, hgreatest, hnormal⟩ := hcanonical
  have hn : n ≠ 0 := by
    rintro rfl
    have hpos := h.pos hm
    simp at hpos
  obtain ⟨hlow, hhigh, htie⟩ := bounds_of_contains h
  have hprecision : f.precision = f.fractionBits + 1 := rfl
  have hlog := log2_lt_of_le hn hfits hhigh
  -- the last bit that is kept is that of the number, unless the number is a power of two and the value is below it
  by_cases hplace : f.fractionBits + (t + 2) ≤ n.log2 ∨ e = f.minExponent
  · have hdown : (if m = 2 ^ f.fractionBits ∧ f.minExponent < e then 1 else 2) * 2 ^ t ≤ 2 * 2 ^ t :=
      Nat.mul_le_mul_right _ (by split <;> omega)
    have hround : halfEven n (t + 2) = m := halfEven_kept (by omega) hhigh htie
    rw [round_of_place e hn (by omega) (by omega), show (e - (e - 2 - t)).toNat = t + 2 by omega, hround,
      if_neg (by omega), if_neg (by omega)]
  · rw [not_or, Nat.not_le] at hplace
    obtain ⟨hbelow, hnotLeast⟩ := hplace
    have hbottom : 2 ^ (f.fractionBits + (t + 2)) = 4 * 2 ^ f.fractionBits * 2 ^ t := by
      rw [Nat.pow_add, Nat.pow_add]
      ring
    have hless : n < 4 * 2 ^ f.fractionBits * 2 ^ t := by rwa [Nat.log2_lt hn, hbottom] at hbelow
    have hnormal := hnormal (by omega)
    obtain rfl : m = 2 ^ f.fractionBits := by
      by_contra hne
      have hstep : (4 * 2 ^ f.fractionBits + 4) * 2 ^ t ≤ 4 * m * 2 ^ t := Nat.mul_le_mul_right _ (by omega)
      have hexpand : (4 * 2 ^ f.fractionBits + 4) * 2 ^ t = 4 * 2 ^ f.fractionBits * 2 ^ t + 4 * 2 ^ t := by ring
      rw [if_neg (fun hedge => hne hedge.1)] at hlow
      omega
    rw [if_pos ⟨rfl, by omega⟩, Nat.one_mul] at hlow
    have hround : halfEven n (t + 1) = 2 ^ f.precision := halfEven_carried hlow hless
    have hlog' := le_log2_of_le hn hlow
    rw [round_of_place (e - 1) hn (by omega) (by omega),
      show (e - 1 - (e - 2 - t)).toNat = t + 1 by omega, hround, if_pos rfl, if_neg (by omega),
      show e - 1 + 1 = e by omega]

/-! ### Rounding a ratio -/

/-- A quotient and one bit for the rest, as `Format.roundRatio` keeps them. -/
private def sticky (n d : Nat) : Nat := 2 * (n / d) + if n % d = 0 then 0 else 1

/-- Against even numbers the quotient with the bit for the rest stands for the ratio. -/
private theorem le_sticky_iff (hd : 0 < d) : 2 * b ≤ sticky n d ↔ b * d ≤ n := by
  rw [← Nat.le_div_iff_mul_le hd, sticky]
  split <;> omega

private theorem lt_sticky_iff (hd : 0 < d) : 2 * b < sticky n d ↔ b * d < n := by
  have hsplit : d * (n / d) + n % d = n := Nat.div_add_mod n d
  unfold sticky
  split
  · rename_i hrest
    rw [hrest, Nat.add_zero] at hsplit
    conv_rhs => rw [← hsplit, Nat.mul_comm d]
    rw [Nat.mul_lt_mul_right hd]
    omega
  · have hle : b ≤ n / d ↔ b * d ≤ n := Nat.le_div_iff_mul_le hd
    have hne : b * d ≠ n := by
      rintro rfl
      simp at *
    omega

private theorem contains_sticky {q : Quarters} {t : Nat} (hd : 0 < d)
    (h : Contains q (n / (d * 2 ^ t : Nat))) : Contains q (sticky n d / (2 ^ (t + 1) : Nat)) := by
  rw [contains_div_iff (Nat.mul_pos hd (Nat.two_pow_pos t))] at h
  rw [contains_div_iff (Nat.two_pow_pos _)]
  have hscale : ∀ x, x * 2 ^ (t + 1) = 2 * (x * 2 ^ t) := by
    intro x
    rw [Nat.pow_succ]
    ring
  have hassoc : ∀ x, x * (d * 2 ^ t) = x * 2 ^ t * d := by
    intro x
    ring
  simp only [hassoc] at h
  simp only [hscale]
  split at h <;> rename_i hclosed
  · rw [if_pos hclosed]
    exact ⟨(le_sticky_iff hd).2 h.1, Nat.le_of_not_lt fun hlt => by have := (lt_sticky_iff hd).1 hlt; omega⟩
  · rw [if_neg hclosed]
    exact ⟨(lt_sticky_iff hd).2 h.1, Nat.lt_of_not_le fun hle => by have := (le_sticky_iff hd).1 hle; omega⟩

/-- A ratio is at least one part of its denominator, so the last place of its number is not far below that. -/
private theorem le_exponent_of_contains (hfits : m < 2 ^ f.precision) (hm : 0 < m) (hd : 0 < d)
    (h : Contains (Quarters.ofNumber f m e) (n / d / 2 ^ (e - 2))) : -(d.log2 + f.precision : Int) ≤ e := by
  have hd' : (0 : ℚ) < d := by exact_mod_cast hd
  have hn : 0 < n := by
    by_contra hzero
    obtain rfl : n = 0 := by omega
    have hpos := h.pos hm
    simp at hpos
  have hn' : (1 : ℚ) ≤ n := by exact_mod_cast hn
  have hhigh : ((Quarters.ofNumber f m e).high : ℚ) < 2 ^ ((f.precision + 2 : Nat) : Int) := by
    have hlt : 4 * m + 2 < 2 ^ (f.precision + 2) := by
      rw [Nat.pow_add]
      omega
    rw [zpow_natCast]
    exact_mod_cast hlt
  have hpart : (d : ℚ) < 2 ^ ((d.log2 + 1 : Nat) : Int) := by
    rw [zpow_natCast]
    exact_mod_cast Nat.lt_log2_self
  have hle := h.le_high.trans_lt hhigh
  rw [div_lt_iff₀ (by positivity), div_lt_iff₀ hd', ← zpow_add₀ two_ne_zero] at hle
  -- one is at most the numerator, and that is below the upper bound times the denominator
  have hprod : (1 : ℚ) < 2 ^ (((f.precision + 2 : Nat) : Int) + (e - 2) + ((d.log2 + 1 : Nat) : Int)) := by
    rw [zpow_add₀ two_ne_zero]
    refine lt_of_le_of_lt hn' (hle.trans ?_)
    exact mul_lt_mul_of_pos_left hpart (by positivity)
  have hexponent := (one_lt_zpow_iff_right₀ one_lt_two).1 hprod
  omega

/-- A ratio in the interval of a number is rounded to it. -/
theorem roundRatio_eq (hcanonical : f.IsCanonical m e) (hm : 0 < m) (hd : 0 < d)
    (h : Contains (Quarters.ofNumber f m e) (n / d / 2 ^ (e - 2))) :
    f.roundRatio negative n d = .finite negative m e := by
  have hd' : (0 : ℚ) < d := by exact_mod_cast hd
  have hplace := le_exponent_of_contains hcanonical.fits hm hd h
  set scale := d.log2 + f.precision + 3 with hscale
  obtain ⟨t, ht⟩ := Int.eq_ofNat_of_zero_le (show 0 ≤ e - 3 + scale + 1 by omega)
  have hratio : (n : ℚ) / d / 2 ^ (e - 2) = (n * 2 ^ scale : Nat) / (d * 2 ^ t : Nat) := by
    have he : e - 2 = (t : Int) - scale := by omega
    rw [he, zpow_sub₀ two_ne_zero, zpow_natCast, zpow_natCast]
    push_cast
    field_simp
  rw [hratio] at h
  have hround : f.round negative (sticky (n * 2 ^ scale) d) (e - 2 - (t + 1 : Nat)) = .finite negative m e :=
    round_eq hcanonical hm (contains_sticky hd h)
  have he : e - 2 - (t + 1 : Nat) = -(scale : Int) - 1 := by omega
  rw [he] at hround
  exact hround

end HaxeBackend.Binary
