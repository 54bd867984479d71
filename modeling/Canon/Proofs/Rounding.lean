import Canon.Double.Shortest
import Mathlib.Algebra.Order.Field.Power
import Mathlib.Data.Rat.Cast.Order
import Mathlib.Order.Compare
import Mathlib.Order.Monotone.Basic
import Mathlib.Tactic.FieldSimp
import Mathlib.Tactic.Linarith
import Mathlib.Tactic.NormNum
import Mathlib.Tactic.Positivity
import Mathlib.Tactic.Ring

/-!
# The reals that round to a double

Every finite double has an interval of reals that round to its absolute value. The intervals of neighbours meet in one
point, which belongs to one of them only. The shortest decimal of a double lies in its interval, so no other double of
the same sign has it.
-/

namespace Canon

def Binary.value (b : Binary) : ℚ := b.mantissa * 2 ^ b.exponent

def Decimal.value (d : Decimal) : ℚ := d.digits * 10 ^ d.exponent

theorem cast_twoTo (n : Nat) : (twoTo n : ℚ) = 2 ^ n := Nat.cast_pow 2 n

theorem cast_tenTo (n : Nat) : (tenTo n : ℚ) = 10 ^ n := Nat.cast_pow 10 n

/-! ## Comparing decimals with binaries -/

theorem zpow_toNat {x : ℚ} (hx : x ≠ 0) (i : Int) : x ^ i * x ^ (-i).toNat = x ^ i.toNat := by
  rw [← zpow_natCast, ← zpow_natCast, ← zpow_add₀ hx]
  congr 1
  omega

theorem compare_mul {x y c : ℚ} (hc : 0 < c) : compare (x * c) (y * c) = compare x y := by
  simp only [LinearOrder.compare_eq_compareOfLessAndEq, compareOfLessAndEq, mul_lt_mul_iff_of_pos_right hc,
    mul_left_inj' hc.ne']

theorem compare_cast (a b : Nat) : compare (a : ℚ) (b : ℚ) = compare a b := by
  simp only [LinearOrder.compare_eq_compareOfLessAndEq, compareOfLessAndEq, Nat.cast_lt, Nat.cast_inj]

theorem compareScaled_eq (a : Nat) (i : Int) (b : Nat) (j : Int) :
    compareScaled a i b j = compare ((a : ℚ) * 10 ^ i) (b * 2 ^ j) := by
  have hten := zpow_toNat (by norm_num : (10 : ℚ) ≠ 0) i
  have htwo := zpow_toNat (by norm_num : (2 : ℚ) ≠ 0) j
  have hpos : (0 : ℚ) < 10 ^ (-i).toNat * 2 ^ (-j).toNat := by positivity
  refine Eq.trans ?_ (compare_mul hpos)
  rw [compareScaled, ← compare_cast]
  push_cast
  rw [cast_twoTo, cast_twoTo, cast_tenTo, cast_tenTo, ← hten, ← htwo]
  congr 1 <;> ring

namespace Double

/-! ## Intervals -/

/-- The bits below the sign. The doubles of one sign are ordered by them. -/
def rank (x : Double) : Nat := x.bits.toNat % twoTo 63

def binaryAt (n : Nat) : Binary :=
  if n / twoTo 52 = 0 then ⟨n % twoTo 52, -1074⟩ else ⟨twoTo 52 + n % twoTo 52, (n / twoTo 52 : Nat) - 1075⟩

/-- Where the reals begin that round to the double of a rank. -/
def lowAt (n : Nat) : ℚ :=
  ((4 * (binaryAt n).mantissa - (if n % twoTo 52 = 0 ∧ 1 < n / twoTo 52 then 1 else 2) : Nat) : ℚ) *
    2 ^ ((binaryAt n).exponent - 2)

def highAt (n : Nat) : ℚ := ((4 * (binaryAt n).mantissa + 2 : Nat) : ℚ) * 2 ^ ((binaryAt n).exponent - 2)

/-- The ends belong to the interval if the rank is even. -/
def Covers (n : Nat) (v : ℚ) : Prop :=
  (lowAt n < v ∨ n % 2 = 0 ∧ v = lowAt n) ∧ (v < highAt n ∨ n % 2 = 0 ∧ v = highAt n)

theorem exponentField_eq (x : Double) : x.exponentField = x.rank / twoTo 52 := by
  simp only [exponentField, rank, twoTo, Nat.pow_eq, Nat.reducePow]
  omega

theorem fractionField_eq (x : Double) : x.fractionField = x.rank % twoTo 52 := by
  simp only [fractionField, rank, twoTo, Nat.pow_eq, Nat.reducePow]
  omega

theorem magnitude_eq (x : Double) : x.magnitude = binaryAt x.rank := by
  rw [magnitude, exponentField_eq, fractionField_eq, binaryAt]

theorem mantissa_parity (n : Nat) : (binaryAt n).mantissa % 2 = n % 2 := by
  unfold binaryAt
  split
  · simp only [twoTo, Nat.pow_eq, Nat.reducePow]
    omega
  · simp only [twoTo, Nat.pow_eq, Nat.reducePow]
    omega

theorem readsBack_iff (x : Double) (d : Decimal) : x.readsBack d = true ↔ Covers x.rank d.value := by
  simp only [readsBack, compareScaled_eq, magnitude_eq, narrowsBelow, exponentField_eq, fractionField_eq]
  rw [mantissa_parity]
  simp only [Bool.and_eq_true, Bool.or_eq_true, beq_iff_eq, decide_eq_true_eq, compare_gt_iff_gt, compare_lt_iff_lt,
    compare_eq_iff_eq, Covers, lowAt, highAt, Decimal.value]

/-! ## Neighbours -/

theorem binaryAt_subnormal {n : Nat} (h : n / twoTo 52 = 0) : binaryAt n = ⟨n % twoTo 52, -1074⟩ := by
  rw [binaryAt, if_pos h]

theorem binaryAt_normal {n : Nat} (h : n / twoTo 52 ≠ 0) :
    binaryAt n = ⟨twoTo 52 + n % twoTo 52, (n / twoTo 52 : Nat) - 1075⟩ := by
  rw [binaryAt, if_neg h]

theorem highAt_eq (n : Nat) : highAt n = lowAt (n + 1) := by
  have htwo : twoTo 52 = 4503599627370496 := rfl
  unfold highAt lowAt
  by_cases hcarry : n % twoTo 52 + 1 < twoTo 52
  · -- Both have the same exponent.
    have hdiv : (n + 1) / twoTo 52 = n / twoTo 52 := by rw [htwo] at *; omega
    have hmod : (n + 1) % twoTo 52 = n % twoTo 52 + 1 := by rw [htwo] at *; omega
    have hfraction : ¬ ((n + 1) % twoTo 52 = 0 ∧ 1 < (n + 1) / twoTo 52) := by omega
    rw [if_neg hfraction]
    by_cases hsub : n / twoTo 52 = 0
    · rw [binaryAt_subnormal hsub, binaryAt_subnormal (hdiv.trans hsub), hmod]
      rfl
    · rw [binaryAt_normal hsub, binaryAt_normal (hdiv ▸ hsub), hmod, hdiv]
      rfl
  · -- The next one has no fraction and the next exponent.
    have hdiv : (n + 1) / twoTo 52 = n / twoTo 52 + 1 := by rw [htwo] at *; omega
    have hmod : (n + 1) % twoTo 52 = 0 := by rw [htwo] at *; omega
    have hlast : n % twoTo 52 = twoTo 52 - 1 := by rw [htwo] at *; omega
    have hnormal : (n + 1) / twoTo 52 ≠ 0 := by rw [hdiv]; exact Nat.succ_ne_zero _
    rw [binaryAt_normal hnormal, hmod, hdiv]
    by_cases hsub : n / twoTo 52 = 0
    · rw [binaryAt_subnormal hsub, hsub, hlast, htwo]
      norm_num
    · rw [binaryAt_normal hsub, if_pos ⟨rfl, Nat.succ_lt_succ (Nat.pos_of_ne_zero hsub)⟩, hlast, htwo]
      have hstep : ((n / 4503599627370496 + 1 : Nat) : Int) - 1075 - 2 =
          ((n / 4503599627370496 : Nat) : Int) - 1075 - 2 + 1 := by omega
      rw [hstep, zpow_add_one₀ two_ne_zero]
      norm_num
      ring

theorem mantissa_pos {n : Nat} (h : 0 < n) : 0 < (binaryAt n).mantissa := by
  have htwo : twoTo 52 = 4503599627370496 := rfl
  by_cases hsub : n / twoTo 52 = 0
  · rw [binaryAt_subnormal hsub]
    simp only [htwo] at *
    omega
  · rw [binaryAt_normal hsub]
    simp only [htwo]
    omega

theorem lowAt_lt_highAt (n : Nat) : lowAt n < highAt n := by
  unfold lowAt highAt
  refine mul_lt_mul_of_pos_right (Nat.cast_lt.mpr ?_) (by positivity)
  omega

theorem lowAt_strictMono : StrictMono lowAt :=
  strictMono_nat_of_lt_succ fun n => by
    rw [← highAt_eq]
    exact lowAt_lt_highAt n

theorem lowAt_pos {n : Nat} (h : 0 < n) : 0 < lowAt n := by
  have hmantissa := mantissa_pos h
  unfold lowAt
  refine mul_pos (Nat.cast_pos.mpr ?_) (by positivity)
  split <;> omega

theorem not_covers_of_lt {m n : Nat} {v : ℚ} (hlt : m < n) (hm : Covers m v) : ¬ Covers n v := by
  intro hn
  have hle : highAt m ≤ lowAt n := by
    rw [highAt_eq]
    exact lowAt_strictMono.monotone hlt
  have hbelow : v ≤ highAt m := hm.2.elim le_of_lt fun h => h.2.le
  have habove : lowAt n ≤ v := hn.1.elim le_of_lt fun h => h.2.ge
  -- The two intervals can only meet where both end, and then the ranks are neighbours.
  have hmeet : lowAt (m + 1) = lowAt n := by
    rw [← highAt_eq]
    exact le_antisymm hle (habove.trans hbelow)
  have hnext := lowAt_strictMono.injective hmeet
  have hmeven : m % 2 = 0 := hm.2.elim (fun h => absurd (habove.trans_lt h) (not_lt.mpr hle)) And.left
  have hneven : n % 2 = 0 := hn.1.elim (fun h => absurd (h.trans_le hbelow) (not_lt.mpr hle)) And.left
  omega

theorem covers_unique {m n : Nat} {v : ℚ} (hm : Covers m v) (hn : Covers n v) : m = n := by
  rcases Nat.lt_trichotomy m n with h | h | h
  · exact absurd hn (not_covers_of_lt h hm)
  · exact h
  · exact absurd hm (not_covers_of_lt h hn)

/-! ## The shortest decimal -/

theorem strip_value (fuel : Nat) (d : Decimal) : (d.strip fuel).value = d.value := by
  induction fuel generalizing d with
  | zero => rfl
  | succ fuel ih =>
    unfold Decimal.strip
    split
    · rename_i hzero
      simp only [Bool.and_eq_true, decide_eq_true_eq] at hzero
      have hdigits : (d.digits : ℚ) = (d.digits / 10 : Nat) * 10 := by
        exact_mod_cast (Nat.div_mul_cancel (Nat.dvd_of_mod_eq_zero hzero.2)).symm
      rw [ih, Decimal.value, Decimal.value, zpow_add_one₀ (by norm_num), hdigits]
      ring
    · rfl

theorem atPlace_reads {x : Double} {e : Int} {d : Decimal} (h : x.atPlace e = some d) : x.readsBack d = true := by
  simp only [atPlace] at h
  split at h
  · split at h <;> (cases h; assumption)
  · cases h; assumption
  · cases h; assumption
  · cases h

theorem atPlace_none {x : Double} {e : Int} (h : x.atPlace e = none) :
    x.readsBack ⟨floorAt x.magnitude e, e⟩ = false ∧ x.readsBack ⟨floorAt x.magnitude e + 1, e⟩ = false := by
  simp only [atPlace] at h
  split at h
  · split at h <;> cases h
  · cases h
  · cases h
  · exact ⟨by assumption, by assumption⟩

theorem floorAt_bounds (b : Binary) (e : Int) :
    (floorAt b e : ℚ) * 10 ^ e ≤ b.value ∧ b.value < (floorAt b e + 1 : Nat) * 10 ^ e := by
  have hten := zpow_toNat (by norm_num : (10 : ℚ) ≠ 0) e
  have htwo := zpow_toNat (by norm_num : (2 : ℚ) ≠ 0) b.exponent
  have hpos : (0 : ℚ) < 10 ^ (-e).toNat * 2 ^ (-b.exponent).toNat := by positivity
  generalize hnum : b.mantissa * twoTo b.exponent.toNat * tenTo (-e).toNat = num
  generalize hden : tenTo e.toNat * twoTo (-b.exponent).toNat = den
  have hfloor : floorAt b e = num / den := by rw [floorAt, hnum, hden]
  have hnumQ : (num : ℚ) = b.value * (10 ^ (-e).toNat * 2 ^ (-b.exponent).toNat) := by
    rw [← hnum, Nat.cast_mul, Nat.cast_mul, cast_twoTo, cast_tenTo, ← htwo, Binary.value]
    ring
  have hdenQ : (den : ℚ) = 10 ^ e * (10 ^ (-e).toNat * 2 ^ (-b.exponent).toNat) := by
    rw [← hden, Nat.cast_mul, cast_twoTo, cast_tenTo, ← hten]
    ring
  have hdenpos : 0 < den := by
    have : (0 : ℚ) < den := by rw [hdenQ]; positivity
    exact_mod_cast this
  have hbelow : ((num / den : Nat) : ℚ) * den ≤ num := by exact_mod_cast Nat.div_mul_le_self num den
  have habove : (num : ℚ) < den * (num / den + 1 : Nat) := by exact_mod_cast Nat.lt_mul_div_succ num hdenpos
  rw [hnumQ, hdenQ] at hbelow habove
  rw [hfloor]
  constructor
  · refine le_of_mul_le_mul_right ?_ hpos
    linarith
  · refine lt_of_mul_lt_mul_right ?_ hpos.le
    linarith

theorem ten_pow_le_two_pow : ∀ n < 1024, 10 ^ (n * 30103 / 100000 - 1) ≤ 2 ^ n := by decide +kernel

theorem two_pow_le_ten_pow : ∀ n < 1075, 2 ^ n ≤ 10 ^ ((n * 30103 + 99999) / 100000 + 1) := by decide +kernel

theorem log_estimate {log : Int} (hlow : -1074 ≤ log) (hhigh : log < 1024) :
    (10 : ℚ) ^ (log * 30103 / 100000 - 1) ≤ 2 ^ log := by
  rcases le_or_gt 0 log with hsign | hsign
  · obtain ⟨n, rfl⟩ := Int.eq_ofNat_of_zero_le hsign
    calc (10 : ℚ) ^ ((n : Int) * 30103 / 100000 - 1)
        ≤ 10 ^ ((n * 30103 / 100000 - 1 : Nat) : Int) := zpow_le_zpow_right₀ (by norm_num) (by omega)
      _ ≤ 2 ^ (n : Int) := by
          rw [zpow_natCast, zpow_natCast]
          exact_mod_cast ten_pow_le_two_pow n (by omega)
  · obtain ⟨n, hn⟩ := Int.eq_ofNat_of_zero_le (by omega : 0 ≤ -log)
    have hlog : log * 30103 / 100000 - 1 = -(((n * 30103 + 99999) / 100000 + 1 : Nat) : Int) := by omega
    rw [hlog, show log = -(n : Int) by omega, zpow_neg, zpow_neg, zpow_natCast, zpow_natCast]
    refine inv_anti₀ (by positivity) ?_
    exact_mod_cast two_pow_le_ten_pow n (by omega)

theorem floorLogTen_le {b : Binary} (hpos : b.mantissa ≠ 0) (hmantissa : b.mantissa < 2 ^ 53)
    (hlow : -1074 ≤ b.exponent) (hhigh : b.exponent ≤ 971) : (10 : ℚ) ^ floorLogTen b ≤ b.value := by
  have hcompare (k : Int) : compareScaled 1 k b.mantissa b.exponent ≠ .gt ↔ (10 : ℚ) ^ k ≤ b.value := by
    rw [compareScaled_eq, Ne, compare_gt_iff_gt, not_lt, Nat.cast_one, one_mul, Binary.value]
  simp only [floorLogTen]
  split
  · rename_i h
    exact (hcompare _).mp (by simpa using h)
  · split
    · have hlog : b.mantissa.log2 < 53 := (Nat.log2_lt hpos).mpr hmantissa
      have hpower : (2 : ℚ) ^ b.mantissa.log2 ≤ b.mantissa := by exact_mod_cast Nat.log2_self_le hpos
      calc (10 : ℚ) ^ (((b.mantissa.log2 : Int) + b.exponent) * 30103 / 100000 - 1)
          ≤ 2 ^ ((b.mantissa.log2 : Int) + b.exponent) := log_estimate (by omega) (by omega)
        _ = 2 ^ b.mantissa.log2 * 2 ^ b.exponent := by rw [zpow_add₀ two_ne_zero, zpow_natCast]
        _ ≤ b.value := mul_le_mul_of_nonneg_right hpower (by positivity)
    · rename_i h
      exact (hcompare _).mp (by simpa using h)

theorem binaryAt_bounds {n : Nat} (hfinite : n < 2047 * twoTo 52) :
    (binaryAt n).mantissa < 2 ^ 53 ∧ -1074 ≤ (binaryAt n).exponent ∧ (binaryAt n).exponent ≤ 971 := by
  have htwo : twoTo 52 = 4503599627370496 := rfl
  by_cases hsub : n / twoTo 52 = 0
  · rw [binaryAt_subnormal hsub]
    simp only [htwo] at *
    omega
  · rw [binaryAt_normal hsub]
    simp only [htwo] at *
    omega

theorem value_eq (b : Binary) : b.value = (4 * b.mantissa : Nat) * 2 ^ (b.exponent - 2) := by
  rw [Binary.value, zpow_sub₀ two_ne_zero]
  push_cast
  ring

theorem value_mem {n : Nat} (hpos : 0 < n) : lowAt n < (binaryAt n).value ∧ (binaryAt n).value < highAt n := by
  have hmantissapos := mantissa_pos hpos
  rw [value_eq, highAt, lowAt]
  constructor <;> refine mul_lt_mul_of_pos_right (Nat.cast_lt.mpr ?_) (by positivity)
  · split <;> omega
  · omega

theorem value_lt_width {n : Nat} (hpos : 0 < n) (hfinite : n < 2047 * twoTo 52) :
    (binaryAt n).value < 10 ^ 16 * (highAt n - lowAt n) := by
  obtain ⟨hmantissa, -, -⟩ := binaryAt_bounds hfinite
  rw [value_eq, highAt, lowAt, ← sub_mul, ← mul_assoc]
  refine mul_lt_mul_of_pos_right ?_ (by positivity)
  have hmantissapos := mantissa_pos hpos
  split
  · rename_i hnarrow
    have hpower : (binaryAt n).mantissa = 4503599627370496 := by
      rw [binaryAt_normal (by omega), hnarrow.1]
      rfl
    rw [hpower]
    norm_num
  · rw [Nat.cast_sub (by omega)]
    have hmantissaQ : ((binaryAt n).mantissa : ℚ) < 2 ^ 53 := by exact_mod_cast hmantissa
    push_cast
    linarith

theorem covers_neighbour {n : Nat} {below above : ℚ} (hbelow : below < highAt n) (habove : lowAt n < above)
    (hclose : above - below < highAt n - lowAt n) : Covers n below ∨ Covers n above := by
  rcases lt_or_ge (lowAt n) below with h | h
  · exact Or.inl ⟨Or.inl h, Or.inl hbelow⟩
  · exact Or.inr ⟨Or.inl habove, Or.inl (by linarith)⟩

theorem atPlace_ne_none {x : Double} (hpos : 0 < x.rank) (hfinite : x.rank < 2047 * twoTo 52) :
    x.atPlace (floorLogTen x.magnitude - 16) ≠ none := by
  intro hnone
  obtain ⟨hbelow, habove⟩ := atPlace_none hnone
  obtain ⟨hmantissa, hexplow, hexphigh⟩ := binaryAt_bounds hfinite
  have hlog := floorLogTen_le (mantissa_pos hpos).ne' hmantissa hexplow hexphigh
  obtain ⟨hlow, hhigh⟩ := value_mem hpos
  have hwidth := value_lt_width hpos hfinite
  obtain ⟨hfloor, hceil⟩ := floorAt_bounds x.magnitude (floorLogTen x.magnitude - 16)
  have hgap : (10 : ℚ) ^ floorLogTen x.magnitude = 10 ^ 16 * 10 ^ (floorLogTen x.magnitude - 16) := by
    rw [zpow_sub₀ (by norm_num)]
    norm_num
    ring
  rw [magnitude_eq] at *
  rw [hgap] at hlog
  refine (covers_neighbour (hfloor.trans_lt hhigh) (hlow.trans hceil) ?_).elim
    (fun h => ?_) fun h => ?_
  · push_cast
    linarith
  · exact Bool.eq_false_iff.mp hbelow ((readsBack_iff x _).mpr h)
  · exact Bool.eq_false_iff.mp habove ((readsBack_iff x _).mpr h)

/-- The shortest decimal of a double other than zero rounds to it. -/
theorem shortest_covers {x : Double} (hpos : 0 < x.rank) (hfinite : x.rank < 2047 * twoTo 52) :
    Covers x.rank x.shortest.value := by
  have hmantissa : x.magnitude.mantissa ≠ 0 := by
    rw [magnitude_eq]
    exact (mantissa_pos hpos).ne'
  rw [shortest, if_neg hmantissa]
  simp only
  split
  · rename_i d hfound
    obtain ⟨n, -, hplace⟩ := List.exists_of_findSome?_eq_some hfound
    rw [strip_value]
    exact (readsBack_iff x d).mp (atPlace_reads hplace)
  · rename_i hfound
    have hlast := List.findSome?_eq_none_iff.mp hfound 16 (by decide)
    exact absurd hlast (atPlace_ne_none hpos hfinite)

theorem shortest_zero {x : Double} (hzero : x.rank = 0) : x.shortest.value = 0 := by
  have hmantissa : x.magnitude.mantissa = 0 := by
    rw [magnitude_eq, hzero]
    rfl
  rw [shortest, if_pos hmantissa]
  simp [Decimal.value]

theorem rank_eq_of_shortest {x y : Double} (hx : x.rank < 2047 * twoTo 52) (hy : y.rank < 2047 * twoTo 52)
    (h : x.shortest.value = y.shortest.value) : x.rank = y.rank := by
  have hpositive {z : Double} (hpos : 0 < z.rank) (hz : z.rank < 2047 * twoTo 52) : 0 < z.shortest.value := by
    have hcovers := (shortest_covers hpos hz).1
    have hlow := lowAt_pos hpos
    exact hcovers.elim hlow.trans fun h => by rw [h.2]; exact hlow
  rcases Nat.eq_zero_or_pos x.rank with hx0 | hx0 <;> rcases Nat.eq_zero_or_pos y.rank with hy0 | hy0
  · rw [hx0, hy0]
  · rw [shortest_zero hx0] at h
    exact absurd h (hpositive hy0 hy).ne
  · rw [shortest_zero hy0] at h
    exact absurd h (hpositive hx0 hx).ne'
  · have hcovers := shortest_covers hx0 hx
    rw [h] at hcovers
    exact covers_unique hcovers (shortest_covers hy0 hy)

end Double

end Canon
