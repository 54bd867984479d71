import Canon.Double.Reading
import Canon.Json.Record
import Canon.Proofs.DoubleText

/-!
# Integers never overflow

An integer of 64 bits is read as a double, too, and that double is always finite: rounding stays within a few places of
the quotient that is rounded.
-/

namespace Canon

theorem roundHalfEven_le (num den : Nat) : roundHalfEven num den ≤ num / den + 1 := by
  unfold roundHalfEven
  dsimp only
  split_ifs <;> omega

theorem floorLogTwo_bounds (num den : Nat) :
    (num.log2 : Int) - den.log2 - 1 ≤ floorLogTwo num den ∧ floorLogTwo num den ≤ (num.log2 : Int) - den.log2 := by
  unfold floorLogTwo
  dsimp only
  split_ifs <;> omega

theorem kept_lt {num den : Nat} (hden : 0 < den) {q : Int} (hq : (num.log2 : Int) - den.log2 - 53 ≤ q) :
    num * twoTo (-q).toNat / (den * twoTo q.toNat) < 2 ^ 54 := by
  have hnum : num < 2 ^ (num.log2 + 1) := Nat.lt_log2_self
  have hlog : 2 ^ den.log2 ≤ den := Nat.log2_self_le (by omega)
  have hplaces : num.log2 + 1 + (-q).toNat ≤ den.log2 + q.toNat + 54 := by omega
  apply Nat.div_lt_of_lt_mul
  calc num * twoTo (-q).toNat < 2 ^ (num.log2 + 1) * 2 ^ (-q).toNat :=
        Nat.mul_lt_mul_of_pos_right hnum (Nat.two_pow_pos _)
    _ = 2 ^ (num.log2 + 1 + (-q).toNat) := (Nat.pow_add ..).symm
    _ ≤ 2 ^ (den.log2 + q.toNat + 54) := Nat.pow_le_pow_right (by decide) hplaces
    _ = 2 ^ den.log2 * 2 ^ q.toNat * 2 ^ 54 := by rw [Nat.pow_add, Nat.pow_add]
    _ ≤ den * twoTo q.toNat * 2 ^ 54 := Nat.mul_le_mul_right _ (Nat.mul_le_mul_right _ hlog)

theorem log_le {num den k : Nat} (h : num < den * 2 ^ k) : num.log2 ≤ den.log2 + k := by
  rcases Nat.eq_zero_or_pos num with rfl | hpos
  · exact Nat.zero_le _
  · have hlt : 2 ^ num.log2 < 2 ^ (den.log2 + 1 + k) := calc
      2 ^ num.log2 ≤ num := Nat.log2_self_le (by omega)
      _ < den * 2 ^ k := h
      _ ≤ 2 ^ (den.log2 + 1) * 2 ^ k := Nat.mul_le_mul_right _ Nat.lt_log2_self.le
      _ = 2 ^ (den.log2 + 1 + k) := (Nat.pow_add ..).symm
    have hlogs := (Nat.pow_lt_pow_iff_right (by decide)).mp hlt
    omega

namespace Double

theorem nearestBits_lt {num den k : Nat} (hden : 0 < den) (h : num < den * 2 ^ k) :
    nearestBits num den < (k + 1030) * twoTo 52 := by
  have hlog := log_le h
  obtain ⟨hlow, hhigh⟩ := floorLogTwo_bounds num den
  have hkept : ∀ q : Int, floorLogTwo num den - 52 ≤ q →
      roundHalfEven (num * twoTo (-q).toNat) (den * twoTo q.toNat) ≤ 4 * twoTo 52 := fun q hq =>
    (roundHalfEven_le _ _).trans (kept_lt hden (by omega))
  unfold nearestBits
  dsimp only
  have hrounded := hkept (max (floorLogTwo num den - 52) (-1074)) (le_max_left _ _)
  have hplace : (max (floorLogTwo num den - 52) (-1074) + 1075).toNat ≤ k + 1024 := by omega
  have hscaled := Nat.mul_le_mul_right (twoTo 52) hplace
  have hbound : (k + 1030) * twoTo 52 = (k + 1024) * twoTo 52 + 6 * twoTo 52 := by ring
  have hpos : 0 < twoTo 52 := Nat.two_pow_pos 52
  generalize twoTo 52 = unit at *
  split_ifs <;> omega

theorem rank_nearest {num den k : Nat} (hden : 0 < den) (h : num < den * 2 ^ k) (hk : k + 1030 ≤ 2047) :
    (nearest num den).rank < (k + 1030) * twoTo 52 := by
  have hbits := nearestBits_lt hden h
  have hbound : (k + 1030) * twoTo 52 ≤ 2047 * twoTo 52 := Nat.mul_le_mul_right _ hk
  have hlimit : 2047 * twoTo 52 < twoTo 63 := by decide
  have hmin : min (nearestBits num den) infinityBits = nearestBits num den :=
    Nat.min_eq_left (hbits.le.trans hbound)
  have hword : twoTo 63 < UInt64.size := by decide
  have hrank : (nearest num den).rank = nearestBits num den := by
    rw [nearest, hmin, rank, ofMagnitudeBits, if_neg (by decide), UInt64.toNat_ofNat_of_lt' (by omega),
      Nat.mod_eq_of_lt (by omega)]
  rwa [hrank]

theorem exponent_nearest {n : Nat} (h : n < 2 ^ 64) : (nearest n 1).magnitude.exponent ≤ 18 := by
  have hrank : (nearest n 1).rank < (64 + 1030) * twoTo 52 := rank_nearest (by decide) (by omega) (by decide)
  have hfield : (nearest n 1).rank / twoTo 52 < 64 + 1030 := (Nat.div_lt_iff_lt_mul (by decide)).mpr hrank
  rw [magnitude_eq, binaryAt]
  split_ifs <;> dsimp only <;> omega

theorem mantissa_nearest {n : Nat} (h : n < 2 ^ 64) : (nearest n 1).magnitude.mantissa < 2 ^ 53 := by
  have hrank : (nearest n 1).rank < (64 + 1030) * twoTo 52 := rank_nearest (by decide) (by omega) (by decide)
  rw [magnitude_eq]
  exact (binaryAt_bounds (hrank.trans (by decide))).1

theorem scaleUp?_isSome {n : Nat} (h : n < 2 ^ 64) : ((nearest n 1).scaleUp? 0).isSome = true := by
  have hone : (powerOfTen 0).magnitude = ⟨2 ^ 52, -52⟩ := by decide
  have hfinite : ((nearest n 1).product (powerOfTen 0)).isFinite = true := by
    have hexponent := exponent_nearest h
    have hplaces : ((nearest n 1).magnitude.exponent + -52).toNat = 0 := by omega
    rw [isFinite_iff, product, hone, nearestScaled, hplaces]
    refine (@rank_nearest _ _ 105 (Nat.mul_pos Nat.one_pos (Nat.two_pow_pos _)) ?_ (by decide)).trans (by decide)
    have hmantissa := mantissa_nearest h
    have hpos : 0 < twoTo (-((nearest n 1).magnitude.exponent + -52)).toNat := Nat.two_pow_pos _
    calc _ = (nearest n 1).magnitude.mantissa * 2 ^ 52 := Nat.mul_one _
      _ < 2 ^ 105 := by omega
      _ ≤ _ := Nat.le_mul_of_pos_left _ (Nat.mul_pos Nat.one_pos hpos)
  unfold scaleUp?
  simp only [if_neg (by decide : ¬ maxPower < 0), hfinite, if_true]
  split_ifs <;> rfl

end Double

theorem Json.double?_ofInt_isSome {n : Int} (h : n.natAbs < 2 ^ 64) : (Json.Number.ofInt n).double?.isSome = true := by
  have hroom : n.natAbs ≤ maxGathered := by unfold maxGathered UInt64.size; omega
  have hgather : (Json.Number.ofInt n).numeral.gather = ⟨n.natAbs, 0⟩ := by
    rw [Json.Number.ofInt, Numeral.gather, Gathered.ofWhole, if_pos hroom]
    rfl
  rw [Json.Number.double?, Double.read?, hgather]
  simp only [le_refl, if_true, Option.isSome_map]
  exact Double.scaleUp?_isSome h

end Canon
