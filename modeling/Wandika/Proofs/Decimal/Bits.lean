import Mathlib
import Wandika.Decimal.Reading

/-!
# The bits of number literals

A double is its bits, and the bits of a literal are those of a number that is not negative.

* `toNat_toBits_ofBits`: bits up to those of infinity make a double with just these bits;
* `Literal`: the doubles that digits with an optional fraction are read as;
* `Canonical`: mantissas and exponents that belong to doubles;
* `Literal.cases`: a literal is infinite or has canonical parts that its bits are made of.
-/

namespace Wandika.Decimal

open Float.Model (Format UnpackedFloat)
open Float.Model.UnpackedFloat

/-! ### Bits of doubles -/

theorem eq_of_toBits_eq {x y : Float} (h : x.toBits = y.toBits) : x = y := by
  obtain ⟨⟨a, ha⟩⟩ := x
  obtain ⟨⟨b, hb⟩⟩ := y
  cases h
  rfl

theorem toBitVec_ofBitVec (s : BitVec 1) : (Sign.ofBitVec s).toBitVec = s := by
  revert s
  decide

/-- Sign, exponent and mantissa of a bit pattern make it up. -/
theorem packComponents_unpack {b : BitVec Format.binary64.numBits} {exponent : BitVec 11}
    {mantissa : BitVec 52} (he : unpackExponent b = exponent) (hm : unpackMantissa b = mantissa) :
    packComponents Format.binary64 (Sign.ofBitVec (unpackSign b)) exponent mantissa = b := by
  subst he hm
  ext i hi
  simp only [packComponents, toBitVec_ofBitVec, unpackSign, unpackExponent, unpackMantissa,
    BitVec.getElem_append, BitVec.getElem_cast, BitVec.extractLsb, BitVec.getElem_extractLsb']
  split_ifs
  · simp [BitVec.getLsbD_eq_getElem, hi]
  · rw [show 52 + (i - 52) = i by omega, BitVec.getLsbD_eq_getElem]
  · rw [show 52 + 11 + (i - 52 - 11) = i by omega, BitVec.getLsbD_eq_getElem]

theorem pack_subnormal (s : Sign) {m : Nat} {e : Int} (hm : 0 < m) (hlt : m < 2 ^ 52)
    (he : e = -1074) :
    pack Format.binary64 (.finite s m e hm) =
      packComponents Format.binary64 s 0#_ (BitVec.ofNat _ m) := by
  have hlog : m.log2 + 1 ≠ Format.binary64.mantissaBits := by
    have := (Nat.log2_lt hm.ne').2 hlt
    show m.log2 + 1 ≠ 53
    omega
  subst he
  rw [pack, if_neg (by decide), if_neg hlog]

theorem pack_normal (s : Sign) (exponent : Nat) {m : Nat} {e : Int} (hm : 0 < m)
    (hle : 2 ^ 52 ≤ m) (hlt : m < 2 ^ 53) (hexp : exponent < 2047) (he : e = exponent - 1075) :
    pack Format.binary64 (.finite s m e hm) =
      packComponents Format.binary64 s (BitVec.ofNat _ exponent) (BitVec.ofNat _ m) := by
  have hlog : m.log2 = 52 := (Nat.log2_eq_iff hm.ne').2 ⟨hle, hlt⟩
  have hbias : (e + Format.binary64.exponentBias +
      Format.binary64.mantissaBitsWithoutImplicit).toNat = exponent := by
    show (e + (1023 : Nat) + (52 : Nat)).toNat = exponent
    omega
  rw [pack, hbias, if_neg (by show ¬ 2048 ≤ exponent + 1; omega), if_pos (by rw [hlog]; rfl)]

/-- A bit pattern of a number is kept. -/
theorem pack_unpack {b : BitVec Format.binary64.numBits}
    (h : unpackExponent b = -1#_ → unpackMantissa b = 0#_) :
    pack Format.binary64 (unpack Format.binary64 b) = b := by
  have hmantissa : (unpackMantissa b).toNat < 2 ^ 52 := (unpackMantissa b).isLt
  have hexponent : (unpackExponent b).toNat < 2 ^ 11 := (unpackExponent b).isLt
  unfold unpack
  dsimp only
  split_ifs with he hm he' hm'
  · exact packComponents_unpack he hm
  · exact absurd (h he) hm
  · exact packComponents_unpack he' hm'
  · rw [pack_subnormal _ _ hmantissa (by rw [he']; rfl), BitVec.ofNat_toNat, BitVec.setWidth_eq]
    exact packComponents_unpack he' rfl
  -- a normal number, whose mantissa has one bit more than is stored
  · have hne : (unpackExponent b).toNat ≠ 2047 := fun h => he (BitVec.eq_of_toNat_eq h)
    have hm : (1#1 ++ unpackMantissa b).toNat = 2 ^ 52 + (unpackMantissa b).toNat := by
      rw [BitVec.toNat_append, ← Nat.shiftLeft_add_eq_or_of_lt hmantissa, Nat.shiftLeft_eq]
      simp
    refine (pack_normal _ (unpackExponent b).toNat _ (by omega) (by omega) (by omega) rfl).trans
      (packComponents_unpack (by simp) (BitVec.eq_of_toNat_eq ?_))
    rw [BitVec.toNat_ofNat, hm]
    show _ = (2 ^ 52 + (unpackMantissa b).toNat) % 2 ^ 52
    omega

theorem toNat_unpackExponent (b : BitVec Format.binary64.numBits) :
    (unpackExponent b).toNat = b.toNat / 2 ^ 52 % 2 ^ 11 := by
  simp [unpackExponent, BitVec.extractLsb, Nat.shiftRight_eq_div_pow]

theorem toNat_unpackMantissa (b : BitVec Format.binary64.numBits) :
    (unpackMantissa b).toNat = b.toNat % 2 ^ 52 := by
  simp [unpackMantissa, BitVec.extractLsb]

/-- Bits up to those of infinity make a double with just these bits. -/
theorem toNat_toBits_ofBits {n : Nat} (hn : n ≤ 2047 * 2 ^ 52) :
    (Float.ofBits n.toUInt64).toBits.toNat = n := by
  have hbits : n.toUInt64.toBitVec.toNat = n := Nat.mod_eq_of_lt (by omega)
  have hkept : pack Format.binary64 (unpack Format.binary64 n.toUInt64.toBitVec) =
      n.toUInt64.toBitVec := by
    refine pack_unpack fun he => BitVec.eq_of_toNat_eq ?_
    have he : n / 2 ^ 52 % 2 ^ 11 = 2047 := by
      rw [← hbits, ← toNat_unpackExponent, he]
      rfl
    rw [toNat_unpackMantissa, hbits]
    show n % 2 ^ 52 = 0
    omega
  exact (congrArg BitVec.toNat hkept).trans hbits

/-! ### Literals -/

/-- The double is what digits with an optional fraction are read as. -/
def Literal (x : Float) : Prop := ∃ whole fraction, x = readLiteral whole fraction

theorem toNat_toBits_ofParts_le (mantissa : Nat) (exponent : Int) :
    (ofParts false mantissa exponent).toBits.toNat ≤ 2047 * 2 ^ 52 := by
  have hle : 0 + magnitudeBits mantissa exponent ≤ 2047 * 2 ^ 52 := by
    rw [Nat.zero_add]
    exact Nat.min_le_right _ _
  exact (toNat_toBits_ofBits hle).le.trans hle

theorem toNat_toBits_nearest_le (num den : Nat) :
    (nearest false num den).toBits.toNat ≤ 2047 * 2 ^ 52 := by
  unfold nearest
  split_ifs
  · exact toNat_toBits_ofParts_le _ _
  · exact toNat_toBits_ofParts_le _ _

theorem Literal.toNat_toBits_le {x : Float} (h : Literal x) : x.toBits.toNat ≤ 2047 * 2 ^ 52 := by
  obtain ⟨whole, fraction, rfl⟩ := h
  unfold readLiteral readScaled
  dsimp only
  split_ifs
  · exact toNat_toBits_ofParts_le _ _
  · exact le_refl (2047 * 2 ^ 52)
  · exact toNat_toBits_nearest_le _ _
  · exact toNat_toBits_nearest_le _ _

/-- The mantissa and the exponent belong to a double: the mantissa has 53 bits, or fewer where the
exponent is the least. -/
structure Canonical (mantissa : Nat) (exponent : Int) : Prop where
  least_le : leastExponent ≤ exponent
  lt : mantissa < 2 ^ 53
  normal : leastExponent < exponent → 2 ^ 52 ≤ mantissa

/-- A literal is infinite or has canonical parts, and its bits are made of them. -/
theorem Literal.cases {x : Float} (h : Literal x) :
    parts x = .infinite false ∧ x.toBits.toNat = 2047 * 2 ^ 52 ∨
      ∃ mantissa exponent, parts x = .finite false mantissa exponent ∧
        Canonical mantissa exponent ∧
        x.toBits.toNat = (exponent - leastExponent).toNat * 2 ^ 52 + mantissa := by
  have hle := h.toNat_toBits_le
  unfold parts leastExponent
  dsimp only
  generalize x.toBits.toNat = n at hle
  simp only [Nat.pow_eq]
  have hsign : decide (2 ^ 63 ≤ n) = false := by
    simp only [decide_eq_false_iff_not]
    omega
  rw [hsign]
  split_ifs with hinf hzero hsub
  · exact Or.inl ⟨rfl, by omega⟩
  · omega
  · exact Or.inr ⟨_, _, rfl, ⟨le_refl _, by omega, fun h => absurd h (lt_irrefl _)⟩, by omega⟩
  · refine Or.inr ⟨_, _, rfl, ⟨?_, ?_, fun _ => ?_⟩, ?_⟩
    · unfold leastExponent; omega
    · omega
    · omega
    · omega

end Wandika.Decimal
