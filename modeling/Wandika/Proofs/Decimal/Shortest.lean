import Mathlib.Data.List.TakeWhile
import Wandika.Decimal.Layout
import Wandika.Proofs.Decimal.Bits

/-!
# Shortest decimals tell literals apart

The digits that are written for a double stand for a number that only this double is nearest to.

* `Interval.Holds`: a number, counted in quarters of the last bit, rounds to the double;
* `holds_shortest`: the shortest digits do, since seventeen digits always suffice;
* `Canonical.eq_of_holds`: no number rounds to two doubles;
* `Literal.render_inj`: two literals that are written alike are equal.
-/

namespace Wandika.Decimal

/-! ### Sizes -/

theorem zpow_eq_toNat_div (b : ℚ) (z : ℤ) : b ^ z = b ^ z.toNat / b ^ (-z).toNat := by
  obtain ⟨n, rfl | rfl⟩ := z.eq_nat_or_neg
  · simp
  · simp

/-- Numerator and denominator of `mantissa · 2 ^ exponent`. -/
theorem scaleBy_neg (mantissa : Nat) (exponent : Int) :
    ((scaleBy (-exponent) mantissa 1).1 : ℚ) / (scaleBy (-exponent) mantissa 1).2 =
      mantissa * 2 ^ exponent := by
  unfold scaleBy
  split_ifs with h
  · obtain ⟨n, hn⟩ := Int.eq_ofNat_of_zero_le h
    obtain rfl : exponent = -n := by omega
    simp [div_eq_mul_inv]
  · obtain ⟨n, rfl⟩ := Int.eq_ofNat_of_zero_le (show 0 ≤ exponent by omega)
    simp

theorem scaleBy_pos {e : Int} {num den : Nat} (hnum : 0 < num) (hden : 0 < den) :
    0 < (scaleBy e num den).1 ∧ 0 < (scaleBy e num den).2 := by
  unfold scaleBy
  split_ifs
  · exact ⟨hnum, Nat.mul_pos hden (Nat.pow_pos (by decide))⟩
  · exact ⟨Nat.mul_pos hnum (Nat.pow_pos (by decide)), hden⟩

theorem pow_length_toDigits_le {n : Nat} (hn : 0 < n) :
    10 ^ ((Nat.toDigits 10 n).length - 1) ≤ n := by
  by_contra h
  have hpos : 0 < (Nat.toDigits 10 n).length := Nat.length_toDigits_pos
  by_cases hone : (Nat.toDigits 10 n).length - 1 = 0
  · rw [hone] at h
    omega
  · have := (Nat.length_toDigits_le_iff (by decide) (by omega)).2 (Nat.not_le.1 h)
    omega

theorem lt_pow_length_toDigits (n : Nat) : n < 10 ^ (Nat.toDigits 10 n).length :=
  (Nat.length_toDigits_le_iff (by decide) Nat.length_toDigits_pos).1 (le_refl _)

theorem neg_pow_le {num den k : Nat} (hden : 0 < den) (h : den ≤ num * 10 ^ k) :
    (10 : ℚ) ^ (-(k : ℤ)) ≤ num / den := by
  have hden' : (0 : ℚ) < den := by exact_mod_cast hden
  rw [zpow_neg, zpow_natCast, inv_le_iff_one_le_mul₀ (by positivity), div_mul_eq_mul_div,
    one_le_div hden']
  exact_mod_cast h

/-- The first digit does not stand before the point that is computed for it. -/
theorem pow_decimalPoint_le {num den : Nat} (hnum : 0 < num) (hden : 0 < den) :
    (10 : ℚ) ^ (decimalPoint num den - 1) ≤ num / den := by
  have hlen : ∀ n, 0 < (Nat.toDigits 10 n).length := fun n => Nat.length_toDigits_pos
  unfold decimalPoint
  dsimp only
  split_ifs with hle heq
  · have hpow : 10 ^ ((Nat.toDigits 10 (num / den)).length - 1) * den ≤ num :=
      (Nat.mul_le_mul_right den (pow_length_toDigits_le (Nat.div_pos hle hden))).trans
        (Nat.div_mul_le_self num den)
    rw [← Nat.cast_pred (hlen _), zpow_natCast, le_div_iff₀ (by exact_mod_cast hden)]
    exact_mod_cast hpow
  · rw [show (2 : ℤ) - (Nat.toDigits 10 (den / num)).length - 1 =
        -((Nat.toDigits 10 (den / num)).length - 1 : ℕ) by have := hlen (den / num); omega]
    exact neg_pow_le hden heq.le
  · rw [show (1 : ℤ) - (Nat.toDigits 10 (den / num)).length - 1 =
        -((Nat.toDigits 10 (den / num)).length : ℕ) by omega]
    refine neg_pow_le hden ?_
    rw [Nat.mul_comm]
    exact ((Nat.div_lt_iff_lt_mul hnum).1 (lt_pow_length_toDigits _)).le

/-! ### Intervals -/

/-- The number, counted in quarters of the last bit, rounds to the double. -/
def Interval.Holds (i : Interval) (x : ℚ) : Prop :=
  if i.closed then i.low ≤ x ∧ x ≤ i.high else i.low < x ∧ x < i.high

namespace Interval

variable {i : Interval} {scale unit n : Nat}

theorem holds_of_contains (hs : 0 < scale) (h : i.contains scale unit n = true) :
    i.Holds (n * (unit / scale)) := by
  have hs' : (0 : ℚ) < scale := by exact_mod_cast hs
  unfold Holds
  unfold contains at h
  rw [mul_div_assoc']
  split_ifs at h ⊢
  · obtain ⟨hlow, hhigh⟩ : i.low * scale ≤ n * unit ∧ n * unit ≤ i.high * scale := by simpa using h
    exact ⟨(le_div_iff₀ hs').2 (by exact_mod_cast hlow),
      (div_le_iff₀ hs').2 (by exact_mod_cast hhigh)⟩
  · obtain ⟨hlow, hhigh⟩ : i.low * scale < n * unit ∧ n * unit < i.high * scale := by simpa using h
    exact ⟨(lt_div_iff₀ hs').2 (by exact_mod_cast hlow),
      (div_lt_iff₀ hs').2 (by exact_mod_cast hhigh)⟩

theorem contains_of_lt (hlow : i.low * scale < n * unit) (hhigh : n * unit < i.high * scale) :
    i.contains scale unit n = true := by
  unfold contains
  split_ifs
  · simp [hlow.le, hhigh.le]
  · simp [hlow, hhigh]

theorem contains_of_pick (h : i.pick scale unit = some n) : i.contains scale unit n = true := by
  unfold pick at h
  dsimp only at h
  split at h
  · cases h
  · cases h
    assumption
  · cases h
    assumption
  · split_ifs at h <;> cases h <;> assumption

theorem of_pick_none (h : i.pick scale unit = none) :
    i.contains scale unit (i.value * scale / unit) = false ∧
      i.contains scale unit (i.value * scale / unit + 1) = false := by
  unfold pick at h
  dsimp only at h
  split at h
  · exact ⟨‹_›, ‹_›⟩
  · cases h
  · cases h
  · split_ifs at h

end Interval

/-- The lower bound is half as far away where the mantissa is a power of two. -/
theorem low_interval {mantissa : Nat} (hm : 0 < mantissa) (exponent : Int) :
    (interval mantissa exponent).low + 2 = 4 * mantissa ∧
        (mantissa ≠ 2 ^ 52 ∨ exponent ≤ leastExponent) ∨
      (interval mantissa exponent).low + 1 = 4 * mantissa ∧ mantissa = 2 ^ 52 := by
  unfold interval
  dsimp only
  split_ifs with h
  · exact Or.inr ⟨by omega, h.1⟩
  · refine Or.inl ⟨by omega, ?_⟩
    by_contra hnot
    push Not at hnot
    exact h hnot

/-- A grid that is fine enough has a point in the interval: one of the two neighbours of the value
rounds to the double. -/
theorem pick_ne_none {mantissa scale unit : Nat} (hm : 0 < mantissa) (exponent : Int)
    (hunit : 0 < unit) (hfine : unit < 4 * scale) (hpower : mantissa = 2 ^ 52 → unit < 2 * scale) :
    (interval mantissa exponent).pick scale unit ≠ none := by
  intro hnone
  obtain ⟨hbelow, habove⟩ := Interval.of_pick_none hnone
  have hlow := low_interval hm exponent
  generalize hi : interval mantissa exponent = i at *
  have hvalue : i.value * scale = 4 * (mantissa * scale) := by
    rw [← hi, ← Nat.mul_assoc]
    rfl
  have hhigh : i.high * scale = 4 * (mantissa * scale) + 2 * scale := by
    rw [← hi, ← Nat.mul_assoc, ← Nat.add_mul]
    rfl
  have hdiv : i.value * scale / unit * unit + i.value * scale % unit = i.value * scale :=
    Nat.div_add_mod' _ _
  have hmod : i.value * scale % unit < unit := Nat.mod_lt _ hunit
  have hsucc : (i.value * scale / unit + 1) * unit = i.value * scale / unit * unit + unit :=
    Nat.succ_mul _ _
  have hlowle : i.low * scale ≤ 4 * (mantissa * scale) := by
    rw [← Nat.mul_assoc]
    exact Nat.mul_le_mul_right scale (by omega)
  -- the two neighbours are one unit apart, so that one of them is at most half a unit away
  by_cases hnear : unit < i.value * scale % unit + 2 * scale
  · rw [Interval.contains_of_lt (by omega) (by omega)] at habove
    cases habove
  · rcases hlow with ⟨hlow, -⟩ | ⟨-, hpow⟩
    · have hlow : i.low * scale + 2 * scale = 4 * (mantissa * scale) := by
        rw [← Nat.add_mul, hlow, Nat.mul_assoc]
      rw [Interval.contains_of_lt (by omega) (by omega)] at hbelow
      cases hbelow
    · have := hpower hpow
      omega

/-! ### The search -/

/-- One quarter of the last bit and one unit of the grid, as `search` measures them. -/
theorem unit_div_scale (grid quarter : Int) :
    ((Nat.pow 10 grid.toNat * Nat.pow 2 (-quarter).toNat : ℕ) : ℚ) /
        (Nat.pow 2 quarter.toNat * Nat.pow 10 (-grid).toNat : ℕ) =
      10 ^ grid / 2 ^ quarter := by
  rw [zpow_eq_toNat_div 10, zpow_eq_toNat_div 2]
  simp only [Nat.pow_eq]
  push_cast
  field_simp

theorem holds_of_search {i : Interval} {exponent point : Int} {n count : Nat} :
    ∀ {fuel start : Nat}, search i exponent point fuel start = some (n, count) →
      i.Holds (n * (10 ^ (point - count) / 2 ^ (exponent - 2)))
  | 0, _, h => by cases h
  | fuel + 1, start, h => by
    unfold search at h
    dsimp only at h
    split at h
    · cases h
      rw [← unit_div_scale]
      refine Interval.holds_of_contains ?_ (Interval.contains_of_pick ‹_›)
      exact Nat.mul_pos (Nat.pow_pos (by decide)) (Nat.pow_pos (by decide))
    · exact holds_of_search h

theorem search_ne_none {i : Interval} {exponent point : Int} (count : Nat)
    (h : ∀ scale unit : Nat, 0 < unit → 0 < scale →
      (unit : ℚ) / scale = 10 ^ (point - count) / 2 ^ (exponent - 2) → i.pick scale unit ≠ none) :
    ∀ {fuel start : Nat}, start ≤ count → count < start + fuel →
      search i exponent point fuel start ≠ none
  | 0, start, hle, hlt => by omega
  | fuel + 1, start, hle, hlt => by
    unfold search
    dsimp only
    split
    · exact Option.some_ne_none _
    · rename_i hnone
      refine search_ne_none count h (Nat.lt_of_le_of_ne hle ?_) (by omega)
      rintro rfl
      refine h _ _ ?_ ?_ (unit_div_scale _ _) hnone
      · exact Nat.mul_pos (Nat.pow_pos (by decide)) (Nat.pow_pos (by decide))
      · exact Nat.mul_pos (Nat.pow_pos (by decide)) (Nat.pow_pos (by decide))

/-- Seventeen digits always suffice. -/
theorem search_seventeen {mantissa : Nat} {exponent point : Int} (hm : 0 < mantissa)
    (hlt : mantissa < 2 ^ 53) (hpoint : (10 : ℚ) ^ (point - 1) ≤ mantissa * 2 ^ exponent) :
    search (interval mantissa exponent) exponent point 17 1 ≠ none := by
  refine search_ne_none 17 (fun scale unit hunit hscale hratio => ?_) (by decide) (by decide)
  have hscale' : (0 : ℚ) < scale := by exact_mod_cast hscale
  push_cast at hratio
  -- sixteen places below the first digit the grid is finer than the last bit of 53
  have hgrid : (unit : ℚ) * 10 ^ 16 ≤ 4 * (mantissa * scale) :=
    calc (unit : ℚ) * 10 ^ 16
        = scale * ((10 : ℚ) ^ (point - 17) / 2 ^ (exponent - 2)) * 10 ^ 16 := by
          rw [← hratio, mul_div_cancel₀ _ hscale'.ne']
      _ = 4 * scale * ((10 : ℚ) ^ (point - 1) / 2 ^ exponent) := by
          rw [show point - 17 = point - 1 - 16 by ring, zpow_sub₀ (by norm_num : (10 : ℚ) ≠ 0) _ 16,
            zpow_sub₀ (by norm_num : (2 : ℚ) ≠ 0)]
          field_simp
          norm_num
      _ ≤ 4 * scale * mantissa := by
          gcongr
          exact (div_le_iff₀ (by positivity)).2 hpoint
      _ = 4 * (mantissa * scale) := by ring
  have hgrid : unit * 10 ^ 16 ≤ 4 * (mantissa * scale) := by exact_mod_cast hgrid
  refine pick_ne_none hm exponent hunit ?_ ?_
  · have := Nat.mul_le_mul_right scale (Nat.le_sub_one_of_lt hlt)
    omega
  · rintro rfl
    omega

/-! ### Digits and texts -/

/-- The number that the digits stand for. -/
def Digits.value (d : Digits) : ℚ :=
  ofDigits d.digits * 10 ^ (d.point - d.digits.length)

theorem ofDigits_append_zeros (ds : List Char) (k : Nat) :
    ofDigits (ds ++ List.replicate k '0') = ofDigits ds * 10 ^ k := by
  have := Nat.ofDigitChars_append (b := 10) (l := ds) (m := List.replicate k '0') 0
  rw [Nat.ofDigitChars_replicate_zero] at this
  exact this.trans (Nat.mul_comm _ _)

theorem ofDigits_zeros_append (k : Nat) (ds : List Char) :
    ofDigits (List.replicate k '0' ++ ds) = ofDigits ds := by
  have := Nat.ofDigitChars_append (b := 10) (l := List.replicate k '0') (m := ds) 0
  rwa [Nat.ofDigitChars_replicate_zero, Nat.mul_zero] at this

theorem eq_dropZeros_append (ds : List Char) :
    ∃ k, ds = dropZeros ds ++ List.replicate k '0' := by
  have hzeros : ds.reverse.takeWhile (· == '0') =
      List.replicate (ds.reverse.takeWhile (· == '0')).length '0' :=
    List.eq_replicate_of_mem fun c hc => by simpa using List.mem_takeWhile_imp hc
  have hsplit := congrArg List.reverse (List.takeWhile_append_dropWhile (p := (· == '0'))
    (l := ds.reverse))
  rw [List.reverse_append, List.reverse_reverse, hzeros, List.reverse_replicate] at hsplit
  exact ⟨_, hsplit.symm⟩

/-- Zeros at the end may be dropped where the point is kept in place. -/
theorem value_dropZeros (n count : Nat) (point : Int) :
    Digits.value ⟨dropZeros (Nat.toDigits 10 n), point + ((Nat.toDigits 10 n).length - count)⟩ =
      n * 10 ^ (point - count) := by
  obtain ⟨k, hk⟩ := eq_dropZeros_append (Nat.toDigits 10 n)
  have hlen : ((Nat.toDigits 10 n).length : ℤ) = (dropZeros (Nat.toDigits 10 n)).length + k := by
    conv_lhs => rw [hk]
    simp
  have hn : (n : ℚ) = ofDigits (dropZeros (Nat.toDigits 10 n)) * 10 ^ k := by
    have hread : ofDigits (Nat.toDigits 10 n) = n := Nat.ofDigitChars_ten_toDigits
    rw [hk, ofDigits_append_zeros] at hread
    exact_mod_cast hread.symm
  unfold Digits.value
  rw [hn, hlen, mul_assoc, ← zpow_natCast (10 : ℚ) k, ← zpow_add₀ (by norm_num)]
  ring_nf

/-- The shortest digits stand for a number that rounds to the double. -/
theorem holds_shortest {mantissa : Nat} (hm : 0 < mantissa) (hlt : mantissa < 2 ^ 53)
    (exponent : Int) :
    (interval mantissa exponent).Holds
      ((shortest mantissa exponent).value / 2 ^ (exponent - 2)) := by
  obtain ⟨hnum, hden⟩ := scaleBy_pos (e := -exponent) hm Nat.one_pos
  have hpoint := pow_decimalPoint_le hnum hden
  rw [scaleBy_neg] at hpoint
  unfold shortest
  dsimp only
  split
  · exact absurd ‹_› (search_seventeen hm hlt hpoint)
  · rw [value_dropZeros, mul_div_assoc]
    exact holds_of_search ‹_›

theorem isDigit_of_mem_shortest {mantissa : Nat} {exponent : Int} {c : Char}
    (hc : c ∈ (shortest mantissa exponent).digits) : Text.isDigit c = true := by
  unfold shortest at hc
  dsimp only at hc
  split at hc
  · cases hc
  · rename_i n _ _
    obtain ⟨k, hk⟩ := eq_dropZeros_append (Nat.toDigits 10 n)
    have hmem : c ∈ Nat.toDigits 10 n := hk ▸ List.mem_append_left _ hc
    exact Nat.isDigit_of_mem_toDigits (by decide) (by decide) hmem

/-! ### The written numbers -/

/-- The number that a text with at most one point stands for. -/
def textValue (cs : List Char) : ℚ :=
  let fraction := (cs.dropWhile (· != '.')).tail
  ofDigits (cs.takeWhile (· != '.') ++ fraction) / 10 ^ fraction.length

theorem ne_point {ws : List Char} (h : '.' ∉ ws) : ∀ c ∈ ws, (c != '.') = true := by
  rintro c hc
  rw [bne_iff_ne]
  rintro rfl
  exact h hc

theorem textValue_whole {ws : List Char} (h : '.' ∉ ws) : textValue ws = ofDigits ws := by
  simp [textValue, List.takeWhile_eq_self_iff.2 (ne_point h),
    List.dropWhile_eq_nil_iff.2 (ne_point h)]

theorem textValue_fraction (ws : List Char) (h : '.' ∉ ws) (fs : List Char) :
    textValue (ws ++ '.' :: fs) = ofDigits (ws ++ fs) / 10 ^ fs.length := by
  simp [textValue, List.takeWhile_append_of_pos (ne_point h),
    List.dropWhile_append_of_pos (ne_point h)]

/-- The text stands for the same number as the digits. -/
theorem textValue_positional {d : Digits} (h : '.' ∉ d.digits) :
    textValue d.positional = d.value := by
  unfold Digits.positional Digits.value
  dsimp only
  split_ifs with hneg hlen
  · have hexp : d.point - d.digits.length = -((-d.point).toNat + d.digits.length : ℕ) := by omega
    have hdigits : ofDigits (['0'] ++ (List.replicate (-d.point).toNat '0' ++ d.digits)) =
        ofDigits d.digits :=
      (ofDigits_zeros_append 1 _).trans (ofDigits_zeros_append _ _)
    rw [hexp, zpow_neg, zpow_natCast, ← div_eq_mul_inv, ← hdigits]
    exact (textValue_fraction ['0'] (by decide) _).trans (by simp)
  · have hexp : d.point - d.digits.length = (d.point.toNat - d.digits.length : ℕ) := by omega
    have hpoint : '.' ∉ d.digits ++ List.replicate (d.point.toNat - d.digits.length) '0' := by
      simp [h]
    rw [hexp, zpow_natCast, textValue_whole hpoint, ofDigits_append_zeros]
    push_cast
    rfl
  · have hexp : d.point - d.digits.length = -(d.digits.length - d.point.toNat : ℕ) := by omega
    have hpoint : '.' ∉ d.digits.take d.point.toNat := fun hmem => h (List.mem_of_mem_take hmem)
    rw [hexp, zpow_neg, zpow_natCast, ← div_eq_mul_inv, textValue_fraction _ hpoint,
      List.take_append_drop, List.length_drop]

/-! ### Different doubles -/

namespace Interval.Holds

variable {i i' : Interval} {x : ℚ}

theorem le (h : i.Holds x) : i.low ≤ x ∧ x ≤ i.high := by
  unfold Interval.Holds at h
  split_ifs at h
  · exact h
  · exact ⟨h.1.le, h.2.le⟩

theorem lt (h : i.Holds x) (hopen : i.closed = false) : i.low < x ∧ x < i.high := by
  unfold Interval.Holds at h
  simpa [hopen] using h

/-- Two intervals meet only where neither ends before the other begins. -/
theorem low_le_high {k : Nat} (h : i.Holds (x * k)) (h' : i'.Holds x) :
    i'.low * k ≤ i.high ∧ i.low ≤ i'.high * k := by
  have hlow : (i'.low * k : ℚ) ≤ x * k := by gcongr; exact h'.le.1
  have hhigh : (x * k : ℚ) ≤ i'.high * k := by gcongr; exact h'.le.2
  exact ⟨by exact_mod_cast hlow.trans h.le.2, by exact_mod_cast h.le.1.trans hhigh⟩

/-- Where one of the intervals is open, they do not meet at a bound. -/
theorem low_lt_high {k : Nat} (h : i.Holds (x * k)) (h' : i'.Holds x) (hk : 0 < k)
    (hopen : i.closed = false ∨ i'.closed = false) :
    i'.low * k < i.high ∧ i.low < i'.high * k := by
  have hk' : (0 : ℚ) < k := by exact_mod_cast hk
  rcases hopen with hopen | hopen
  · have hlow : (i'.low * k : ℚ) ≤ x * k := by gcongr; exact h'.le.1
    have hhigh : (x * k : ℚ) ≤ i'.high * k := by gcongr; exact h'.le.2
    exact ⟨by exact_mod_cast hlow.trans_lt (h.lt hopen).2,
      by exact_mod_cast (h.lt hopen).1.trans_le hhigh⟩
  · have hlow : (i'.low * k : ℚ) < x * k := by gcongr; exact (h'.lt hopen).1
    have hhigh : (x * k : ℚ) < i'.high * k := by gcongr; exact (h'.lt hopen).2
    exact ⟨by exact_mod_cast hlow.trans_le h.le.2, by exact_mod_cast h.le.1.trans_lt hhigh⟩

end Interval.Holds

theorem closed_interval_eq_false {m : Nat} {e : Int} (h : m % 2 = 1) :
    (interval m e).closed = false := by
  simp [interval, h]

theorem Canonical.eq_of_holds_le {m m' : Nat} {e e' : Int} (h : Canonical m e)
    (h' : Canonical m' e') (hm : 0 < m) (hm' : 0 < m') (hle : e ≤ e') {x : ℚ}
    (hx : (interval m e).Holds (x / 2 ^ (e - 2)))
    (hx' : (interval m' e').Holds (x / 2 ^ (e' - 2))) : m = m' ∧ e = e' := by
  obtain ⟨k, rfl⟩ : ∃ k : ℕ, e' = e + k := ⟨(e' - e).toNat, by omega⟩
  have hscale : x / 2 ^ (e - 2) = x / 2 ^ (e + k - 2) * (2 ^ k : ℕ) := by
    rw [show e + k - 2 = e - 2 + k by ring, zpow_add₀ (by norm_num), zpow_natCast]
    push_cast
    field_simp
  rw [hscale] at hx
  have hmeet : (interval m' (e + k)).low * 2 ^ k ≤ 4 * m + 2 ∧
      (interval m e).low ≤ (4 * m' + 2) * 2 ^ k := hx.low_le_high hx'
  have hopen : m % 2 = 1 ∨ m' % 2 = 1 → (interval m' (e + k)).low * 2 ^ k < 4 * m + 2 ∧
      (interval m e).low < (4 * m' + 2) * 2 ^ k := fun hodd =>
    hx.low_lt_high hx' (Nat.two_pow_pos k) (hodd.imp closed_interval_eq_false
      closed_interval_eq_false)
  have hlow := low_interval hm e
  have hlow' := low_interval hm' (e + k)
  have hnormal := h'.normal
  have hleast := h.least_le
  have hbound := h.lt
  cases k with
  | zero =>
    -- neighbouring intervals share a bound at most, which belongs to the one with the even mantissa
    simp only [pow_zero, Nat.mul_one] at *
    omega
  | succ k =>
    -- `m'` has 53 bits here, and its interval ends above all mantissas of the smaller exponent
    have htwice : (interval m' (e + (k + 1 : ℕ))).low * 2 ≤
        (interval m' (e + (k + 1 : ℕ))).low * 2 ^ (k + 1) :=
      Nat.mul_le_mul_left _ (Nat.le_self_pow (by omega) 2)
    omega

/-- No number rounds to two doubles. -/
theorem Canonical.eq_of_holds {m m' : Nat} {e e' : Int} (h : Canonical m e)
    (h' : Canonical m' e') (hm : 0 < m) (hm' : 0 < m') {x : ℚ}
    (hx : (interval m e).Holds (x / 2 ^ (e - 2)))
    (hx' : (interval m' e').Holds (x / 2 ^ (e' - 2))) : m = m' ∧ e = e' := by
  rcases le_total e e' with hle | hle
  · exact h.eq_of_holds_le h' hm hm' hle hx hx'
  · obtain ⟨rfl, rfl⟩ := h'.eq_of_holds_le h hm' hm hle hx' hx
    exact ⟨rfl, rfl⟩

/-! ### Written literals -/

/-- How `mantissa · 2 ^ exponent` is written. -/
def magnitudeText (mantissa : Nat) (exponent : Int) : List Char :=
  if mantissa = 0 then ['0'] else (shortest mantissa exponent).positional

/-- A written number begins with a digit and has only digits and points. -/
def NumberText (cs : List Char) : Prop :=
  ∃ d rest, cs = d :: rest ∧ Text.isDigit d = true ∧ ∀ c ∈ rest, Text.isDigit c = true ∨ c = '.'

theorem numberText_append (ws : List Char) {fs : List Char} (hne : ws ≠ [])
    (hws : ∀ c ∈ ws, Text.isDigit c = true) (hfs : ∀ c ∈ fs, Text.isDigit c = true ∨ c = '.') :
    NumberText (ws ++ fs) := by
  cases ws with
  | nil => exact absurd rfl hne
  | cons d ws =>
    rw [List.forall_mem_cons] at hws
    refine ⟨d, ws ++ fs, rfl, hws.1, fun c hc => ?_⟩
    rcases List.mem_append.1 hc with hc | hc
    · exact Or.inl (hws.2 c hc)
    · exact hfs c hc

theorem numberText_positional {d : Digits} (h : ∀ c ∈ d.digits, Text.isDigit c = true) :
    NumberText d.positional := by
  have hzeros : ∀ k, ∀ c ∈ List.replicate k '0', Text.isDigit c = true := fun k c hc => by
    rw [List.eq_of_mem_replicate hc]
    rfl
  unfold Digits.positional
  dsimp only
  split_ifs with hneg hlen
  · refine numberText_append ['0'] (by simp) (hzeros 1) ?_
    rw [List.forall_mem_cons, List.forall_mem_append]
    exact ⟨Or.inr rfl, fun c hc => Or.inl (hzeros _ c hc), fun c hc => Or.inl (h c hc)⟩
  · rw [← List.append_nil (d.digits ++ _)]
    refine numberText_append _ (List.ne_nil_of_length_pos ?_)
      (List.forall_mem_append.2 ⟨h, hzeros _⟩) (by simp)
    rw [List.length_append, List.length_replicate]
    omega
  · refine numberText_append _ (List.ne_nil_of_length_pos ?_)
      (fun c hc => h c (List.mem_of_mem_take hc)) ?_
    · rw [List.length_take]
      omega
    · rw [List.forall_mem_cons]
      exact ⟨Or.inr rfl, fun c hc => Or.inl (h c (List.mem_of_mem_drop hc))⟩

theorem numberText_magnitudeText (mantissa : Nat) (exponent : Int) :
    NumberText (magnitudeText mantissa exponent) := by
  unfold magnitudeText
  split_ifs
  · exact ⟨'0', [], rfl, rfl, by simp⟩
  · exact numberText_positional fun c hc => isDigit_of_mem_shortest hc

theorem textValue_magnitudeText {mantissa : Nat} (hm : mantissa ≠ 0) (exponent : Int) :
    textValue (magnitudeText mantissa exponent) = (shortest mantissa exponent).value := by
  rw [magnitudeText, if_neg hm]
  refine textValue_positional fun hmem => ?_
  cases isDigit_of_mem_shortest hmem

/-- Only zero is written as zero. -/
theorem textValue_magnitudeText_pos {mantissa : Nat} (hm : 0 < mantissa) (hlt : mantissa < 2 ^ 53)
    (exponent : Int) : textValue (magnitudeText mantissa exponent) ≠ 0 := by
  intro hzero
  have hholds := holds_shortest hm hlt exponent
  rw [← textValue_magnitudeText hm.ne', hzero, zero_div] at hholds
  have hlow : (interval mantissa exponent).low ≤ 0 := by exact_mod_cast hholds.le.1
  have := low_interval hm exponent
  omega

theorem Canonical.eq_of_text_eq {m m' : Nat} {e e' : Int} (h : Canonical m e) (h' : Canonical m' e')
    (htext : magnitudeText m e = magnitudeText m' e') : m = m' ∧ e = e' := by
  have hvalue := congrArg textValue htext
  have hzero : ∀ e, textValue (magnitudeText 0 e) = 0 := fun e => by
    rw [magnitudeText, if_pos rfl, textValue_whole (by decide)]
    rfl
  rcases Nat.eq_zero_or_pos m with rfl | hm
  · rcases Nat.eq_zero_or_pos m' with rfl | hm'
    · have := h.normal
      have := h'.normal
      have := h.least_le
      have := h'.least_le
      omega
    · rw [hzero] at hvalue
      exact absurd hvalue.symm (textValue_magnitudeText_pos hm' h'.lt e')
  · rcases Nat.eq_zero_or_pos m' with rfl | hm'
    · rw [hzero] at hvalue
      exact absurd hvalue (textValue_magnitudeText_pos hm h.lt e)
    · rw [textValue_magnitudeText hm.ne', textValue_magnitudeText hm'.ne'] at hvalue
      refine h.eq_of_holds h' hm hm' (holds_shortest hm h.lt e) ?_
      rw [hvalue]
      exact holds_shortest hm' h'.lt e'

/-- How a literal is written, with the bits that it has. -/
theorem Literal.text {x : Float} (h : Literal x) :
    plain.render x = "+Inf" ∧ x.toBits.toNat = 2047 * 2 ^ 52 ∨
      ∃ mantissa exponent, (plain.render x).toList = magnitudeText mantissa exponent ∧
        Canonical mantissa exponent ∧
        x.toBits.toNat = (exponent - leastExponent).toNat * 2 ^ 52 + mantissa := by
  rcases h.cases with ⟨hparts, hbits⟩ | ⟨m, e, hparts, hcanonical, hbits⟩
  · exact Or.inl ⟨by rw [Layout.render, hparts]; rfl, hbits⟩
  · refine Or.inr ⟨m, e, ?_, hcanonical, hbits⟩
    rw [Layout.render, hparts]
    exact String.toList_ofList

/-- A literal is written as infinity or as a number. -/
theorem Literal.numberText {x : Float} (h : Literal x) :
    plain.render x = "+Inf" ∨ NumberText (plain.render x).toList := by
  rcases h.text with ⟨htext, -⟩ | ⟨m, e, htext, -, -⟩
  · exact Or.inl htext
  · exact Or.inr (htext ▸ numberText_magnitudeText m e)

/-- Two literals that are written alike are equal. -/
theorem Literal.render_inj {x y : Float} (hx : Literal x) (hy : Literal y)
    (h : plain.render x = plain.render y) : x = y := by
  have hinf : ∀ m e, "+Inf".toList ≠ magnitudeText m e := fun m e heq => by
    obtain ⟨d, rest, htext, hd, -⟩ := numberText_magnitudeText m e
    cases heq.trans htext
    cases hd
  refine eq_of_toBits_eq (UInt64.toNat_inj.1 ?_)
  rcases hx.text with ⟨htext, hbits⟩ | ⟨m, e, htext, hm, hbits⟩
  · rcases hy.text with ⟨-, hbits'⟩ | ⟨m', e', htext', -, -⟩
    · rw [hbits, hbits']
    · rw [← h, htext] at htext'
      exact absurd htext' (hinf m' e')
  · rcases hy.text with ⟨htext', -⟩ | ⟨m', e', htext', hm', hbits'⟩
    · rw [h, htext'] at htext
      exact absurd htext (hinf m e)
    · rw [h, htext'] at htext
      obtain ⟨rfl, rfl⟩ := hm.eq_of_text_eq hm' htext.symm
      rw [hbits, hbits']

end Wandika.Decimal
