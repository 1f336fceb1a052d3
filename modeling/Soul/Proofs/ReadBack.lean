import Mathlib.Tactic.Ring
import Soul.Number.Shortest
import Soul.Proofs.Lexeme

/-!
# Texts of doubles, read again

The text of a double that is neither negative nor not-a-number shows the double: reading the
text gives it back (`Double.unsigned?_chars`). So different doubles have different texts.

That rests on two things. The decimal number that is written is one which rounds to the double,
since it is tried out, or else is the double exactly (`Double.toDouble_shortest`). And however a
decimal number is laid out, what is read is a number of the same value
(`Double.unsigned?_write`), which rounds to the same double: only the ratio counts
(`Double.ofRatio_mul_right`).
-/

namespace Soul

namespace Double

/-! ## Ratios -/

theorem roundedQuotient_mul_right (n d : Nat) {k : Nat} (hk : 0 < k) :
    roundedQuotient (n * k) (d * k) = roundedQuotient n d := by
  have less : 2 * (n % d * k) < d * k ↔ 2 * (n % d) < d := by
    rw [← Nat.mul_assoc, Nat.mul_lt_mul_right hk]
  have tie : 2 * (n % d * k) = d * k ↔ 2 * (n % d) = d := by
    rw [← Nat.mul_assoc, Nat.mul_left_inj hk.ne']
  simp only [roundedQuotient, Nat.mul_div_mul_right _ _ hk, Nat.mul_mod_mul_right, less, tie]

theorem roundedQuotient_mul (q : Nat) {a b : Nat} (ha : 0 < a) (hb : 0 < b) :
    roundedQuotient (q * a * b) (b * a) = q := by
  rw [Nat.mul_assoc, Nat.mul_comm a]
  simp [roundedQuotient, ha, hb]

theorem roundedQuotient_bounds (n d : Nat) :
    n / d ≤ roundedQuotient n d ∧ roundedQuotient n d ≤ n / d + 1 := by
  unfold roundedQuotient
  simp only
  split <;> omega

/-- Only the value of the ratio counts. -/
theorem ofRatio_mul_right (negative : Bool) (n d : Nat) {k : Nat} (hk : 0 < k) :
    ofRatio negative (n * k) (d * k) = ofRatio negative n d := by
  have units : n * k * Nat.pow 2 1074 = n * Nat.pow 2 1074 * k := Nat.mul_right_comm _ _ _
  have divisor : ∀ scale, d * k * Nat.pow 2 scale = d * Nat.pow 2 scale * k :=
    fun _ => Nat.mul_right_comm _ _ _
  simp only [ofRatio, units, divisor, Nat.mul_div_mul_right _ _ hk,
    roundedQuotient_mul_right _ _ hk]

/-- The significand and the scale are those of a double. -/
structure IsNormal (significand scale : Nat) : Prop where
  significand_lt : significand < 2 ^ 53
  le_significand : scale ≠ 0 → 2 ^ 52 ≤ significand
  scale_le : scale ≤ 2045

theorem IsNormal.scale_eq_zero {scale : Nat} (h : IsNormal 0 scale) : scale = 0 := by
  by_contra hne
  exact absurd (h.le_significand hne) (by decide)

/-- What a ratio may be rounded to. -/
inductive IsRounded (negative : Bool) : Double → Prop
  | finite {significand scale : Nat} : IsNormal significand scale →
      IsRounded negative (.finite negative significand scale)
  | infinity : IsRounded negative (.infinity negative)

/-- A number loses all but its leading 53 digits in base two. -/
theorem div_two_pow_bounds (q : Nat) :
    q / 2 ^ (q.log2 - 52) < 2 ^ 53 ∧ (q.log2 - 52 ≠ 0 → 2 ^ 52 ≤ q / 2 ^ (q.log2 - 52)) := by
  constructor
  · rw [Nat.div_lt_iff_lt_mul (Nat.two_pow_pos _), ← Nat.pow_add]
    exact Nat.lt_log2_self.trans_le (Nat.pow_le_pow_right (by decide) (by omega))
  · intro hs
    have hq : q ≠ 0 := by
      rintro rfl
      exact hs rfl
    rw [Nat.le_div_iff_mul_le (Nat.two_pow_pos _), ← Nat.pow_add,
      show 52 + (q.log2 - 52) = q.log2 by omega]
    exact Nat.log2_self_le hq

theorem pos_of_two_pow_eq {n m : Nat} (h : Nat.pow 2 n = m) : 0 < m := h ▸ Nat.two_pow_pos n

/-- The rounded quotient is the significand, unless the rounding carries over into one more
    digit. -/
theorem ofRatio_eq (negative : Bool) (n d : Nat) {unit scale r : Nat}
    (hunit : Nat.pow 2 1074 = unit) (hscale : (n * unit / d).log2 - 52 = scale)
    (hr : roundedQuotient (n * unit) (d * Nat.pow 2 scale) = r) :
    ofRatio negative n d =
      if r = 2 ^ 53 then
        if scale + 1 ≤ 2045 then finite negative (2 ^ 52) (scale + 1) else infinity negative
      else if scale ≤ 2045 then finite negative r scale else infinity negative := by
  unfold ofRatio
  simp only [hunit, hscale, hr]
  by_cases carried : r = 2 ^ 53
  · rw [if_pos carried]
    subst carried
    rfl
  · have kept : (r == Nat.pow 2 53) = false := beq_eq_false_iff_ne.2 carried
    rw [if_neg carried]
    simp only [kept, Bool.false_eq_true, if_false]

theorem isRounded_ofRatio (negative : Bool) (n d : Nat) :
    IsRounded negative (ofRatio negative n d) := by
  -- The unit stays a variable, so that no step computes it.
  obtain ⟨unit, hunit⟩ : ∃ unit, Nat.pow 2 1074 = unit := ⟨_, rfl⟩
  obtain ⟨scale, hscale⟩ : ∃ scale, (n * unit / d).log2 - 52 = scale := ⟨_, rfl⟩
  obtain ⟨r, hr⟩ : ∃ r, roundedQuotient (n * unit) (d * Nat.pow 2 scale) = r := ⟨_, rfl⟩
  obtain ⟨high, low⟩ := div_two_pow_bounds (n * unit / d)
  obtain ⟨floor, ceiling⟩ := roundedQuotient_bounds (n * unit) (d * Nat.pow 2 scale)
  rw [hscale, Nat.div_div_eq_div_mul] at high low
  rw [hr] at floor ceiling
  have hr_le : r ≤ 2 ^ 53 := ceiling.trans high
  have le_hr : scale ≠ 0 → 2 ^ 52 ≤ r := fun h => (low h).trans floor
  rw [ofRatio_eq negative n d hunit hscale hr]
  split
  -- The rounding has carried over, and the significand is the least one of the next scale.
  · split
    · next hle => exact .finite ⟨by decide, fun _ => le_rfl, hle⟩
    · exact .infinity
  · next hne =>
    split
    · next hle => exact .finite ⟨lt_of_le_of_ne hr_le hne, le_hr, hle⟩
    · exact .infinity

/-- The scale is what the digits of the number are more than the 53 of a significand. -/
theorem IsNormal.log2_sub {significand scale : Nat} (h : IsNormal significand scale) :
    (significand * Nat.pow 2 scale).log2 - 52 = scale := by
  change (significand * 2 ^ scale).log2 - 52 = scale
  by_cases hs : scale = 0
  · subst hs
    rw [Nat.pow_zero, Nat.mul_one]
    by_cases hz : significand = 0
    · subst hz
      rfl
    · have := (Nat.log2_lt hz).2 h.significand_lt
      omega
  · have low := h.le_significand hs
    have exact : (significand * 2 ^ scale).log2 = 52 + scale := by
      refine (Nat.log2_eq_iff ?_).2 ⟨?_, ?_⟩
      · exact Nat.mul_ne_zero (by omega) (Nat.two_pow_pos scale).ne'
      · rw [Nat.pow_add]
        exact Nat.mul_le_mul_right _ low
      · rw [Nat.add_right_comm, Nat.pow_add]
        exact Nat.mul_lt_mul_of_pos_right h.significand_lt (Nat.two_pow_pos scale)
    omega

/-- A ratio that is a double is rounded to that. -/
theorem ofRatio_exact (negative : Bool) {significand scale unit : Nat}
    (hunit : Nat.pow 2 1074 = unit) (h : IsNormal significand scale) :
    ofRatio negative (significand * Nat.pow 2 scale) unit = finite negative significand scale := by
  have positive : 0 < unit := pos_of_two_pow_eq hunit
  have quotient : significand * Nat.pow 2 scale * unit / unit = significand * Nat.pow 2 scale :=
    Nat.mul_div_cancel _ positive
  rw [ofRatio_eq negative _ unit hunit (by rw [quotient, h.log2_sub])
    (roundedQuotient_mul significand (Nat.two_pow_pos scale) positive),
    if_neg h.significand_lt.ne, if_pos h.scale_le]

end Double

/-! ## Decimal numbers -/

theorem toDigits_mul_ten_pow {n : Nat} (hn : 0 < n) (j : Nat) :
    Nat.toDigits 10 (n * 10 ^ j) = Nat.toDigits 10 n ++ List.replicate j '0' := by
  induction j with
  | zero => simp
  | succ j ih =>
    have positive : 0 < n * 10 ^ j := Nat.mul_pos hn (Nat.pow_pos (by decide))
    rw [Nat.pow_succ, ← Nat.mul_assoc, Nat.mul_comm _ 10, List.replicate_succ', ← List.append_assoc,
      ← ih]
    exact (Nat.toDigits_append_toDigits (b := 10) (d := 0) (by decide) positive (by decide)).symm

theorem digitCount_mul_ten_pow {n : Nat} (hn : 0 < n) (j : Nat) :
    digitCount (n * 10 ^ j) = digitCount n + j := by
  rw [digitCount, toDigits_mul_ten_pow hn, List.length_append, List.length_replicate, digitCount]

namespace Decimal

theorem isRounded_toDouble (d : Decimal) (negative : Bool) :
    (d.toDouble negative).IsRounded negative := by
  unfold toDouble
  simp only
  split
  · exact .finite ⟨by decide, nofun, by decide⟩
  split
  · exact .infinity
  split
  · exact Double.isRounded_ofRatio ..
  · exact Double.isRounded_ofRatio ..

/-- Zeros behind the digits count as a power of ten. -/
theorem toDouble_mul_ten_pow (n j : Nat) (exponent : Int) (negative : Bool) :
    toDouble ⟨n * 10 ^ j, exponent⟩ negative = toDouble ⟨n, exponent + j⟩ negative := by
  rcases Nat.eq_zero_or_pos n with rfl | hn
  · simp [toDouble]
  have leading : exponent + digitCount (n * 10 ^ j) = exponent + j + digitCount n := by
    rw [digitCount_mul_ten_pow hn]
    push_cast
    ring
  have nonzero : n * 10 ^ j ≠ 0 := (Nat.mul_pos hn (Nat.pow_pos (by decide))).ne'
  have ratio : ∀ (m : Nat) (e : Int),
      (if 0 ≤ e then Double.ofRatio negative (m * Nat.pow 10 e.toNat) 1
        else Double.ofRatio negative m (Nat.pow 10 (-e).toNat)) =
      Double.ofRatio negative (m * 10 ^ e.toNat) (10 ^ (-e).toNat) := by
    intro m e
    split
    · next h => rw [Int.toNat_eq_zero.2 (by omega : -e ≤ 0)]; rfl
    · next h => rw [Int.toNat_eq_zero.2 (by omega : e ≤ 0), Nat.pow_zero, Nat.mul_one]; rfl
  unfold toDouble
  simp only [leading, nonzero, hn.ne', false_or, ratio]
  split
  · rfl
  split
  · rfl
  -- The ratios differ by a power of ten.
  obtain ⟨k, hk⟩ : ∃ k, (-exponent).toNat = (-(exponent + j)).toNat + k :=
    ⟨(-exponent).toNat - (-(exponent + j)).toNat, by omega⟩
  have numerator : n * 10 ^ j * 10 ^ exponent.toNat = n * 10 ^ (exponent + j).toNat * 10 ^ k := by
    rw [Nat.mul_assoc, Nat.mul_assoc, ← Nat.pow_add, ← Nat.pow_add,
      (by omega : j + exponent.toNat = (exponent + j).toNat + k)]
  rw [numerator, hk, Nat.pow_add]
  exact Double.ofRatio_mul_right _ _ _ (Nat.pow_pos (by decide))

end Decimal

namespace Double

/-! ## The shortest decimal number -/

theorem toDouble_nearestReading {x : Double} {n d : Nat} {exponent : Int} {found : Decimal}
    (h : nearestReading x n d exponent = some found) : found.toDouble false = x := by
  unfold nearestReading at h
  simp only at h
  split at h
  · next below above =>
    obtain rfl := Option.some.inj h
    split
    · exact beq_iff_eq.1 below
    · exact beq_iff_eq.1 above
  · next below _ => exact Option.some.inj h ▸ beq_iff_eq.1 below
  · next _ above => exact Option.some.inj h ▸ beq_iff_eq.1 above
  · cases h

/-- A ratio over a power of two is a decimal number, with as many digits behind the point. -/
theorem toDouble_mul_five_pow {n m l h unit greatest : Nat} (hunit : Nat.pow 2 m = unit)
    (hn : 0 < n) (hlt : n < greatest) (hl : Nat.pow 10 l ≤ Nat.pow 5 m)
    (hh : greatest * Nat.pow 5 m ≤ Nat.pow 10 h) (positive : 0 < m ∧ 0 < l ∧ 0 < h)
    (low : m ≤ l + 401) (high : h ≤ m + 400) :
    Decimal.toDouble ⟨n * Nat.pow 5 m, -m⟩ false = ofRatio false n unit := by
  obtain ⟨hm, l_pos, h_pos⟩ := positive
  have five : 0 < Nat.pow 5 m := Nat.pow_pos (by decide)
  have ten : Nat.pow 10 m = unit * Nat.pow 5 m := hunit ▸ Nat.mul_pow 2 5 m
  have digits : ∀ {k : Nat}, 0 < k →
      (digitCount (n * Nat.pow 5 m) ≤ k ↔ n * Nat.pow 5 m < Nat.pow 10 k) :=
    Nat.length_toDigits_le_iff (by decide)
  have many : l < digitCount (n * Nat.pow 5 m) := by
    rw [← Nat.not_le, digits l_pos, Nat.not_lt]
    exact hl.trans (Nat.le_mul_of_pos_left _ hn)
  have few : digitCount (n * Nat.pow 5 m) ≤ h :=
    (digits h_pos).2 ((Nat.mul_lt_mul_of_pos_right hlt five).trans_le hh)
  have nonzero : n * Nat.pow 5 m ≠ 0 := (Nat.mul_pos hn five).ne'
  unfold Decimal.toDouble
  simp only
  rw [if_neg (by omega), if_neg (by omega), if_neg (by omega), Int.neg_neg, Int.toNat_natCast,
    ten, ofRatio_mul_right _ _ _ five]

theorem toDouble_exactDecimal {significand scale : Nat} (h : IsNormal significand scale)
    (hs : significand ≠ 0) :
    (exactDecimal significand scale).toDouble false = finite false significand scale := by
  have positive : 0 < significand * Nat.pow 2 scale :=
    Nat.mul_pos (Nat.pos_of_ne_zero hs) (Nat.two_pow_pos scale)
  have bounded : ∀ top, scale ≤ top → significand * Nat.pow 2 scale < 2 ^ 53 * Nat.pow 2 top :=
    fun top le => Nat.mul_lt_mul_of_lt_of_le h.significand_lt
      (Nat.pow_le_pow_right (by decide) le) (Nat.two_pow_pos top)
  obtain ⟨unit, hunit⟩ : ∃ unit, Nat.pow 2 1074 = unit := ⟨_, rfl⟩
  -- With 674 to 1474 digits and 1074 places behind the point, the number is neither so small
  -- nor so large that it would be taken for zero or infinity.
  have ratio := toDouble_mul_five_pow (l := 673) (h := 1474) hunit positive
    (bounded 2045 h.scale_le) (by decide +kernel) (by decide +kernel) (by decide) (by decide)
    (by decide)
  simpa only [exactDecimal, ofRatio_exact false hunit h, Nat.cast_ofNat] using ratio

/-- The decimal number that is written for a double rounds to the double. -/
theorem toDouble_shortest {significand scale : Nat} (h : IsNormal significand scale)
    (hs : significand ≠ 0) :
    (shortest significand scale).toDouble false = finite false significand scale := by
  unfold shortest
  simp only
  cases hf : (List.range 17).findSome? _ with
  | none => exact toDouble_exactDecimal h hs
  | some found =>
    -- Whatever is found has been tried out.
    obtain ⟨more, -, hmore⟩ := List.exists_of_findSome?_eq_some hf
    exact toDouble_nearestReading hmore

end Double

/-! ## Digits -/

/-- All characters are digits. -/
def AreDigits (chars : List Char) : Prop := ∀ c ∈ chars, c.isDigit = true

theorem natOfDigits_eq (digits : List Char) : natOfDigits digits = Nat.ofDigitChars 10 digits 0 :=
  Nat.ofDigitChars_eq_foldl.symm

theorem natOfDigits_append_zeros (digits : List Char) (j : Nat) :
    natOfDigits (digits ++ List.replicate j '0') = natOfDigits digits * 10 ^ j := by
  rw [natOfDigits_eq, Nat.ofDigitChars_append, Nat.ofDigitChars_replicate_zero, ← natOfDigits_eq,
    Nat.mul_comm]

theorem natOfDigits_zeros_append (digits : List Char) (j : Nat) :
    natOfDigits (List.replicate j '0' ++ digits) = natOfDigits digits := by
  rw [natOfDigits_eq, Nat.ofDigitChars_append, Nat.ofDigitChars_replicate_zero, Nat.mul_zero,
    ← natOfDigits_eq]

theorem areDigits_zeros (j : Nat) : AreDigits (List.replicate j '0') :=
  fun _ hc => List.eq_of_mem_replicate hc ▸ rfl

theorem areDigits_toDigits (n : Nat) : AreDigits (Nat.toDigits 10 n) :=
  fun _ hc => Nat.isDigit_of_mem_toDigits (by decide) (by decide) hc

theorem natOfDigits_toDigits (n : Nat) : natOfDigits (Nat.toDigits 10 n) = n := by
  rw [natOfDigits_eq, Nat.ofDigitChars_ten_toDigits]

/-- Characters without the zeros at their end. -/
theorem exists_zeros (chars : List Char) :
    ∃ j, chars = (chars.reverse.dropWhile (· == '0')).reverse ++ List.replicate j '0' := by
  have zeros : chars.reverse.takeWhile (· == '0') =
      List.replicate (chars.reverse.takeWhile (· == '0')).length '0' :=
    List.eq_replicate_of_mem fun c hc =>
      beq_iff_eq.1 (List.mem_takeWhile_imp (p := fun c => c == '0') hc)
  refine ⟨(chars.reverse.takeWhile (· == '0')).length, ?_⟩
  rw [← List.reverse_replicate, ← zeros, ← List.reverse_append, List.takeWhile_append_dropWhile,
    List.reverse_reverse]

/-! ## Readings -/

namespace Reading

variable {whole fraction rest : List Char} {exponent : Int} {negative : Bool}

theorem toLower_of_isDigit {c : Char} (h : c.isDigit = true) : c.toLower = c := by
  have le : c.toNat ≤ 57 := (Char.isDigit_iff_toNat.1 h).2
  refine dif_neg ?_
  rintro ⟨ge, -⟩
  have : 65 ≤ c.toNat := UInt32.le_iff_toNat_le.1 ge
  omega

/-- What begins with a digit is none of the words for numbers. -/
theorem word_of_digits (hne : whole ≠ []) (digits : AreDigits whole) (rest : List Char)
    (word : String) {c : Char} (hw : word.toList.head? = some c) (hc : c.isDigit = false) :
    (String.ofList ((whole ++ rest).map Char.toLower) == word) = false := by
  obtain ⟨first, others, rfl⟩ := List.exists_cons_of_ne_nil hne
  have digit : first.isDigit = true := digits first List.mem_cons_self
  rw [beq_eq_false_iff_ne]
  rintro rfl
  rw [String.toList_ofList, List.cons_append, List.map_cons, List.head?_cons,
    toLower_of_isDigit digit] at hw
  exact absurd digit (by simp [Option.some.inj hw, hc])

/-- A number with a point. -/
theorem unsigned?_point (hne : whole ≠ []) (hw : AreDigits whole)
    (hf : MaximalRun Char.isDigit fraction rest) (he : exponent? rest = some exponent) :
    unsigned? negative (whole ++ '.' :: (fraction ++ rest)) =
      some (Decimal.toDouble ⟨natOfDigits (whole ++ fraction), -fraction.length + exponent⟩
        negative) := by
  have run : MaximalRun Char.isDigit whole ('.' :: (fraction ++ rest)) := by
    refine ⟨hw, ?_⟩
    rintro _ ⟨⟩
    rfl
  have word := word_of_digits hne hw ('.' :: (fraction ++ rest))
  unfold unsigned?
  simp only [word "inf" rfl rfl, word "infinity" rfl rfl, word "nan" rfl rfl,
    run.takeWhile_eq, run.dropWhile_eq, hf.takeWhile_eq, hf.dropWhile_eq, he]
  rw [if_neg (by decide), if_neg (by decide), if_neg (by simp [hne])]
  rfl

/-- A number without a point. -/
theorem unsigned?_whole (hne : whole ≠ []) (run : MaximalRun Char.isDigit whole rest)
    (hp : '.' ∉ rest.head?) (he : exponent? rest = some exponent) :
    unsigned? negative (whole ++ rest) =
      some (Decimal.toDouble ⟨natOfDigits whole, exponent⟩ negative) := by
  have word := word_of_digits hne run.mem rest
  unfold unsigned?
  simp only [word "inf" rfl rfl, word "infinity" rfl rfl, word "nan" rfl rfl,
    run.takeWhile_eq, run.dropWhile_eq]
  rw [if_neg (by decide), if_neg (by decide)]
  split
  · exact absurd rfl hp
  · simp [hne, he, Decimal.ofDigits]

theorem areDigits_padded (width n : Nat) : AreDigits (Double.padded width (Nat.toDigits 10 n)) :=
  List.forall_mem_append.2 ⟨areDigits_zeros _, areDigits_toDigits n⟩

/-- An exponent as it is written. -/
theorem exponent?_padded (width : Nat) (exponent : Int) :
    exponent? ('e' :: (if exponent < 0 then '-' else '+') ::
      Double.padded width (Nat.toDigits 10 exponent.natAbs)) = some exponent := by
  have digits := areDigits_padded width exponent.natAbs
  have value : natOfDigits (Double.padded width (Nat.toDigits 10 exponent.natAbs)) =
      exponent.natAbs := by
    rw [Double.padded, natOfDigits_zeros_append, natOfDigits_toDigits]
  have nonempty : Double.padded width (Nat.toDigits 10 exponent.natAbs) ≠ [] :=
    List.append_ne_nil_of_right_ne_nil _ Nat.toDigits_ne_nil
  generalize Double.padded width (Nat.toDigits 10 exponent.natAbs) = padded at *
  have read : ∀ sign : Bool, (if 'e'.toLower != 'e' || padded.isEmpty || !padded.all Char.isDigit
      then none else some (if sign then -(natOfDigits padded : Int) else natOfDigits padded)) =
      some (if sign then -(exponent.natAbs : Int) else exponent.natAbs) := by
    intro sign
    rw [if_neg (by simp [nonempty, List.all_eq_true.2 digits]), value]
  split
  · next h =>
    refine (read true).trans (congrArg some ?_)
    simp only [if_true]
    omega
  · next h =>
    refine (read false).trans (congrArg some ?_)
    simp only [Bool.false_eq_true, if_false]
    omega

end Reading

namespace Double

open Reading

variable {digits : List Char} {negative : Bool}

theorem unsigned?_positional (hne : digits ≠ []) (hd : AreDigits digits) (point : Int) :
    unsigned? negative (positional digits point) =
      some (Decimal.toDouble ⟨natOfDigits digits, point - digits.length⟩ negative) := by
  have reads : ∀ {whole fraction : List Char}, whole ≠ [] → AreDigits whole →
      AreDigits fraction → unsigned? negative (whole ++ '.' :: fraction) =
        some (Decimal.toDouble ⟨natOfDigits (whole ++ fraction), -fraction.length⟩ negative) := by
    intro whole fraction hne hw hf
    have run : MaximalRun Char.isDigit fraction [] := ⟨hf, nofun⟩
    simpa using unsigned?_point hne hw run rfl
  unfold positional
  -- The point is in front of all digits, behind them or among them.
  split
  · next h =>
    have fraction : AreDigits (List.replicate (-point).toNat '0' ++ digits) :=
      List.forall_mem_append.2 ⟨areDigits_zeros _, hd⟩
    have exponent : -((List.replicate (-point).toNat '0' ++ digits).length : Int) =
        point - digits.length := by
      rw [List.length_append, List.length_replicate]
      omega
    refine (reads (List.cons_ne_nil '0' []) (areDigits_zeros 1) fraction).trans ?_
    rw [exponent, ← List.append_assoc]
    exact congrArg (fun n => some (Decimal.toDouble ⟨n, _⟩ negative))
      (natOfDigits_zeros_append digits ((-point).toNat + 1))
  split
  · next h h' =>
    have whole : AreDigits (digits ++ List.replicate (point.toNat - digits.length) '0') :=
      List.forall_mem_append.2 ⟨hd, areDigits_zeros _⟩
    have zeros : digits ++ List.replicate (point.toNat - digits.length) '0' ++
        List.replicate 1 '0' = digits ++ List.replicate (point.toNat - digits.length + 1) '0' := by
      rw [List.append_assoc, List.replicate_append_replicate]
    have exponent : -((List.replicate 1 '0').length : Int) +
        (point.toNat - digits.length + 1 : Nat) = point - digits.length := by
      rw [List.length_replicate]
      omega
    refine (reads (List.append_ne_nil_of_left_ne_nil hne _) whole (areDigits_zeros 1)).trans ?_
    rw [zeros, natOfDigits_append_zeros, Decimal.toDouble_mul_ten_pow, exponent]
  · next h h' =>
    have whole : digits.take point.toNat ≠ [] := by
      rw [Ne, List.take_eq_nil_iff]
      simp only [hne, or_false]
      omega
    have exponent : -((digits.drop point.toNat).length : Int) = point - digits.length := by
      rw [List.length_drop]
      omega
    refine (reads whole (fun c hc => hd c (List.mem_of_mem_take hc))
      fun c hc => hd c (List.mem_of_mem_drop hc)).trans ?_
    rw [List.take_append_drop, exponent]

theorem unsigned?_scientific (hne : digits ≠ []) (hd : AreDigits digits) (width : Nat)
    (exponent : Int) : unsigned? negative (scientific width digits exponent) =
      some (Decimal.toDouble ⟨natOfDigits digits, exponent + 1 - digits.length⟩ negative) := by
  obtain ⟨first, fraction, rfl⟩ := List.exists_cons_of_ne_nil hne
  obtain ⟨digit, hf⟩ := List.forall_mem_cons.1 hd
  have written := exponent?_padded width exponent
  have stop : ∀ {digits rest : List Char}, AreDigits digits →
      MaximalRun Char.isDigit digits ('e' :: rest) := by
    refine fun h => ⟨h, ?_⟩
    rintro _ ⟨⟩
    rfl
  have first_digit : AreDigits [first] := List.forall_mem_singleton.2 digit
  cases fraction with
  | nil =>
    refine (unsigned?_whole hne (stop first_digit) nofun written).trans ?_
    rw [List.length_singleton, Int.natCast_one, Int.add_sub_cancel]
  | cons second others =>
    refine (unsigned?_point (List.cons_ne_nil _ _) first_digit (stop hf) written).trans ?_
    rw [List.length_cons (a := first)]
    have shifted : -((second :: others).length : Int) + exponent =
        exponent + 1 - ((second :: others).length + 1 : Nat) := by omega
    rw [shifted]
    rfl

/-- However a decimal number is laid out, its text shows it. -/
theorem unsigned?_write (l : Layout) {d : Decimal} (hd : d.coefficient ≠ 0) :
    unsigned? negative (l.write d) = some (d.toDouble negative) := by
  obtain ⟨j, hj⟩ := exists_zeros (Nat.toDigits 10 d.coefficient)
  unfold Layout.write
  simp only
  generalize hdigits : ((Nat.toDigits 10 d.coefficient).reverse.dropWhile (· == '0')).reverse =
    digits at hj ⊢
  have value : natOfDigits digits * 10 ^ j = d.coefficient := by
    rw [← natOfDigits_append_zeros, ← hj, natOfDigits_toDigits]
  have length : (Nat.toDigits 10 d.coefficient).length = digits.length + j := by
    rw [hj, List.length_append, List.length_replicate]
  have areDigits : AreDigits digits := fun c hc =>
    areDigits_toDigits d.coefficient c (hj ▸ List.mem_append_left _ hc)
  have hne : digits ≠ [] := by
    rintro rfl
    exact hd (value ▸ Nat.zero_mul _)
  have same : ∀ {exponent : Int}, exponent = d.exponent + j →
      Decimal.toDouble ⟨natOfDigits digits, exponent⟩ negative = d.toDouble negative := by
    rintro _ rfl
    rw [← Decimal.toDouble_mul_ten_pow, value]
  split
  · rw [unsigned?_positional hne areDigits, same (by omega)]
  · rw [unsigned?_scientific hne areDigits, same (by omega)]

/-! ## Texts -/

/-- The text of a double that a ratio is rounded to, if it is not negative, shows the double. -/
theorem unsigned?_chars {x : Double} (h : x.IsRounded false) :
    unsigned? false x.chars = some x := by
  cases h with
  | @finite significand scale normal =>
    by_cases hs : significand = 0
    · subst hs
      obtain rfl := normal.scale_eq_zero
      rfl
    · have shown := toDouble_shortest normal hs
      have nonzero : (shortest significand scale).coefficient ≠ 0 := by
        intro hz
        rw [Decimal.toDouble, if_pos (.inl hz)] at shown
        cases shown
        exact hs rfl
      obtain ⟨n, rfl⟩ := Nat.exists_eq_succ_of_ne_zero hs
      exact (unsigned?_write layout nonzero).trans (congrArg some shown)
  | infinity => rfl

/-- Different doubles have different texts. -/
theorem text_injective {x y : Double} (hx : x.IsRounded false) (hy : y.IsRounded false)
    (h : x.text = y.text) : x = y := by
  have chars : x.chars = y.chars := String.ofList_injective h
  exact Option.some.inj (by rw [← unsigned?_chars hx, ← unsigned?_chars hy, chars])

end Double

end Soul
