import Mathlib
import Variational.Decimal.Reading
import Variational.Proofs.Rounding

/-!
# Reading decimals

The text of a finite double reads back as that double.
-/

namespace Variational.Decimal

open Float.Model Float.Model.UnpackedFloat

/-! ## Packing -/

theorem unpackSign_packComponents {spec : Format} {sign : UnpackedFloat.Sign}
    {exponent : BitVec spec.exponentBits} {mantissa : BitVec spec.mantissaBitsWithoutImplicit} :
    unpackSign (packComponents spec sign exponent mantissa) = sign.toBitVec := by
  refine BitVec.eq_of_getLsbD_eq fun i inside => ?_
  obtain rfl : i = 0 := by omega
  simp [unpackSign, packComponents, BitVec.getLsbD_append, BitVec.getElem_append]

theorem ofBitVec_toBitVec (sign : UnpackedFloat.Sign) :
    UnpackedFloat.Sign.ofBitVec sign.toBitVec = sign := by
  cases sign <;> rfl

theorem unpack_normal (sign : UnpackedFloat.Sign) {exponent : BitVec 11} {mantissa : BitVec 52}
    {m : Nat} {e : Int} {positive : 0 < m} (finite : exponent ≠ -1#11) (nonzero : exponent ≠ 0#11)
    (known : (1#1 ++ mantissa).toNat = m) (placed : (exponent.toNat - 1075 : Int) = e) :
    UnpackedFloat.unpack .binary64 (packComponents .binary64 sign exponent mantissa) =
      .finite sign m e positive := by
  subst known placed
  rw [UnpackedFloat.unpack]
  simp only [unpackMantissa_packComponents, unpackExponent_packComponents,
    unpackSign_packComponents, ofBitVec_toBitVec, if_neg finite, if_neg nonzero]
  rfl

theorem unpack_subnormal (sign : UnpackedFloat.Sign) {mantissa : BitVec 52} {m : Nat}
    {positive : 0 < m} (known : mantissa.toNat = m) :
    UnpackedFloat.unpack .binary64 (packComponents .binary64 sign 0#11 mantissa) =
      .finite sign m leastExponent positive := by
  subst known
  have nonzero : mantissa ≠ 0#52 := by
    rintro rfl
    exact absurd positive (by decide)
  have finite : 0#11 ≠ -1#11 := by decide
  rw [UnpackedFloat.unpack]
  simp only [unpackMantissa_packComponents, unpackExponent_packComponents,
    unpackSign_packComponents, ofBitVec_toBitVec, if_neg finite, if_true, dif_neg nonzero]
  rfl

variable {r : Rounding}

/-- A double that is not too large is packed as it is. -/
theorem unpack_pack (sign : UnpackedFloat.Sign) (canonical : r.Canonical) (bounded : r.e ≤ 971) :
    (Float.Model.pack (.finite sign r.m r.e canonical.positive)).unpack =
      .finite sign r.m r.e canonical.positive := by
  obtain ⟨m, e⟩ := r
  have positive : 0 < m := canonical.positive
  have short : m < 2 ^ 53 := canonical.bounded
  have least : -1074 ≤ e := canonical.least
  have normal : -1074 < e → 2 ^ 52 ≤ m := canonical.normal
  dsimp only at bounded
  have biased : (e + Format.binary64.exponentBias +
      Format.binary64.mantissaBitsWithoutImplicit).toNat = (e + 1075).toNat := by
    change (e + 1023 + 52).toNat = _
    omega
  change UnpackedFloat.unpack .binary64 (UnpackedFloat.pack .binary64 _) = _
  simp only [UnpackedFloat.pack, biased]
  rw [if_neg (by change ¬ 2048 ≤ _; omega)]
  split
  · rename_i bits
    have long : 2 ^ 52 ≤ m := (Nat.le_log2 positive.ne').1 (Nat.succ.inj bits).ge
    have stored : (BitVec.ofNat 11 (e + 1075).toNat).toNat = (e + 1075).toNat :=
      Nat.mod_eq_of_lt (by omega)
    have apart : ∀ n : Nat, (e + 1075).toNat ≠ n → n < 2048 →
        BitVec.ofNat 11 (e + 1075).toNat ≠ BitVec.ofNat 11 n := by
      intro n distinct small same
      have same := congrArg BitVec.toNat same
      rw [stored, BitVec.toNat_ofNat, Nat.mod_eq_of_lt small] at same
      exact distinct same
    refine unpack_normal sign (apart 2047 (by omega) (by decide)) (apart 0 (by omega) (by decide))
      ?_ (by rw [stored]; omega)
    rw [toNat_one_append, BitVec.toNat_ofNat]
    omega
  · rename_i bits
    have few : m < 2 ^ 52 := by
      have bits : m.log2 + 1 ≠ 53 := bits
      have upper := (Nat.log2_lt positive.ne').2 short
      exact (Nat.log2_lt positive.ne').1 (by omega)
    obtain rfl : e = leastExponent := by
      simp only [leastExponent]
      omega
    exact unpack_subnormal sign (Nat.mod_eq_of_lt few)

theorem exponent_le_of_unpack {x : Float} {sign : UnpackedFloat.Sign} {m : Nat} {e : Int}
    {positive : 0 < m} (unpacked : x.toModel.unpack = .finite sign m e positive) : e ≤ 971 := by
  have bounded : ∀ exponent : BitVec 11, exponent ≠ -1#11 → exponent.toNat ≤ 2046 := by
    intro exponent finite
    have below := exponent.isLt
    have apart : exponent.toNat ≠ 2047 := fun same => finite (BitVec.eq_of_toNat_eq same)
    omega
  have placed : ∀ exponent : BitVec 11, exponent ≠ -1#11 → e = exponent.toNat - 1075 → e ≤ 971 := by
    intro exponent finite rfl
    have below := bounded exponent finite
    omega
  rw [Float.Model.unpack, UnpackedFloat.unpack] at unpacked
  dsimp only at unpacked
  split at unpacked
  · split at unpacked <;> cases unpacked
  rename_i finite
  split at unpacked
  · rename_i zero
    split at unpacked
    · cases unpacked
    · cases unpacked
      rw [zero]
      decide
  · cases unpacked
    exact placed _ finite rfl

/-! ## Numbers that are doubles -/

/-- The mantissa of a natural number of at most 53 bits, filled up with zeros. -/
theorem exists_canonical {d : Nat} (positive : 0 < d) (short : d < 2 ^ 53) :
    ∃ n, d.log2 + n = 52 ∧ 2 ^ 52 ≤ d * 2 ^ n ∧ (⟨d * 2 ^ n, -n⟩ : Rounding).Canonical ∧
      ((d * 2 ^ n : Nat) * 2 ^ (-n : Int) : ℚ) = d := by
  have bits : d.log2 < 53 := (Nat.log2_lt positive.ne').2 short
  obtain ⟨n, length⟩ : ∃ n, d.log2 + n = 52 := ⟨52 - d.log2, by omega⟩
  have long : 2 ^ 52 ≤ d * 2 ^ n := by
    rw [← length, Nat.pow_add]
    exact Nat.mul_le_mul_right _ (Nat.log2_self_le positive.ne')
  have bounded : d * 2 ^ n < 2 ^ 53 := by
    rw [show 53 = d.log2 + 1 + n by omega, Nat.pow_add]
    exact Nat.mul_lt_mul_of_pos_right Nat.lt_log2_self (by positivity)
  refine ⟨n, length, long, ⟨by positivity, bounded, ?_, fun _ => long⟩, ?_⟩
  · simp only [leastExponent]
    omega
  · rw [zpow_neg, zpow_natCast]
    push_cast
    field_simp

/-- A natural number of at most 53 bits is a double. -/
theorem unpack_toFloat {d : Nat} (positive : 0 < d) (short : d < 2 ^ 53) :
    ∃ m e, ∃ positive : 0 < m, d.toUInt64.toFloat.toModel.unpack = .finite .positive m e positive ∧
      2 ^ 52 ≤ m ∧ (m * 2 ^ e : ℚ) = d := by
  have word : d.toUInt64.toNat = d := Nat.mod_eq_of_lt (by omega)
  obtain ⟨n, length, long, canonical, value⟩ := exists_canonical positive short
  have shift : (-Format.binary64.targetExponent (totalExponent d 0)).toNat = n := by
    rw [targetExponent_eq, totalExponent, leastExponent]
    omega
  refine ⟨d * 2 ^ n, -n, canonical.positive, ?_, long, value⟩
  change (Float.Model.pack (normalize .binary64 d.toUInt64.toNat 0 .positive)).unpack = _
  have above : compare (d : Int) 0 = .gt := Int.compare_eq_gt.2 (by omega)
  rw [word]
  simp only [UnpackedFloat.normalize, above, UnpackedFloat.round, decreaseExponent,
    Int.toNat_natCast, zero_sub, shift, Nat.shiftLeft_eq]
  have exact : roundWithAccuracy .binary64 .positive (d * 2 ^ n) (-n) .exact =
      .finite .positive (d * 2 ^ n) (-n) canonical.positive :=
    roundWithAccuracy_eq .positive canonical (.exact _) (Or.inl long) canonical.meets_self
  rw [exact]
  exact unpack_pack .positive canonical (by dsimp only; omega)

theorem powerOfTen_exact (k : Fin Float.exactlyRepresentablePowersOfTen.size) :
    (match Float.exactlyRepresentablePowersOfTen[k].toModel.unpack with
      | .finite .positive m e _ => m * 2 ^ e.toNat == 10 ^ k.val * 2 ^ (-e).toNat
      | _ => false) = true := by
  revert k
  decide +kernel

/-- The tabled powers of ten are doubles. -/
theorem unpack_powerOfTen {k : Nat} (small : k < Float.exactlyRepresentablePowersOfTen.size) :
    ∃ m e, ∃ positive : 0 < m,
      Float.exactlyRepresentablePowersOfTen[k].toModel.unpack = .finite .positive m e positive ∧
        (m * 2 ^ e : ℚ) = 10 ^ k := by
  have listed := powerOfTen_exact ⟨k, small⟩
  split at listed
  · rename_i m e positive unpacked
    refine ⟨m, e, positive, unpacked, ?_⟩
    have equal : (m * 2 ^ e.toNat : ℚ) = 10 ^ k * 2 ^ (-e).toNat := by
      exact_mod_cast beq_iff_eq.1 listed
    rw [Rounding.pow_toNat two_ne_zero, ← mul_assoc] at equal
    exact mul_right_cancel₀ (by positivity) equal
  · cases listed

/-! ## The nearest double -/

theorem Rounding.Canonical.le_of_meets {v : ℚ} (canonical : r.Canonical) (bounded : r.e ≤ 971)
    (meets : r.Meets v) : v ≤ 2 ^ (1024 : Int) := by
  have short := canonical.bounded
  have high : (r.high : ℚ) ≤ 2 ^ (55 : Int) := by
    have whole : r.high ≤ 2 ^ 55 := by
      rw [Rounding.high]
      omega
    exact_mod_cast whole
  have scale : (2 : ℚ) ^ (r.e - 2) ≤ 2 ^ (969 : Int) :=
    zpow_le_zpow_right₀ one_le_two (by omega)
  calc v ≤ r.high * 2 ^ (r.e - 2) := meets.below
    _ ≤ 2 ^ (55 : Int) * 2 ^ (969 : Int) := mul_le_mul high scale (by positivity) (by positivity)
    _ = 2 ^ (1024 : Int) := by rw [← zpow_add₀ two_ne_zero]; norm_num

variable {d : Nat} {p : Int}

/-- The exponent of a decimal that rounds to a double is not out of all bounds. -/
theorem exponent_bounds (canonical : r.Canonical) (bounded : r.e ≤ 971) (positive : 0 < d)
    (meets : r.Meets (d * 10 ^ p)) : p ≤ 2 ^ 11 ∧ -(2 ^ 11 + d.log2 : Int) ≤ p := by
  constructor
  · by_contra above
    have whole : (1 : ℚ) ≤ d := by exact_mod_cast positive
    have large : (2 : ℚ) ^ (1024 : Int) < d * 10 ^ p := by
      calc (2 : ℚ) ^ (1024 : Int) < 2 ^ p := zpow_lt_zpow_right₀ one_lt_two (by omega)
        _ ≤ 10 ^ p := zpow_le_zpow_left₀ (by omega) two_pos.le (by norm_num)
        _ ≤ d * 10 ^ p := le_mul_of_one_le_left (by positivity) whole
    exact absurd (canonical.le_of_meets bounded meets) (not_le.2 large)
  · by_contra below
    obtain ⟨n, rfl⟩ : ∃ n : Nat, p = -n := ⟨(-p).toNat, by omega⟩
    have digits : (d : ℚ) ≤ 2 ^ (d.log2 + 1 : Int) := by
      exact_mod_cast (Nat.lt_log2_self (n := d)).le
    have small : (d * 10 ^ (-n : Int) : ℚ) ≤ 2 * 2 ^ (leastExponent - 2) := by
      calc (d * 10 ^ (-n : Int) : ℚ) ≤ 2 ^ (d.log2 + 1 : Int) * 2 ^ (-n : Int) := by
            refine mul_le_mul digits ?_ (by positivity) (by positivity)
            rw [zpow_neg, zpow_neg, zpow_natCast, zpow_natCast]
            exact inv_anti₀ (by positivity) (pow_le_pow_left₀ two_pos.le (by norm_num) n)
        _ = 2 ^ (d.log2 + 1 - n : Int) := by rw [← zpow_add₀ two_ne_zero, sub_eq_add_neg]
        _ ≤ 2 ^ (1 + (leastExponent - 2)) := by
            refine zpow_le_zpow_right₀ one_le_two ?_
            rw [leastExponent]
            omega
        _ = 2 * 2 ^ (leastExponent - 2) := by rw [zpow_add₀ two_ne_zero, zpow_one]
    exact absurd small (not_le.2 (canonical.lt_of_meets meets))

/-- The slow way to the nearest double. -/
theorem ofScientific_eq (canonical : r.Canonical) (bounded : r.e ≤ 971) (positive : 0 < d)
    (meets : r.Meets (d * 10 ^ p)) : UnpackedFloat.ofScientific .binary64 d p =
      .finite .positive r.m r.e canonical.positive := by
  obtain ⟨above, below⟩ := exponent_bounds canonical bounded positive meets
  rw [UnpackedFloat.ofScientific, dif_neg positive.ne', if_neg (not_lt.2 above),
    if_neg (not_lt.2 below)]
  split
  · rename_i whole
    obtain ⟨n, rfl⟩ := Int.eq_ofNat_of_zero_le whole
    have shifted : d <<< Format.binary64.mantissaBits = d * 2 ^ 53 := Nat.shiftLeft_eq _ _
    refine mul_eq canonical ?_ ?_ meets
    · rw [shifted]
      omega
    · rw [shifted, show Format.binary64.mantissaBits = 53 from rfl, Int.toNat_natCast, zpow_natCast,
        zpow_zero, mul_one, zpow_neg, zpow_natCast, Nat.cast_mul, Nat.cast_pow, Nat.cast_pow,
        Nat.cast_ofNat, Nat.cast_ofNat, mul_inv_cancel_right₀ (pow_ne_zero _ two_ne_zero)]
  · rename_i fractional
    obtain ⟨n, rfl⟩ : ∃ n : Nat, p = -n := ⟨(-p).toNat, by omega⟩
    refine div_eq canonical ?_ meets
    push_cast
    simp [div_eq_mul_inv]

/-- A decimal is read as the double that it rounds to. -/
theorem unpack_nearest (canonical : r.Canonical) (bounded : r.e ≤ 971)
    (meets : r.Meets (d * 10 ^ p)) :
    (nearest d p).toModel.unpack = .finite .positive r.m r.e canonical.positive := by
  have positive : 0 < d := by
    rw [Nat.pos_iff_ne_zero]
    rintro rfl
    rw [Nat.cast_zero, zero_mul] at meets
    exact canonical.not_meets_zero meets
  rw [nearest, Float.ofScientific]
  split
  · -- Both factors are doubles.
    rename_i exact
    obtain ⟨m₁, e₁, positive₁, unpacked₁, long, value₁⟩ := unpack_toFloat positive exact.1
    have tabled : p.natAbs < Float.exactlyRepresentablePowersOfTen.size := by
      change p.natAbs < 23
      omega
    obtain ⟨m₂, e₂, positive₂, unpacked₂, value₂⟩ := unpack_powerOfTen tabled
    dsimp only
    split
    · rename_i fractional
      obtain ⟨n, rfl⟩ : ∃ n : Nat, p = -n := ⟨p.natAbs, by simp at fractional; omega⟩
      change (Float.Model.pack (UnpackedFloat.div .binary64 d.toUInt64.toFloat.toModel.unpack
        Float.exactlyRepresentablePowersOfTen[(-(n : Int)).natAbs].toModel.unpack)).unpack = _
      rw [unpacked₁, unpacked₂, div_eq canonical ?_ meets]
      · exact unpack_pack .positive canonical bounded
      · rw [value₁, value₂, Int.natAbs_neg, Int.natAbs_natCast, zpow_neg, zpow_natCast,
          div_eq_mul_inv]
    · rename_i whole
      obtain ⟨n, rfl⟩ : ∃ n : Nat, p = n := ⟨p.natAbs, by simp at whole; omega⟩
      change (Float.Model.pack (UnpackedFloat.mul .binary64 d.toUInt64.toFloat.toModel.unpack
        Float.exactlyRepresentablePowersOfTen[(n : Int).natAbs].toModel.unpack)).unpack = _
      rw [unpacked₁, unpacked₂, mul_eq canonical long ?_ meets]
      · exact unpack_pack .positive canonical bounded
      · rw [value₁, value₂, Int.natAbs_natCast, zpow_natCast]
  · have exponent : (if decide (p < 0) = true then Int.negOfNat p.natAbs
        else Int.ofNat p.natAbs) = p := by
      cases p with
      | ofNat n => simp
      | negSucc n =>
        rw [decide_eq_true (Int.negSucc_lt_zero n)]
        rfl
    simp only [exponent]
    change (Float.Model.pack (UnpackedFloat.ofScientific .binary64 d p)).unpack = _
    rw [ofScientific_eq canonical bounded positive meets]
    exact unpack_pack .positive canonical bounded

/-! ## Texts -/

/-- Digits with at most one point behind the first of them. -/
inductive Spelled : List Char → Prop
  | digits {whole : List Char} : whole ≠ [] → (∀ c ∈ whole, c.isDigit = true) → Spelled whole
  | point {whole fraction : List Char} : whole ≠ [] → (∀ c ∈ whole, c.isDigit = true) →
      (∀ c ∈ fraction, c.isDigit = true) → Spelled (whole ++ '.' :: fraction)

theorem spelled_positional (d : Nat) (p : Int) : Spelled (positional d p).toList := by
  have digits : ∀ c ∈ Nat.toDigits 10 d, c.isDigit = true := fun c member =>
    Nat.isDigit_of_mem_toDigits (by decide) (by decide) member
  have zeros : ∀ n, ∀ c ∈ List.replicate n '0', c.isDigit = true := fun n c member =>
    List.eq_of_mem_replicate member ▸ by decide
  have padded : ∀ n, ∀ c ∈ List.replicate n '0' ++ Nat.toDigits 10 d, c.isDigit = true :=
    fun n c member => (List.mem_append.1 member).elim (zeros n c) (digits c)
  rw [positional]
  dsimp only
  split
  · rw [String.toList_ofList]
    exact .digits (List.append_ne_nil_of_left_ne_nil Nat.toDigits_ne_nil _) fun c member =>
      (List.mem_append.1 member).elim (digits c) (zeros _ c)
  split
  · rename_i short
    rw [String.toList_ofList]
    refine .point ?_ (fun c member => digits c (List.mem_of_mem_take member))
      fun c member => digits c (List.mem_of_mem_drop member)
    rw [← List.length_pos_iff_ne_nil, List.length_take]
    omega
  · rw [String.toList_ofList]
    exact .point (List.cons_ne_nil '0' []) (zeros 1) (padded _)

/-- Reading digits gives the double nearest to the number that they denote. -/
theorem Spelled.readDigits {cs : List Char} (spelled : Spelled cs) :
    ∃ d p, readDigits cs = some (nearest d p) ∧ (d * 10 ^ p : ℚ) = valueOf cs := by
  cases spelled with
  | digits nonempty all =>
    refine ⟨Text.digitsValue cs, 0, ?_, by rw [valueOf_digits all, zpow_zero, mul_one]⟩
    rw [Decimal.readDigits]
    simp [List.takeWhile_eq_self_iff.2 all, List.dropWhile_eq_nil_iff.2 all, nonempty, readExponent]
  | @point whole fraction nonempty all all' =>
    have stop : Char.isDigit '.' = false := by decide
    refine ⟨Text.digitsValue (whole ++ fraction), -fraction.length, ?_, ?_⟩
    · rw [Decimal.readDigits]
      simp [List.takeWhile_append_of_pos all, List.dropWhile_append_of_pos all, stop,
        List.takeWhile_eq_self_iff.2 all', List.dropWhile_eq_nil_iff.2 all', nonempty, readExponent]
    · rw [valueOf_point all, zpow_neg, zpow_natCast, div_eq_mul_inv]

theorem read_signMark (sign : UnpackedFloat.Sign) {body : String}
    (digit : ∃ c rest, body.toList = c :: rest ∧ c.isDigit = true) :
    read (signMark sign ++ body).toList = match sign with
      | .positive => readUnsigned body.toList
      | .negative => (readUnsigned body.toList).map (-·) := by
  cases sign with
  | negative => rw [String.toList_append]; rfl
  | positive =>
    obtain ⟨c, rest, text, digit⟩ := digit
    have minus : c ≠ '-' := by
      rintro rfl
      exact absurd digit (by decide)
    have plus : c ≠ '+' := by
      rintro rfl
      exact absurd digit (by decide)
    rw [String.toList_append, text]
    change read (c :: rest) = readUnsigned (c :: rest)
    rw [read]
    · exact fun _ same => minus (List.cons.inj same).1
    · exact fun _ same => plus (List.cons.inj same).1

/-- The text of a finite double reads back as that double. -/
theorem read_write {x : Float} (finite : x.isFinite = true) :
    ∃ y, read (write x).toList = some y ∧ y.toModel.unpack = x.toModel.unpack := by
  have finite : x.toModel.unpack.isFinite = true := finite
  rw [write]
  cases unpacked : x.toModel.unpack with
  | notANumber => simp [unpacked, UnpackedFloat.isFinite] at finite
  | infinity sign => simp [unpacked, UnpackedFloat.isFinite] at finite
  | zero sign =>
    cases sign with
    | positive => exact ⟨nearest 0 0, rfl, rfl⟩
    | negative => exact ⟨-nearest 0 0, rfl, rfl⟩
  | finite sign m e positive =>
    have canonical := canonical_of_unpack unpacked
    have bounded := exponent_le_of_unpack unpacked
    have meets := canonical.shortest_meets
    obtain ⟨d, p, found, value⟩ := (spelled_positional _ _).readDigits
    rw [← valueOf_positional, ← value] at meets
    have known := unpack_nearest canonical bounded meets
    dsimp only
    rw [read_signMark sign (exists_digit_positional _ _), readUnsigned, found]
    cases sign with
    | positive => exact ⟨_, rfl, known⟩
    | negative =>
      refine ⟨_, rfl, ?_⟩
      change (Float.Model.pack (nearest d p).toModel.unpack.neg).unpack = _
      rw [known]
      exact unpack_pack .negative canonical bounded

/-! ## Characters of numbers -/

variable {c : Char} {cs : List Char} {x : Float}

/-- The characters that are not digits in a finite decimal number. -/
def marks : List Char := ['+', '-', '.', 'e', 'E']

/-- A character that finite decimal numbers are written with. -/
def Numeric (c : Char) : Prop :=
  c.isDigit = true ∨ c ∈ marks

theorem numeric_of_readExponentDigits {e : Int} (reads : readExponentDigits cs = some e) :
    ∀ c ∈ cs, Numeric c := by
  have digits : ∀ {ds : List Char}, ¬ (ds = [] ∨ ds.any (fun c => !c.isDigit) = true) →
      ∀ c ∈ ds, Numeric c := by
    intro ds accepted c member
    rw [not_or] at accepted
    exact Or.inl (by simpa using List.all_eq_true.1 (by simpa using accepted.2) c member)
  unfold readExponentDigits at reads
  split at reads
  rename_i negative ds parts
  split at reads
  · cases reads
  rename_i accepted
  split at parts
  all_goals cases parts
  · exact List.forall_mem_cons.2 ⟨Or.inr (by decide), digits accepted⟩
  · exact List.forall_mem_cons.2 ⟨Or.inr (by decide), digits accepted⟩
  · exact digits accepted

theorem numeric_of_readExponent {e : Int} (reads : readExponent cs = some e) :
    ∀ c ∈ cs, Numeric c := by
  cases cs with
  | nil => simp
  | cons d rest =>
    rw [readExponent] at reads
    split at reads
    · rename_i letter
      refine List.forall_mem_cons.2 ⟨Or.inr ?_, numeric_of_readExponentDigits reads⟩
      rcases letter with rfl | rfl <;> decide
    · cases reads

theorem numeric_of_readDigits (reads : readDigits cs = some x) : ∀ c ∈ cs, Numeric c := by
  have run : ∀ {ds : List Char}, ∀ c ∈ ds.takeWhile Char.isDigit, Numeric c :=
    fun c member => Or.inl (List.mem_takeWhile_imp member)
  unfold readDigits at reads
  dsimp only at reads
  rw [← List.takeWhile_append_dropWhile (p := Char.isDigit) (l := cs)]
  refine List.forall_mem_append.2 ⟨run, ?_⟩
  split at reads
  all_goals
    rename_i after shape
    split at reads
    · cases reads
    obtain ⟨e, exponent, -⟩ := Option.map_eq_some_iff.1 reads
    have last := numeric_of_readExponent exponent
  · rw [shape]
    refine List.forall_mem_cons.2 ⟨Or.inr (by decide), ?_⟩
    rw [← List.takeWhile_append_dropWhile (p := Char.isDigit) (l := after)]
    exact List.forall_mem_append.2 ⟨run, last⟩
  · exact last

/-- The words are not those of finite numbers. -/
theorem isFinite_of_readWord (reads : readWord cs = some x) :
    x.isFinite = false ∧ (-x).isFinite = false := by
  unfold readWord at reads
  dsimp only at reads
  split at reads
  · cases reads
    decide +kernel
  · split at reads
    · cases reads
      decide +kernel
    · cases reads

theorem numeric_of_readUnsigned (reads : readUnsigned cs = some x)
    (finite : x.isFinite = true ∨ (-x).isFinite = true) : ∀ c ∈ cs, Numeric c := by
  rcases Option.or_eq_some_iff.1 reads with digits | ⟨-, word⟩
  · exact numeric_of_readDigits digits
  · obtain ⟨unfinite, unfinite'⟩ := isFinite_of_readWord word
    simp [unfinite, unfinite'] at finite

/-- A finite number is written with digits and marks only. -/
theorem numeric_of_read (reads : read cs = some x) (finite : x.isFinite = true) :
    ∀ c ∈ cs, Numeric c := by
  unfold read at reads
  split at reads
  · obtain ⟨y, reads', rfl⟩ := Option.map_eq_some_iff.1 reads
    refine List.forall_mem_cons.2 ⟨Or.inr (by decide), ?_⟩
    exact numeric_of_readUnsigned reads' (Or.inr finite)
  · refine List.forall_mem_cons.2 ⟨Or.inr (by decide), ?_⟩
    exact numeric_of_readUnsigned reads (Or.inl finite)
  · exact numeric_of_readUnsigned reads (Or.inl finite)

end Variational.Decimal
