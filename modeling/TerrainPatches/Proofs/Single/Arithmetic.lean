import TerrainPatches.Proofs.Single.Rounding
import TerrainPatches.Scalar

/-!
# Single precision numbers and the numbers they stand for

A finite number stands for a rational one (`value`).  Finite numbers are compared like what they
stand for (`lt_iff`, `le_iff`).  A sum or a difference that can be written is exact, whatever the
signs (`Denotes.add`, `Denotes.sub`).  For numbers that are not negative (`Holds`), a product is
rounded with respect for order (`Holds.mul`) and a quotient to the nearest (`Holds.div_rounds`), so
that one that can be written is exact too.
-/

namespace TerrainPatches

open Float.Model Float.Model.UnpackedFloat

/-! ## what numbers stand for -/

def signed (s : Sign) (q : ℚ) : ℚ :=
  match s with
  | .negative => -q
  | .positive => q

theorem signed_zero (s : Sign) : signed s 0 = 0 := by
  cases s with
  | negative => exact neg_zero
  | positive => rfl

/-- what the parts of a finite number stand for -/
def FloatParts.value (f : FloatParts) : ℚ := signed f.sign (f.mantissa * 2 ^ ((f.shift : ℤ) - 149))

/-- what a finite number stands for -/
def value (a : Float32) : ℚ := (FloatParts.ofFloat a).value

/-- what an unpacked number stands for, if it is finite -/
def unpackedValue : UnpackedFloat → ℚ
  | .finite s m e _ => signed s (amount m e)
  | _ => 0

section
variable {a b : Float32}

theorem isFinite_eq (a : Float32) : a.isFinite = a.toModel.unpack.isFinite := rfl

theorem unpack_of_finite (h : a.isFinite = true) : (∃ s, a.toModel.unpack = .zero s) ∨
    ∃ s m e hm, a.toModel.unpack = .finite s m e hm := by
  rw [isFinite_eq] at h
  cases hu : a.toModel.unpack with
  | infinity s => rw [hu] at h; cases h
  | notANumber => rw [hu] at h; cases h
  | zero s => exact .inl ⟨s, rfl⟩
  | finite s m e hm => exact .inr ⟨s, m, e, hm, rfl⟩

theorem value_eq (h : a.isFinite = true) : value a = unpackedValue a.toModel.unpack := by
  rw [isFinite_eq, unpack_toModel] at h
  rw [unpack_toModel, value, FloatParts.value]
  unfold FloatParts.unpacked at h ⊢
  split at h
  · split at h <;> cases h
  · next hexp =>
    rw [if_neg hexp]
    by_cases hm : (FloatParts.ofFloat a).mantissa = 0
    · rw [dif_pos hm, hm, Nat.cast_zero, zero_mul]
      exact signed_zero _
    · rw [dif_neg hm]
      rfl

/-! ## order -/

/-- numbers as they are written are compared by their exponents first -/
theorem compare_amount {m m' : Nat} {e e' : ℤ} (h : Written m e) (h' : Written m' e') :
    compare (amount m e) (amount m' e') = (compare e e').then (compare m m') := by
  rcases lt_trichotomy e e' with he | rfl | he
  · have hfull : 2 ^ 23 ≤ m' := h'.full.resolve_right (by have := h.least; omega)
    rw [compare_lt_iff_lt.mpr (amount_lt_of_lt h.lt hfull he), compare_lt_iff_lt.mpr he]
    rfl
  · rw [compare_eq_iff_eq.mpr rfl]
    show _ = compare m m'
    rcases lt_trichotomy m m' with hm | rfl | hm
    · rw [compare_lt_iff_lt.mpr hm, compare_lt_iff_lt.mpr (amount_lt_iff.mpr hm)]
    · rw [compare_eq_iff_eq.mpr rfl, compare_eq_iff_eq.mpr rfl]
    · rw [compare_gt_iff_gt.mpr hm, compare_gt_iff_gt.mpr (amount_lt_iff.mpr hm)]
  · have hfull : 2 ^ 23 ≤ m := h.full.resolve_right (by have := h'.least; omega)
    rw [compare_gt_iff_gt.mpr (amount_lt_of_lt h'.lt hfull he), compare_gt_iff_gt.mpr he]
    rfl

theorem compare_neg (x y : ℚ) : compare (-x) (-y) = (compare x y).swap := by
  rcases lt_trichotomy x y with h | rfl | h
  · rw [compare_lt_iff_lt.mpr h, compare_gt_iff_gt.mpr (neg_lt_neg h)]
    rfl
  · rw [compare_eq_iff_eq.mpr rfl, compare_eq_iff_eq.mpr rfl]
    rfl
  · rw [compare_gt_iff_gt.mpr h, compare_lt_iff_lt.mpr (neg_lt_neg h)]
    rfl

/-- **Finite numbers are compared like what they stand for.** -/
theorem compare_unpack (ha : a.isFinite = true) (hb : b.isFinite = true) :
    a.toModel.unpack.compare b.toModel.unpack = some (compare (value a) (value b)) := by
  rw [value_eq ha, value_eq hb]
  rcases unpack_of_finite ha with ⟨s, hua⟩ | ⟨s, m, e, h, hua⟩ <;>
    rcases unpack_of_finite hb with ⟨s', hub⟩ | ⟨s', m', e', h', hub⟩ <;> rw [hua, hub]
  · exact congrArg some (compare_eq_iff_eq.mpr rfl).symm
  · have hpos := amount_pos h' e'
    cases s' with
    | negative => exact congrArg some (compare_gt_iff_gt.mpr (neg_lt_zero.mpr hpos)).symm
    | positive => exact congrArg some (compare_lt_iff_lt.mpr hpos).symm
  · have hpos := amount_pos h e
    cases s with
    | negative => exact congrArg some (compare_lt_iff_lt.mpr (neg_lt_zero.mpr hpos)).symm
    | positive => exact congrArg some (compare_gt_iff_gt.mpr hpos).symm
  · have hneg := neg_lt_zero.mpr (amount_pos h e)
    have hneg' := neg_lt_zero.mpr (amount_pos h' e')
    have hcompare := compare_amount (written_of_unpack hua).1 (written_of_unpack hub).1
    cases s with
    | negative =>
      cases s' with
      | negative =>
        show some ((compare e e').then (compare m m')).swap = some (compare (-_) (-_))
        rw [← hcompare, compare_neg]
      | positive =>
        exact congrArg some (compare_lt_iff_lt.mpr (hneg.trans (amount_pos h' e'))).symm
    | positive =>
      cases s' with
      | negative =>
        exact congrArg some (compare_gt_iff_gt.mpr (hneg'.trans (amount_pos h e))).symm
      | positive => exact congrArg some hcompare.symm

theorem lt_eq (a b : Float32) :
    a < b ↔ (a.toModel.unpack.compare b.toModel.unpack == some .lt) = true :=
  decide_eq_true_iff

theorem le_eq (a b : Float32) :
    a ≤ b ↔ (a.toModel.unpack.compare b.toModel.unpack).any (·.isLE) = true :=
  decide_eq_true_iff

theorem lt_iff (ha : a.isFinite = true) (hb : b.isFinite = true) : a < b ↔ value a < value b := by
  rw [lt_eq, compare_unpack ha hb, beq_iff_eq, Option.some_inj, compare_lt_iff_lt]

theorem le_iff (ha : a.isFinite = true) (hb : b.isFinite = true) : a ≤ b ↔ value a ≤ value b := by
  rw [le_eq, compare_unpack ha hb]
  exact Ordering.ne_gt_iff_isLE.symm.trans compare_le_iff_le

end

/-! ## numbers that are not negative -/

/-- `a` is finite and stands for `q`, which is not negative -/
structure Holds (a : Float32) (q : ℚ) : Prop where
  finite : a.isFinite = true
  nonneg : 0 ≤ q
  value : value a = q

/-- no finite number is greater than this -/
def ceiling : ℚ := 2 ^ 128

theorem ceiling_pos : 0 < ceiling := by
  unfold ceiling
  norm_num

section
variable {a b : Float32} {x y : ℚ}

/-- what cannot be too large has an exponent that fits -/
theorem exponent_le {m : Nat} {e : ℤ} (hw : Written m e) (h : amount m e < ceiling) : e ≤ 104 := by
  by_contra he
  have hfull : 2 ^ 23 ≤ m := hw.full.resolve_right (by omega)
  have hlt : amount (2 ^ 23) 105 ≤ amount m e := by
    obtain ⟨k, rfl⟩ : ∃ k : Nat, e = 105 + k := ⟨(e - 105).toNat, by omega⟩
    rw [amount_add, amount_le_iff]
    exact hfull.trans (Nat.le_mul_of_pos_right m (by positivity))
  have hceiling : amount (2 ^ 23) 105 = ceiling := by
    unfold amount ceiling
    norm_num
  rw [hceiling] at hlt
  exact absurd h (not_lt.mpr hlt)

theorem amount_lt_ceiling {m : Nat} {e : ℤ} (hw : Written m e) (he : e ≤ 104) :
    amount m e < ceiling := by
  have hceiling : amount (2 ^ 24) 104 = ceiling := by
    unfold amount ceiling
    norm_num
  obtain ⟨k, hk⟩ : ∃ k : Nat, (104 : ℤ) = e + k := ⟨(104 - e).toNat, by omega⟩
  rw [← hceiling, hk, amount_add, amount_lt_iff]
  exact hw.lt.trans_le (Nat.le_mul_of_pos_right _ (by positivity))

theorem unpack_pack_zero (s : Sign) : (Float32.Model.pack (.zero s)).unpack = .zero s := by
  cases s <;> rfl

/-- a number that is not negative, as it is calculated with -/
theorem Holds.unpack (h : Holds a x) : (x = 0 ∧ ∃ s, a.toModel.unpack = .zero s) ∨
    ∃ m e h, Written m e ∧ e ≤ 104 ∧ x = amount m e ∧
      a.toModel.unpack = .finite .positive m e h := by
  have hvalue := (value_eq h.finite).symm.trans h.value
  rcases unpack_of_finite h.finite with ⟨s, hu⟩ | ⟨s, m, e, hm, hu⟩ <;> rw [hu] at hvalue
  · exact .inl ⟨hvalue.symm, s, hu⟩
  · obtain ⟨hw, he⟩ := written_of_unpack hu
    cases s with
    | negative =>
      have hneg : x < 0 := hvalue ▸ neg_lt_zero.mpr (amount_pos hm e)
      exact absurd h.nonneg (not_le.mpr hneg)
    | positive => exact .inr ⟨m, e, hm, hw, he, hvalue.symm, hu⟩

theorem holds_of_zero {s : Sign} (h : a.toModel.unpack = .zero s) : Holds a 0 := by
  have hfinite : a.isFinite = true := by rw [isFinite_eq, h]; rfl
  exact ⟨hfinite, le_rfl, by rw [value_eq hfinite, h]; rfl⟩

theorem holds_of_finite {m : Nat} {e : ℤ} {hm : 0 < m}
    (h : a.toModel.unpack = .finite .positive m e hm) : Holds a (amount m e) := by
  have hfinite : a.isFinite = true := by rw [isFinite_eq, h]; rfl
  exact ⟨hfinite, amount_nonneg m e, by rw [value_eq hfinite, h]; rfl⟩

theorem Holds.lt_ceiling (h : Holds a x) : x < ceiling := by
  rcases h.unpack with ⟨rfl, -⟩ | ⟨m, e, -, hw, he, rfl, -⟩
  · exact ceiling_pos
  · exact amount_lt_ceiling hw he

theorem Holds.writable (h : Holds a x) : Writable x := by
  rcases h.unpack with ⟨rfl, -⟩ | ⟨m, e, -, hw, -, rfl, -⟩
  · exact .inl rfl
  · exact .inr ⟨m, e, hw, rfl⟩

/-- what is packed stands for the same amount, unless it is too large -/
theorem holds_pack {u : UnpackedFloat} {v : ℚ} (hu : Stands .positive v u)
    (hv : v < ceiling) : Holds ⟨Float32.Model.pack u⟩ v := by
  rcases hu with ⟨rfl, rfl⟩ | ⟨m, e, hm, hw, rfl, rfl⟩
  · exact holds_of_zero (unpack_pack_zero .positive)
  · exact holds_of_finite (unpack_pack hw (exponent_le hw hv))

theorem unpack_pack_of_le {u : UnpackedFloat} {v : ℚ} (hu : Stands .positive v u)
    (hv : ceiling ≤ v) : (Float32.Model.pack u).unpack = .infinity .positive := by
  rcases hu with ⟨rfl, -⟩ | ⟨m, e, hm, hw, rfl, rfl⟩
  · exact absurd hv (not_le.mpr ceiling_pos)
  · refine unpack_pack_large ?_
    by_contra he
    exact absurd hv (not_le.mpr (amount_lt_ceiling hw (not_lt.mp he)))

/-! ## numbers of any sign -/

/-- `a` is finite and stands for `q`, which may be negative -/
structure Denotes (a : Float32) (q : ℚ) : Prop where
  finite : a.isFinite = true
  value : value a = q

theorem Holds.denotes (h : Holds a x) : Denotes a x := ⟨h.finite, h.value⟩

theorem Denotes.holds (h : Denotes a x) (hx : 0 ≤ x) : Holds a x := ⟨h.finite, hx, h.value⟩

theorem denotes_of_finite {s : Sign} {m : Nat} {e : ℤ} {hm : 0 < m}
    (h : a.toModel.unpack = .finite s m e hm) : Denotes a (signed s (amount m e)) := by
  have hfinite : a.isFinite = true := by rw [isFinite_eq, h]; rfl
  exact ⟨hfinite, by rw [value_eq hfinite, h]; rfl⟩

/-- a finite number, as it is calculated with -/
theorem Denotes.unpack (h : Denotes a x) : (x = 0 ∧ ∃ s, a.toModel.unpack = .zero s) ∨
    ∃ s m e h, Written m e ∧ e ≤ 104 ∧ x = signed s (amount m e) ∧
      a.toModel.unpack = .finite s m e h := by
  have hvalue := (value_eq h.finite).symm.trans h.value
  rcases unpack_of_finite h.finite with ⟨s, hu⟩ | ⟨s, m, e, hm, hu⟩ <;> rw [hu] at hvalue
  · exact .inl ⟨hvalue.symm, s, hu⟩
  · obtain ⟨hw, he⟩ := written_of_unpack hu
    exact .inr ⟨s, m, e, hm, hw, he, hvalue.symm, hu⟩

theorem denotes_pack {s : Sign} {u : UnpackedFloat} {v : ℚ} (hu : Stands s v u)
    (hv : v < ceiling) : Denotes ⟨Float32.Model.pack u⟩ (signed s v) := by
  rcases hu with ⟨rfl, rfl⟩ | ⟨m, e, hm, hw, rfl, rfl⟩
  · rw [signed_zero]
    exact (holds_of_zero (unpack_pack_zero s)).denotes
  · exact denotes_of_finite (unpack_pack hw (exponent_le hw hv))

/-! ## negation -/

theorem neg_eq (a : Float32) : -a = ⟨Float32.Model.pack a.toModel.unpack.neg⟩ := rfl

theorem signed_neg (s : Sign) (q : ℚ) : signed (-s) q = -signed s q := by
  cases s with
  | negative => exact (neg_neg q).symm
  | positive => rfl

theorem unpack_neg (h : a.isFinite = true) : (-a).toModel.unpack = a.toModel.unpack.neg := by
  rw [neg_eq]
  rcases unpack_of_finite h with ⟨s, hu⟩ | ⟨s, m, e, hm, hu⟩ <;> rw [hu]
  · exact unpack_pack_zero _
  · obtain ⟨hw, he⟩ := written_of_unpack hu
    exact unpack_pack hw he

/-- the opposite of a finite number is finite, and stands for the opposite -/
theorem Denotes.neg (h : Denotes a x) : Denotes (-a) (-x) := by
  have unpacked := unpack_neg h.finite
  rcases h.unpack with ⟨rfl, s, hu⟩ | ⟨s, m, e, hm, -, -, rfl, hu⟩ <;> rw [hu] at unpacked
  · rw [neg_zero]
    exact (holds_of_zero unpacked).denotes
  · rw [← signed_neg]
    exact denotes_of_finite unpacked

/-! ## sums and differences -/

theorem signed_amount (s : Sign) (m : Nat) (e : ℤ) :
    signed s (amount m e) = s.apply m * 2 ^ e := by
  cases s with
  | negative =>
    show -((m : ℚ) * 2 ^ e) = ((-(m : ℤ) : ℤ) : ℚ) * 2 ^ e
    push_cast
    ring
  | positive => rfl

theorem abs_mul_zpow (n e : ℤ) : |(n * 2 ^ e : ℚ)| = amount n.natAbs e := by
  rw [abs_mul, abs_of_pos (show (0 : ℚ) < 2 ^ e by positivity), amount, Nat.cast_natAbs,
    Int.cast_abs]

theorem normalize_natCast {n : Nat} (hn : n ≠ 0) (e : ℤ) (s : Sign) :
    UnpackedFloat.normalize .binary32 n e s = UnpackedFloat.round .binary32 .positive n e := by
  have hcompare : compare (n : ℤ) 0 = .gt := Int.compare_eq_gt.mpr (by omega)
  rw [UnpackedFloat.normalize, hcompare]
  rfl

/-- a whole number of units is rounded by its sign and its size -/
theorem normalize_eq {n : ℤ} (hn : n ≠ 0) (e : ℤ) : ∃ s, signed s (amount n.natAbs e) = n * 2 ^ e ∧
    UnpackedFloat.normalize .binary32 n e .positive
      = UnpackedFloat.round .binary32 s n.natAbs e := by
  obtain ⟨m, rfl | rfl⟩ := n.eq_nat_or_neg
  · rw [Int.natAbs_natCast]
    exact ⟨.positive, rfl, normalize_natCast (by omega) e .positive⟩
  · have hcompare : compare (-(m : ℤ)) 0 = .lt := Int.compare_eq_lt.mpr (by omega)
    rw [Int.natAbs_neg, Int.natAbs_natCast]
    refine ⟨.negative, signed_amount .negative m e, ?_⟩
    rw [UnpackedFloat.normalize, hcompare, neg_neg]
    rfl

/-- a whole number of units that can be written is not changed -/
theorem denotes_normalize {n e : ℤ} (hw : Writable |(n * 2 ^ e : ℚ)|)
    (hlt : |(n * 2 ^ e : ℚ)| < ceiling) :
    Denotes ⟨Float32.Model.pack (UnpackedFloat.normalize .binary32 n e .positive)⟩
      (n * 2 ^ e) := by
  by_cases hn : n = 0
  · subst hn
    rw [Int.cast_zero, zero_mul]
    exact (holds_of_zero (unpack_pack_zero .positive)).denotes
  · obtain ⟨s, hvalue, hround⟩ := normalize_eq hn e
    obtain ⟨v, hv, hstands⟩ := round_spec (s := s) (Int.natAbs_ne_zero.mpr hn) e
    rw [abs_mul_zpow] at hw hlt
    rw [hv.eq hw] at hstands
    rw [hround, ← hvalue]
    exact denotes_pack hstands hlt

/-- the sum of two amounts is a whole number of units, which is rounded once -/
theorem add_finite (s₁ s₂ : Sign) {m₁ m₂ : Nat} (h₁ : 0 < m₁) (h₂ : 0 < m₂) (e₁ e₂ : ℤ) :
    ∃ n t : ℤ, signed s₁ (amount m₁ e₁) + signed s₂ (amount m₂ e₂) = n * 2 ^ t ∧
      UnpackedFloat.add .binary32 (.finite s₁ m₁ e₁ h₁) (.finite s₂ m₂ e₂ h₂)
        = UnpackedFloat.normalize .binary32 n t .positive := by
  let t := min e₁ e₂
  obtain ⟨k₁, hk₁⟩ : ∃ k : Nat, (k : ℤ) = e₁ - t := ⟨(e₁ - t).toNat, by omega⟩
  obtain ⟨k₂, hk₂⟩ : ∃ k : Nat, (k : ℤ) = e₂ - t := ⟨(e₂ - t).toNat, by omega⟩
  refine ⟨s₁.apply (m₁ * 2 ^ k₁ : Nat) + s₂.apply (m₂ * 2 ^ k₂ : Nat), t, ?_, ?_⟩
  · have e : e₁ = t + k₁ := by omega
    have e' : e₂ = t + k₂ := by omega
    rw [e, e', amount_add, amount_add, signed_amount, signed_amount, Int.cast_add, add_mul]
  · show UnpackedFloat.normalize .binary32 (s₁.apply ((decreaseExponent m₁ e₁ t).1 : ℤ)
      + s₂.apply ((decreaseExponent m₂ e₂ t).1 : ℤ)) t .positive = _
    rw [decreaseExponent_eq (k := k₁) (by omega), decreaseExponent_eq (k := k₂) (by omega)]

theorem add_eq (a b : Float32) : a + b
    = ⟨Float32.Model.pack (UnpackedFloat.add .binary32 a.toModel.unpack b.toModel.unpack)⟩ := rfl

/-- **A sum that can be written is exact**, whatever the signs. -/
theorem Denotes.add (ha : Denotes a x) (hb : Denotes b y) (hw : Writable |x + y|)
    (hlt : |x + y| < ceiling) : Denotes (a + b) (x + y) := by
  rw [add_eq]
  rcases ha.unpack with ⟨rfl, s, hua⟩ | ⟨s, m, e, hm, hwa, hea, rfl, hua⟩ <;>
    rcases hb.unpack with ⟨rfl, s', hub⟩ | ⟨s', m', e', hm', hwb, heb, rfl, hub⟩ <;> rw [hua, hub]
  · rw [add_zero]
    cases s <;> cases s' <;> exact (holds_of_zero (unpack_pack_zero _)).denotes
  · rw [zero_add]
    exact denotes_of_finite (unpack_pack hwb heb)
  · rw [add_zero]
    exact denotes_of_finite (unpack_pack hwa hea)
  · obtain ⟨n, t, hsum, hadd⟩ := add_finite s s' hm hm' e e'
    rw [hsum] at hw hlt ⊢
    rw [hadd]
    exact denotes_normalize hw hlt

theorem Holds.add (ha : Holds a x) (hb : Holds b y) (hw : Writable (x + y))
    (hlt : x + y < ceiling) : Holds (a + b) (x + y) := by
  have nonneg := add_nonneg ha.nonneg hb.nonneg
  rw [← abs_of_nonneg nonneg] at hw hlt
  exact (ha.denotes.add hb.denotes hw hlt).holds nonneg

theorem sub_eq (a b : Float32) : a - b
    = ⟨Float32.Model.pack (UnpackedFloat.sub .binary32 a.toModel.unpack b.toModel.unpack)⟩ := rfl

/-- the opposite is added, also where this is a zero with a sign -/
theorem sub_unpacked (u v : UnpackedFloat) :
    UnpackedFloat.sub .binary32 u v = UnpackedFloat.add .binary32 u v.neg := by
  have apply_neg (s : Sign) (m : ℤ) : (-s).apply m = -s.apply m := by
    cases s with
    | negative => exact (neg_neg m).symm
    | positive => rfl
  cases u with
  | finite s m e hm =>
    cases v with
    | finite s' m' e' hm' =>
      show UnpackedFloat.normalize .binary32 (s.apply _ - s'.apply _) _ _
        = UnpackedFloat.normalize .binary32 (s.apply _ + (-s').apply _) _ _
      rw [apply_neg, sub_eq_add_neg]
    | _ => rfl
  | _ => cases v <;> rfl

/-- **A difference that can be written is exact.** -/
theorem Denotes.sub (ha : Denotes a x) (hb : Denotes b y) (hw : Writable |x - y|)
    (hlt : |x - y| < ceiling) : Denotes (a - b) (x - y) := by
  have opposite : a - b = a + -b := by
    rw [sub_eq, sub_unpacked, ← unpack_neg hb.finite]
    rfl
  rw [sub_eq_add_neg] at hw hlt ⊢
  rw [opposite]
  exact ha.add hb.neg hw hlt

/-! ## products -/

theorem mul_eq (a b : Float32) : a * b
    = ⟨Float32.Model.pack (UnpackedFloat.mul .binary32 a.toModel.unpack b.toModel.unpack)⟩ := rfl

/-- a product of mantissas has enough bits, or its exponent is below the least -/
theorem le_target_mul {m m' : Nat} {e e' : ℤ} (h : Written m e) (h' : Written m' e') :
    e + e' ≤ target (m * m') (e + e') := by
  have least : -149 ≤ target (m * m') (e + e') := least_le_target _ _
  by_cases hbits : 2 ^ 23 ≤ m * m'
  · have hlog : 23 ≤ (m * m').log2 :=
      (Nat.le_log2 (Nat.mul_pos h.pos h'.pos).ne').mpr hbits
    unfold target
    omega
  · have hm : ¬ 2 ^ 23 ≤ m := fun hm => hbits (hm.trans (Nat.le_mul_of_pos_right _ h'.pos))
    have hm' : ¬ 2 ^ 23 ≤ m' := fun hm' => hbits (hm'.trans (Nat.le_mul_of_pos_left _ h.pos))
    have := h.full.resolve_left hm
    have := h'.full.resolve_left hm'
    omega

/-- **A product is rounded with respect for order**, or it is too large. -/
theorem Holds.mul (ha : Holds a x) (hb : Holds b y) :
    ∃ v, RoundsTo (x * y) v ∧ (v < ceiling → Holds (a * b) v) ∧
      (ceiling ≤ v → (a * b).toModel.unpack = .infinity .positive) := by
  rw [mul_eq]
  -- a factor that is zero makes a zero
  have zero (s : Sign) (hxy : x * y = 0) : ∃ v, RoundsTo (x * y) v ∧
      (v < ceiling → Holds ⟨Float32.Model.pack (.zero s)⟩ v) ∧
      (ceiling ≤ v → (Float32.Model.pack (.zero s)).unpack = .infinity .positive) := by
    refine ⟨0, ?_, fun _ => holds_of_zero (unpack_pack_zero s), fun h => ?_⟩
    · rw [hxy]
      exact .refl 0
    · exact absurd h (not_le.mpr ceiling_pos)
  rcases ha.unpack with ⟨rfl, s, hua⟩ | ⟨m, e, hm, hwa, -, rfl, hua⟩ <;>
    rcases hb.unpack with ⟨rfl, s', hub⟩ | ⟨m', e', hm', hwb, -, rfl, hub⟩ <;> rw [hua, hub]
  · exact zero _ (zero_mul _)
  · exact zero _ (zero_mul _)
  · exact zero _ (mul_zero _)
  · have hmul : amount m e * amount m' e' = amount (m * m') (e + e') := by
      unfold amount
      rw [zpow_add₀ (by norm_num)]
      push_cast
      ring
    obtain ⟨v, hv, hstands⟩ := roundWithAccuracy_spec (s := .positive)
      (marked_exact (m * m') (e + e')) (le_target_mul hwa hwb)
    rw [hmul]
    exact ⟨v, hv.order, holds_pack hstands, unpack_pack_of_le hstands⟩

/-- a product that can be written is exact -/
theorem Holds.mul_exact (ha : Holds a x) (hb : Holds b y) (hw : Writable (x * y))
    (hlt : x * y < ceiling) : Holds (a * b) (x * y) := by
  obtain ⟨v, hv, h, -⟩ := ha.mul hb
  rw [hv.eq hw] at h
  exact h hlt

/-! ## quotients -/

theorem div_eq (a b : Float32) : a / b
    = ⟨Float32.Model.pack (UnpackedFloat.div .binary32 a.toModel.unpack b.toModel.unpack)⟩ := rfl

/-- **A quotient is rounded to the nearest**, or it is too large. -/
theorem Holds.div_rounds (ha : Holds a x) (hb : Holds b y) (hy : 0 < y) :
    ∃ v, Rounds (x / y) v ∧ (v < ceiling → Holds (a / b) v) ∧
      (ceiling ≤ v → (a / b).toModel.unpack = .infinity .positive) := by
  rw [div_eq]
  rcases hb.unpack with ⟨rfl, -⟩ | ⟨m', e', hm', -, -, rfl, hub⟩
  · exact absurd hy (lt_irrefl 0)
  · rcases ha.unpack with ⟨rfl, s, hua⟩ | ⟨m, e, hm, -, -, rfl, hua⟩ <;> rw [hua, hub]
    · refine ⟨0, ?_, fun _ => holds_of_zero (unpack_pack_zero _), fun h => ?_⟩
      · rw [zero_div]
        exact rounds_zero
      · exact absurd h (not_le.mpr ceiling_pos)
    · obtain ⟨v, hv, hstands⟩ := div_spec (s := .positive) hm hm' e e'
      exact ⟨v, hv, holds_pack hstands, unpack_pack_of_le hstands⟩

theorem Holds.div (ha : Holds a x) (hb : Holds b y) (hy : 0 < y) :
    ∃ v, RoundsTo (x / y) v ∧ (v < ceiling → Holds (a / b) v) := by
  obtain ⟨v, hv, h, -⟩ := ha.div_rounds hb hy
  exact ⟨v, hv.order, h⟩

/-- a quotient that is finite is not too large -/
theorem Holds.div_finite (ha : Holds a x) (hb : Holds b y) (hy : 0 < y)
    (h : (a / b).isFinite = true) : ∃ v, Rounds (x / y) v ∧ Holds (a / b) v := by
  obtain ⟨v, hv, hfits, hlarge⟩ := ha.div_rounds hb hy
  refine ⟨v, hv, hfits ?_⟩
  by_contra hle
  rw [isFinite_eq, hlarge (not_lt.mp hle)] at h
  cases h

/-- a quotient that can be written is exact -/
theorem Holds.div_exact (ha : Holds a x) (hb : Holds b y) (hy : 0 < y) (hw : Writable (x / y))
    (hlt : x / y < ceiling) : Holds (a / b) (x / y) := by
  obtain ⟨v, hv, h⟩ := ha.div hb hy
  rw [hv.eq hw] at h
  exact h hlt

end

end TerrainPatches
