import Mathlib
import TerrainPatches.FloatParts

/-!
# Numbers and their bit patterns

A number is calculated with as a sign, a mantissa and an exponent; this is read off its parts
(`unpack_toModel`).  A finite one is written with twenty-four bits, and with fewer only if its
exponent is the least (`Written`, `written_of_unpack`).  What is written so and is not too large is
not changed by packing it into a pattern (`unpack_pack`); what is too large becomes infinite
(`unpack_pack_large`).
-/

namespace TerrainPatches

open Float.Model Float.Model.UnpackedFloat

/-! ## the fields of a pattern -/

section
variable (b : BitVec Format.binary32.numBits)

theorem toNat_unpackExponent :
    (unpackExponent b).toNat = b.toNat / FloatParts.leadingOne % 256 := by
  simp only [unpackExponent, BitVec.toNat_cast, BitVec.extractLsb_toNat, Nat.shiftRight_eq_div_pow]
  rfl

theorem toNat_unpackMantissa :
    (unpackMantissa b).toNat = b.toNat % FloatParts.leadingOne := by
  simp only [unpackMantissa, BitVec.toNat_cast, BitVec.extractLsb_toNat, Nat.shiftRight_zero]
  rfl

theorem ofBitVec_unpackSign : Sign.ofBitVec (unpackSign b)
    = if 256 * FloatParts.leadingOne ≤ b.toNat then .negative else .positive := by
  have h : (unpackSign b).toNat = b.toNat / 2 ^ 31 % 2 := by
    simp only [unpackSign, BitVec.toNat_cast, BitVec.extractLsb_toNat, Nat.shiftRight_eq_div_pow]
  have hb : b.toNat < 2 ^ 32 := b.isLt
  have zero : unpackSign b = 0#1 ↔
      ¬ 256 * FloatParts.leadingOne ≤ b.toNat := by
    rw [← BitVec.toNat_inj, h]
    simp only [FloatParts.leadingOne, BitVec.toNat_ofNat]
    omega
  simp only [Sign.ofBitVec, zero, ite_not]

end

theorem ofBitVec_toBitVec (s : Sign) : Sign.ofBitVec s.toBitVec = s := by
  cases s <;> rfl

theorem unpackSign_packComponents {spec : Format} (s : Sign) (e : BitVec spec.exponentBits)
    (m : BitVec spec.mantissaBitsWithoutImplicit) :
    unpackSign (packComponents spec s e m) = s.toBitVec := by
  apply BitVec.eq_of_getLsbD_eq
  intro i hi
  obtain rfl : i = 0 := by omega
  simp [unpackSign, packComponents, BitVec.getLsbD_append, BitVec.getElem_append]

/-- the implied leading one -/
theorem toNat_one_append (m : BitVec 23) :
    (1#1 ++ m).toNat = FloatParts.leadingOne + m.toNat := by
  rw [BitVec.toNat_append, ← Nat.shiftLeft_add_eq_or_of_lt m.isLt]
  rfl

/-! ## what is calculated with -/

namespace FloatParts

def sign (f : FloatParts) : Sign := if f.negative then .negative else .positive

/-- the number with these parts -/
def unpacked (f : FloatParts) : UnpackedFloat :=
  if f.exponent = 255 then if f.fraction = 0 then .infinity f.sign else .notANumber
  else if h : f.mantissa = 0 then .zero f.sign
  else .finite f.sign f.mantissa (f.shift - 149) (Nat.pos_of_ne_zero h)

theorem unpacked_eq_finite {f : FloatParts} {s : Sign} {m : Nat} {e : ℤ} {h : 0 < m}
    (finite : f.exponent ≠ 255) (sign : f.sign = s) (mantissa : f.mantissa = m)
    (shift : (f.shift : ℤ) - 149 = e) : f.unpacked = .finite s m e h := by
  subst sign mantissa shift
  rw [unpacked, if_neg finite, dif_neg h.ne']

theorem parts_of_unpacked {f : FloatParts} {s : Sign} {m : Nat} {e : ℤ} {h : 0 < m}
    (hf : f.unpacked = .finite s m e h) :
    f.exponent ≠ 255 ∧ f.sign = s ∧ f.mantissa = m ∧ (f.shift : ℤ) - 149 = e := by
  unfold unpacked at hf
  split at hf
  · split at hf <;> cases hf
  · next hfinite =>
    split at hf
    · cases hf
    · cases hf
      exact ⟨hfinite, rfl, rfl, rfl⟩

theorem mantissa_of_exponent_zero {f : FloatParts} (h : f.exponent = 0) :
    f.mantissa = f.fraction := if_pos h

theorem mantissa_of_exponent_pos {f : FloatParts} (h : f.exponent ≠ 0) :
    f.mantissa = leadingOne + f.fraction := if_neg h

end FloatParts

/-- a pattern stands for the number with the parts that are its fields -/
theorem unpack_of_fields {b : BitVec Format.binary32.numBits} {f : FloatParts}
    (exponent : (unpackExponent b).toNat = f.exponent)
    (fraction : (unpackMantissa b).toNat = f.fraction)
    (sign : Sign.ofBitVec (unpackSign b) = f.sign) :
    UnpackedFloat.unpack .binary32 b = f.unpacked := by
  have greatest : unpackExponent b = -1#_ ↔ f.exponent = 255 := by
    rw [← BitVec.toNat_inj, exponent]
    rfl
  have least : unpackExponent b = 0#_ ↔ f.exponent = 0 := by
    rw [← BitVec.toNat_inj, exponent]
    rfl
  have none : unpackMantissa b = 0#_ ↔ f.fraction = 0 := by
    rw [← BitVec.toNat_inj, fraction]
    rfl
  unfold UnpackedFloat.unpack
  simp only [greatest, least, none, sign, FloatParts.unpacked]
  split
  · rfl
  · split
    · next h =>
      simp only [FloatParts.mantissa_of_exponent_zero h]
      split
      · rfl
      · congr 1
        rw [exponent, h, FloatParts.shift, h]
        rfl
    · next h =>
      have hm := FloatParts.mantissa_of_exponent_pos h
      have hne : f.mantissa ≠ 0 := by
        rw [hm, FloatParts.leadingOne]
        omega
      rw [dif_neg hne]
      congr 1
      · rw [hm, toNat_one_append, fraction]
      · rw [exponent, FloatParts.shift]
        show (f.exponent : ℤ) - (127 + 23) = _
        omega

theorem unpack_toBitVec (bits : UInt32) :
    UnpackedFloat.unpack .binary32 bits.toBitVec = (FloatParts.ofBits bits).unpacked := by
  refine unpack_of_fields (toNat_unpackExponent _) (toNat_unpackMantissa _) ?_
  rw [ofBitVec_unpackSign, FloatParts.sign]
  simp only [FloatParts.ofBits, decide_eq_true_eq]
  rfl

/-- **A number is calculated with by its parts.** -/
theorem unpack_toModel (a : Float32) : a.toModel.unpack = (FloatParts.ofFloat a).unpacked :=
  unpack_toBitVec a.toBits

/-- What is undefined has many patterns, and all of them are read alike. -/
theorem unpack_of_isNaNBits {b : BitVec Format.binary32.numBits} (h : isNaNBits b = true) :
    UnpackedFloat.unpack .binary32 b = .notANumber := by
  obtain ⟨exponent, mantissa⟩ := of_decide_eq_true h
  rw [UnpackedFloat.unpack, if_pos exponent, if_neg mantissa]

/-- **A pattern is calculated with by its parts**, also where the number does not keep it. -/
theorem unpack_ofBits (bits : UInt32) :
    (Float32.ofBits bits).toModel.unpack = (FloatParts.ofBits bits).unpacked := by
  show UnpackedFloat.unpack .binary32
    (UnpackedFloat.pack .binary32 (UnpackedFloat.unpack .binary32 bits.toBitVec)) = _
  rw [pack_unpack, ← unpack_toBitVec]
  split
  · next h => rw [unpack_packedNaN, unpack_of_isNaNBits h]
  · rfl

/-! ## how numbers are written -/

/-- a mantissa and an exponent as they are written: with twenty-four bits, and with fewer only if
the exponent is the least -/
structure Written (m : Nat) (e : ℤ) : Prop where
  pos : 0 < m
  lt : m < 2 ^ 24
  least : -149 ≤ e
  full : 2 ^ 23 ≤ m ∨ e = -149

theorem written_of_unpack {a : Float32} {s : Sign} {m : Nat} {e : ℤ} {h : 0 < m}
    (ha : a.toModel.unpack = .finite s m e h) : Written m e ∧ e ≤ 104 := by
  rw [unpack_toModel] at ha
  obtain ⟨hfinite, -, hmantissa, hshift⟩ := FloatParts.parts_of_unpacked ha
  have hfraction : (FloatParts.ofFloat a).fraction < 2 ^ 23 := Nat.mod_lt _ (by decide)
  have hexponent : (FloatParts.ofFloat a).exponent < 256 := Nat.mod_lt _ (by decide)
  unfold FloatParts.shift at hshift
  by_cases h0 : (FloatParts.ofFloat a).exponent = 0
  · rw [FloatParts.mantissa_of_exponent_zero h0] at hmantissa
    refine ⟨⟨h, ?_, ?_, ?_⟩, ?_⟩ <;> omega
  · rw [FloatParts.mantissa_of_exponent_pos h0, FloatParts.leadingOne] at hmantissa
    refine ⟨⟨h, ?_, ?_, ?_⟩, ?_⟩ <;> omega

theorem Written.log2 {m : Nat} {e : ℤ} (h : Written m e) :
    m.log2 + 1 = 24 ↔ 2 ^ 23 ≤ m := by
  have hlt := (Nat.log2_lt h.pos.ne').mpr h.lt
  rw [← Nat.le_log2 h.pos.ne']
  omega

/-- what is put together from fields falls apart into them -/
theorem unpack_packComponents (s : Sign) {e : Nat} (m : Nat) (he : e < 256) :
    UnpackedFloat.unpack .binary32
        (packComponents .binary32 s (BitVec.ofNat 8 e) (BitVec.ofNat 23 m))
      = (FloatParts.mk (s == .negative) e (m % 2 ^ 23)).unpacked := by
  refine unpack_of_fields ?_ ?_ ?_
  · rw [unpackExponent_packComponents]
    exact Nat.mod_eq_of_lt he
  · rw [unpackMantissa_packComponents]
    rfl
  · rw [unpackSign_packComponents, ofBitVec_toBitVec]
    cases s <;> rfl

/-- the pattern of a finite number -/
theorem pack_finite {s : Sign} {m : Nat} {e : ℤ} {h : 0 < m} {biased : Nat}
    (hbiased : (biased : ℤ) = e + 150) : UnpackedFloat.pack .binary32 (.finite s m e h)
      = if 256 ≤ biased + 1 then packedInfinity .binary32 s
        else if m.log2 + 1 = 24 then
          packComponents .binary32 s (BitVec.ofNat 8 biased) (BitVec.ofNat 23 m)
        else packComponents .binary32 s (BitVec.ofNat 8 0) (BitVec.ofNat 23 m) := by
  have : (e + (127 : Nat) + (23 : Nat)).toNat = biased := by omega
  rw [← this]
  rfl

/-- **What is written as it should be comes back from its pattern.** -/
theorem unpack_pack {s : Sign} {m : Nat} {e : ℤ} {h : 0 < m} (hw : Written m e) (he : e ≤ 104) :
    (Float32.Model.pack (.finite s m e h)).unpack = .finite s m e h := by
  have hleast := hw.least
  have hlt := hw.lt
  obtain ⟨biased, hbiased⟩ : ∃ biased : Nat, (biased : ℤ) = e + 150 :=
    ⟨(e + 150).toNat, Int.toNat_of_nonneg (by omega)⟩
  show UnpackedFloat.unpack .binary32 (UnpackedFloat.pack .binary32 (.finite s m e h)) = _
  rw [pack_finite hbiased, if_neg (by omega)]
  have sign : ∀ x m, (FloatParts.mk (s == .negative) x m).sign = s := by
    intro x m
    cases s <;> rfl
  by_cases hfull : 2 ^ 23 ≤ m
  · rw [if_pos (hw.log2.mpr hfull), unpack_packComponents s m (by omega)]
    refine FloatParts.unpacked_eq_finite (show biased ≠ 255 by omega) (sign _ _) ?_ ?_
    · rw [FloatParts.mantissa_of_exponent_pos (show biased ≠ 0 by omega), FloatParts.leadingOne]
      show 8388608 + m % 2 ^ 23 = m
      omega
    · show ((biased - 1 : Nat) : ℤ) - 149 = e
      omega
  · have he' : e = -149 := hw.full.resolve_left hfull
    rw [if_neg (mt hw.log2.mp hfull), unpack_packComponents s m (by omega)]
    refine FloatParts.unpacked_eq_finite (show 0 ≠ 255 by omega) (sign _ _) ?_ ?_
    · rw [FloatParts.mantissa_of_exponent_zero rfl]
      exact Nat.mod_eq_of_lt (not_le.mp hfull)
    · rw [he']
      rfl

theorem unpack_pack_large {s : Sign} {m : Nat} {e : ℤ} {h : 0 < m} (he : 104 < e) :
    (Float32.Model.pack (.finite s m e h)).unpack = .infinity s := by
  obtain ⟨biased, hbiased⟩ : ∃ biased : Nat, (biased : ℤ) = e + 150 :=
    ⟨(e + 150).toNat, Int.toNat_of_nonneg (by omega)⟩
  show UnpackedFloat.unpack .binary32 (UnpackedFloat.pack .binary32 (.finite s m e h)) = _
  rw [pack_finite hbiased, if_pos (by omega)]
  cases s <;> rfl

end TerrainPatches
