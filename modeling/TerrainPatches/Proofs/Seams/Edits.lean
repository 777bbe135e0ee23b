import TerrainPatches.Seams

/-!
# Edits of the seams

The word has six parts: a delta for each of the four sides, the vertex level, and the bits above
it.  An edit writes some of these parts whole and leaves the others as they are (`Part.read_edit`).
So whatever the order of the edits, a part holds what was last written to it, and what it held
before if nothing was (`Part.read_edits`).

* `edits_independent`   what that says of each part of the word.

The bits of an edited word are computed first: an edit of a side replaces four of them
(`bit_withDelta`), and an edit of the vertex level all from bit 16 on (`bit_withVertexLevel`).
-/

namespace TerrainPatches

/-! ## bits -/

namespace Side

theorem shift_le (side : Side) : side.shift.toNat ≤ 12 := by cases side <;> decide

/-- no side's bits are shifted out of the word -/
theorem toNat_shift_mod (side : Side) : (side.shift.toBitVec % 32#32).toNat = side.shift.toNat := by
  cases side <;> rfl

/-- the bits of different sides do not overlap -/
theorem apart_of_ne {side side' : Side} (h : side ≠ side') :
    side.shift.toNat + 4 ≤ side'.shift.toNat ∨ side'.shift.toNat + 4 ≤ side.shift.toNat := by
  cases side <;> cases side' <;> first | exact absurd rfl h | decide

end Side

namespace Seams

/-- a bit of the word, the lowest one first -/
def bit (s : Seams) (i : Nat) : Bool := s.bits.toBitVec.getLsbD i

theorem getLsbD_nibble (i : Nat) : (15#32).getLsbD i = decide (i < 4) :=
  Nat.testBit_two_pow_sub_one 4 i

theorem getLsbD_low (i : Nat) : (65535#32).getLsbD i = decide (i < 16) :=
  Nat.testBit_two_pow_sub_one 16 i

section
variable (s : Seams) (side : Side) (d l : UInt8) (i : Nat)

theorem bit_of_le {i : Nat} (h : 32 ≤ i) : s.bit i = false := BitVec.getLsbD_of_ge _ i h

theorem bit_withDelta : (s.withDelta side d).bit i =
    if side.shift.toNat ≤ i ∧ i < side.shift.toNat + 4 then
      d.toBitVec.getLsbD (i - side.shift.toNat) else s.bit i := by
  have hs := side.shift_le
  have above := s.bit_of_le (i := i)
  show BitVec.getLsbD ((s.bits.toBitVec &&& ~~~(15#32 <<< (side.shift.toBitVec % 32#32)))
    ||| ((d.toUInt32.toBitVec &&& 15#32) <<< (side.shift.toBitVec % 32#32))) i = _
  simp only [BitVec.shiftLeft_eq', side.toNat_shift_mod, BitVec.getLsbD_or, BitVec.getLsbD_and,
    BitVec.getLsbD_not, BitVec.getLsbD_shiftLeft, getLsbD_nibble, UInt8.toBitVec_toUInt32,
    BitVec.getLsbD_setWidth]
  show (s.bit i && _ || _) = _
  grind

theorem bit_withVertexLevel : (s.withVertexLevel l).bit i =
    if i < 16 then s.bit i else l.toBitVec.getLsbD (i - 16) := by
  have above : 32 ≤ i → l.toBitVec.getLsbD (i - 16) = false :=
    fun h => BitVec.getLsbD_of_ge _ _ (by omega)
  show BitVec.getLsbD ((s.bits.toBitVec &&& 65535#32) ||| (l.toUInt32.toBitVec <<< 16)) i = _
  simp only [BitVec.getLsbD_or, BitVec.getLsbD_and, BitVec.getLsbD_shiftLeft, getLsbD_low,
    UInt8.toBitVec_toUInt32, BitVec.getLsbD_setWidth]
  show (s.bit i && _ || _) = _
  grind

theorem getLsbD_delta : (s.delta side).toBitVec.getLsbD i =
    (decide (i < 4) && s.bit (side.shift.toNat + i)) := by
  show (((s.bits.toBitVec >>> (side.shift.toBitVec % 32#32)) &&& 15#32).setWidth 8).getLsbD i = _
  simp only [BitVec.getLsbD_setWidth, BitVec.getLsbD_and, BitVec.ushiftRight_eq',
    side.toNat_shift_mod, BitVec.getLsbD_ushiftRight, getLsbD_nibble]
  show (_ && (s.bit _ && _)) = _
  grind

theorem getLsbD_vertexLevel : s.vertexLevel.toBitVec.getLsbD i =
    (decide (i < 8) && s.bit (16 + i)) := by
  show ((s.bits.toBitVec >>> 16).setWidth 8).getLsbD i = _
  rw [BitVec.getLsbD_setWidth, BitVec.getLsbD_ushiftRight]
  rfl

theorem getLsbD_top : (s.bits >>> 24).toBitVec.getLsbD i = s.bit (24 + i) := by
  show (s.bits.toBitVec >>> 24).getLsbD i = _
  rw [BitVec.getLsbD_ushiftRight]
  rfl

theorem getLsbD_edgeBits : s.edgeBits.toBitVec.getLsbD i = (decide (i < 16) && s.bit i) := by
  show ((s.bits.toBitVec &&& 65535#32).setWidth 16).getLsbD i = _
  rw [BitVec.getLsbD_setWidth, BitVec.getLsbD_and, getLsbD_low]
  show (_ && (s.bit i && _)) = _
  grind

end

/-! ## what an edit leaves in each part -/

section
variable (s : Seams) (side side' : Side) (d l : UInt8)

theorem delta_withDelta :
    (s.withDelta side' d).delta side = if side' = side then d &&& 0xf else s.delta side := by
  refine UInt8.toBitVec_inj.mp (BitVec.eq_of_getLsbD_eq fun i _ => ?_)
  rw [getLsbD_delta, bit_withDelta]
  by_cases h : side' = side
  · have low : (15#8).getLsbD i = decide (i < 4) := Nat.testBit_two_pow_sub_one 4 i
    rw [if_pos h, h]
    show _ = (d.toBitVec &&& 15#8).getLsbD i
    rw [BitVec.getLsbD_and, low]
    grind
  · have apart := Side.apart_of_ne h
    rw [if_neg h, getLsbD_delta]
    grind

theorem delta_withVertexLevel : (s.withVertexLevel l).delta side = s.delta side := by
  have hs := side.shift_le
  refine UInt8.toBitVec_inj.mp (BitVec.eq_of_getLsbD_eq fun i _ => ?_)
  rw [getLsbD_delta, getLsbD_delta, bit_withVertexLevel]
  grind

theorem vertexLevel_withDelta : (s.withDelta side d).vertexLevel = s.vertexLevel := by
  have hs := side.shift_le
  refine UInt8.toBitVec_inj.mp (BitVec.eq_of_getLsbD_eq fun i _ => ?_)
  rw [getLsbD_vertexLevel, getLsbD_vertexLevel, bit_withDelta, if_neg (by omega)]

theorem vertexLevel_withVertexLevel : (s.withVertexLevel l).vertexLevel = l := by
  refine UInt8.toBitVec_inj.mp (BitVec.eq_of_getLsbD_eq fun i hi => ?_)
  rw [getLsbD_vertexLevel, bit_withVertexLevel, if_neg (by omega), decide_eq_true hi,
    Nat.add_sub_cancel_left, Bool.true_and]

theorem top_withDelta : (s.withDelta side d).bits >>> 24 = s.bits >>> 24 := by
  have hs := side.shift_le
  refine UInt32.toBitVec_inj.mp (BitVec.eq_of_getLsbD_eq fun i _ => ?_)
  rw [getLsbD_top, getLsbD_top, bit_withDelta, if_neg (by omega)]

theorem top_withVertexLevel : (s.withVertexLevel l).bits >>> 24 = 0 := by
  refine UInt32.toBitVec_inj.mp (BitVec.eq_of_getLsbD_eq fun i _ => ?_)
  rw [getLsbD_top, bit_withVertexLevel, if_neg (by omega), BitVec.getLsbD_of_ge _ _ (by omega)]
  exact BitVec.getLsbD_zero.symm

theorem edgeBits_withVertexLevel : (s.withVertexLevel l).edgeBits = s.edgeBits := by
  refine UInt16.toBitVec_inj.mp (BitVec.eq_of_getLsbD_eq fun i hi => ?_)
  rw [getLsbD_edgeBits, getLsbD_edgeBits, bit_withVertexLevel, if_pos hi]

end

/-! ## parts of the word -/

/-- what an edit writes to a side -/
def Edit.delta? (side : Side) : Edit → Option UInt8
  | .delta side' d => if side' = side then some d else .none
  | .vertexLevel _ => .none

def Edit.level? : Edit → Option UInt8
  | .delta _ _ => .none
  | .vertexLevel l => some l

/-- a part of the word that every edit either writes whole or leaves as it is -/
structure Part (α : Type) where
  read : Seams → α
  written? : Edit → Option α
  read_edit : ∀ s e, read (s.edit e) = (written? e).getD (read s)

namespace Part

def side (side : Side) : Part UInt8 where
  read s := s.delta side
  written? e := (e.delta? side).map (· &&& 0xf)
  read_edit s
    | .delta side' d => by
      show (s.withDelta side' d).delta side = _
      rw [delta_withDelta, Edit.delta?]
      split <;> rfl
    | .vertexLevel l => s.delta_withVertexLevel side l

def level : Part UInt8 where
  read := vertexLevel
  written? := Edit.level?
  read_edit s
    | .delta side d => s.vertexLevel_withDelta side d
    | .vertexLevel l => s.vertexLevel_withVertexLevel l

/-- all above the vertex level, which an edit of it clears -/
def top : Part UInt32 where
  read s := s.bits >>> 24
  written? e := e.level?.map fun _ => 0
  read_edit s
    | .delta side d => s.top_withDelta side d
    | .vertexLevel l => s.top_withVertexLevel l

/-- **A part holds what was last written to it.** -/
theorem read_edits {α : Type} (part : Part α) (s : Seams) (es : List Edit) :
    part.read (s.edits es) = (es.filterMap part.written?).getLast?.getD (part.read s) := by
  induction es generalizing s with
  | nil => rfl
  | cons e es ih =>
    rw [edits_cons, ih, part.read_edit, List.filterMap_cons]
    cases part.written? e with
    | none => rfl
    | some a => rw [List.getLast?_cons, Option.getD_some, Option.getD_some]

end Part

theorem edits_append (s : Seams) (es es' : List Edit) :
    s.edits (es ++ es') = (s.edits es).edits es' :=
  List.foldl_append

/-- **Edits of the seams do not disturb one another.**  After any edits of any seams, the delta of
each side is made of the low four bits of what was last written to that side, and the vertex level
is the last one written; what was never written is as it was.  The bits above the vertex level are
clear once a level has been written.  No edit of the vertex level touches the edge bits. -/
theorem edits_independent (s : Seams) (es : List Edit) :
    (∀ side, (s.edits es).delta side =
      ((es.filterMap (Edit.delta? side)).getLast?.map (· &&& 0xf)).getD (s.delta side)) ∧
    (s.edits es).vertexLevel = (es.filterMap Edit.level?).getLast?.getD s.vertexLevel ∧
    (s.edits es).bits >>> 24 = (if es.filterMap Edit.level? = [] then s.bits >>> 24 else 0) ∧
    ∀ l, (s.edits (es ++ [.vertexLevel l])).edgeBits = (s.edits es).edgeBits ∧
      (s.edits (es ++ [.vertexLevel l])).anyDelta = (s.edits es).anyDelta := by
  have edges : ∀ l, (s.edits (es ++ [.vertexLevel l])).edgeBits = (s.edits es).edgeBits := by
    intro l
    rw [edits_append]
    exact edgeBits_withVertexLevel _ l
  refine ⟨fun side => ?_, Part.level.read_edits s es, ?_, fun l => ⟨edges l, ?_⟩⟩
  · have last := (Part.side side).read_edits s es
    rwa [Part.side, ← List.map_filterMap, List.getLast?_map] at last
  · have last := Part.top.read_edits s es
    rw [Part.top, ← List.map_filterMap, List.getLast?_map] at last
    refine last.trans ?_
    by_cases h : es.filterMap Edit.level? = []
    · rw [if_pos h, h]
      rfl
    · rw [if_neg h, List.getLast?_eq_some_getLast h]
      rfl
  · rw [anyDelta, edges, anyDelta]

/-- the high half of a delta is lost, and writing `0` to a side is a write like any other -/
example : (none.edits [.delta .north 1, .delta .west 0x53, .vertexLevel 2, .delta .north 0]).bits
    = 0x23000 := by
  decide

end Seams

end TerrainPatches
