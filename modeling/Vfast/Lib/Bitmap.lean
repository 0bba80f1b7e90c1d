import Vfast.Lib.Bytes

/-! Bitmaps over bytes: bit `pos` lives in byte `pos >> 3` under the mask
`1 << (pos & 7)`. -/

namespace Vfast.Bitmap

abbrev Bits := Nat → UInt8

def bitMask (pos : Nat) : UInt8 := UInt8.ofNat (1 <<< (pos &&& 7))

def testBit (bm : Bits) (pos : Nat) : Bool := bm (pos >>> 3) &&& bitMask pos ≠ 0

def setBit (bm : Bits) (pos : Nat) : Bits :=
  fun i => if i = pos >>> 3 then bm i ||| bitMask pos else bm i

def clearBit (bm : Bits) (pos : Nat) : Bits :=
  fun i => if i = pos >>> 3 then bm i &&& ~~~bitMask pos else bm i

theorem bitMask_toBitVec (pos : Nat) : (bitMask pos).toBitVec = BitVec.twoPow 8 (pos % 8) := by
  have hm : pos &&& 7 = pos % 8 := Nat.and_two_pow_sub_one_eq_mod pos 3
  rw [bitMask, hm, UInt8.toBitVec_ofNat', Nat.one_shiftLeft]
  apply BitVec.eq_of_toNat_eq
  rw [BitVec.toNat_twoPow, BitVec.toNat_ofNat]

/-- The masked byte is zero exactly when the bit is. -/
theorem testBit_eq (bm : Bits) (pos : Nat) :
    testBit bm pos = (bm (pos >>> 3)).toBitVec.getLsbD (pos % 8) := by
  have hlt : pos % 8 < 8 := Nat.mod_lt _ (by omega)
  have hne : BitVec.twoPow 8 (pos % 8) ≠ 0#8 := by
    intro h
    have h' := congrArg BitVec.toNat h
    rw [BitVec.toNat_twoPow_of_lt hlt] at h'
    have := Nat.two_pow_pos (pos % 8)
    simp at h'
  have hz : (bm (pos >>> 3) &&& bitMask pos = 0) ↔
      (bm (pos >>> 3)).toBitVec.getLsbD (pos % 8) = false := by
    rw [← UInt8.toBitVec_inj, UInt8.toBitVec_and, bitMask_toBitVec, BitVec.and_twoPow]
    cases (bm (pos >>> 3)).toBitVec.getLsbD (pos % 8) with
    | true => simpa using hne
    | false => simp
  unfold testBit
  cases h : (bm (pos >>> 3)).toBitVec.getLsbD (pos % 8) with
  | true => simp [hz, h]
  | false => simp [hz, h]

theorem pos_eq_iff (a b : Nat) : a = b ↔ a >>> 3 = b >>> 3 ∧ a % 8 = b % 8 := by
  simp only [Nat.shiftRight_eq_div_pow]
  omega

/-- Setting a bit changes that bit only. -/
@[simp] theorem testBit_setBit (bm : Bits) (pos q : Nat) :
    testBit (setBit bm pos) q = (decide (q = pos) || testBit bm q) := by
  have hlt : pos % 8 < 8 := Nat.mod_lt _ (by omega)
  rw [testBit_eq, testBit_eq]
  unfold setBit
  by_cases hb : q >>> 3 = pos >>> 3
  · have hq : (q = pos) ↔ pos % 8 = q % 8 := by rw [pos_eq_iff]; simp [hb, eq_comm]
    simp only [hb, if_true, UInt8.toBitVec_or, bitMask_toBitVec, BitVec.getLsbD_or,
      BitVec.getLsbD_twoPow, hlt, decide_true, Bool.true_and, hq]
    exact Bool.or_comm _ _
  · have hq : q ≠ pos := fun h => hb (by rw [h])
    simp [hb, hq]

/-- Clearing a bit changes that bit only. -/
@[simp] theorem testBit_clearBit (bm : Bits) (pos q : Nat) :
    testBit (clearBit bm pos) q = (!decide (q = pos) && testBit bm q) := by
  have hlt : pos % 8 < 8 := Nat.mod_lt _ (by omega)
  have hlt' : q % 8 < 8 := Nat.mod_lt _ (by omega)
  rw [testBit_eq, testBit_eq]
  unfold clearBit
  by_cases hb : q >>> 3 = pos >>> 3
  · have hq : (q = pos) ↔ pos % 8 = q % 8 := by rw [pos_eq_iff]; simp [hb, eq_comm]
    simp only [hb, if_true, UInt8.toBitVec_and, UInt8.toBitVec_not, bitMask_toBitVec,
      BitVec.getLsbD_and, BitVec.getLsbD_not, BitVec.getLsbD_twoPow, hlt, hlt', decide_true,
      Bool.true_and, hq]
    exact Bool.and_comm _ _
  · have hq : q ≠ pos := fun h => hb (by rw [h])
    simp [hb, hq]

@[simp] theorem testBit_zero (pos : Nat) : testBit (fun _ => 0) pos = false := by
  simp [testBit_eq]

end Vfast.Bitmap
