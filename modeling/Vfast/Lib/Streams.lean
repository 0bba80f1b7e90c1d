import Mathlib.Algebra.Ring.Nat
import Vfast.Lib.Bytes

/-! Byte streams that are transformed from left to right, piece by piece: each piece is
read before its image is written. In memory this may be done in place, or with the output
behind the input, and gives what the transformation gives on separate buffers. -/

namespace Vfast.Streams

open Bytes

/-- A transformation of pieces that keeps their length; a state goes along. -/
structure Piecewise (σ : Type*) where
  step : σ → List UInt8 → σ × List UInt8
  length_step : ∀ s piece, (step s piece).2.length = piece.length

namespace Piecewise

variable {σ : Type*} (f : Piecewise σ)

/-- The image of a text that is cut into pieces of the given sizes. -/
def onBytes : σ → List Nat → List UInt8 → List UInt8
  | _, [], _ => []
  | s, n :: sizes, bs => (f.step s (bs.take n)).2 ++
      onBytes (f.step s (bs.take n)).1 sizes (bs.drop n)

/-- The loop over memory: read a piece at `src`, write its image at `dst`, go on. -/
def onMem : σ → List Nat → (src dst : Nat) → Mem → Mem
  | _, [], _, _, m => m
  | s, n :: sizes, src, dst, m =>
    onMem (f.step s (m.read src n)).1 sizes (src + n) (dst + n)
      (m.write dst (f.step s (m.read src n)).2)

theorem length_onBytes (s : σ) {sizes : List Nat} {bs : List UInt8} (h : sizes.sum = bs.length) :
    (f.onBytes s sizes bs).length = bs.length := by
  induction sizes generalizing s bs with
  | nil => simpa [onBytes] using h
  | cons n sizes ih =>
    simp only [List.sum_cons] at h
    rw [onBytes, List.length_append, f.length_step, ih _ (by simp; omega)]
    simp
    omega

/-- **In place**: with the output at or before the input, or behind all of it, the loop leaves
the image of the text that the memory held at first. -/
theorem onMem_eq (s : σ) (sizes : List Nat) {src dst : Nat} (m : Mem)
    (h : dst ≤ src ∨ src + sizes.sum ≤ dst) :
    f.onMem s sizes src dst m = m.write dst (f.onBytes s sizes (m.read src sizes.sum)) := by
  induction sizes generalizing s src dst m with
  | nil => simp [onMem, onBytes]
  | cons n sizes ih =>
    simp only [List.sum_cons] at h
    have hl : (f.step s (m.read src n)).2.length = n := by rw [f.length_step, length_read]
    -- the piece just written does not reach what is still to be read
    have hrest : (m.write dst (f.step s (m.read src n)).2).read (src + n) sizes.sum =
        m.read (src + n) sizes.sum := by
      apply read_write_disjoint
      rw [hl]
      omega
    have htake : (m.read src (n + sizes.sum)).take n = m.read src n := take_read _ _ _ _ (by omega)
    have hdrop : (m.read src (n + sizes.sum)).drop n = m.read (src + n) sizes.sum := by
      rw [read_add, List.drop_left' (length_read _ _ _)]
    rw [onMem, ih _ _ (by omega), hrest, List.sum_cons, onBytes, htake, hdrop, write_append, hl]

end Piecewise

/-- The stream that xors byte `i` of the text with byte `i` of a key stream; its state is the
key stream and the position. -/
def xorStream : Piecewise ((Nat → UInt8) × Nat) where
  step s piece := ((s.1, s.2 + piece.length), piece.mapIdx fun j b => s.1 (s.2 + j) ^^^ b)
  length_step := by simp

theorem xorStream_step_step (s : (Nat → UInt8) × Nat) (piece : List UInt8) :
    xorStream.step s (xorStream.step s piece).2 = ((s.1, s.2 + piece.length), piece) := by
  simp only [xorStream, List.length_mapIdx]
  congr 1
  apply List.ext_getElem (by simp)
  intro j h1 h2
  rw [List.getElem_mapIdx, List.getElem_mapIdx, ← UInt8.xor_assoc, UInt8.xor_self, UInt8.zero_xor]

/-- However the text is cut, each byte is xored with its own byte of the key stream. -/
theorem xorStream_onBytes (ks : Nat → UInt8) (pos : Nat) {sizes : List Nat} {bs : List UInt8}
    (h : sizes.sum = bs.length) :
    xorStream.onBytes (ks, pos) sizes bs = bs.mapIdx fun j b => ks (pos + j) ^^^ b := by
  induction sizes generalizing pos bs with
  | nil =>
    simp only [List.sum_nil] at h
    simp [Piecewise.onBytes, List.eq_nil_of_length_eq_zero h.symm]
  | cons n sizes ih =>
    simp only [List.sum_cons] at h
    have hn : (bs.take n).length = n := by simp; omega
    have hnext : (xorStream.step (ks, pos) (bs.take n)).1 = (ks, pos + (bs.take n).length) := rfl
    rw [Piecewise.onBytes, hnext, ih _ (by simp; omega), hn]
    conv_rhs => rw [← List.take_append_drop n bs, List.mapIdx_append, hn]
    simp only [Nat.add_comm, Nat.add_left_comm]
    rfl

/-- Xoring twice from the same position gives the text back. -/
theorem xorStream_twice (s : (Nat → UInt8) × Nat) {sizes : List Nat} {bs : List UInt8}
    (h : sizes.sum = bs.length) :
    xorStream.onBytes s sizes (xorStream.onBytes s sizes bs) = bs := by
  induction sizes generalizing s bs with
  | nil =>
    simp only [List.sum_nil] at h
    simp [Piecewise.onBytes, List.eq_nil_of_length_eq_zero h.symm]
  | cons n sizes ih =>
    simp only [List.sum_cons] at h
    have hn : (bs.take n).length = n := by simp; omega
    have hlen : (xorStream.step s (bs.take n)).2.length = n := by rw [xorStream.length_step, hn]
    have hnext : (xorStream.step s (bs.take n)).1 = (s.1, s.2 + (bs.take n).length) := rfl
    rw [Piecewise.onBytes, Piecewise.onBytes, List.take_left' hlen, List.drop_left' hlen,
      xorStream_step_step, hnext, ih _ (by simp; omega), List.take_append_drop]

end Vfast.Streams
