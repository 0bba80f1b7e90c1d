import Mathlib.Logic.Function.Iterate
import Mathlib.Order.WellFounded

/-! Xorshift steps on words of any width. A step adds to a word a word of which every bit depends
only on bits that come earlier in some well-founded order, so it can be undone bit by bit. -/

namespace Vfast.Xorshift

variable {w : Nat}

/-- Bit `i` of the result depends only on the bits `j` of the word with `r j i`. -/
def Triangular (r : Nat → Nat → Prop) (g : BitVec w → BitVec w) : Prop :=
  ∀ x y i, (∀ j, r j i → x.getLsbD j = y.getLsbD j) → (g x).getLsbD i = (g y).getLsbD i

/-- **Triangular steps lose nothing.** -/
theorem Triangular.injective {r : Nat → Nat → Prop} (hr : WellFounded r) {g : BitVec w → BitVec w}
    (hg : Triangular r g) : Function.Injective fun x => x ^^^ g x := by
  intro x y h
  have hbit : ∀ i, x.getLsbD i = y.getLsbD i := by
    intro i
    induction i using hr.induction with
    | _ i ih =>
      have hi := congrArg (fun z : BitVec w => z.getLsbD i) h
      simp only [BitVec.getLsbD_xor, hg x y i ih] at hi
      exact Bool.xor_left_inj.mp hi
  exact BitVec.eq_of_getLsbD_eq fun i _ => hbit i

theorem triangular_shiftLeft {k : Nat} (hk : 0 < k) :
    Triangular (· < ·) fun x : BitVec w => x <<< k := by
  intro x y i h
  simp only [BitVec.getLsbD_shiftLeft]
  by_cases hi : i < k
  · simp [hi]
  · rw [h (i - k) (by omega)]

/-- A right shift takes bits from above, and there are only `w`. -/
theorem triangular_shiftRight {k : Nat} (hk : 0 < k) :
    Triangular (fun j i => i < j ∧ j < w) fun x : BitVec w => x >>> k := by
  intro x y i h
  simp only [BitVec.getLsbD_ushiftRight]
  by_cases hi : k + i < w
  · exact h (k + i) ⟨by omega, hi⟩
  · rw [BitVec.getLsbD_of_ge x _ (Nat.not_lt.mp hi), BitVec.getLsbD_of_ge y _ (Nat.not_lt.mp hi)]

theorem wellFounded_above (w : Nat) : WellFounded fun j i : Nat => i < j ∧ j < w := by
  refine Subrelation.wf ?_ (measure fun i => w - i).wf
  rintro j i ⟨hij, hj⟩
  exact Nat.sub_lt_sub_left (Nat.lt_trans hij hj) hij

theorem shiftLeft_step_injective {k : Nat} (hk : 0 < k) :
    Function.Injective fun x : BitVec w => x ^^^ (x <<< k) :=
  (triangular_shiftLeft hk).injective Nat.lt_wfRel.wf

theorem shiftRight_step_injective {k : Nat} (hk : 0 < k) :
    Function.Injective fun x : BitVec w => x ^^^ (x >>> k) :=
  (triangular_shiftRight hk).injective (wellFounded_above w)

/-- **An injective generator never runs into a fixed point.** -/
theorem iterate_ne_of_fixed {α : Type*} {f : α → α} (hf : Function.Injective f) {a x : α}
    (ha : f a = a) (hx : x ≠ a) (n : Nat) : f^[n] x ≠ a := by
  intro h
  rw [← Function.iterate_fixed ha n] at h
  exact hx (hf.iterate n h)

end Vfast.Xorshift
