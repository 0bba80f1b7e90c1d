import Mathlib.Algebra.Polynomial.Roots
import Mathlib.Algebra.Order.BigOperators.Group.Finset
import Mathlib.NumberTheory.LucasPrimality

/-! Hashing by polynomial evaluation over a field: a list of blocks is folded into
`(a + b) * r`, which evaluates at `r` the polynomial whose coefficients are the blocks. Different
lists of nonzero blocks have different polynomials, so that few keys `r` give a chosen difference
of hashes (`exists_keys`). With a test for the primality of the field's order. -/

namespace Vfast.PolyHash

open Polynomial

variable {F : Type*} [Field F]

/-- The hash of a list of blocks under the key `r`. -/
def hash (r : F) (bs : List F) : F := bs.foldl (fun a b => (a + b) * r) 0

noncomputable def poly (bs : List F) : F[X] := bs.foldl (fun a b => (a + C b) * X) 0

theorem eval_poly (r : F) (bs : List F) : (poly bs).eval r = hash r bs := by
  induction bs using List.reverseRecOn with
  | nil => simp [poly, hash]
  | append_singleton bs b ih =>
    simp only [poly, hash, List.foldl_append, List.foldl_cons, List.foldl_nil] at ih ⊢
    rw [eval_mul, eval_add, eval_C, eval_X, ih]

theorem poly_concat (bs : List F) (b : F) : poly (bs ++ [b]) = (poly bs + C b) * X := by
  simp only [poly, List.foldl_append, List.foldl_cons, List.foldl_nil]

theorem natDegree_poly (bs : List F) : (poly bs).natDegree ≤ bs.length := by
  induction bs using List.reverseRecOn with
  | nil => simp [poly]
  | append_singleton bs b ih =>
    rw [poly_concat, List.length_append, List.length_singleton]
    calc ((poly bs + C b) * X).natDegree
        ≤ (poly bs + C b).natDegree + (X : F[X]).natDegree := natDegree_mul_le
      _ ≤ bs.length + 1 := by
        rw [natDegree_X]
        exact Nat.add_le_add_right ((natDegree_add_C).trans_le ih) 1

/-- No block stands at the constant term. -/
theorem coeff_zero_poly (bs : List F) : (poly bs).coeff 0 = 0 := by
  cases bs using List.reverseRecOn with
  | nil => simp [poly]
  | append_singleton bs b => rw [poly_concat, mul_coeff_zero, coeff_X_zero, mul_zero]

/-- Lists of nonzero blocks are told apart by their polynomials. -/
theorem poly_inj {as bs : List F} (ha : ∀ a ∈ as, a ≠ 0) (hb : ∀ b ∈ bs, b ≠ 0)
    (h : poly as = poly bs) : as = bs := by
  -- the last block is the constant term once `X` is cancelled
  have hcancel : ∀ {p q : F[X]}, p * X = q * X → p = q := fun h => mul_right_cancel₀ X_ne_zero h
  have hzero : ∀ {cs : List F} {c : F}, poly (cs ++ [c]) = 0 → c = 0 := by
    intro cs c hc
    rw [poly_concat, mul_eq_zero, or_iff_left X_ne_zero] at hc
    have h0 := congrArg (fun p => coeff p 0) hc
    simpa [coeff_zero_poly] using h0
  induction as using List.reverseRecOn generalizing bs with
  | nil =>
    cases bs using List.reverseRecOn with
    | nil => rfl
    | append_singleton bs b => exact absurd (hzero h.symm) (hb b (by simp))
  | append_singleton as a ih =>
    cases bs using List.reverseRecOn with
    | nil => exact absurd (hzero h) (ha a (by simp))
    | append_singleton bs b =>
      rw [poly_concat, poly_concat] at h
      have hsum := hcancel h
      have hab : a = b := by
        have h0 := congrArg (fun p => coeff p 0) hsum
        simpa [coeff_zero_poly] using h0
      subst hab
      have hpoly : poly as = poly bs := add_right_cancel hsum
      rw [ih (fun x hx => ha x (by simp [hx])) (fun x hx => hb x (by simp [hx])) hpoly]

/-- The keys that give two different lists a chosen difference of hashes are no more than the
blocks. -/
theorem exists_roots {as bs : List F} (ha : ∀ a ∈ as, a ≠ 0) (hb : ∀ b ∈ bs, b ≠ 0)
    (hne : as ≠ bs) (d : F) :
    ∃ roots : Finset F, roots.card ≤ max as.length bs.length ∧
      ∀ r, hash r as - hash r bs = d → r ∈ roots := by
  classical
  set p := poly as - poly bs - C d with hp
  -- a difference that is constant would be zero
  have hp0 : p ≠ 0 := by
    intro h0
    have hcoeff := congrArg (fun q => coeff q 0) h0
    simp only [hp, coeff_sub, coeff_zero_poly, coeff_C_zero, coeff_zero, sub_self, zero_sub,
      neg_eq_zero] at hcoeff
    rw [hp, hcoeff, map_zero, sub_zero, sub_eq_zero] at h0
    exact hne (poly_inj ha hb h0)
  have hdeg : p.natDegree ≤ max as.length bs.length := by
    rw [hp]
    refine (natDegree_sub_le _ _).trans (max_le ?_ (by rw [natDegree_C]; exact Nat.zero_le _))
    exact (natDegree_sub_le _ _).trans (max_le_max (natDegree_poly as) (natDegree_poly bs))
  refine ⟨p.roots.toFinset, ?_, ?_⟩
  · exact (Multiset.toFinset_card_le _).trans ((card_roots' p).trans hdeg)
  · intro r hr
    rw [Multiset.mem_toFinset, mem_roots hp0, IsRoot.def, hp, eval_sub, eval_sub, eval_C, eval_poly,
      eval_poly, hr, sub_self]

/-- **Few keys.** The same for any of a set of differences. -/
theorem exists_keys {as bs : List F} (ha : ∀ a ∈ as, a ≠ 0) (hb : ∀ b ∈ bs, b ≠ 0)
    (hne : as ≠ bs) (ds : Finset F) :
    ∃ keys : Finset F, keys.card ≤ ds.card * max as.length bs.length ∧
      ∀ r, hash r as - hash r bs ∈ ds → r ∈ keys := by
  classical
  choose roots hcard hroots using exists_roots ha hb hne
  refine ⟨ds.biUnion roots, ?_, ?_⟩
  · exact Finset.card_biUnion_le_card_mul _ _ _ fun d _ => hcard d
  · intro r hr
    exact Finset.mem_biUnion.mpr ⟨_, hr, hroots _ r rfl⟩

/-- **Lucas's test** with the factors of `p - 1`. -/
theorem prime_of_factors {p : ℕ} (a : ZMod p) (fs : List ℕ) (hfs : ∀ q ∈ fs, q.Prime)
    (hprod : fs.prod = p - 1) (hone : a ^ (p - 1) = 1) (hne : ∀ q ∈ fs, a ^ ((p - 1) / q) ≠ 1) :
    p.Prime := by
  refine lucas_primality p a hone ?_
  intro q hq hdvd
  rw [← hprod] at hdvd
  obtain ⟨f, hf, hqf⟩ := (Prime.dvd_prod_iff hq.prime).mp hdvd
  rw [(Nat.prime_dvd_prime_iff_eq hq (hfs f hf)).mp hqf]
  exact hne f hf

end Vfast.PolyHash
