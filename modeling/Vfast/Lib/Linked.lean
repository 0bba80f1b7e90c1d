import Mathlib.Data.List.Nodup
import Mathlib.Logic.Function.Basic

/-! Doubly linked lists in a heap. The two link fields of all cells are functions from cells to
cells, and a list stands in the heap if the fields of its cells say so. Writes are function
updates, and the lemmas say which list stands there after a cell is put in front, put at the end
or taken out. A family is any number of such lists in one heap, with no cell in two of them. -/

namespace Vfast.Linked

variable {P : Type}

/-! ## One list -/

/-- The cells of `l` are linked in this order both ways; `b` stands before the first and `e`
behind the last. -/
def Seg (prev next : P → Option P) : Option P → List P → Option P → Prop
  | _, [], _ => True
  | b, p :: l, e => prev p = b ∧ next p = l.head?.or e ∧ Seg prev next (some p) l e

/-- The links to the right only. -/
def Path (next : P → Option P) : List P → Prop
  | [] => True
  | p :: l => next p = l.head? ∧ Path next l

variable {prev next prev' next' : P → Option P}

theorem seg_append {b e : Option P} {l₁ l₂ : List P} :
    Seg prev next b (l₁ ++ l₂) e ↔
      Seg prev next b l₁ (l₂.head?.or e) ∧ Seg prev next (l₁.getLast?.or b) l₂ e := by
  induction l₁ generalizing b with
  | nil => simp [Seg]
  | cons p l₁ ih =>
    have hlast : (p :: l₁).getLast?.or b = l₁.getLast?.or (some p) := by
      cases l₁ with
      | nil => rfl
      | cons q l₁ => simp [List.getLast?_eq_getLast_of_ne_nil]
    rw [List.cons_append, Seg, Seg, ih, hlast, List.head?_append, Option.or_assoc, and_assoc,
      and_assoc]

theorem Seg.congr {b e : Option P} {l : List P} (h : Seg prev next b l e)
    (hp : ∀ p ∈ l, prev' p = prev p) (hn : ∀ p ∈ l, next' p = next p) : Seg prev' next' b l e := by
  induction l generalizing b with
  | nil => trivial
  | cons p l ih =>
    obtain ⟨h1, h2, h3⟩ := h
    exact ⟨(hp p List.mem_cons_self).trans h1, (hn p List.mem_cons_self).trans h2,
      ih h3 (fun q hq => hp q (List.mem_cons_of_mem p hq)) fun q hq =>
        hn q (List.mem_cons_of_mem p hq)⟩

theorem Seg.path {b : Option P} {l : List P} (h : Seg prev next b l none) : Path next l := by
  induction l generalizing b with
  | nil => trivial
  | cons p l ih => exact ⟨by rw [h.2.1, Option.or_none], ih h.2.2⟩

theorem Path.congr {l : List P} (h : Path next l) (hn : ∀ p ∈ l, next' p = next p) :
    Path next' l := by
  induction l with
  | nil => trivial
  | cons p l ih =>
    exact ⟨(hn p List.mem_cons_self).trans h.1, ih h.2 fun q hq => hn q (List.mem_cons_of_mem p hq)⟩

theorem Seg.links {l₁ l₂ : List P} {p : P} (h : Seg prev next none (l₁ ++ p :: l₂) none) :
    prev p = l₁.getLast? ∧ next p = l₂.head? := by
  obtain ⟨-, h1, h2, -⟩ := seg_append.mp h
  exact ⟨by rw [h1, Option.or_none], by rw [h2, Option.or_none]⟩

variable [DecidableEq P]

/-- A write through a pointer that may be null, in which case it is not made. -/
def link (f : P → Option P) (o v : Option P) : P → Option P :=
  match o with
  | none => f
  | some q => Function.update f q v

@[simp] theorem link_none (f : P → Option P) (v : Option P) : link f none v = f := rfl

@[simp] theorem link_some (f : P → Option P) (q : P) (v : Option P) :
    link f (some q) v = Function.update f q v := rfl

theorem link_of_ne {f : P → Option P} {o v : Option P} {p : P} (h : o ≠ some p) :
    link f o v p = f p := by
  cases o with
  | none => rfl
  | some q => exact Function.update_of_ne (fun e => h (congrArg some e.symm)) ..

/-- The cell before the list, if any, is the only one whose link to the right leads into it. -/
theorem Seg.relink_left {b b' e : Option P} {l : List P} (h : Seg prev next b l e)
    (hn : l.Nodup) : Seg (link prev l.head? b') next b' l e := by
  cases l with
  | nil => trivial
  | cons p l =>
    obtain ⟨-, h2, h3⟩ := h
    obtain ⟨hp, -⟩ := List.nodup_cons.mp hn
    refine ⟨Function.update_self .., h2, h3.congr (fun q hq => ?_) fun _ _ => rfl⟩
    exact Function.update_of_ne (fun e : q = p => hp (e ▸ hq)) ..

theorem Seg.relink_right {b e e' : Option P} {l : List P} (h : Seg prev next b l e)
    (hn : l.Nodup) : Seg prev (link next l.getLast? e') b l e' := by
  rcases List.eq_nil_or_concat l with rfl | ⟨l, p, rfl⟩
  · trivial
  · rw [List.concat_eq_append] at *
    obtain ⟨h1, h2, -, -⟩ := seg_append.mp h
    have hp : ∀ q ∈ l, q ≠ p := fun q hq e =>
      (List.nodup_append.mp hn).2.2 q hq p List.mem_cons_self e
    rw [List.getLast?_append, List.getLast?_singleton, Option.some_or, link_some]
    refine seg_append.mpr ⟨h1.congr (fun _ _ => rfl) fun q hq => ?_, h2, ?_, trivial⟩
    · exact Function.update_of_ne (hp q hq) ..
    · rw [Function.update_self]
      rfl

theorem Seg.push {l : List P} {a : P} (h : Seg prev next none l none) (hn : l.Nodup)
    (ha : a ∉ l) : Seg (link (Function.update prev a none) l.head? (some a))
      (Function.update next a l.head?) none (a :: l) none := by
  have hne : ∀ q ∈ l, q ≠ a := fun q hq e => ha (e ▸ hq)
  have hframe : Seg (Function.update prev a none) (Function.update next a l.head?) none l none :=
    h.congr (fun q hq => Function.update_of_ne (hne q hq) ..) fun q hq =>
      Function.update_of_ne (hne q hq) ..
  refine ⟨?_, ?_, hframe.relink_left hn⟩
  · rw [link_of_ne, Function.update_self]
    exact fun e => ha (List.mem_of_mem_head? e)
  · rw [Function.update_self, Option.or_none]

theorem Seg.snoc {l : List P} {a : P} (h : Seg prev next none l none) (hn : l.Nodup)
    (ha : a ∉ l) : Seg (Function.update prev a l.getLast?)
      (link (Function.update next a none) l.getLast? (some a)) none (l ++ [a]) none := by
  have hne : ∀ q ∈ l, q ≠ a := fun q hq e => ha (e ▸ hq)
  have hframe : Seg (Function.update prev a l.getLast?) (Function.update next a none) none l none :=
    h.congr (fun q hq => Function.update_of_ne (hne q hq) ..) fun q hq =>
      Function.update_of_ne (hne q hq) ..
  refine seg_append.mpr ⟨hframe.relink_right hn, ?_, ?_, trivial⟩
  · rw [Function.update_self, Option.or_none]
  · rw [link_of_ne, Function.update_self]
    · rfl
    · exact fun e => ha (List.mem_of_getLast? e)

theorem Seg.unlink {l₁ l₂ : List P} {p : P} (h : Seg prev next none (l₁ ++ p :: l₂) none)
    (hn : (l₁ ++ p :: l₂).Nodup) :
    Seg (link prev l₂.head? l₁.getLast?) (link next l₁.getLast? l₂.head?) none (l₁ ++ l₂) none := by
  obtain ⟨h1, -, -, h2⟩ := seg_append.mp h
  obtain ⟨hn1, hn2, hd⟩ := List.nodup_append.mp hn
  have hn2 := (List.nodup_cons.mp hn2).2
  refine seg_append.mpr ⟨?_, ?_⟩
  · rw [Option.or_none]
    refine (h1.relink_right hn1).congr (fun q hq => link_of_ne fun e => ?_) fun _ _ => rfl
    exact hd q hq q (List.mem_cons_of_mem p (List.mem_of_mem_head? e)) rfl
  · rw [Option.or_none]
    refine (h2.relink_left hn2).congr (fun _ _ => rfl) fun q hq => link_of_ne fun e => ?_
    exact hd q (List.mem_of_getLast? e) q (List.mem_cons_of_mem p hq) rfl

/-- What a walk that starts at the head finds first after the cell is out. -/
theorem head?_unlink {l₁ l₂ : List P} {p : P} (hn : (l₁ ++ p :: l₂).Nodup) :
    (if (l₁ ++ p :: l₂).head? = some p then l₂.head? else (l₁ ++ p :: l₂).head?) =
      (l₁ ++ l₂).head? := by
  cases l₁ with
  | nil => simp
  | cons q l₁ =>
    have hne : q ≠ p := fun e =>
      (List.nodup_append.mp hn).2.2 q List.mem_cons_self p List.mem_cons_self e
    simp [hne]

theorem getLast?_unlink {l₁ l₂ : List P} {p : P} (hn : (l₁ ++ p :: l₂).Nodup) :
    (if (l₁ ++ p :: l₂).getLast? = some p then l₁.getLast? else (l₁ ++ p :: l₂).getLast?) =
      (l₁ ++ l₂).getLast? := by
  rcases List.eq_nil_or_concat l₂ with rfl | ⟨l, q, rfl⟩
  · simp
  · have hne : q ≠ p := by
      rintro rfl
      exact (List.nodup_cons.mp (List.nodup_append.mp hn).2.1).1 (by simp)
    rw [List.concat_eq_append, ← List.cons_append, ← List.append_assoc, ← List.append_assoc,
      List.getLast?_concat, List.getLast?_concat, if_neg fun e => hne (Option.some.inj e)]

/-! ## Families -/

structure Chains (prev next : P → Option P) (chain : Nat → List P) : Prop where
  seg : ∀ i, Seg prev next none (chain i) none
  nodup : ∀ i, (chain i).Nodup
  disjoint : ∀ i j p, p ∈ chain i → p ∈ chain j → i = j

variable {chain : Nat → List P}

omit [DecidableEq P] in
theorem chains_nil : Chains prev next fun _ => [] :=
  ⟨fun _ => trivial, fun _ => List.nodup_nil, fun _ _ _ h => nomatch h⟩

theorem Chains.push (h : Chains prev next chain) {a : P} (ha : ∀ i, a ∉ chain i) (j : Nat) :
    Chains (link (Function.update prev a none) (chain j).head? (some a))
      (Function.update next a (chain j).head?) (Function.update chain j (a :: chain j)) := by
  have hmem : ∀ i p, p ∈ Function.update chain j (a :: chain j) i →
      (p = a ∧ i = j) ∨ p ∈ chain i := by
    intro i p hp
    by_cases e : i = j
    · subst e
      rw [Function.update_self] at hp
      exact (List.mem_cons.mp hp).imp_left fun hp => ⟨hp, rfl⟩
    · rw [Function.update_of_ne e] at hp
      exact .inr hp
  refine ⟨fun i => ?_, fun i => ?_, fun i k p hi hk => ?_⟩
  · by_cases e : i = j
    · subst e
      rw [Function.update_self]
      exact (h.seg i).push (h.nodup i) (ha i)
    · rw [Function.update_of_ne e]
      have hne : ∀ q ∈ chain i, q ≠ a := fun q hq e => ha i (e ▸ hq)
      refine (h.seg i).congr (fun q hq => ?_) fun q hq => Function.update_of_ne (hne q hq) ..
      rw [link_of_ne, Function.update_of_ne (hne q hq)]
      exact fun e' => e (h.disjoint i j q hq (List.mem_of_mem_head? e'))
  · by_cases e : i = j
    · subst e
      rw [Function.update_self]
      exact List.nodup_cons.mpr ⟨ha i, h.nodup i⟩
    · rw [Function.update_of_ne e]
      exact h.nodup i
  · rcases hmem i p hi with ⟨rfl, ei⟩ | hi' <;> rcases hmem k p hk with ⟨e, ek⟩ | hk'
    · exact ei.trans ek.symm
    · exact absurd hk' (ha k)
    · exact absurd (e ▸ hi') (ha i)
    · exact h.disjoint i k p hi' hk'

theorem Chains.unlink (h : Chains prev next chain) {j : Nat} {l₁ l₂ : List P} {p : P}
    (hj : chain j = l₁ ++ p :: l₂) :
    Chains (link prev l₂.head? l₁.getLast?) (link next l₁.getLast? l₂.head?)
      (Function.update chain j (l₁ ++ l₂)) := by
  have hin : ∀ q, q ∈ l₁ ++ l₂ → q ∈ chain j := by
    intro q hq
    rw [hj]
    rcases List.mem_append.mp hq with hq | hq
    · exact List.mem_append_left _ hq
    · exact List.mem_append_right _ (List.mem_cons_of_mem p hq)
  have hmem : ∀ i q, q ∈ Function.update chain j (l₁ ++ l₂) i → q ∈ chain i := by
    intro i q hq
    by_cases e : i = j
    · subst e
      rw [Function.update_self] at hq
      exact hin q hq
    · rwa [Function.update_of_ne e] at hq
  refine ⟨fun i => ?_, fun i => ?_, fun i k q hi hk =>
    h.disjoint i k q (hmem i q hi) (hmem k q hk)⟩
  · by_cases e : i = j
    · subst e
      rw [Function.update_self]
      exact (hj ▸ h.seg i).unlink (hj ▸ h.nodup i)
    · rw [Function.update_of_ne e]
      refine (h.seg i).congr (fun q hq => link_of_ne fun e' => e ?_) fun q hq =>
        link_of_ne fun e' => e ?_
      · exact h.disjoint i j q hq (hin q (List.mem_append_right _ (List.mem_of_mem_head? e')))
      · exact h.disjoint i j q hq (hin q (List.mem_append_left _ (List.mem_of_getLast? e')))
  · by_cases e : i = j
    · subst e
      rw [Function.update_self]
      have hn := hj ▸ h.nodup i
      rw [List.nodup_append] at hn ⊢
      exact ⟨hn.1, (List.nodup_cons.mp hn.2.1).2, fun q hq r hr =>
        hn.2.2 q hq r (List.mem_cons_of_mem p hr)⟩
    · rw [Function.update_of_ne e]
      exact h.nodup i

end Vfast.Linked
