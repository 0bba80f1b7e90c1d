import Mathlib.Tactic.TypeStar

/-! Labelled transition systems and the states their runs reach. A run may be
restricted to steps that meet a condition; `ReachableBy.invariant` is the
induction over such runs. Runs over a list of inputs that may stop with an error
come last. -/

namespace Vfast.Run

variable {σ ℓ : Type*}

structure System (σ ℓ : Type*) where
  init : σ → Prop
  step : σ → ℓ → σ → Prop

/-- The states reached by runs whose steps all meet `ok` (a condition on the
label and on the state before the step). -/
inductive ReachableBy (S : System σ ℓ) (ok : σ → ℓ → Prop) : σ → Prop
  | init {s : σ} : S.init s → ReachableBy S ok s
  | step {s s' : σ} {l : ℓ} : ReachableBy S ok s → ok s l → S.step s l s' → ReachableBy S ok s'

abbrev Reachable (S : System σ ℓ) : σ → Prop := ReachableBy S fun _ _ => True

theorem Reachable.next {S : System σ ℓ} {s s' : σ} {l : ℓ} (h : Reachable S s)
    (hs : S.step s l s') : Reachable S s' := .step h trivial hs

/-- A run given as a list of inputs, each of which is a step. -/
theorem Reachable.foldl {ι : Type*} {S : System σ ℓ} {next : σ → ι → σ}
    (hn : ∀ s a, ∃ l, S.step s l (next s a)) {s : σ} (h : Reachable S s) (as : List ι) :
    Reachable S (as.foldl next s) := by
  induction as generalizing s with
  | nil => exact h
  | cons a as ih =>
    obtain ⟨l, hl⟩ := hn s a
    exact ih (h.next hl)

/-- The same for inputs that are not always possible. -/
theorem ReachableBy.foldlM {ι : Type*} {S : System σ ℓ} {ok : σ → ℓ → Prop}
    {next : σ → ι → Option σ}
    (hn : ∀ s a s', next s a = some s' → ∃ l, ok s l ∧ S.step s l s') {s s' : σ}
    (h : ReachableBy S ok s) {as : List ι} (hs : as.foldlM next s = some s') :
    ReachableBy S ok s' := by
  induction as generalizing s with
  | nil =>
    cases hs
    exact h
  | cons a as ih =>
    obtain ⟨s1, h1, hs⟩ := Option.bind_eq_some_iff.mp hs
    obtain ⟨l, hok, hl⟩ := hn s a s1 h1
    exact ih (.step h hok hl) hs

/-- The labels of a list meet `ok`, each in the state that those before it lead to. -/
def Along (ok : σ → ℓ → Prop) (next : σ → ℓ → σ) : σ → List ℓ → Prop
  | _, [] => True
  | s, l :: ls => ok s l ∧ Along ok next (next s l) ls

instance Along.decidable {ok : σ → ℓ → Prop} {next : σ → ℓ → σ} [∀ s l, Decidable (ok s l)] :
    ∀ s ls, Decidable (Along ok next s ls)
  | _, [] => .isTrue trivial
  | s, l :: ls =>
    have : Decidable (Along ok next (next s l) ls) := Along.decidable (next s l) ls
    inferInstanceAs (Decidable (ok s l ∧ Along ok next (next s l) ls))

theorem ReachableBy.along {S : System σ ℓ} {ok : σ → ℓ → Prop} {next : σ → ℓ → σ}
    (hn : ∀ s l, ok s l → S.step s l (next s l)) {s : σ} (h : ReachableBy S ok s) {ls : List ℓ}
    (hok : Along ok next s ls) : ReachableBy S ok (ls.foldl next s) := by
  induction ls generalizing s with
  | nil => exact h
  | cons l ls ih => exact ih (.step h hok.1 (hn s l hok.1)) hok.2

/-- **Invariant rule.** -/
theorem ReachableBy.invariant {S : System σ ℓ} {ok : σ → ℓ → Prop} {s : σ}
    (h : ReachableBy S ok s) (inv : σ → Prop) (h0 : ∀ s, S.init s → inv s)
    (hstep : ∀ s l s', inv s → ok s l → S.step s l s' → inv s') : inv s := by
  induction h with
  | init hi => exact h0 _ hi
  | step _ hok hs ih => exact hstep _ _ _ ih hok hs

theorem ReachableBy.mono {S : System σ ℓ} {ok ok' : σ → ℓ → Prop} {s : σ}
    (h : ReachableBy S ok s) (hle : ∀ s l, ok s l → ok' s l) : ReachableBy S ok' s := by
  induction h with
  | init hi => exact .init hi
  | step _ hok hs ih => exact .step ih (hle _ _ hok) hs

/-! ## Runs that stop -/

section Stops

variable {α β ε : Type*} {step : β → α → Except ε β} {why : β → α → ε → Prop}

/-- The run over `xs` stops at one of them, in a way that `why` allows of the state before it. -/
def Stops (run : List α → Except ε β) (why : β → α → ε → Prop) (xs : List α) : Prop :=
  ∃ before x after b e, xs = before ++ x :: after ∧ run before = .ok b ∧ why b x e ∧
    run xs = .error e

theorem Stops.head {b : β} {x : α} {e : ε} (hs : step b x = .error e) (hw : why b x e)
    (xs : List α) : Stops (List.foldlM step b) why (x :: xs) :=
  ⟨[], x, xs, b, e, rfl, rfl, hw, by rw [List.foldlM_cons, hs]; rfl⟩

theorem Stops.cons {b b' : β} {x : α} {xs : List α} (hs : step b x = .ok b')
    (h : Stops (List.foldlM step b') why xs) : Stops (List.foldlM step b) why (x :: xs) := by
  obtain ⟨before, y, after, b'', e, rfl, hb, hw, he⟩ := h
  refine ⟨x :: before, y, after, b'', e, rfl, ?_, hw, ?_⟩
  · rw [List.foldlM_cons, hs]
    exact hb
  · rw [List.foldlM_cons, hs]
    exact he

end Stops

end Vfast.Run
