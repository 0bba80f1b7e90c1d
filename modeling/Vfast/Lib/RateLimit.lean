import Mathlib.Data.List.Basic

/-! A rate limiter: an action fires at the first opportunity that is at least a period
after the last one. -/

namespace Vfast.RateLimit

/-- The opportunities at which the limiter fires, `last` being the time of the last one. -/
def fires (period : Nat) : (last : Nat) → List Nat → List Nat
  | _, [] => []
  | last, t :: ts => if last + period ≤ t then t :: fires period t ts else fires period last ts

def lastFire (period : Nat) : (last : Nat) → List Nat → Nat
  | last, [] => last
  | last, t :: ts => if last + period ≤ t then lastFire period t ts else lastFire period last ts

def Spaced (period : Nat) (ts : List Nat) : Prop := ts.Pairwise fun a b => a + period ≤ b

instance (period : Nat) (ts : List Nat) : Decidable (Spaced period ts) :=
  inferInstanceAs (Decidable (ts.Pairwise _))

theorem fires_ge {period last : Nat} {ts : List Nat} :
    ∀ t ∈ fires period last ts, last + period ≤ t := by
  induction ts generalizing last with
  | nil => simp [fires]
  | cons t ts ih =>
    intro u hu
    rw [fires] at hu
    split at hu
    · rename_i h
      rcases List.mem_cons.mp hu with rfl | hu
      · exact h
      · have := ih u hu
        omega
    · exact ih u hu

theorem fires_spaced (period last : Nat) (ts : List Nat) :
    Spaced period (fires period last ts) := by
  induction ts generalizing last with
  | nil => exact List.Pairwise.nil
  | cons t ts ih =>
    rw [fires]
    split
    · exact List.Pairwise.cons (fun u hu => fires_ge u hu) (ih t)
    · exact ih last

/-- No firing is later than the last one. -/
theorem fires_le_lastFire {period last : Nat} {ts : List Nat} :
    last ≤ lastFire period last ts ∧ ∀ t ∈ fires period last ts, t ≤ lastFire period last ts := by
  induction ts generalizing last with
  | nil => simp [fires, lastFire]
  | cons t ts ih =>
    rw [fires, lastFire]
    split
    · rename_i h
      refine ⟨?_, ?_⟩
      · have := (@ih t).1
        omega
      · intro u hu
        rcases List.mem_cons.mp hu with rfl | hu
        · exact ih.1
        · exact ih.2 u hu
    · exact ih

end Vfast.RateLimit
