import Mathlib.Data.List.Nodup
import Mathlib.Logic.Function.Basic

/-! Slots with a busy flag, each used by at most one party. The parties are a list: every
slot in it is flagged busy, and none occurs twice. A free slot can be acquired, a used one
handed on (the list up to order) or released. -/

namespace Vfast.Slots

variable {α : Type*}

structure Owned (busy : α → Bool) (users : List α) : Prop where
  flagged : ∀ i ∈ users, busy i = true
  nodup : users.Nodup

theorem Owned.empty (busy : α → Bool) : Owned busy [] :=
  ⟨fun _ h => absurd h List.not_mem_nil, List.nodup_nil⟩

theorem Owned.not_mem {busy : α → Bool} {users : List α} (h : Owned busy users) {i : α}
    (hi : busy i = false) : i ∉ users := by
  intro hm
  rw [h.flagged i hm] at hi
  cases hi

/-- Handing slots on does not matter. -/
theorem Owned.perm {busy : α → Bool} {users users' : List α} (h : Owned busy users)
    (hp : users.Perm users') : Owned busy users' :=
  ⟨fun i hi => h.flagged i (hp.mem_iff.mpr hi), hp.nodup_iff.mp h.nodup⟩

variable [DecidableEq α]

theorem Owned.acquire {busy : α → Bool} {users : List α} (h : Owned busy users) {i : α}
    (hi : busy i = false) : Owned (Function.update busy i true) (i :: users) := by
  constructor
  · intro j hj
    by_cases e : j = i
    · subst e
      simp
    · rw [Function.update_of_ne e]
      exact h.flagged j ((List.mem_cons.mp hj).resolve_left e)
  · exact List.nodup_cons.mpr ⟨h.not_mem hi, h.nodup⟩

theorem Owned.release {busy : α → Bool} {users : List α} {i : α} (h : Owned busy (i :: users)) :
    Owned (Function.update busy i false) users := by
  obtain ⟨hi, hn⟩ := List.nodup_cons.mp h.nodup
  refine ⟨fun j hj => ?_, hn⟩
  have hne : j ≠ i := fun e => hi (e ▸ hj)
  rw [Function.update_of_ne hne]
  exact h.flagged j (List.mem_cons_of_mem i hj)

end Vfast.Slots
