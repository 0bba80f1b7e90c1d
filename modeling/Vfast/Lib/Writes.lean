import Vfast.Lib.Bytes

/-! Logs of memory writes: the memory that a sequence of writes leaves, and the offsets
it covers. -/

namespace Vfast.Writes

open Bytes

structure Write where
  off : Nat
  bytes : List UInt8

def replay (m : Mem) (log : List Write) : Mem := log.foldl (fun m w => m.write w.off w.bytes) m

@[simp] theorem replay_nil (m : Mem) : replay m [] = m := rfl

@[simp] theorem replay_cons (m : Mem) (w : Write) (log : List Write) :
    replay m (w :: log) = replay (m.write w.off w.bytes) log := rfl

@[simp] theorem replay_append (m : Mem) (log log' : List Write) :
    replay m (log ++ log') = replay (replay m log) log' := List.foldl_append

def Covers (log : List Write) (i : Nat) : Prop :=
  ∃ w ∈ log, w.off ≤ i ∧ i < w.off + w.bytes.length

@[simp] theorem covers_nil (i : Nat) : ¬ Covers [] i := by
  rintro ⟨w, hw, -⟩
  cases hw

@[simp] theorem covers_cons {w : Write} {log : List Write} {i : Nat} :
    Covers (w :: log) i ↔ (w.off ≤ i ∧ i < w.off + w.bytes.length) ∨ Covers log i := by
  simp [Covers]

@[simp] theorem covers_append {log log' : List Write} {i : Nat} :
    Covers (log ++ log') i ↔ Covers log i ∨ Covers log' i := by
  simp [Covers, or_and_right, exists_or]

def Within (n : Nat) (log : List Write) : Prop := ∀ i, Covers log i → i < n

theorem within_nil (n : Nat) : Within n [] := fun i h => absurd h (covers_nil i)

@[simp] theorem within_append {n : Nat} {log log' : List Write} :
    Within n (log ++ log') ↔ Within n log ∧ Within n log' := by
  simp only [Within, covers_append, or_imp, forall_and]

theorem within_singleton {n : Nat} {w : Write} :
    Within n [w] ↔ w.bytes = [] ∨ w.off + w.bytes.length ≤ n := by
  constructor
  · intro h
    by_cases h0 : w.bytes = []
    · exact Or.inl h0
    · have hp := List.length_pos_iff.mpr h0
      have := h (w.off + w.bytes.length - 1) ⟨w, List.mem_singleton_self w, by omega, by omega⟩
      exact Or.inr (by omega)
  · rintro h i ⟨w', hw, h1, h2⟩
    obtain rfl := List.mem_singleton.mp hw
    rcases h with h | h
    · rw [h] at h2
      simp at h2
      omega
    · omega

theorem within_cons {n : Nat} {w : Write} {log : List Write} :
    Within n (w :: log) ↔ (w.bytes = [] ∨ w.off + w.bytes.length ≤ n) ∧ Within n log := by
  rw [← List.singleton_append, within_append, within_singleton]

theorem Within.mono {n k : Nat} {log : List Write} (h : Within n log) (hk : n ≤ k) :
    Within k log := fun i hi => Nat.lt_of_lt_of_le (h i hi) hk

/-- **Frame**: what no write covers is as before. -/
theorem replay_of_not_covers {m : Mem} {log : List Write} {i : Nat} (h : ¬ Covers log i) :
    replay m log i = m i := by
  induction log generalizing m with
  | nil => rfl
  | cons w log ih =>
    have hw : i < w.off ∨ w.off + w.bytes.length ≤ i := by
      by_contra hc
      exact h ⟨w, List.mem_cons_self, by omega, by omega⟩
    rw [replay_cons, ih, write_of_not_mem _ _ _ _ hw]
    rintro ⟨w', hm, hi⟩
    exact h ⟨w', List.mem_cons_of_mem w hm, hi⟩

theorem Within.replay_beyond {m : Mem} {n : Nat} {log : List Write} (h : Within n log) {i : Nat}
    (hi : n ≤ i) : replay m log i = m i :=
  replay_of_not_covers fun hc => Nat.lt_irrefl i (Nat.lt_of_lt_of_le (h i hc) hi)

end Vfast.Writes
