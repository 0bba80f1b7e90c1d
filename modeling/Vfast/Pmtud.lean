import Mathlib.Algebra.Group.Nat.Defs
import Vfast.Lib.RateLimit

/-! Path-MTU polling in `vf_io_run`. The clock has 64 bits and `last_pmtud_check_ms` 32: from
`2 ^ 32` milliseconds on the difference is never small again, and every iteration polls. -/

namespace Vfast.Pmtud

open RateLimit

def due (last : UInt32) (now : UInt64) : Bool := now - last.toUInt64 ≥ 1000

/-- The polling of the iterations of `vf_io_run` that see the clock values `ts`: the times at
which `vfast_check_icmp_errors` runs. -/
def checks : (lastPmtudCheckMs : UInt32) → (ts : List UInt64) → List UInt64
  | _, [] => []
  | last, now :: ts => if due last now then now :: checks now.toUInt32 ts else checks last ts

def Nondecreasing (ts : List UInt64) : Prop := ts.Pairwise fun a b => a.toNat ≤ b.toNat

instance (ts : List UInt64) : Decidable (Nondecreasing ts) :=
  inferInstanceAs (Decidable (ts.Pairwise _))

def millis (ts : List UInt64) : List Nat := ts.map UInt64.toNat

theorem due_iff {last : UInt32} {now : UInt64} (h : last.toNat ≤ now.toNat) :
    due last now = true ↔ last.toNat + 1000 ≤ now.toNat := by
  have hle : last.toUInt64 ≤ now := by
    rw [UInt64.le_iff_toNat_le]
    simpa using h
  have hsub : (now - last.toUInt64).toNat = now.toNat - last.toNat := by
    rw [UInt64.toNat_sub_of_le _ _ hle]
    simp
  unfold due
  rw [decide_eq_true_eq, ge_iff_le, UInt64.le_iff_toNat_le, hsub]
  change 1000 ≤ _ ↔ _
  omega

/-- Once a poll was stored that the 32 bits cannot hold, every iteration polls. -/
theorem checks_wrapped {last : UInt32} {ts : List UInt64} (hs : Nondecreasing ts)
    (h : ∀ t ∈ ts, last.toNat + 1000 ≤ t.toNat ∧ 2 ^ 32 ≤ t.toNat) : checks last ts = ts := by
  induction ts generalizing last with
  | nil => rfl
  | cons now ts ih =>
    obtain ⟨hnow, hts⟩ := List.pairwise_cons.mp hs
    obtain ⟨hd, hbig⟩ := h now List.mem_cons_self
    have hdue : due last now = true := (due_iff (by omega)).mpr hd
    have hstored : now.toUInt32.toNat = now.toNat % 2 ^ 32 := UInt64.toNat_toUInt32 now
    have hrest : checks now.toUInt32 ts = ts := by
      apply ih hts
      intro t ht
      have hle := hnow t ht
      have hmod := Nat.div_add_mod now.toNat (2 ^ 32)
      have hdiv : 1 ≤ now.toNat / 2 ^ 32 := (Nat.one_le_div_iff (by decide)).mpr hbig
      omega
    rw [checks, if_pos hdue, hrest]

/-- Beyond the 32 bits the first poll is a second after the last one, all others follow at once. -/
theorem checks_beyond {last : UInt32} {ts : List UInt64} (hs : Nondecreasing ts)
    (h : ∀ t ∈ ts, 2 ^ 32 ≤ t.toNat) :
    checks last ts = ts.filter fun t => last.toNat + 1000 ≤ t.toNat := by
  induction ts with
  | nil => rfl
  | cons now ts ih =>
    obtain ⟨hnow, hts⟩ := List.pairwise_cons.mp hs
    have hbig := h now List.mem_cons_self
    have hlast := last.toNat_lt
    have hdue := due_iff (show last.toNat ≤ now.toNat by omega)
    by_cases hd : last.toNat + 1000 ≤ now.toNat
    · have hall : ∀ t ∈ now :: ts, last.toNat + 1000 ≤ t.toNat := by
        intro t ht
        rcases List.mem_cons.mp ht with rfl | ht
        · exact hd
        · exact Nat.le_trans hd (hnow t ht)
      rw [checks_wrapped hs fun t ht => ⟨hall t ht, h t ht⟩]
      exact (List.filter_eq_self.mpr fun t ht => by simpa using hall t ht).symm
    · have hno : due last now = false := by simpa [hd] using hdue
      rw [checks, hno, ih hts fun t ht => h t (List.mem_cons_of_mem now ht)]
      simp [hd]

def early (ts : List UInt64) : List UInt64 := ts.filter fun t => t.toNat < 2 ^ 32

/-- The clock values from `2 ^ 32` on, without those in the second after the last poll before. -/
def late (last : Nat) (ts : List UInt64) : List UInt64 :=
  ts.filter fun t => 2 ^ 32 ≤ t.toNat ∧ lastFire 1000 last (millis (early ts)) + 1000 ≤ t.toNat

theorem early_cons {now : UInt64} {ts : List UInt64} (h : now.toNat < 2 ^ 32) :
    early (now :: ts) = now :: early ts := by
  unfold early
  exact List.filter_cons_of_pos (decide_eq_true h)

theorem late_cons {last : Nat} {now : UInt64} {ts : List UInt64} (h : now.toNat < 2 ^ 32) :
    late last (now :: ts) = late (if last + 1000 ≤ now.toNat then now.toNat else last) ts := by
  have hskip : ∀ b, (now :: ts).filter (fun t => 2 ^ 32 ≤ t.toNat ∧ b ≤ t.toNat) =
      ts.filter fun t => 2 ^ 32 ≤ t.toNat ∧ b ≤ t.toNat := by
    intro b
    apply List.filter_cons_of_neg
    intro hkept
    exact absurd (of_decide_eq_true hkept).1 (Nat.not_le.mpr h)
  have hlast : lastFire 1000 last (millis (now :: early ts)) =
      lastFire 1000 (if last + 1000 ≤ now.toNat then now.toNat else last) (millis (early ts)) := by
    change lastFire 1000 last (now.toNat :: millis (early ts)) = _
    rw [lastFire]
    split <;> rfl
  rw [late, early_cons h, hlast, hskip, late]

theorem early_beyond {ts : List UInt64} (h : ∀ t ∈ ts, 2 ^ 32 ≤ t.toNat) : early ts = [] :=
  List.filter_eq_nil_iff.mpr fun t ht => by simpa using h t ht

theorem late_beyond {last : Nat} {ts : List UInt64} (h : ∀ t ∈ ts, 2 ^ 32 ≤ t.toNat) :
    late last ts = ts.filter fun t => last + 1000 ≤ t.toNat := by
  unfold late
  rw [early_beyond h]
  apply List.filter_congr
  intro t ht
  exact decide_eq_decide.mpr (and_iff_right (h t ht))

/-- **When the loop polls**: as a rate limiter before `2 ^ 32`, and then in every iteration. -/
theorem millis_checks {last : UInt32} {ts : List UInt64} (hs : Nondecreasing ts)
    (h : ∀ t ∈ ts, last.toNat ≤ t.toNat) :
    millis (checks last ts) =
      fires 1000 last.toNat (millis (early ts)) ++ millis (late last.toNat ts) := by
  induction ts generalizing last with
  | nil => rfl
  | cons now ts ih =>
    obtain ⟨hnow, hts⟩ := List.pairwise_cons.mp hs
    by_cases hbig : now.toNat < 2 ^ 32
    · have hmillis : millis (now :: early ts) = now.toNat :: millis (early ts) := rfl
      have hdue := due_iff (h now List.mem_cons_self)
      rw [early_cons hbig, late_cons hbig, hmillis, checks, fires]
      by_cases hd : last.toNat + 1000 ≤ now.toNat
      · have hstored : now.toUInt32.toNat = now.toNat := by
          rw [UInt64.toNat_toUInt32, Nat.mod_eq_of_lt hbig]
        have hrec := @ih now.toUInt32 hts fun t ht => by
          rw [hstored]
          exact hnow t ht
        rw [hstored] at hrec
        rw [if_pos (hdue.mpr hd), if_pos hd, if_pos hd, List.cons_append, ← hrec]
        rfl
      · rw [if_neg (fun h => hd (hdue.mp h)), if_neg hd, if_neg hd]
        exact ih hts fun t ht => h t (List.mem_cons_of_mem now ht)
    · -- from here on nothing is early
      have hall : ∀ t ∈ now :: ts, 2 ^ 32 ≤ t.toNat := by
        intro t ht
        rcases List.mem_cons.mp ht with rfl | ht
        · exact Nat.not_lt.mp hbig
        · exact Nat.le_trans (Nat.not_lt.mp hbig) (hnow t ht)
      rw [checks_beyond hs hall, early_beyond hall, late_beyond hall]
      rfl

/-- **Path-MTU polling is rate limited exactly if the iterations are** once the clock has passed
`2 ^ 32` milliseconds. -/
theorem pmtud_rate_limited_iff {ts : List UInt64} (hs : Nondecreasing ts) :
    Spaced 1000 (millis (checks 0 ts)) ↔ Spaced 1000 (millis (late 0 ts)) := by
  have heq : millis (checks 0 ts) = fires 1000 0 (millis (early ts)) ++ millis (late 0 ts) :=
    millis_checks hs fun t _ => Nat.zero_le _
  rw [heq]
  constructor
  · intro h
    exact (List.pairwise_append.mp h).2.1
  · intro h
    refine List.pairwise_append.mpr ⟨fires_spaced _ _ _, h, ?_⟩
    intro a ha b hb
    have hle := fires_le_lastFire.2 a ha
    obtain ⟨t, ht, rfl⟩ := List.mem_map.mp hb
    have hlate := (List.mem_filter.mp ht).2
    simp only [decide_eq_true_eq] at hlate
    omega

/-- Iterations in the first 49 days. -/
theorem pmtud_first_days :
    Spaced 1000 (millis (checks 0 [999, 1000, 1100, 2000, 4233600000])) :=
  (pmtud_rate_limited_iff (by decide)).mpr (by decide)

/-- **After 49.7 days every iteration polls**: two polls are 100 milliseconds apart. -/
theorem pmtud_polls_every_iteration :
    Nondecreasing [4294968000, 4294968100] ∧
      checks 0 [4294968000, 4294968100] = [4294968000, 4294968100] ∧
      ¬ Spaced 1000 (millis (checks 0 [4294968000, 4294968100])) := by
  decide

end Vfast.Pmtud
