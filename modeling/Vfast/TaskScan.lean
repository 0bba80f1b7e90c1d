import Vfast.IoOwners
import Vfast.PoolRuns

/-! The search of `get_task_from_instance`. Its counter is a signed 32-bit `int` that only
grows: the search is in range and complete until the counter passes `INT_MAX`, from where on
the remainder is negative unless the pool size divides it. -/

namespace Vfast.TaskScan

open Io IoOwners PoolRuns Run

/-- **Task acquisition is in range and complete**: the search stays in the pool, finds a free
task unless there is none, and marks that one and no other. -/
def Acquires (io : VfIo) : Prop :=
  ∃ io' r, getTaskFromInstance io = some (io', r) ∧
    (r = none ↔ ∀ i < io.poolSize, io.inUse i = true) ∧
    (r = none → io'.inUse = io.inUse) ∧
    ∀ i, r = some i → i < io.poolSize ∧ io.inUse i = false ∧
      io'.inUse = Function.update io.inUse i true

/-- It is enough that the search is defined and overlooks nothing. -/
theorem acquires_iff {io : VfIo} (hs : 0 < io.poolSize) :
    Acquires io ↔ ∃ io' r, getTaskFromInstance io = some (io', r) ∧
      (r = none → ∀ i < io.poolSize, io.inUse i = true) := by
  constructor
  · rintro ⟨io', r, hr, hnone, -, -⟩
    exact ⟨io', r, hr, hnone.mp⟩
  · rintro ⟨io', r, hr, hall⟩
    refine ⟨io', r, hr, ?_⟩
    obtain ⟨idx, he | ⟨i, hi, hfree, he⟩⟩ := getTaskLoop_cases hs hr
    · cases he
      simpa using hall rfl
    · cases he
      have hnot : ¬ ∀ j < io.poolSize, io.inUse j = true := fun h => by simp [h i hi] at hfree
      simp [hi, hfree, hnot]

/-! ## The counter -/

theorem wrap32_of_mem {x : Int} (h1 : -0x80000000 ≤ x) (h2 : x < 0x80000000) : wrap32 x = x := by
  unfold wrap32
  rw [Int.bmod_eq_of_le] <;> omega

theorem wrap32_mem (x : Int) : -0x80000000 ≤ wrap32 x ∧ wrap32 x < 0x80000000 := by
  have h1 := @Int.le_bmod x (2 ^ 32) (by decide)
  have h2 := @Int.bmod_lt x (2 ^ 32) (by decide)
  unfold wrap32
  omega

/-! ## The search -/

section

variable {io : VfIo}

/-- Tasks in use are passed as long as the counter does not wrap; the last step may wrap it. -/
theorem getTaskLoop_used {a m : Nat} (hv : io.poolIdx = wrap32 a) (hm : a + m ≤ 0x80000000)
    (hused : ∀ j < m, io.inUse ((a + j) % io.poolSize) = true) (t : Nat) :
    getTaskLoop (m + t) io = getTaskLoop t { io with poolIdx := wrap32 (a + m : Nat) } := by
  induction m generalizing io a with
  | zero =>
    rw [Nat.zero_add, Nat.add_zero, ← hv]
  | succ m ih =>
    have ha : io.poolIdx = a := by rw [hv, wrap32_of_mem] <;> omega
    have hidx : io.poolIdx.tmod io.poolSize = (a % io.poolSize : Nat) := by
      rw [ha, Int.ofNat_tmod]
    have hfirst : io.inUse (a % io.poolSize) = true := hused 0 (Nat.succ_pos m)
    have hnext : io.poolIdx + 1 = (a + 1 : Nat) := by omega
    have hrest := @ih { io with poolIdx := wrap32 (io.poolIdx + 1) } (a + 1)
      (congrArg wrap32 hnext) (by omega) (fun j hj => by
        rw [Nat.add_assoc, Nat.add_comm 1 j]
        exact hused (j + 1) (by omega))
    rw [Nat.succ_add, getTaskLoop]
    simp only [hidx, Int.toNat_natCast, hfirst, if_true, Int.not_lt.mpr (Int.natCast_nonneg _),
      if_false]
    rw [hrest, Nat.add_assoc, Nat.add_comm 1 m]

theorem getTaskLoop_free {i : Nat} (hidx : io.poolIdx.tmod io.poolSize = i)
    (hfree : io.inUse i = false) (t : Nat) :
    ∃ io', getTaskLoop (t + 1) io = some (io', some i) := by
  simp [getTaskLoop, hidx, hfree, Int.not_lt.mpr (Int.natCast_nonneg i)]

/-- A negative counter names a slot before the pool unless the pool size divides it. -/
theorem tmod_neg_iff {v : Int} {n : Nat} (hv : v < 0) : v.tmod n < 0 ↔ ¬ (n : Int) ∣ v := by
  have hle : v.tmod n ≤ 0 := by
    have h := Int.tmod_nonneg (n : Int) (show 0 ≤ -v by omega)
    rw [Int.neg_tmod] at h
    omega
  rw [Int.dvd_iff_tmod_eq_zero]
  omega

/-- Two neighbours are not both divisible, and both are negative. -/
theorem succ_of_dvd {v : Int} {n : Nat} (hn : 1 < n) (hv : v < 0) (hd : (n : Int) ∣ v) :
    v + 1 < 0 ∧ ¬ (n : Int) ∣ v + 1 := by
  have hle : (n : Int) ≤ -v := Int.le_of_dvd (by omega) (Int.dvd_neg.mpr hd)
  refine ⟨by omega, fun h => ?_⟩
  have h1 : (n : Int) ∣ 1 := (Int.dvd_add_right hd).mp h
  have h2 := Int.le_of_dvd (by decide) h1
  omega

theorem getTaskLoop_outside {v : Int} (hidx : io.poolIdx = v) (hv : v < 0)
    (hd : ¬ (io.poolSize : Int) ∣ v) (t : Nat) : getTaskLoop (t + 1) io = none := by
  simp [getTaskLoop, hidx, (tmod_neg_iff hv).mpr hd]

/-- Once the counter is negative at most slot 0 can be tried, and once only. -/
theorem getTaskLoop_negative (hs : 1 < io.poolSize) (hv : io.poolIdx < 0)
    (hlow : -0x80000000 ≤ io.poolIdx) (t : Nat) :
    (io.inUse 0 = false ∧ (io.poolSize : Int) ∣ io.poolIdx ∧
      ∃ io', getTaskLoop (t + 1) io = some (io', some 0)) ∨
    (io.inUse 0 = true ∧ (io.poolSize : Int) ∣ io.poolIdx ∧ t = 0 ∧
      ∃ io', getTaskLoop (t + 1) io = some (io', none)) ∨
    (¬ ((io.poolSize : Int) ∣ io.poolIdx ∧ (io.inUse 0 = false ∨ t = 0)) ∧
      getTaskLoop (t + 1) io = none) := by
  by_cases hd : (io.poolSize : Int) ∣ io.poolIdx
  · have hidx : io.poolIdx.tmod io.poolSize = (0 : Nat) := Int.dvd_iff_tmod_eq_zero.mp hd
    cases hfree : io.inUse 0 with
    | false => exact Or.inl ⟨rfl, hd, getTaskLoop_free hidx hfree t⟩
    | true =>
      right
      have hstep : getTaskLoop (t + 1) io =
          getTaskLoop t { io with poolIdx := wrap32 (io.poolIdx + 1) } := by
        simp [getTaskLoop, hidx, hfree]
      rw [hstep]
      cases t with
      | zero => exact Or.inl ⟨rfl, hd, rfl, _, rfl⟩
      | succ t =>
        obtain ⟨hneg, hnext⟩ := succ_of_dvd hs hv hd
        right
        exact ⟨by simp, @getTaskLoop_outside { io with poolIdx := wrap32 (io.poolIdx + 1) } _
          (wrap32_of_mem (by omega) (by omega)) hneg hnext t⟩
  · right
    right
    exact ⟨fun h => hd h.1, getTaskLoop_outside rfl hv hd t⟩

end

/-! ## The condition -/

/-- **Where the search is right**: in a pool of one task; from a counter that cannot wrap
during the search, or that reaches a free task before it wraps; and where the pool size
divides the wrapped counter, if slot 0 is free or the last one to be tried. -/
def Searchable (io : VfIo) : Prop :=
  io.poolSize ≤ 1 ∨
  (0 ≤ io.poolIdx ∧
    (io.poolIdx + io.poolSize ≤ 0x80000000 ∨
      (∃ j : Nat, io.poolIdx + j < 0x80000000 ∧
        io.inUse ((io.poolIdx.toNat + j) % io.poolSize) = false) ∨
      io.poolSize ∣ 0x80000000 ∧
        (io.inUse 0 = false ∨ io.poolIdx + io.poolSize = 0x80000001))) ∨
  (io.poolIdx < 0 ∧ (io.poolSize : Int) ∣ io.poolIdx ∧ io.inUse 0 = false)

/-- The slots that the counter names before it wraps are the whole pool. -/
theorem all_used_of_unwrapped {io : VfIo} {a : Nat}
    (hused : ∀ j < io.poolSize, io.inUse ((a + j) % io.poolSize) = true) (i : Nat)
    (hi : i < io.poolSize) : io.inUse i = true := by
  obtain ⟨k, hk, rfl⟩ := position_probed (Nat.mod_lt a (Nat.zero_lt_of_lt hi)) hi
  rw [Nat.mod_add_mod]
  exact hused k hk

/-- With slot 0 they are if the pool size divides the wrapped counter and one try is left. -/
theorem all_used_of_last {io : VfIo} {a : Nat} (hd : io.poolSize ∣ 0x80000000)
    (ha : a + io.poolSize = 0x80000001) (hzero : io.inUse 0 = true)
    (hused : ∀ j, a + j < 0x80000000 → io.inUse ((a + j) % io.poolSize) = true) (i : Nat)
    (hi : i < io.poolSize) : io.inUse i = true := by
  cases i with
  | zero => exact hzero
  | succ i =>
    obtain ⟨q, hq⟩ := hd
    have hq0 : 0 < q := Nat.pos_of_ne_zero (by rintro rfl; omega)
    have hmod : (a + i) % io.poolSize = i + 1 := by
      obtain ⟨q, rfl⟩ : ∃ q', q = q' + 1 := ⟨q - 1, by omega⟩
      rw [Nat.mul_succ] at hq
      rw [show a + i = i + 1 + io.poolSize * q by omega, Nat.add_mul_mod_self_left,
        Nat.mod_eq_of_lt hi]
    rw [← hmod]
    exact hused i (by omega)

theorem acquires_of_found {io io' : VfIo} {i : Nat} (hs : 0 < io.poolSize)
    (h : getTaskFromInstance io = some (io', some i)) : Acquires io :=
  (acquires_iff hs).mpr ⟨io', some i, h, fun h => by cases h⟩

theorem not_acquires {io : VfIo} (h : getTaskFromInstance io = none) : ¬ Acquires io := by
  rintro ⟨io', r, hr, -⟩
  rw [h] at hr
  cases hr

theorem acquires_negative {io : VfIo} (hs : 1 < io.poolSize) (hv : io.poolIdx < 0)
    (hlow : -0x80000000 ≤ io.poolIdx) :
    Acquires io ↔ (io.poolSize : Int) ∣ io.poolIdx ∧ io.inUse 0 = false := by
  obtain ⟨t, ht⟩ : ∃ t, io.poolSize = t + 2 := ⟨io.poolSize - 2, by omega⟩
  have hget : getTaskFromInstance io = getTaskLoop (t + 1 + 1) io := by
    rw [getTaskFromInstance, ht]
  rcases getTaskLoop_negative hs hv hlow (t + 1) with ⟨h0, hd, io', h⟩ | ⟨-, -, h, -⟩ | ⟨hn, h⟩
  · exact iff_of_true (acquires_of_found (by omega) (hget.trans h)) ⟨hd, h0⟩
  · omega
  · exact iff_of_false (not_acquires (hget.trans h)) fun hc => hn ⟨hc.1, Or.inl hc.2⟩

/-- From a counter that wraps during the search, with every task in use that is tried before. -/
theorem acquires_wrapped {io : VfIo} {a : Nat} (hs : 1 < io.poolSize) (hv : io.poolIdx = a)
    (ha : a < 0x80000000) (hwrap : 0x80000000 < a + io.poolSize)
    (hused : ∀ j, a + j < 0x80000000 → io.inUse ((a + j) % io.poolSize) = true) :
    Acquires io ↔ io.poolSize ∣ 0x80000000 ∧
      (io.inUse 0 = false ∨ a + io.poolSize = 0x80000001) := by
  obtain ⟨t, ht⟩ : ∃ t, io.poolSize = 0x80000000 - a + (t + 1) :=
    ⟨a + io.poolSize - 0x80000001, by omega⟩
  have hsum : a + (0x80000000 - a) = 0x80000000 := by omega
  have hget : getTaskFromInstance io =
      getTaskLoop (t + 1) { io with poolIdx := -0x80000000 } := by
    have h := getTaskLoop_used (hv.trans (wrap32_of_mem (by omega) (by omega)).symm)
      (Nat.le_of_eq hsum) (fun j hj => hused j (by omega)) (t + 1)
    rw [hsum, ← ht] at h
    exact h
  have hdvd : (io.poolSize : Int) ∣ -0x80000000 ↔ io.poolSize ∣ 0x80000000 := by
    rw [Int.dvd_neg]
    exact Int.natCast_dvd_natCast
  have hlast : t = 0 ↔ a + io.poolSize = 0x80000001 := by omega
  rw [← hdvd, ← hlast]
  rcases @getTaskLoop_negative { io with poolIdx := -0x80000000 } hs
    (by decide : (-0x80000000 : Int) < 0)
      (Int.le_refl _) t with ⟨h0, hd, io', h⟩ | ⟨h0, hd, ht0, io', h⟩ | ⟨hn, h⟩
  · exact iff_of_true (acquires_of_found (by omega) (hget.trans h)) ⟨hd, Or.inl h0⟩
  · refine iff_of_true ?_ ⟨hd, Or.inr ht0⟩
    exact (acquires_iff (by omega)).mpr ⟨io', none, hget.trans h, fun _ =>
      all_used_of_last (hdvd.mp hd) (hlast.mp ht0) h0 hused⟩
  · exact iff_of_false (not_acquires (hget.trans h)) hn

/-- A free task that the counter names before it wraps is found. -/
theorem acquires_of_free {io : VfIo} {a j : Nat} (hv : io.poolIdx = a) (hj : j < io.poolSize)
    (ha : a + j < 0x80000000) (hfree : io.inUse ((a + j) % io.poolSize) = false) : Acquires io := by
  -- the first such task; the ones before it are passed
  obtain ⟨m, hm, hmfree, hmused⟩ : ∃ m ≤ j, io.inUse ((a + m) % io.poolSize) = false ∧
      ∀ k < m, io.inUse ((a + k) % io.poolSize) = true := by
    have hex : ∃ m, io.inUse ((a + m) % io.poolSize) = false := ⟨j, hfree⟩
    exact ⟨Nat.find hex, Nat.find_le hfree, Nat.find_spec hex, fun k hk => by
      simpa using Nat.find_min hex hk⟩
  obtain ⟨t, ht⟩ : ∃ t, io.poolSize = m + (t + 1) := ⟨io.poolSize - m - 1, by omega⟩
  have hget := getTaskLoop_used (hv.trans (wrap32_of_mem (by omega) (by omega)).symm)
    (by omega) hmused (t + 1)
  have hidx : (wrap32 (a + m : Nat)).tmod io.poolSize = ((a + m) % io.poolSize : Nat) := by
    rw [wrap32_of_mem (by omega) (by omega), Int.ofNat_tmod]
  obtain ⟨io', h⟩ := @getTaskLoop_free { io with poolIdx := wrap32 (a + m : Nat) }
    ((a + m) % io.poolSize) (by dsimp only; exact hidx) hmfree t
  rw [← ht] at hget
  exact acquires_of_found (by omega) (hget.trans h)

theorem acquires_unwrapped {io : VfIo} {a : Nat} (hv : io.poolIdx = a)
    (ha : a + io.poolSize ≤ 0x80000000) (hs : 0 < io.poolSize) : Acquires io := by
  by_cases h : ∃ j < io.poolSize, io.inUse ((a + j) % io.poolSize) = false
  · obtain ⟨j, hj, hfree⟩ := h
    exact acquires_of_free hv hj (by omega) hfree
  · have hused : ∀ j < io.poolSize, io.inUse ((a + j) % io.poolSize) = true := by simpa using h
    have hget := getTaskLoop_used (hv.trans (wrap32_of_mem (by omega) (by omega)).symm) ha hused 0
    exact (acquires_iff hs).mpr ⟨_, none, hget, fun _ => all_used_of_unwrapped hused⟩

theorem acquires_small {io : VfIo} (hs : io.poolSize ≤ 1) : Acquires io := by
  rcases Nat.eq_zero_or_pos io.poolSize with h0 | hpos
  · refine ⟨io, none, by rw [getTaskFromInstance, h0]; rfl, ?_⟩
    simp [h0]
  · have h1 : io.poolSize = 1 := by omega
    have hidx : io.poolIdx.tmod io.poolSize = (0 : Nat) := by simp [h1]
    cases hfree : io.inUse 0 with
    | false =>
      obtain ⟨io', h⟩ := getTaskLoop_free hidx hfree 0
      exact acquires_of_found hpos (by rw [getTaskFromInstance, h1]; exact h)
    | true =>
      have hget : getTaskFromInstance io =
          some ({ io with poolIdx := wrap32 (io.poolIdx + 1) }, none) := by
        simp [getTaskFromInstance, h1, getTaskLoop, hfree]
      refine (acquires_iff hpos).mpr ⟨_, none, hget, fun _ i hi => ?_⟩
      rw [show i = 0 by omega, hfree]

/-- **Task acquisition is in range and complete exactly in the `Searchable` states**, for every
pool size, every pattern of flags and the counter after any number `k` of increments. -/
theorem acquires_iff_searchable (io : VfIo) (k : Nat) :
    Acquires { io with poolIdx := wrap32 k } ↔ Searchable { io with poolIdx := wrap32 k } := by
  obtain ⟨hlow, hhigh⟩ := wrap32_mem k
  generalize wrap32 k = v at hlow hhigh
  unfold Searchable
  dsimp only
  by_cases hs : io.poolSize ≤ 1
  · exact iff_of_true (acquires_small hs) (Or.inl hs)
  rcases Int.lt_or_le v 0 with hv | hv
  · rw [@acquires_negative { io with poolIdx := v } (by simpa using hs) hv hlow]
    simp [hs, hv, Int.not_le.mpr hv]
  · obtain ⟨a, rfl⟩ := Int.eq_ofNat_of_zero_le hv
    simp only [hs, Int.not_lt.mpr hv, false_and, false_or, or_false, hv, true_and,
      Int.toNat_natCast]
    by_cases hfit : a + io.poolSize ≤ 0x80000000
    · exact iff_of_true (@acquires_unwrapped { io with poolIdx := a } a rfl hfit
        (by dsimp only; omega)) (Or.inl (by omega))
    by_cases hfree : ∃ j : Nat, a + j < 0x80000000 ∧ io.inUse ((a + j) % io.poolSize) = false
    · obtain ⟨j, hj, hf⟩ := hfree
      exact iff_of_true (@acquires_of_free { io with poolIdx := a } a j rfl (by dsimp only; omega)
        hj hf) (Or.inr (Or.inl ⟨j, by omega, hf⟩))
    · have hused : ∀ j, a + j < 0x80000000 → io.inUse ((a + j) % io.poolSize) = true := by
        simpa using hfree
      rw [@acquires_wrapped { io with poolIdx := a } a (by dsimp only; omega) rfl (by omega)
        (by dsimp only; omega) hused]
      dsimp only
      constructor
      · rintro ⟨hd, h⟩
        exact Or.inr (Or.inr ⟨hd, h.imp id (by omega)⟩)
      · rintro (h | ⟨j, hj, hf⟩ | ⟨hd, h⟩)
        · omega
        · exact absurd (hused j (by omega)) (by simp [hf])
        · exact ⟨hd, h.imp id (by omega)⟩

/-! ## A run that gets there -/

def idle (n k : Nat) : VfIo := { vfIoInit n with poolIdx := wrap32 k }

/-- From an idle pool a task is taken, or the counter is negative and names none. -/
theorem idle_getTask {n k : Nat} (hn : 0 < n) :
    getTaskFromInstance (idle n k) =
      if (wrap32 k).tmod n < 0 then none
      else some ({ idle n (k + 1) with
        inUse := Function.update (fun _ => false) ((wrap32 k).tmod n).toNat true },
        some ((wrap32 k).tmod n).toNat) := by
  have hnext : wrap32 (wrap32 k + 1) = wrap32 (k + 1 : Nat) := Int.bmod_add_bmod
  obtain ⟨n, rfl⟩ : ∃ m, n = m + 1 := ⟨n - 1, by omega⟩
  simp [getTaskFromInstance, getTaskLoop, idle, vfIoInit, hnext]

/-- Business logic that acquires a task and gives it back, over and over, drives the counter
on until a search leaves the pool. -/
theorem idle_reachable {σ ι : Type} (ops : VfOps σ ι) {start : σ → Prop} {other : σ → σ → Prop}
    {s : σ} (hs : start s) {n : Nat} (hn : 0 < n ∧ n < 2 ^ 31) {k : Nat}
    (hk : ∀ j < k, ¬ (wrap32 j).tmod n < 0) :
    Reachable (ioRuns ops start other) (idle n k, s) := by
  induction k with
  | zero => exact .init ⟨⟨n, hn.1, hn.2, rfl⟩, hs⟩
  | succ k ih =>
    have hget := @idle_getTask n k hn.1
    rw [if_neg (hk k (Nat.lt_succ_self k))] at hget
    generalize ((wrap32 k).tmod n).toNat = i at hget
    have hborrow : (idle n k).next ops s .borrow =
        some ({ idle n (k + 1) with
          inUse := Function.update (fun _ => false) i true, borrowed := [i] }, s) := by
      simp only [VfIo.next, hget, Option.map_some]
      simp [idle, vfIoInit]
    have hback : ({ idle n (k + 1) with
        inUse := Function.update (fun _ => false) i true, borrowed := [i] } : VfIo).next ops s
          (.rollback i) = some (idle n (k + 1), s) := by
      simp [VfIo.next, VfIo.release, VfIo.free, idle, vfIoInit]
    have h1 : Reachable (ioRuns ops start other) _ :=
      (ih fun j hj => hk j (by omega)).next (l := .borrow) ⟨hborrow, by simp⟩
    exact h1.next (l := .rollback i) ⟨hback, by simp⟩

/-- **The counter wraps**: after `2 ^ 31 + 1` acquisitions from a pool of the default size, none of
whose tasks is in use, the next one leaves the pool. -/
theorem wrapped_counter_leaves_pool :
    ∃ io, Reachable (ioRuns (σ := Unit) (ι := Unit) ⟨fun _ _ _ => ((), [], .done),
        fun _ _ _ => ((), [], .done)⟩ (fun _ => True) fun _ _ => True) (io, ()) ∧
      io.poolSize = 2048 ∧ (∀ i, io.inUse i = false) ∧ getTaskFromInstance io = none := by
  refine ⟨idle 2048 0x80000001, idle_reachable _ trivial (by decide) ?_, rfl, fun _ => rfl, ?_⟩
  · intro j hj
    rcases Nat.lt_succ_iff_lt_or_eq.mp hj with hj | rfl
    · rw [wrap32_of_mem (by omega) (by omega)]
      exact Int.not_lt.mpr (Int.tmod_nonneg _ (Int.natCast_nonneg j))
    · decide
  · rw [idle_getTask (by decide)]
    decide

end Vfast.TaskScan
