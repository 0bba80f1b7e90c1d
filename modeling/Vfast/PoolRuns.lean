import Vfast.ServerInv

/-! The address pool over whole runs of allocations and releases: which position an
allocation takes, when it fails, and which bits move. -/

namespace Vfast.PoolRuns

open Bytes Bitmap Ippool ServerInv Run

/-! ## The scan -/

/-- Position `pos` is the first clear one in cyclic order from the hint. -/
def FirstClear (pool : IpPool) (pos : UInt32) : Prop :=
  testBit pool.bitmap pos.toNat = false ∧
    ∃ k, k < pool.poolSize.toNat ∧ pos.toNat = (pool.nextHint.toNat + k) % pool.poolSize.toNat ∧
      ∀ j, j < k → testBit pool.bitmap ((pool.nextHint.toNat + j) % pool.poolSize.toNat) = true

/-- The loop stops at the first clear position it tries. -/
theorem allocLoop_first {pool : IpPool} {n i : Nat} {pos : UInt32}
    (h : allocLoop pool n i = some pos) :
    testBit pool.bitmap pos.toNat = false ∧
      ∃ k, k < n ∧ pos = probePos pool (i + k) ∧
        ∀ j, j < k → testBit pool.bitmap (probePos pool (i + j)).toNat = true := by
  induction n generalizing i with
  | zero => cases h
  | succ n ih =>
    rw [allocLoop] at h
    by_cases hb : testBit pool.bitmap (probePos pool i).toNat = true
    · rw [if_pos hb] at h
      obtain ⟨hc, k, hk, hp, hj⟩ := ih h
      refine ⟨hc, k + 1, by omega, ?_, ?_⟩
      · rw [hp]
        congr 1
        omega
      · intro j hjk
        cases j with
        | zero => exact hb
        | succ j =>
          have e : i + (j + 1) = i + 1 + j := by omega
          rw [e]
          exact hj j (by omega)
    · rw [if_neg hb] at h
      cases h
      exact ⟨by simpa using hb, 0, by omega, rfl, fun j hj => absurd hj (by omega)⟩

theorem allocLoop_none {pool : IpPool} {n i : Nat} (h : allocLoop pool n i = none) (k : Nat)
    (hk : k < n) : testBit pool.bitmap (probePos pool (i + k)).toNat = true := by
  induction n generalizing i k with
  | zero => omega
  | succ n ih =>
    rw [allocLoop] at h
    by_cases hb : testBit pool.bitmap (probePos pool i).toNat = true
    · rw [if_pos hb] at h
      cases k with
      | zero => exact hb
      | succ k =>
        have e : i + (k + 1) = i + 1 + k := by omega
        rw [e]
        exact ih h k (by omega)
    · rw [if_neg hb] at h
      cases h

/-- The position tried, while the 32-bit sum of the hint and the iteration does not
overflow. -/
theorem probePos_toNat {pool : IpPool} {i : Nat} (hi : pool.nextHint.toNat + i < 2 ^ 32) :
    (probePos pool i).toNat = (pool.nextHint.toNat + i) % pool.poolSize.toNat := by
  rw [probePos, UInt32.toNat_mod, UInt32.toNat_add, UInt32.toNat_ofNat',
    Nat.mod_eq_of_lt (show i < 2 ^ 32 by omega), Nat.mod_eq_of_lt hi]

def ScanFits (pool : IpPool) : Prop := pool.nextHint.toNat + pool.poolSize.toNat ≤ 2 ^ 32

theorem position_probed {hint size pos : Nat} (hh : hint < size) (hp : pos < size) :
    ∃ k, k < size ∧ (hint + k) % size = pos := by
  by_cases h : hint ≤ pos
  · refine ⟨pos - hint, by omega, ?_⟩
    rw [Nat.add_sub_cancel' h, Nat.mod_eq_of_lt hp]
  · refine ⟨pos + size - hint, by omega, ?_⟩
    have e : hint + (pos + size - hint) = pos + size := by omega
    rw [e, Nat.add_mod_right, Nat.mod_eq_of_lt hp]

/-! ## Runs -/

inductive Call where
  | alloc
  | free (ip : UInt32)

/-- The pool with the addresses that were handed out and not yet given back. -/
def poolRuns (startIp size : UInt32) : System (IpPool × List UInt32) Call where
  init s := vfIpPoolInit startIp size = some s.1 ∧ s.2 = []
  step s call s' :=
    match call with
    | .alloc => s' = ((vfIpPoolAlloc s.1).1,
        if (vfIpPoolAlloc s.1).2 = 0 then s.2 else (vfIpPoolAlloc s.1).2 :: s.2)
    | .free ip => s' = (vfIpPoolFree s.1 ip, s.2.filter (· ≠ ip))

def Call.Proper (s : IpPool × List UInt32) : Call → Prop
  | .alloc => True
  | .free ip => ip ∈ s.2

structure PoolInv (startIp size : UInt32) (s : IpPool × List UInt32) : Prop where
  start : s.1.startIp = startIp
  size : s.1.poolSize = size
  hint : s.1.nextHint < s.1.poolSize
  reserved : ∀ pos, pos < s.1.poolSize → isReserved (bswap32 s.1.startIp + pos) = true →
    testBit s.1.bitmap pos.toNat = true
  held : ∀ ip ∈ s.2, Held s.1 ip

theorem poolInv_init {startIp size : UInt32} {pool : IpPool}
    (h : vfIpPoolInit startIp size = some pool) : PoolInv startIp size (pool, []) := by
  have hs := size_init h
  have hb := fun pos => testBit_init h pos
  unfold vfIpPoolInit at h
  split at h
  · cases h
  split at h
  · cases h
  cases h
  refine ⟨rfl, rfl, ?_, ?_, fun ip hip => nomatch hip⟩
  · have : size.toNat ≠ 0 := fun h0 => hs (UInt32.toNat_inj.mp (by simpa using h0))
    rw [UInt32.lt_iff_toNat_lt]
    simp
    omega
  · intro pos hpos hr
    rw [hb pos hpos, hr]

theorem PoolInv.size_ne {startIp size : UInt32} {s : IpPool × List UInt32}
    (h : PoolInv startIp size s) : s.1.poolSize ≠ 0 := by
  intro h0
  have hh := h.hint
  rw [h0, UInt32.lt_iff_toNat_lt] at hh
  simp at hh

/-- A clear position is usable and its address is not held. -/
theorem PoolInv.clear {startIp size : UInt32} {s : IpPool × List UInt32}
    (h : PoolInv startIp size s) {pos : UInt32} (hp : pos < s.1.poolSize)
    (hb : testBit s.1.bitmap pos.toNat = false) : Usable s.1 pos ∧ addrOf s.1 pos ∉ s.2 := by
  refine ⟨⟨hp, ?_⟩, ?_⟩
  · cases hr : isReserved (bswap32 s.1.startIp + pos) with
    | false => rfl
    | true =>
      have hm := h.reserved pos hp hr
      rw [hb] at hm
      cases hm
  · intro hm
    obtain ⟨q, _, hq, hbq⟩ := h.held _ hm
    rw [← addrOf_inj hq, hb] at hbq
    cases hbq

theorem PoolInv.alloc {startIp size : UInt32} {s : IpPool × List UInt32}
    (h : PoolInv startIp size s) {pos : UInt32} (hp : pos < s.1.poolSize)
    (hb : testBit s.1.bitmap pos.toNat = false) :
    PoolInv startIp size (s.1.hold pos, addrOf s.1 pos :: s.2) := by
  refine ⟨h.start, h.size, ?_, ?_, ?_⟩
  · show (pos + 1) % s.1.poolSize < s.1.poolSize
    rw [UInt32.lt_iff_toNat_lt, UInt32.toNat_mod]
    apply Nat.mod_lt
    have : s.1.poolSize.toNat ≠ 0 := fun h0 => h.size_ne (UInt32.toNat_inj.mp (by simpa using h0))
    omega
  · intro q hq hr
    simp [IpPool.hold, h.reserved q hq hr]
  · intro ip hip
    rcases List.mem_cons.mp hip with rfl | hip
    · exact ⟨pos, (h.clear hp hb).1, rfl, by simp [IpPool.hold]⟩
    · exact (h.held ip hip).hold pos

theorem PoolInv.free {startIp size : UInt32} {s : IpPool × List UInt32}
    (h : PoolInv startIp size s) {ip : UInt32} (hip : ip ∈ s.2) :
    PoolInv startIp size (vfIpPoolFree s.1 ip, s.2.filter (· ≠ ip)) := by
  obtain ⟨pos, hu, rfl, _⟩ := h.held ip hip
  have hheld : ∀ a ∈ s.2.filter (· ≠ addrOf s.1 pos),
      Held (vfIpPoolFree s.1 (addrOf s.1 pos)) a := by
    intro a ha
    obtain ⟨ha, hne⟩ := List.mem_filter.mp ha
    exact (h.held a ha).free (by simpa using hne)
  rcases vfIpPoolFree_addrOf s.1 pos with e | e
  · rw [e] at hheld ⊢
    exact ⟨h.start, h.size, h.hint, h.reserved, hheld⟩
  · rw [e] at hheld ⊢
    refine ⟨h.start, h.size, h.hint, ?_, hheld⟩
    intro q hq hr
    -- a released position is not a reserved one
    have hqp : q.toNat ≠ pos.toNat := by
      intro eq
      rw [UInt32.toNat_inj.mp eq] at hr
      have hn := hu.2
      rw [show bswap32 s.1.startIp = bswap32 (s.1.release pos).startIp from rfl, hr] at hn
      cases hn
    have hm := h.reserved q hq hr
    simp [IpPool.release, hm, hqp]

theorem reachable_poolInv {startIp size : UInt32} {s : IpPool × List UInt32}
    (h : ReachableBy (poolRuns startIp size) (fun s call => call.Proper s) s) :
    PoolInv startIp size s := by
  refine h.invariant (PoolInv startIp size) ?_ ?_
  · rintro ⟨pool, held⟩ ⟨hp, hl⟩
    cases hl
    exact poolInv_init hp
  · intro s call s' hi hok hs
    cases call with
    | alloc =>
      simp only [poolRuns] at hs
      rw [hs]
      rcases vfIpPoolAlloc_cases s.1 hi.size_ne with e | ⟨pos, hp, hb, e⟩
      · rw [e]
        exact hi
      · rw [e]
        have h0 := (hi.clear hp hb).1.addr_ne_zero
        simp only [h0, if_false]
        exact hi.alloc hp hb
    | free ip =>
      simp only [poolRuns] at hs
      rw [hs]
      exact hi.free hok

/-! ## What an allocation returns -/

/-- Below 2^31 addresses the sum of the scan never overflows. -/
theorem PoolInv.scanFits {startIp size : UInt32} {s : IpPool × List UInt32}
    (h : PoolInv startIp size s) (hs : size.toNat < 2 ^ 31) : ScanFits s.1 := by
  have hh := UInt32.lt_iff_toNat_lt.mp h.hint
  rw [← h.size] at hs
  unfold ScanFits
  omega

/-- The allocation fails exactly when the whole range is marked. -/
theorem PoolInv.exhausted {startIp size : UInt32} {s : IpPool × List UInt32}
    (h : PoolInv startIp size s) (hs : ScanFits s.1) :
    (vfIpPoolAlloc s.1).2 = 0 ↔
      ∀ pos, pos < s.1.poolSize → testBit s.1.bitmap pos.toNat = true := by
  unfold ScanFits at hs
  constructor
  · intro h0 pos hp
    rw [UInt32.lt_iff_toNat_lt] at hp
    obtain ⟨k, hk, hkp⟩ := position_probed (UInt32.lt_iff_toNat_lt.mp h.hint) hp
    cases ha : allocLoop s.1 s.1.poolSize.toNat 0 with
    | none =>
      have hm := allocLoop_none ha k hk
      rw [Nat.zero_add, probePos_toNat (by omega), hkp] at hm
      exact hm
    | some q =>
      obtain ⟨hq, hb⟩ := allocLoop_some h.size_ne ha
      simp only [vfIpPoolAlloc, ha] at h0
      exact absurd h0 (h.clear hq hb).1.addr_ne_zero
  · intro hall
    rcases vfIpPoolAlloc_cases s.1 h.size_ne with e | ⟨pos, hp, hb, e⟩
    · rw [e]
    · rw [hall pos hp] at hb
      cases hb

/-- A successful allocation takes the first clear position and marks only that one. -/
theorem PoolInv.allocated {startIp size : UInt32} {s : IpPool × List UInt32}
    (h : PoolInv startIp size s) (hs : ScanFits s.1) (h0 : (vfIpPoolAlloc s.1).2 ≠ 0) :
    ∃ pos, pos < s.1.poolSize ∧ FirstClear s.1 pos ∧
      vfIpPoolAlloc s.1 = (s.1.hold pos, addrOf s.1 pos) := by
  unfold ScanFits at hs
  cases ha : allocLoop s.1 s.1.poolSize.toNat 0 with
  | none =>
    simp only [vfIpPoolAlloc, ha] at h0
    exact absurd rfl h0
  | some pos =>
    obtain ⟨hb, k, hk, hp, hj⟩ := allocLoop_first ha
    refine ⟨pos, (allocLoop_some h.size_ne ha).1, ⟨hb, k, hk, ?_, ?_⟩,
      by simp only [vfIpPoolAlloc, ha]⟩
    · rw [hp, Nat.zero_add, probePos_toNat (by omega)]
    · intro j hjk
      have hm := hj j hjk
      rwa [Nat.zero_add, probePos_toNat (by omega)] at hm

/-- **The pool over whole runs.** -/
theorem alloc_free_correct {startIp size : UInt32} (hs : size.toNat < 2 ^ 31)
    {s : IpPool × List UInt32}
    (h : ReachableBy (poolRuns startIp size) (fun s call => call.Proper s) s) :
    ((vfIpPoolAlloc s.1).2 = 0 ↔
      ∀ pos, pos < size → testBit s.1.bitmap pos.toNat = true) ∧
    ((vfIpPoolAlloc s.1).2 = 0 → (vfIpPoolAlloc s.1).1 = s.1) ∧
    ((vfIpPoolAlloc s.1).2 ≠ 0 → (vfIpPoolAlloc s.1).2 ∉ s.2 ∧
      isReserved (bswap32 (vfIpPoolAlloc s.1).2) = false ∧
      ∃ pos, pos < size ∧ FirstClear s.1 pos ∧
        bswap32 (vfIpPoolAlloc s.1).2 = bswap32 startIp + pos ∧
        ∀ q, testBit (vfIpPoolAlloc s.1).1.bitmap q =
          (decide (q = pos.toNat) || testBit s.1.bitmap q)) ∧
    ∀ ip ∈ s.2, ∃ pos, pos < size ∧ bswap32 ip = bswap32 startIp + pos ∧
      ∀ q, q ≠ pos.toNat → testBit (vfIpPoolFree s.1 ip).bitmap q = testBit s.1.bitmap q := by
  have hi := reachable_poolInv h
  have hs := hi.scanFits hs
  refine ⟨?_, ?_, ?_, ?_⟩
  · rw [hi.exhausted hs, hi.size]
  · intro h0
    rcases vfIpPoolAlloc_cases s.1 hi.size_ne with e | ⟨pos, hp, hb, e⟩
    · rw [e]
    · rw [e] at h0
      exact absurd h0 (hi.clear hp hb).1.addr_ne_zero
  · intro h0
    obtain ⟨pos, hp, hf, e⟩ := hi.allocated hs h0
    obtain ⟨hu, hn⟩ := hi.clear hp hf.1
    rw [e]
    refine ⟨hn, ?_, pos, by rw [← hi.size]; exact hp, hf, ?_, fun q => testBit_setBit _ _ _⟩
    · rw [bswap32_addrOf]
      exact hu.2
    · rw [bswap32_addrOf, hi.start]
  · intro ip hip
    obtain ⟨pos, hu, rfl, _⟩ := hi.held ip hip
    refine ⟨pos, by rw [← hi.size]; exact hu.1, by rw [bswap32_addrOf, hi.start], ?_⟩
    intro q hq
    rcases vfIpPoolFree_addrOf s.1 pos with e | e
    · rw [e]
    · rw [e]
      simp [IpPool.release, hq]

def pool16 : IpPool := ⟨0x0000000A, 16, reserveLoop (bswap32 0x0000000A) 16 0 (fun _ => 0), 0⟩

/-- In the pool of the 16 addresses from 10.0.0.0 the second allocation is not the first again. -/
theorem second_allocation_differs :
    (vfIpPoolAlloc (vfIpPoolAlloc pool16).1).2 ∉ [(vfIpPoolAlloc pool16).2] := by
  have hr : ReachableBy (poolRuns 0x0000000A 16) (fun s call => call.Proper s)
      ((vfIpPoolAlloc pool16).1, [(vfIpPoolAlloc pool16).2]) := by
    refine .step (l := .alloc) (.init (s := (pool16, [])) ⟨rfl, rfl⟩) trivial ?_
    show _ = _
    rw [if_neg (by decide)]
  exact ((alloc_free_correct (by decide) hr).2.2.1 (by decide)).1

end Vfast.PoolRuns
