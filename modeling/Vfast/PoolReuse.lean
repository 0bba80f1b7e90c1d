import Mathlib.Data.Finset.Card
import Mathlib.Data.Finset.Range
import Vfast.PoolRuns

/-! Whether an address that is given back is handed out again. Two sums of the pool are
32-bit ones: the end of its range, which `vf_ip_pool_free` compares with, and the position
that the scan of `vf_ip_pool_alloc` tries. -/

namespace Vfast.PoolReuse

open Bytes Bitmap Ippool ServerInv PoolRuns Run

abbrev Reached (startIp size : UInt32) : IpPool × List UInt32 → Prop :=
  ReachableBy (poolRuns startIp size) fun s call => call.Proper s

def allocs : Nat → IpPool → IpPool
  | 0, pool => pool
  | k + 1, pool => allocs k (vfIpPoolAlloc pool).1

/-- **Freed addresses become available again**: a release clears the bit of its address and
no other, and one of the next `size` allocations returns the address. -/
def Reusable (startIp size : UInt32) : Prop :=
  ∀ s, Reached startIp size s → ∀ a ∈ s.2,
    (∃ pos, pos < size ∧ a = addrOf s.1 pos ∧ ∀ q, testBit (vfIpPoolFree s.1 a).bitmap q =
      (!decide (q = pos.toNat) && testBit s.1.bitmap q)) ∧
    ∃ k < size.toNat, (vfIpPoolAlloc (allocs k (vfIpPoolFree s.1 a))).2 = a

/-- **Where they do**: if the pool has an address to hand out, its range ends below the top of
the address space, and the scan that starts behind such an address does not overflow. -/
def Reclaimable (startIp size : UInt32) : Prop :=
  ∀ pos : UInt32, pos < size → isReserved (bswap32 startIp + pos) = false →
    (bswap32 startIp).toNat + size.toNat < 2 ^ 32 ∧
    (pos.toNat + 1 < size.toNat → pos.toNat + size.toNat < 2 ^ 32)

/-! ## Steps of a run -/

section

variable {startIp size : UInt32} {s : IpPool × List UInt32}

/-- The range of a state is the one the pool was started with. -/
theorem noWrap_iff (hi : PoolInv startIp size s) :
    NoWrap s.1 ↔ (bswap32 startIp).toNat + size.toNat < 2 ^ 32 := by
  rw [NoWrap, hi.start, hi.size]

theorem usable_iff (hi : PoolInv startIp size s) {pos : UInt32} :
    Usable s.1 pos ↔ pos < size ∧ isReserved (bswap32 startIp + pos) = false := by
  rw [Usable, hi.start, hi.size]

theorem Reclaimable.of_usable (hc : Reclaimable startIp size) (hi : PoolInv startIp size s)
    {pos : UInt32} (hu : Usable s.1 pos) :
    NoWrap s.1 ∧
      (pos.toNat + 1 < s.1.poolSize.toNat → pos.toNat + s.1.poolSize.toNat < 2 ^ 32) := by
  obtain ⟨hp, hr⟩ := (usable_iff hi).mp hu
  rw [noWrap_iff hi, hi.size]
  exact hc pos hp hr

theorem Reached.hold (h : Reached startIp size s) {pos : UInt32}
    (he : vfIpPoolAlloc s.1 = (s.1.hold pos, addrOf s.1 pos)) (h0 : addrOf s.1 pos ≠ 0) :
    Reached startIp size (s.1.hold pos, addrOf s.1 pos :: s.2) := by
  refine .step (l := .alloc) h trivial ?_
  show _ = _
  rw [he, if_neg h0]

theorem Reached.free (h : Reached startIp size s) {a : UInt32} (ha : a ∈ s.2) :
    Reached startIp size (vfIpPoolFree s.1 a, s.2.filter (· ≠ a)) :=
  .step (l := .free a) h ha rfl

theorem hint_hold {pool : IpPool} {pos : UInt32} (hp : pos < pool.poolSize) :
    (pool.hold pos).nextHint.toNat =
      if pos.toNat + 1 < pool.poolSize.toNat then pos.toNat + 1 else 0 := by
  have hs := pool.poolSize.toNat_lt
  rw [UInt32.lt_iff_toNat_lt] at hp
  have h1 : (pos + 1).toNat = pos.toNat + 1 := by
    rw [UInt32.toNat_add]
    exact Nat.mod_eq_of_lt (show pos.toNat + 1 < 2 ^ 32 by omega)
  show ((pos + 1) % pool.poolSize).toNat = _
  rw [UInt32.toNat_mod, h1]
  split
  · rename_i hlt
    exact Nat.mod_eq_of_lt hlt
  · rw [show pos.toNat + 1 = pool.poolSize.toNat by omega, Nat.mod_self]

theorem hint_init {pool : IpPool} (h : vfIpPoolInit startIp size = some pool) :
    pool.nextHint.toNat = 0 := by
  unfold vfIpPoolInit at h
  split at h
  · cases h
  split at h
  · cases h
  rw [← Option.some.inj h]
  rfl

theorem scanFits_init {pool : IpPool} (h : vfIpPoolInit startIp size = some pool) :
    ScanFits pool := by
  have hs := pool.poolSize.toNat_lt
  unfold ScanFits
  rw [hint_init h]
  omega

/-- In a reclaimable pool no scan overflows. -/
theorem Reclaimable.scanFits (hc : Reclaimable startIp size) (h : Reached startIp size s) :
    ScanFits s.1 := by
  refine (h.invariant (fun s => Reached startIp size s ∧ ScanFits s.1) ?_ ?_).2
  · intro s h0
    exact ⟨.init h0, scanFits_init h0.1⟩
  · rintro s call s' ⟨hr, hfit⟩ hok hs
    refine ⟨.step hr hok hs, ?_⟩
    have hi := reachable_poolInv hr
    cases call with
    | alloc =>
      cases hs
      rcases vfIpPoolAlloc_cases s.1 hi.size_ne with e | ⟨pos, hp, hb, e⟩
      · rw [e]
        exact hfit
      · have hpos := (hc.of_usable hi (hi.clear hp hb).1).2
        have hlt := s.1.poolSize.toNat_lt
        rw [e]
        unfold ScanFits
        rw [hint_hold hp]
        show _ + s.1.poolSize.toNat ≤ 2 ^ 32
        split
        · rename_i hnext
          have := hpos hnext
          omega
        · omega
    | free ip =>
      cases hs
      obtain ⟨pos, -, rfl, -⟩ := hi.held ip hok
      unfold ScanFits
      rw [vfIpPoolFree_hint]
      rcases vfIpPoolFree_addrOf s.1 pos with e | e
      · rw [e]
        exact hfit
      · rw [e]
        exact hfit

/-! ## A clear position is found -/

/-- The number of clear positions. -/
def clearCount (pool : IpPool) : Nat :=
  ((Finset.range pool.poolSize.toNat).filter fun q => testBit pool.bitmap q = false).card

theorem clearCount_le (pool : IpPool) : clearCount pool ≤ pool.poolSize.toNat :=
  (Finset.card_filter_le _ _).trans (Finset.card_range _).le

theorem clearCount_hold {pool : IpPool} {pos : UInt32} (hp : pos < pool.poolSize)
    (hb : testBit pool.bitmap pos.toNat = false) :
    clearCount (pool.hold pos) < clearCount pool := by
  apply Finset.card_lt_card
  refine Finset.ssubset_iff_subset_ne.mpr ⟨?_, ?_⟩
  · intro q hq
    simp only [Finset.mem_filter, IpPool.hold, testBit_setBit, Bool.or_eq_false_iff] at hq ⊢
    exact ⟨hq.1, hq.2.2⟩
  · intro he
    have hm : pos.toNat ∈ (Finset.range pool.poolSize.toNat).filter fun q =>
        testBit pool.bitmap q = false :=
      Finset.mem_filter.mpr ⟨Finset.mem_range.mpr (UInt32.lt_iff_toNat_lt.mp hp), hb⟩
    rw [← he] at hm
    simp [IpPool.hold] at hm

/-- **One of the next allocations returns a clear position**: each of them takes another
one, and there are at most `n`. -/
theorem Reclaimable.returns (hc : Reclaimable startIp size) {n : Nat} (h : Reached startIp size s)
    {pos : UInt32} (hp : pos < s.1.poolSize) (hb : testBit s.1.bitmap pos.toNat = false)
    (hn : clearCount s.1 ≤ n) : ∃ k < n, (vfIpPoolAlloc (allocs k s.1)).2 = addrOf s.1 pos := by
  induction n generalizing s with
  | zero =>
    have hpos : 0 < clearCount s.1 := Finset.card_pos.mpr
      ⟨pos.toNat, Finset.mem_filter.mpr ⟨Finset.mem_range.mpr (UInt32.lt_iff_toNat_lt.mp hp), hb⟩⟩
    omega
  | succ n ih =>
    have hi := reachable_poolInv h
    have hfit := hc.scanFits h
    have h0 : (vfIpPoolAlloc s.1).2 ≠ 0 := fun h0 => by
      simp [(hi.exhausted hfit).mp h0 pos hp] at hb
    obtain ⟨q, hq, hf, he⟩ := hi.allocated hfit h0
    by_cases hqp : q = pos
    · refine ⟨0, Nat.succ_pos n, ?_⟩
      rw [← hqp]
      exact congrArg Prod.snd he
    · have hne : pos.toNat ≠ q.toNat := fun e => hqp (UInt32.toNat_inj.mp e).symm
      have hq0 := (hi.clear hq hf.1).1.addr_ne_zero
      have hcount := clearCount_hold hq hf.1
      obtain ⟨k, hk, hret⟩ := ih (h.hold he hq0) hp (by simp [IpPool.hold, hb, hne]) (by
        show clearCount (s.1.hold q) ≤ n
        omega)
      refine ⟨k + 1, by omega, ?_⟩
      rw [allocs, he]
      exact hret

theorem Reclaimable.reusable (hc : Reclaimable startIp size) : Reusable startIp size := by
  intro s h a ha
  have hi := reachable_poolInv h
  obtain ⟨pos, hu, rfl, -⟩ := hi.held a ha
  have hfree := vfIpPoolFree_of_noWrap s.1 (hc.of_usable hi hu).1 pos hu.1 hu.addr_ne_zero
  refine ⟨⟨pos, by rw [← hi.size]; exact hu.1, rfl, ?_⟩, ?_⟩
  · intro q
    rw [hfree]
    exact testBit_clearBit _ _ _
  · have hr := h.free ha
    rw [hfree] at hr ⊢
    have hcount := clearCount_le (s.1.release pos)
    rw [show (s.1.release pos).poolSize = size from hi.size] at hcount
    exact hc.returns hr hu.1 (by simp [IpPool.release]) hcount

/-! ## Without the condition -/

/-- A range that reaches the top of the address space is never given back. -/
theorem Reusable.noWrap (hre : Reusable startIp size) {pool : IpPool}
    (h : vfIpPoolInit startIp size = some pool) {pos : UInt32} (hu : Usable pool pos) :
    NoWrap pool := by
  by_contra hw
  have hr : Reached startIp size (pool, []) := .init ⟨h, rfl⟩
  have hi := reachable_poolInv hr
  have hclear : testBit pool.bitmap pos.toNat = false := (testBit_init h pos hu.1).trans hu.2
  have h0 : (vfIpPoolAlloc pool).2 ≠ 0 := fun h0 => by
    simp [(hi.exhausted (scanFits_init h)).mp h0 pos hu.1] at hclear
  obtain ⟨q, hq, hf, he⟩ := hi.allocated (scanFits_init h) h0
  have hq0 := (hi.clear hq hf.1).1.addr_ne_zero
  obtain ⟨⟨q', -, hqq, hbit⟩, -⟩ := hre _ (hr.hold he hq0) (addrOf pool q) List.mem_cons_self
  have hwrap : vfIpPoolFree (pool.hold q) (addrOf pool q) = pool.hold q :=
    vfIpPoolFree_of_wrap (pool.hold q) hw _
  obtain rfl : q = q' := addrOf_inj hqq
  -- the bit is still set
  have := hbit q.toNat
  rw [hwrap] at this
  simp [IpPool.hold] at this

/-- Every marked position that is not reserved is held. -/
def Tight (s : IpPool × List UInt32) : Prop :=
  ∀ pos, Usable s.1 pos → testBit s.1.bitmap pos.toNat = true → addrOf s.1 pos ∈ s.2

theorem Tight.alloc (ht : Tight s) (q : UInt32) : Tight (s.1.hold q, addrOf s.1 q :: s.2) := by
  intro pos hu hb
  by_cases hpq : pos = q
  · rw [hpq]
    exact List.mem_cons_self
  · have hne : pos.toNat ≠ q.toNat := fun e => hpq (UInt32.toNat_inj.mp e)
    exact List.mem_cons_of_mem _ (ht pos hu (by simpa [IpPool.hold, hne] using hb))

theorem Tight.free (ht : Tight s) (q : UInt32) :
    Tight (s.1.release q, s.2.filter (· ≠ addrOf s.1 q)) := by
  intro pos hu hb
  obtain ⟨hne, hb⟩ : pos.toNat ≠ q.toNat ∧ testBit s.1.bitmap pos.toNat = true := by
    simpa [IpPool.release] using hb
  have haddr : addrOf (s.1.release q) pos ≠ addrOf s.1 q := fun e => hne (by rw [addrOf_inj e])
  exact List.mem_filter.mpr ⟨ht pos hu hb, by simpa using haddr⟩

/-- Without a wrap nothing is lost. -/
theorem reached_tight (h : Reached startIp size s) (hw : NoWrap s.1) : Tight s := by
  rw [noWrap_iff (reachable_poolInv h)] at hw
  refine (h.invariant (fun s => Reached startIp size s ∧ Tight s) ?_ ?_).2
  · intro s h0
    refine ⟨.init h0, fun pos hu hb => ?_⟩
    rw [testBit_init h0.1 pos hu.1, hu.2] at hb
    cases hb
  · rintro s call s' ⟨hr, ht⟩ hok hs
    refine ⟨.step hr hok hs, ?_⟩
    have hi := reachable_poolInv hr
    cases call with
    | alloc =>
      cases hs
      rcases vfIpPoolAlloc_cases s.1 hi.size_ne with e | ⟨q, hq, hbq, e⟩
      · rw [e]
        exact ht
      · rw [e]
        simp only [(hi.clear hq hbq).1.addr_ne_zero, if_false]
        exact ht.alloc q
    | free ip =>
      cases hs
      obtain ⟨q, hq, rfl, -⟩ := hi.held ip hok
      rw [vfIpPoolFree_of_noWrap s.1 ((noWrap_iff hi).mpr hw) q hq.1 hq.addr_ne_zero]
      exact ht.free q

/-- The loop takes the first clear position. -/
theorem allocLoop_of_clear {pool : IpPool} {n i m : Nat} (hm : m < n)
    (hmarked : ∀ j < m, testBit pool.bitmap (probePos pool (i + j)).toNat = true)
    (hclear : testBit pool.bitmap (probePos pool (i + m)).toNat = false) :
    allocLoop pool n i = some (probePos pool (i + m)) := by
  induction n generalizing i m with
  | zero => omega
  | succ n ih =>
    rw [allocLoop]
    cases m with
    | zero => simp only [Nat.add_zero] at hclear ⊢; simp [hclear]
    | succ m =>
      have h0 : testBit pool.bitmap (probePos pool i).toNat = true := hmarked 0 (by omega)
      have e : ∀ j, i + (j + 1) = i + 1 + j := by omega
      rw [if_pos h0, e m]
      rw [e m] at hclear
      exact ih (by omega) (fun j hj => by rw [← e j]; exact hmarked (j + 1) (by omega)) hclear

/-- An allocation whose hint is not behind the first clear position takes that one. -/
theorem alloc_first {pool : IpPool} {k : Nat} (hk : k < pool.poolSize.toNat)
    (hhint : pool.nextHint.toNat ≤ k) (hmarked : ∀ p < k, testBit pool.bitmap p = true)
    (hclear : testBit pool.bitmap k = false) :
    ∃ pos : UInt32, pos.toNat = k ∧ vfIpPoolAlloc pool = (pool.hold pos, addrOf pool pos) := by
  have hlt := pool.poolSize.toNat_lt
  have hprobe : ∀ j ≤ k - pool.nextHint.toNat,
      (probePos pool (0 + j)).toNat = pool.nextHint.toNat + j := by
    intro j hj
    rw [Nat.zero_add, probePos_toNat (by omega), Nat.mod_eq_of_lt (by omega)]
  have hlast := hprobe _ (Nat.le_refl _)
  rw [Nat.add_sub_cancel' hhint] at hlast
  have hloop := @allocLoop_of_clear pool pool.poolSize.toNat 0 (k - pool.nextHint.toNat) (by omega)
    (fun j hj => by rw [hprobe j (by omega)]; exact hmarked _ (by omega))
      (by rw [hlast]; exact hclear)
  exact ⟨_, hlast, by rw [vfIpPoolAlloc, hloop]⟩

/-- Allocations alone fill the pool from the bottom. -/
theorem filled {pool : IpPool} (h : vfIpPoolInit startIp size = some pool) {k : Nat}
    (hk : k ≤ size.toNat) : ∃ s, Reached startIp size s ∧ s.1.nextHint.toNat ≤ k ∧
      ∀ p < k, testBit s.1.bitmap p = true := by
  induction k with
  | zero => exact ⟨(pool, []), .init ⟨h, rfl⟩, (hint_init h).le, fun p hp => absurd hp (by omega)⟩
  | succ k ih =>
    obtain ⟨s, hr, hhint, hbits⟩ := ih (by omega)
    have hi := reachable_poolInv hr
    have hsize : s.1.poolSize.toNat = size.toNat := by rw [hi.size]
    cases hb : testBit s.1.bitmap k with
    | true =>
      refine ⟨s, hr, by omega, fun p hp => ?_⟩
      rcases Nat.lt_succ_iff_lt_or_eq.mp hp with hp | rfl
      · exact hbits p hp
      · exact hb
    | false =>
      obtain ⟨pos, rfl, he⟩ := alloc_first (by omega) hhint hbits hb
      have hpos : pos < s.1.poolSize := UInt32.lt_iff_toNat_lt.mpr (by omega)
      refine ⟨_, hr.hold he (hi.clear hpos hb).1.addr_ne_zero, ?_, fun p hp => ?_⟩
      · rw [hint_hold hpos]
        split
        · omega
        · omega
      · rcases Nat.lt_succ_iff_lt_or_eq.mp hp with hp | rfl
        · simp [IpPool.hold, hbits p hp]
        · simp [IpPool.hold]

/-- Once an allocation fails, all later ones do. -/
theorem allocs_stuck {pool : IpPool} (h : vfIpPoolAlloc pool = (pool, 0)) (k : Nat) :
    allocs k pool = pool := by
  induction k with
  | zero => rfl
  | succ k ih => rw [allocs, h, ih]

theorem allocLoop_only {pool : IpPool} (hs : pool.poolSize ≠ 0) {b : UInt32}
    (honly : ∀ pos, pos < pool.poolSize → testBit pool.bitmap pos.toNat = false → pos = b) :
    allocLoop pool pool.poolSize.toNat 0 = none ∨
      allocLoop pool pool.poolSize.toNat 0 = some b := by
  cases e : allocLoop pool pool.poolSize.toNat 0 with
  | none => exact Or.inl rfl
  | some pos =>
    obtain ⟨hp, hb⟩ := allocLoop_some hs e
    exact Or.inr (congrArg some (honly pos hp hb))

def Full (pool : IpPool) : Prop := ∀ pos, pos < pool.poolSize → testBit pool.bitmap pos.toNat = true

theorem Full.only {pool : IpPool} (h : Full pool) {b : UInt32} (pos : UInt32)
    (hp : pos < (pool.release b).poolSize)
    (hb : testBit (pool.release b).bitmap pos.toNat = false) : pos = b := by
  have hm := h pos hp
  simp only [IpPool.release, testBit_clearBit, hm, Bool.and_true, Bool.not_eq_false',
    decide_eq_true_eq] at hb
  exact UInt32.toNat_inj.mp hb

/-- In a full pool an address that is given back is handed out by the next scan. -/
theorem Reusable.full_returns (hre : Reusable startIp size) (h : Reached startIp size s)
    (hw : NoWrap s.1) (hfull : Full s.1) {b : UInt32} (hu : Usable s.1 b) :
    allocLoop (s.1.release b) s.1.poolSize.toNat 0 = some b ∧
      ∃ held, Reached startIp size ((s.1.release b).hold b, held) := by
  have hi := reachable_poolInv h
  have hmem : addrOf s.1 b ∈ s.2 := reached_tight h hw b hu (hfull b hu.1)
  have hfree := vfIpPoolFree_of_noWrap s.1 hw b hu.1 hu.addr_ne_zero
  obtain ⟨-, k, -, hk⟩ := hre s h _ hmem
  have hr := h.free hmem
  rw [hfree] at hk hr
  rcases @allocLoop_only (s.1.release b) hi.size_ne b hfull.only with e | e
  · have hfail : vfIpPoolAlloc (s.1.release b) = (s.1.release b, 0) := by rw [vfIpPoolAlloc, e]
    rw [allocs_stuck hfail, hfail] at hk
    exact absurd hk.symm hu.addr_ne_zero
  · exact ⟨e, _, hr.hold (by rw [vfIpPoolAlloc, e]) hu.addr_ne_zero⟩

theorem Full.again {pool : IpPool} (h : Full pool) (b : UInt32) :
    Full ((pool.release b).hold b) := by
  intro pos hp
  have hm := h pos hp
  by_cases e : pos.toNat = b.toNat
  · simp [IpPool.hold, IpPool.release, e]
  · simp [IpPool.hold, IpPool.release, e, hm]

/-- Behind an address so far up that the sum overflows, the scan does not come back to it. -/
theorem probePos_ne {pool : IpPool} {b : UInt32} (hb : b.toNat + 1 < pool.poolSize.toNat)
    (hover : 2 ^ 32 ≤ b.toNat + pool.poolSize.toNat) (hh : pool.nextHint.toNat = b.toNat + 1)
    {i : Nat} (hi : i < pool.poolSize.toNat) : probePos pool i ≠ b := by
  intro he
  have hs := pool.poolSize.toNat_lt
  have hn := congrArg UInt32.toNat he
  rw [probePos, UInt32.toNat_mod, UInt32.toNat_add, UInt32.toNat_ofNat', hh,
    Nat.mod_eq_of_lt (show i < 2 ^ 32 by omega)] at hn
  by_cases hsum : b.toNat + 1 + i < 2 ^ 32
  · rw [Nat.mod_eq_of_lt hsum] at hn
    by_cases hwrap : b.toNat + 1 + i < pool.poolSize.toNat
    · rw [Nat.mod_eq_of_lt hwrap] at hn
      omega
    · rw [Nat.mod_eq_sub_mod (by omega), Nat.mod_eq_of_lt (by omega)] at hn
      omega
  · have hmod : (b.toNat + 1 + i) % 2 ^ 32 = b.toNat + 1 + i - 2 ^ 32 := by omega
    rw [hmod, Nat.mod_eq_of_lt (by omega)] at hn
    omega

theorem Reusable.reclaimable (hre : Reusable startIp size) {pool : IpPool}
    (h : vfIpPoolInit startIp size = some pool) : Reclaimable startIp size := by
  have hi0 := poolInv_init h
  intro b hb hr
  have hw := (noWrap_iff hi0).mp (hre.noWrap h ((usable_iff hi0).mpr ⟨hb, hr⟩))
  refine ⟨hw, fun hb1 => ?_⟩
  by_contra hover
  obtain ⟨s, hs, -, hbits⟩ := filled h (Nat.le_refl _)
  have hi := reachable_poolInv hs
  have hfull : Full s.1 := fun pos hp => hbits _ (by
    rw [hi.size] at hp
    exact UInt32.lt_iff_toNat_lt.mp hp)
  have hnw : NoWrap s.1 := (noWrap_iff hi).mpr hw
  have hu : Usable s.1 b := (usable_iff hi).mpr ⟨hb, hr⟩
  -- after the first return the scan starts behind `b`, and `b` cannot be handed out again
  obtain ⟨-, held, hs'⟩ := hre.full_returns hs hnw hfull hu
  obtain ⟨hloop, -⟩ := hre.full_returns hs' hnw (hfull.again b) hu
  obtain ⟨-, i, hlt, he, -⟩ := allocLoop_first hloop
  have hsize : s.1.poolSize.toNat = size.toNat := by rw [hi.size]
  have hnext : b.toNat + 1 < (s.1.release b).poolSize.toNat := hsize ▸ hb1
  have hhint : ((s.1.release b).hold b).nextHint.toNat = b.toNat + 1 := by
    rw [@hint_hold (s.1.release b) b hu.1, if_pos hnext]
  rw [Nat.zero_add] at he
  exact @probePos_ne (((s.1.release b).hold b).release b) b hnext
    (show 2 ^ 32 ≤ b.toNat + s.1.poolSize.toNat by omega) hhint i hlt he.symm

end

/-- **Freed addresses become available again exactly in the reclaimable pools.** -/
theorem freed_address_returns_iff {startIp size : UInt32} {pool : IpPool}
    (h : vfIpPoolInit startIp size = some pool) :
    Reusable startIp size ↔ Reclaimable startIp size :=
  ⟨fun hre => hre.reclaimable h, fun hc => hc.reusable⟩

/-- The pool of the 16 addresses from 10.0.0.0 is one. -/
theorem pool16_reusable : Reusable 0x0000000A 16 := by
  refine (freed_address_returns_iff (show vfIpPoolInit 0x0000000A 16 = some pool16 from rfl)).mpr ?_
  intro pos hp _
  have hlt : pos.toNat < 16 := UInt32.lt_iff_toNat_lt.mp hp
  refine ⟨by decide, fun _ => ?_⟩
  show pos.toNat + 16 < 2 ^ 32
  omega

/-- The pool of the 8 addresses from 255.255.255.248, the last ones there are. -/
def topPool : IpPool := ⟨0xF8FFFFFF, 8, reserveLoop (bswap32 0xF8FFFFFF) 8 0 (fun _ => 0), 0⟩

/-- **At the top of the address space nothing is given back**: 255.255.255.248 stays marked. -/
theorem top_address_not_released :
    ∃ s, Reached 0xF8FFFFFF 8 s ∧ ∃ a ∈ s.2, a = bswap32 0xFFFFFFF8 ∧
      testBit s.1.bitmap 0 = true ∧ testBit (vfIpPoolFree s.1 a).bitmap 0 = true := by
  have he : vfIpPoolAlloc topPool = (topPool.hold 0, addrOf topPool 0) := by rfl
  have h0 : Reached 0xF8FFFFFF 8 (topPool, []) := .init ⟨rfl, rfl⟩
  refine ⟨_, h0.hold he (by decide), addrOf topPool 0, List.mem_cons_self, by decide, by decide, ?_⟩
  decide

end Vfast.PoolReuse
