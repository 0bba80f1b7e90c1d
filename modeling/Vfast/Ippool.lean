import Vfast.Lib.Bitmap
import Vfast.Key

/-! The virtual address pool (`ippool.c`). Addresses are in network byte order,
positions count from the start address; a position is held when its bit is
set. The reserved positions are set once, at initialisation. -/

namespace Vfast.Ippool

open Bytes Bitmap Key

/-- `vpn_ip_pool_t`. The heap block of the bitmap is unbounded here. -/
structure IpPool where
  startIp : UInt32
  poolSize : UInt32
  bitmap : Bits
  nextHint : UInt32

def inaddrNone : UInt32 := 0xFFFFFFFF

/-- The last byte of a host-order address is .0, .1 or .255. -/
def isReserved (hostIp : UInt32) : Bool :=
  lowByte hostIp == 0 || lowByte hostIp == 1 || lowByte hostIp == 255

/-- The exclusion loop of `vf_ip_pool_init`, from position `i` with `n` left. -/
def reserveLoop (startH : UInt32) : (n i : Nat) → Bits → Bits
  | 0, _, bm => bm
  | n + 1, i, bm =>
    reserveLoop startH n (i + 1)
      (if isReserved (startH + UInt32.ofNat i) then setBit bm i else bm)

/-- `vf_ip_pool_init` with the start address as `inet_addr` parses it; `none` is
`-EINVAL`. -/
def vfIpPoolInit (startIp size : UInt32) : Option IpPool :=
  if size = 0 then none
  else if startIp = inaddrNone then none
  else some ⟨startIp, size, reserveLoop (bswap32 startIp) size.toNat 0 (fun _ => 0), 0⟩

def probePos (pool : IpPool) (i : Nat) : UInt32 := (pool.nextHint + UInt32.ofNat i) % pool.poolSize

/-- The scan of `vf_ip_pool_alloc`, from iteration `i` with `n` left. -/
def allocLoop (pool : IpPool) : (n i : Nat) → Option UInt32
  | 0, _ => none
  | n + 1, i =>
    if testBit pool.bitmap (probePos pool i).toNat then allocLoop pool n (i + 1)
    else some (probePos pool i)

def addrOf (pool : IpPool) (pos : UInt32) : UInt32 := bswap32 (bswap32 pool.startIp + pos)

def IpPool.hold (pool : IpPool) (pos : UInt32) : IpPool :=
  { pool with
    bitmap := setBit pool.bitmap pos.toNat
    nextHint := (pos + 1) % pool.poolSize }

def IpPool.release (pool : IpPool) (pos : UInt32) : IpPool :=
  { pool with bitmap := clearBit pool.bitmap pos.toNat }

/-- `vf_ip_pool_alloc`: the pool and the address, 0 when the pool is exhausted. -/
def vfIpPoolAlloc (pool : IpPool) : IpPool × UInt32 :=
  match allocLoop pool pool.poolSize.toNat 0 with
  | none => (pool, 0)
  | some pos => (pool.hold pos, addrOf pool pos)

/-- The range check of `vf_ip_pool_free`; the upper end is a 32-bit sum. -/
def inRange (pool : IpPool) (ip : UInt32) : Bool :=
  !(bswap32 ip < bswap32 pool.startIp || bswap32 ip ≥ bswap32 pool.startIp + pool.poolSize)

def vfIpPoolFree (pool : IpPool) (ip : UInt32) : IpPool :=
  if ip = 0 then pool
  else if !inRange pool ip then pool
  else pool.release (bswap32 ip - bswap32 pool.startIp)

/-! ## Initialisation -/

theorem testBit_reserveLoop (startH : UInt32) (n i : Nat) (bm : Bits) (q : Nat) :
    testBit (reserveLoop startH n i bm) q =
      (testBit bm q || (decide (i ≤ q ∧ q < i + n) && isReserved (startH + UInt32.ofNat q))) := by
  induction n generalizing i bm with
  | zero => simp [reserveLoop]
  | succ n ih =>
    rw [reserveLoop, ih]
    by_cases hq : q = i
    · subst hq
      have h2 : q ≤ q ∧ q < q + (n + 1) := by omega
      cases hr : isReserved (startH + UInt32.ofNat q) <;> simp [h2]
    · have h1 : (i + 1 ≤ q ∧ q < i + 1 + n) ↔ (i ≤ q ∧ q < i + (n + 1)) := by omega
      simp only [h1]
      cases isReserved (startH + UInt32.ofNat i) <;> simp [hq]

/-! ## Allocation -/

theorem allocLoop_some {pool : IpPool} (hs : pool.poolSize ≠ 0) {n i : Nat} {pos : UInt32}
    (h : allocLoop pool n i = some pos) :
    pos < pool.poolSize ∧ testBit pool.bitmap pos.toNat = false := by
  induction n generalizing i with
  | zero => cases h
  | succ n ih =>
    rw [allocLoop] at h
    split at h
    · exact ih h
    · rename_i hb
      obtain rfl := Option.some.inj h
      refine ⟨?_, by simpa using hb⟩
      rw [UInt32.lt_iff_toNat_lt, probePos, UInt32.toNat_mod]
      apply Nat.mod_lt
      have : pool.poolSize.toNat ≠ 0 := fun h0 => hs (UInt32.toNat_inj.mp (by simpa using h0))
      omega

theorem vfIpPoolAlloc_cases (pool : IpPool) (hs : pool.poolSize ≠ 0) :
    vfIpPoolAlloc pool = (pool, 0) ∨
    ∃ pos, pos < pool.poolSize ∧ testBit pool.bitmap pos.toNat = false ∧
      vfIpPoolAlloc pool = (pool.hold pos, addrOf pool pos) := by
  unfold vfIpPoolAlloc
  cases h : allocLoop pool pool.poolSize.toNat 0 with
  | none => exact Or.inl rfl
  | some pos =>
    obtain ⟨h1, h2⟩ := allocLoop_some hs h
    exact Or.inr ⟨pos, h1, h2, rfl⟩

theorem addrOf_inj {pool : IpPool} {a b : UInt32} (h : addrOf pool a = addrOf pool b) : a = b := by
  have h' := bswap32_inj h
  exact (UInt32.add_right_inj _).mp h'

@[simp] theorem bswap32_addrOf (pool : IpPool) (pos : UInt32) :
    bswap32 (addrOf pool pos) = bswap32 pool.startIp + pos := bswap32_bswap32 _

/-! ## Release -/

/-- A release clears the bit of its address or does nothing. -/
theorem vfIpPoolFree_addrOf (pool : IpPool) (pos : UInt32) :
    vfIpPoolFree pool (addrOf pool pos) = pool ∨
      vfIpPoolFree pool (addrOf pool pos) = pool.release pos := by
  unfold vfIpPoolFree
  split
  · exact Or.inl rfl
  · split
    · exact Or.inl rfl
    · right
      rw [bswap32_addrOf, UInt32.add_comm, UInt32.add_sub_cancel]

/-- The range of the pool ends below the top of the address space. -/
def NoWrap (pool : IpPool) : Prop :=
  (bswap32 pool.startIp).toNat + pool.poolSize.toNat < 2 ^ 32

/-- When the range does not wrap, every address of the pool but 0.0.0.0 is released. -/
theorem vfIpPoolFree_of_noWrap (pool : IpPool) (hw : NoWrap pool) (pos : UInt32)
    (hp : pos < pool.poolSize) (h0 : addrOf pool pos ≠ 0) :
    vfIpPoolFree pool (addrOf pool pos) = pool.release pos := by
  unfold NoWrap at hw
  rw [UInt32.lt_iff_toNat_lt] at hp
  have hr : inRange pool (addrOf pool pos) = true := by
    simp only [inRange, bswap32_addrOf, Bool.not_eq_true', Bool.or_eq_false_iff,
      decide_eq_false_iff_not, UInt32.lt_iff_toNat_lt, ge_iff_le, UInt32.le_iff_toNat_le,
      UInt32.toNat_add]
    omega
  unfold vfIpPoolFree
  rw [if_neg h0, hr, bswap32_addrOf, UInt32.add_comm, UInt32.add_sub_cancel]
  rfl

/-- When it wraps, none is: the upper end of the range check is below its lower end. -/
theorem vfIpPoolFree_of_wrap (pool : IpPool) (hw : ¬ NoWrap pool) (ip : UInt32) :
    vfIpPoolFree pool ip = pool := by
  have hs := pool.poolSize.toNat_lt
  have hip := (bswap32 ip).toNat_lt
  have hst := (bswap32 pool.startIp).toNat_lt
  unfold NoWrap at hw
  have hr : inRange pool ip = false := by
    simp only [inRange, Bool.not_eq_false', Bool.or_eq_true, decide_eq_true_eq,
      UInt32.lt_iff_toNat_lt, ge_iff_le, UInt32.le_iff_toNat_le, UInt32.toNat_add]
    omega
  unfold vfIpPoolFree
  split
  · rfl
  · rw [hr]
    rfl

theorem vfIpPoolFree_hint (pool : IpPool) (ip : UInt32) :
    (vfIpPoolFree pool ip).nextHint = pool.nextHint := by
  unfold vfIpPoolFree
  split
  · rfl
  · split
    · rfl
    · rfl

end Vfast.Ippool
