import Mathlib.Logic.Function.Basic
import Mathlib.Data.List.FinRange
import Mathlib.Tactic.Tauto
import Vfast.Lib.Keyed
import Vfast.Ippool

/-! The session table (`session.c`): sixteen shards, each with one hash table by
virtual address and one by session id, both linking the same session objects.
An object is a pointer into a heap, so that a write through one index is seen
through the other. -/

namespace Vfast.Sessions

open Bytes Keyed Key Ippool

/-- The parts of `struct sockaddr_in` that identify an endpoint. -/
structure SockAddr where
  addr : UInt32
  port : UInt16
  deriving DecidableEq, Repr

structure Session where
  sid : UInt32
  vip : UInt32
  remoteAddr : SockAddr
  secCtx : SecCtx
  lastSeen : Int

/-- The content of memory no session was ever stored in. -/
def blankSession : Session := ⟨0, 0, ⟨0, 0⟩, SecCtx.zero, 0⟩

abbrev Ptr := Nat

structure Shard where
  ipTable : List Ptr
  sidTable : List Ptr

/-- `g_shards` with the heap the tables point into; `brk` is the next address that
`zmalloc` hands out. -/
structure Store where
  heap : Ptr → Session
  brk : Ptr
  shards : Fin 16 → Shard

def vpnGetShardIdx (ip : UInt32) : UInt32 := (ip ^^^ (ip >>> 16)) &&& 15

theorem vpnGetShardIdx_lt (ip : UInt32) : (vpnGetShardIdx ip).toNat < 16 := by
  rw [vpnGetShardIdx, UInt32.toNat_and]
  have : (ip ^^^ (ip >>> 16)).toNat &&& (15 : UInt32).toNat ≤ 15 := Nat.and_le_right
  omega

def shardOf (ip : UInt32) : Fin 16 := ⟨(vpnGetShardIdx ip).toNat, vpnGetShardIdx_lt ip⟩

/-- `vf_ss_generate_sid` with the random draw as an argument. -/
def vfSsGenerateSid (vip rawRand : UInt32) : UInt32 :=
  let targetIdx := vpnGetShardIdx vip
  let highBits := rawRand &&& 0xFFFF0000
  let neededBits := (targetIdx ^^^ (highBits >>> 16)) &&& 15
  highBits ||| (rawRand &&& 0x0000FFF0) ||| neededBits

/-! ## Pointer operations -/

def Store.empty (heap : Ptr → Session) : Store := ⟨heap, 0, fun _ => ⟨[], []⟩⟩

def Store.modify (st : Store) (p : Ptr) (f : Session → Session) : Store :=
  { st with heap := Function.update st.heap p (f (st.heap p)) }

def Store.setShard (st : Store) (i : Fin 16) (sh : Shard) : Store :=
  { st with shards := Function.update st.shards i sh }

/-- `HASH_DELETE` from both tables of a shard; the object is freed. -/
def Store.unlink (st : Store) (i : Fin 16) (p : Ptr) : Store :=
  st.setShard i ⟨hashDelete (st.shards i).ipTable p, hashDelete (st.shards i).sidTable p⟩

/-- `zmalloc` a session and `HASH_ADD` it to both tables of a shard. -/
def Store.create (st : Store) (i : Fin 16) (s : Session) : Store where
  heap := Function.update st.heap st.brk s
  brk := st.brk + 1
  shards := Function.update st.shards i
    ⟨hashAdd (st.shards i).ipTable st.brk, hashAdd (st.shards i).sidTable st.brk⟩

/-- The in-place change of a session's id: out of the id table, new id, in again. -/
def Store.resid (st : Store) (i : Fin 16) (p : Ptr) (sid : UInt32) : Store :=
  (st.setShard i { st.shards i with
    sidTable := hashAdd (hashDelete (st.shards i).sidTable p) p }).modify p fun s =>
      { s with sid := sid }

/-! ## The operations -/

def findByIp (st : Store) (i : Fin 16) (vip : UInt32) : Option Ptr :=
  hashFind (fun p => (st.heap p).vip) (st.shards i).ipTable vip

def findBySid (st : Store) (i : Fin 16) (sid : UInt32) : Option Ptr :=
  hashFind (fun p => (st.heap p).sid) (st.shards i).sidTable sid

def vfSsLookupBySid (st : Store) (sid : UInt32) : Option Ptr := findBySid st (shardOf sid) sid

def vfSsLookupByIp (st : Store) (vip : UInt32) : Option Ptr := findByIp st (shardOf vip) vip

/-- `vf_ss_update`; `draw` is consumed by `vf_rekey_init` of a new session. -/
def vfSsUpdate (st : Store) (vip sid : UInt32) (addr : SockAddr) (draw : Option (Block 32))
    (now : Int) : Store :=
  let idx := shardOf vip
  match findByIp st idx vip with
  | none => st.create idx ⟨sid, vip, addr, vfRekeyInit sid draw now, now⟩
  | some p =>
    let st := if (st.heap p).sid ≠ sid then st.resid idx p sid else st
    st.modify p fun s => { s with remoteAddr := addr, lastSeen := now }

/-- `vf_ss_update_by_sid`: refresh, and follow the client to a new endpoint. -/
def vfSsUpdateBySid (st : Store) (sid : UInt32) (addr : SockAddr) (now : Int) : Store :=
  match findBySid st (shardOf sid) sid with
  | none => st
  | some p =>
    st.modify p fun s =>
      { s with
        remoteAddr :=
          if s.remoteAddr.addr ≠ addr.addr ∨ s.remoteAddr.port ≠ addr.port then addr
          else s.remoteAddr
        lastSeen := now }

def vfSsDelete (st : Store) (vip : UInt32) : Store :=
  match findByIp st (shardOf vip) vip with
  | none => st
  | some p => st.unlink (shardOf vip) p

/-- The body of the reaping loop of `vf_ss_clean_timeout` in shard `i`. -/
def cleanStep (timeoutSec now : Int) (i : Fin 16) (acc : Store × Option IpPool) (p : Ptr) :
    Store × Option IpPool :=
  if now - (acc.1.heap p).lastSeen > timeoutSec then
    (acc.1.unlink i p, acc.2.map fun ipp => vfIpPoolFree ipp (acc.1.heap p).vip)
  else acc

def cleanShard (timeoutSec now : Int) (acc : Store × Option IpPool) (i : Fin 16) :
    Store × Option IpPool :=
  (hashIter (acc.1.shards i).ipTable).foldl (cleanStep timeoutSec now i) acc

def vfSsCleanTimeout (st : Store) (ipp : Option IpPool) (timeoutSec now : Int) :
    Store × Option IpPool :=
  (List.finRange 16).foldl (cleanShard timeoutSec now) (st, ipp)

structure ExpiredNode where
  sid : UInt32
  vip : UInt32
  remoteAddr : SockAddr
  isDead : Bool

def expiredNode (s : Session) (deadSec now : Int) : ExpiredNode :=
  ⟨s.sid, s.vip, s.remoteAddr, now - s.lastSeen ≥ deadSec⟩

/-- The inner loop of `vf_ss_get_expired`; it stops once the list is full. -/
def expiredScan (st : Store) (maxCount : Nat) (probeSec deadSec now : Int) :
    List Ptr → List ExpiredNode → List ExpiredNode
  | [], acc => acc
  | p :: ps, acc =>
    if now - (st.heap p).lastSeen ≥ probeSec then
      let acc := acc ++ [expiredNode (st.heap p) deadSec now]
      if acc.length ≥ maxCount then acc else expiredScan st maxCount probeSec deadSec now ps acc
    else expiredScan st maxCount probeSec deadSec now ps acc

def expiredShards (st : Store) (maxCount : Nat) (probeSec deadSec now : Int) :
    List (Fin 16) → List ExpiredNode → List ExpiredNode
  | [], acc => acc
  | i :: is, acc =>
    let acc := expiredScan st maxCount probeSec deadSec now (hashIter (st.shards i).ipTable) acc
    if acc.length ≥ maxCount then acc else expiredShards st maxCount probeSec deadSec now is acc

def vfSsGetExpired (st : Store) (maxCount : Nat) (probeSec deadSec now : Int) :
    List ExpiredNode :=
  expiredShards st maxCount probeSec deadSec now (List.finRange 16) []

def vfSsGetTotalCount (st : Store) : UInt32 :=
  (List.finRange 16).foldl (fun n i => n + UInt32.ofNat (hashCnt (st.shards i).ipTable)) 0

/-! ## Well-formed tables -/

/-- `p` is linked into the table. -/
def Live (st : Store) (p : Ptr) : Prop := ∃ i, p ∈ (st.shards i).ipTable

/-- The double index: in every shard both tables hold the same objects, allocated
below `brk`, whose address and id both select that shard; addresses are unique. -/
structure Store.WF (st : Store) : Prop where
  ip_nodup : ∀ i, (st.shards i).ipTable.Nodup
  sid_nodup : ∀ i, (st.shards i).sidTable.Nodup
  same : ∀ i p, p ∈ (st.shards i).sidTable ↔ p ∈ (st.shards i).ipTable
  below : ∀ i p, p ∈ (st.shards i).ipTable → p < st.brk
  vip_shard : ∀ i p, p ∈ (st.shards i).ipTable → shardOf (st.heap p).vip = i
  sid_shard : ∀ i p, p ∈ (st.shards i).ipTable → shardOf (st.heap p).sid = i
  vip_distinct : ∀ i, KeysDistinct (fun p => (st.heap p).vip) (st.shards i).ipTable

def SidsDistinct (st : Store) : Prop :=
  ∀ p q, Live st p → Live st q → (st.heap p).sid = (st.heap q).sid → p = q

theorem Store.wf_empty (heap : Ptr → Session) : (Store.empty heap).WF where
  ip_nodup _ := List.nodup_nil
  sid_nodup _ := List.nodup_nil
  same _ _ := Iff.rfl
  below _ _ h := nomatch h
  vip_shard _ _ h := nomatch h
  sid_shard _ _ h := nomatch h
  vip_distinct _ _ h := nomatch h

theorem forall_live {st : Store} {P : Ptr → Prop} :
    (∀ i, ∀ p ∈ (st.shards i).ipTable, P p) ↔ ∀ p, Live st p → P p :=
  ⟨fun h p ⟨i, hp⟩ => h i p hp, fun h i p hp => h p ⟨i, hp⟩⟩

theorem not_live_empty (heap : Ptr → Session) (p : Ptr) : ¬ Live (Store.empty heap) p := by
  rintro ⟨i, h⟩
  exact nomatch h

section Lookup

variable {st : Store} (h : st.WF)
include h

theorem Store.WF.mem_ip {p : Ptr} (hp : Live st p) :
    p ∈ (st.shards (shardOf (st.heap p).vip)).ipTable := by
  obtain ⟨i, hi⟩ := hp
  rwa [h.vip_shard i p hi]

theorem Store.WF.mem_sid {p : Ptr} (hp : Live st p) :
    p ∈ (st.shards (shardOf (st.heap p).sid)).sidTable := by
  obtain ⟨i, hi⟩ := hp
  rw [h.sid_shard i p hi]
  exact (h.same i p).mpr hi

theorem Store.WF.lt_brk {p : Ptr} (hp : Live st p) : p < st.brk := by
  obtain ⟨i, hi⟩ := hp
  exact h.below i p hi

theorem Store.WF.vip_inj {p q : Ptr} (hp : Live st p) (hq : Live st q)
    (e : (st.heap p).vip = (st.heap q).vip) : p = q := by
  have hp := h.mem_ip hp
  rw [e] at hp
  exact h.vip_distinct _ p hp q (h.mem_ip hq) e

theorem Store.WF.shard_eq {p : Ptr} (hp : Live st p) :
    shardOf (st.heap p).sid = shardOf (st.heap p).vip := by
  obtain ⟨i, hi⟩ := hp
  rw [h.sid_shard i p hi, h.vip_shard i p hi]

/-- **Lookup by address** finds the live session with that address. -/
theorem lookupByIp_eq_some {vip : UInt32} {p : Ptr} :
    vfSsLookupByIp st vip = some p ↔ Live st p ∧ (st.heap p).vip = vip := by
  constructor
  · intro e
    obtain ⟨hm, hk⟩ := hashFind_some e
    exact ⟨⟨_, hm⟩, hk⟩
  · rintro ⟨hp, rfl⟩
    exact hashFind_of_mem (h.vip_distinct _) (h.mem_ip hp)

theorem lookupByIp_eq_none {vip : UInt32} :
    vfSsLookupByIp st vip = none ↔ ∀ p, Live st p → (st.heap p).vip ≠ vip := by
  constructor
  · rintro e p hp rfl
    rw [(lookupByIp_eq_some h).mpr ⟨hp, rfl⟩] at e
    exact nomatch e
  · intro hn
    exact hashFind_eq_none.mpr fun p hp => hn p ⟨_, hp⟩

theorem lookupBySid_some {sid : UInt32} {p : Ptr} (e : vfSsLookupBySid st sid = some p) :
    Live st p ∧ (st.heap p).sid = sid := by
  obtain ⟨hm, hk⟩ := hashFind_some e
  exact ⟨⟨_, (h.same _ p).mp hm⟩, hk⟩

theorem lookupBySid_eq_none {sid : UInt32} :
    vfSsLookupBySid st sid = none ↔ ∀ p, Live st p → (st.heap p).sid ≠ sid := by
  constructor
  · rintro e p hp rfl
    exact hashFind_eq_none.mp e p (h.mem_sid hp) rfl
  · intro hn
    exact hashFind_eq_none.mpr fun p hp => hn p ⟨_, (h.same _ p).mp hp⟩

/-- **Lookup by id** finds the live session with that id once ids are unique. -/
theorem lookupBySid_eq_some (hd : SidsDistinct st) {sid : UInt32} {p : Ptr} :
    vfSsLookupBySid st sid = some p ↔ Live st p ∧ (st.heap p).sid = sid := by
  constructor
  · exact lookupBySid_some h
  · rintro ⟨hp, rfl⟩
    cases e : vfSsLookupBySid st (st.heap p).sid with
    | none => exact absurd rfl ((lookupBySid_eq_none h).mp e p hp)
    | some q =>
      obtain ⟨hq, hk⟩ := lookupBySid_some h e
      rw [hd q p hq hp hk]

end Lookup

/-! ## What the pointer operations change -/

theorem modify_heap (st : Store) (p q : Ptr) (f : Session → Session) :
    (st.modify p f).heap q = if q = p then f (st.heap p) else st.heap q := by
  simp [Store.modify, Function.update_apply]

theorem live_modify {st : Store} {p q : Ptr} {f : Session → Session} :
    Live (st.modify p f) q ↔ Live st q := Iff.rfl

theorem setShard_shards (st : Store) (i j : Fin 16) (sh : Shard) :
    (st.setShard i sh).shards j = if j = i then sh else st.shards j := by
  simp [Store.setShard, Function.update_apply]

theorem live_unlink {st : Store} (h : st.WF) {i : Fin 16} {p q : Ptr}
    (hp : p ∈ (st.shards i).ipTable) : Live (st.unlink i p) q ↔ Live st q ∧ q ≠ p := by
  constructor
  · rintro ⟨j, hj⟩
    rw [Store.unlink, setShard_shards] at hj
    split at hj
    · obtain ⟨hne, hm⟩ := (mem_hashDelete (h.ip_nodup i)).mp hj
      exact ⟨⟨i, hm⟩, hne⟩
    · rename_i hji
      refine ⟨⟨j, hj⟩, ?_⟩
      rintro rfl
      exact hji ((h.vip_shard j q hj).symm.trans (h.vip_shard i q hp))
  · rintro ⟨⟨j, hj⟩, hne⟩
    refine ⟨j, ?_⟩
    rw [Store.unlink, setShard_shards]
    split
    · rename_i hji
      subst hji
      exact (mem_hashDelete (h.ip_nodup j)).mpr ⟨hne, hj⟩
    · exact hj

theorem Store.WF.unlink {st : Store} (h : st.WF) (i : Fin 16) (p : Ptr) : (st.unlink i p).WF := by
  -- a shard only loses members, the same ones from both tables
  have hsub : ∀ j q, q ∈ ((st.unlink i p).shards j).ipTable → q ∈ (st.shards j).ipTable := by
    intro j q hq
    rw [Store.unlink, setShard_shards] at hq
    split at hq
    · rename_i e
      rw [e]
      exact List.mem_of_mem_erase hq
    · exact hq
  refine ⟨?_, ?_, ?_, ?_, ?_, ?_, ?_⟩
  · intro j
    rw [Store.unlink, setShard_shards]
    split
    · exact nodup_hashDelete (h.ip_nodup i) p
    · exact h.ip_nodup j
  · intro j
    rw [Store.unlink, setShard_shards]
    split
    · exact nodup_hashDelete (h.sid_nodup i) p
    · exact h.sid_nodup j
  · intro j q
    rw [Store.unlink, setShard_shards]
    split
    · rw [mem_hashDelete (h.sid_nodup i), mem_hashDelete (h.ip_nodup i), h.same]
    · exact h.same j q
  · exact fun j q hq => h.below j q (hsub j q hq)
  · exact fun j q hq => h.vip_shard j q (hsub j q hq)
  · exact fun j q hq => h.sid_shard j q (hsub j q hq)
  · exact fun j a ha b hb e => h.vip_distinct j a (hsub j a ha) b (hsub j b hb) e

theorem create_heap (st : Store) (i : Fin 16) (s : Session) (q : Ptr) :
    (st.create i s).heap q = if q = st.brk then s else st.heap q := by
  simp [Store.create, Function.update_apply]

theorem create_shards (st : Store) (i j : Fin 16) (s : Session) :
    (st.create i s).shards j =
      if j = i then ⟨hashAdd (st.shards i).ipTable st.brk, hashAdd (st.shards i).sidTable st.brk⟩
      else st.shards j := by
  simp [Store.create, Function.update_apply]

theorem mem_create {st : Store} {i j : Fin 16} {s : Session} {q : Ptr} :
    q ∈ ((st.create i s).shards j).ipTable ↔ (j = i ∧ q = st.brk) ∨ q ∈ (st.shards j).ipTable := by
  rw [create_shards]
  split
  · rename_i e
    subst e
    simp [mem_hashAdd]
  · rename_i e
    simp [e]

theorem live_create {st : Store} {i : Fin 16} {s : Session} {q : Ptr} :
    Live (st.create i s) q ↔ q = st.brk ∨ Live st q := by
  constructor
  · rintro ⟨j, hj⟩
    rcases mem_create.mp hj with ⟨_, e⟩ | hm
    · exact .inl e
    · exact .inr ⟨j, hm⟩
  · rintro (e | ⟨j, hj⟩)
    · exact ⟨i, mem_create.mpr (.inl ⟨rfl, e⟩)⟩
    · exact ⟨j, mem_create.mpr (.inr hj)⟩

theorem create_heap_live {st : Store} (h : st.WF) {i : Fin 16} {s : Session} {q : Ptr}
    (hq : Live st q) : (st.create i s).heap q = st.heap q := by
  rw [create_heap, if_neg (Nat.ne_of_lt (h.lt_brk hq))]

theorem Store.WF.create {st : Store} (h : st.WF) {i : Fin 16} {s : Session}
    (hv : shardOf s.vip = i) (hs : shardOf s.sid = i)
    (hnew : ∀ p, Live st p → (st.heap p).vip ≠ s.vip) : (st.create i s).WF := by
  have hbrk : ∀ j, st.brk ∉ (st.shards j).ipTable := fun j hm =>
    Nat.lt_irrefl _ (h.below j _ hm)
  refine ⟨?_, ?_, ?_, ?_, ?_, ?_, ?_⟩
  · intro j
    rw [create_shards]
    split
    · exact List.nodup_cons.mpr ⟨hbrk i, h.ip_nodup i⟩
    · exact h.ip_nodup j
  · intro j
    rw [create_shards]
    split
    · exact List.nodup_cons.mpr ⟨fun hm => hbrk i ((h.same i _).mp hm), h.sid_nodup i⟩
    · exact h.sid_nodup j
  · intro j q
    rw [create_shards]
    split
    · rw [mem_hashAdd, mem_hashAdd, h.same]
    · exact h.same j q
  · intro j q hq
    rcases mem_create.mp hq with ⟨_, rfl⟩ | hm
    · exact Nat.lt_succ_self _
    · exact Nat.lt_succ_of_lt (h.below j q hm)
  · intro j q hq
    rcases mem_create.mp hq with ⟨rfl, rfl⟩ | hm
    · rw [create_heap, if_pos rfl, hv]
    · rw [create_heap_live h ⟨j, hm⟩]
      exact h.vip_shard j q hm
  · intro j q hq
    rcases mem_create.mp hq with ⟨rfl, rfl⟩ | hm
    · rw [create_heap, if_pos rfl, hs]
    · rw [create_heap_live h ⟨j, hm⟩]
      exact h.sid_shard j q hm
  · intro j a ha b hb e
    rcases mem_create.mp ha with ⟨_, rfl⟩ | ha <;> rcases mem_create.mp hb with ⟨_, rfl⟩ | hb
    · rfl
    · simp only [create_heap_live h ⟨j, hb⟩] at e
      rw [create_heap, if_pos rfl] at e
      exact absurd e.symm (hnew b ⟨j, hb⟩)
    · simp only [create_heap_live h ⟨j, ha⟩] at e
      rw [create_heap, if_pos rfl] at e
      exact absurd e (hnew a ⟨j, ha⟩)
    · simp only [create_heap_live h ⟨j, ha⟩, create_heap_live h ⟨j, hb⟩] at e
      exact h.vip_distinct j a ha b hb e

/-- The object linked last is the one found under its id, even if the id is not unique. -/
theorem lookupBySid_create (st : Store) {i : Fin 16} {s : Session} (hs : shardOf s.sid = i) :
    vfSsLookupBySid (st.create i s) s.sid = some st.brk := by
  have hkey : ((st.create i s).heap st.brk).sid = s.sid := by rw [create_heap, if_pos rfl]
  unfold vfSsLookupBySid findBySid
  rw [hs, create_shards, if_pos rfl]
  rw [← hkey]
  exact hashFind_add_self (fun p => ((st.create i s).heap p).sid) _ _

/-- Changes that leave the index alone: no session comes, goes or changes a key. -/
structure Touch (st st' : Store) : Prop where
  shards : st'.shards = st.shards
  brk : st'.brk = st.brk
  vip : ∀ p, (st'.heap p).vip = (st.heap p).vip
  sid : ∀ p, (st'.heap p).sid = (st.heap p).sid

theorem Touch.refl (st : Store) : Touch st st := ⟨rfl, rfl, fun _ => rfl, fun _ => rfl⟩

theorem Touch.trans {st st' st'' : Store} (h : Touch st st') (h' : Touch st' st'') :
    Touch st st'' :=
  ⟨h'.shards.trans h.shards, h'.brk.trans h.brk, fun p => (h'.vip p).trans (h.vip p),
    fun p => (h'.sid p).trans (h.sid p)⟩

/-- Lookups do not see it. -/
theorem Touch.lookupBySid {st st' : Store} (h : Touch st st') (sid : UInt32) :
    vfSsLookupBySid st' sid = vfSsLookupBySid st sid := by
  rw [vfSsLookupBySid, findBySid, h.shards]
  exact hashFind_congr (fun p _ => h.sid p) sid

theorem Touch.lookupByIp {st st' : Store} (h : Touch st st') (vip : UInt32) :
    vfSsLookupByIp st' vip = vfSsLookupByIp st vip := by
  rw [vfSsLookupByIp, findByIp, h.shards]
  exact hashFind_congr (fun p _ => h.vip p) vip

theorem Touch.live {st st' : Store} (h : Touch st st') {p : Ptr} : Live st' p ↔ Live st p := by
  simp only [Live, h.shards]

theorem touch_modify (st : Store) (p : Ptr) {f : Session → Session}
    (hv : ∀ s, (f s).vip = s.vip) (hs : ∀ s, (f s).sid = s.sid) : Touch st (st.modify p f) := by
  refine ⟨rfl, rfl, fun q => ?_, fun q => ?_⟩
  · rw [modify_heap]
    split
    · rename_i e
      rw [hv, e]
    · rfl
  · rw [modify_heap]
    split
    · rename_i e
      rw [hs, e]
    · rfl

theorem Touch.wf {st st' : Store} (h : Touch st st') (hw : st.WF) : st'.WF := by
  obtain ⟨hsh, hb, hv, hs⟩ := h
  refine ⟨?_, ?_, ?_, ?_, ?_, ?_, ?_⟩
  · simpa only [hsh] using hw.ip_nodup
  · simpa only [hsh] using hw.sid_nodup
  · simpa only [hsh] using hw.same
  · simpa only [hsh, hb] using hw.below
  · simpa only [hsh, hv] using hw.vip_shard
  · simpa only [hsh, hs] using hw.sid_shard
  · simpa only [hsh, hv] using hw.vip_distinct

/-- A write that keeps address and id keeps the index. -/
theorem Store.WF.modify {st : Store} (h : st.WF) (p : Ptr) {f : Session → Session}
    (hv : ∀ s, (f s).vip = s.vip) (hs : ∀ s, (f s).sid = s.sid) : (st.modify p f).WF :=
  (touch_modify st p hv hs).wf h

theorem resid_heap (st : Store) (i : Fin 16) (p q : Ptr) (sid : UInt32) :
    (st.resid i p sid).heap q = if q = p then { st.heap p with sid := sid } else st.heap q := by
  rw [Store.resid, modify_heap]
  rfl

theorem resid_ipTable (st : Store) (i j : Fin 16) (p : Ptr) (sid : UInt32) :
    ((st.resid i p sid).shards j).ipTable = (st.shards j).ipTable := by
  show ((st.setShard i _).shards j).ipTable = _
  rw [setShard_shards]
  split
  · rename_i e
    rw [e]
  · rfl

theorem live_resid {st : Store} {i : Fin 16} {p q : Ptr} {sid : UInt32} :
    Live (st.resid i p sid) q ↔ Live st q := by
  simp only [Live, resid_ipTable]

theorem resid_vip (st : Store) (i : Fin 16) (p q : Ptr) (sid : UInt32) :
    ((st.resid i p sid).heap q).vip = (st.heap q).vip := by
  rw [resid_heap]
  split
  · rename_i e
    rw [e]
  · rfl

theorem Store.WF.resid {st : Store} (h : st.WF) {i : Fin 16} {p : Ptr} {sid : UInt32}
    (hp : p ∈ (st.shards i).ipTable) (hs : shardOf sid = i) : (st.resid i p sid).WF := by
  have hsid : ∀ j, ((st.resid i p sid).shards j).sidTable =
      if j = i then hashAdd (hashDelete (st.shards i).sidTable p) p
      else (st.shards j).sidTable := by
    intro j
    show ((st.setShard i _).shards j).sidTable = _
    rw [setShard_shards]
    split <;> rfl
  refine ⟨?_, ?_, ?_, ?_, ?_, ?_, ?_⟩
  · intro j
    rw [resid_ipTable]
    exact h.ip_nodup j
  · intro j
    rw [hsid]
    split
    · refine List.nodup_cons.mpr ⟨?_, nodup_hashDelete (h.sid_nodup i) p⟩
      intro hm
      exact ((mem_hashDelete (h.sid_nodup i)).mp hm).1 rfl
    · exact h.sid_nodup j
  · intro j q
    rw [hsid, resid_ipTable]
    split
    · rename_i e
      subst e
      rw [mem_hashAdd, mem_hashDelete (h.sid_nodup j), h.same]
      constructor
      · rintro (rfl | ⟨_, hq⟩)
        · exact hp
        · exact hq
      · intro hq
        by_cases e : q = p
        · exact .inl e
        · exact .inr ⟨e, hq⟩
    · exact h.same j q
  · intro j q hq
    rw [resid_ipTable] at hq
    exact h.below j q hq
  · intro j q hq
    rw [resid_ipTable] at hq
    rw [resid_vip]
    exact h.vip_shard j q hq
  · intro j q hq
    rw [resid_ipTable] at hq
    rw [resid_heap]
    split
    · rename_i e
      subst e
      exact hs.trans ((h.vip_shard i q hp).symm.trans (h.vip_shard j q hq))
    · exact h.sid_shard j q hq
  · intro j a ha b hb e
    rw [resid_ipTable] at ha hb
    simp only [resid_vip] at e
    exact h.vip_distinct j a ha b hb e

/-! ## What the table operations change -/

theorem vfSsDelete_heap (st : Store) (vip : UInt32) : (vfSsDelete st vip).heap = st.heap := by
  unfold vfSsDelete
  split <;> rfl

/-- Both branches of the roaming check leave the new endpoint behind. -/
theorem vfSsUpdateBySid_eq (st : Store) (sid : UInt32) (addr : SockAddr) (now : Int) :
    vfSsUpdateBySid st sid addr now =
      match vfSsLookupBySid st sid with
      | none => st
      | some p => st.modify p fun s => { s with remoteAddr := addr, lastSeen := now } := by
  unfold vfSsUpdateBySid vfSsLookupBySid
  split
  · rfl
  · congr 1
    funext s
    congr 1
    split
    · rfl
    · rename_i hne
      obtain ⟨ha, hp⟩ := not_or.mp hne
      cases hr : s.remoteAddr
      simp_all

theorem touch_updateBySid (st : Store) (sid : UInt32) (addr : SockAddr) (now : Int) :
    Touch st (vfSsUpdateBySid st sid addr now) := by
  unfold vfSsUpdateBySid
  split
  · exact Touch.refl st
  · exact touch_modify st _ (fun _ => rfl) (fun _ => rfl)

section Update

variable {st : Store} (h : st.WF) {vip : UInt32} (sid : UInt32) (addr : SockAddr)
  (draw : Option (Block 32)) (now : Int)
include h

theorem vfSsUpdate_new (hn : ∀ p, Live st p → (st.heap p).vip ≠ vip) :
    vfSsUpdate st vip sid addr draw now =
      st.create (shardOf vip) ⟨sid, vip, addr, vfRekeyInit sid draw now, now⟩ := by
  have e : findByIp st (shardOf vip) vip = none := (lookupByIp_eq_none h).mpr hn
  simp only [vfSsUpdate, e]

/-- The updating branch of `vf_ss_update`: the key context is the one the session had. -/
theorem vfSsUpdate_old {p : Ptr} (hp : Live st p) (hv : (st.heap p).vip = vip) :
    (∀ q, Live (vfSsUpdate st vip sid addr draw now) q ↔ Live st q) ∧
    (∀ q, (vfSsUpdate st vip sid addr draw now).heap q =
      if q = p then { st.heap p with sid := sid, remoteAddr := addr, lastSeen := now }
      else st.heap q) := by
  have e : findByIp st (shardOf vip) vip = some p := (lookupByIp_eq_some h).mpr ⟨hp, hv⟩
  simp only [vfSsUpdate, e]
  split
  · refine ⟨fun q => ?_, fun q => ?_⟩
    · rw [live_modify, live_resid]
    · rw [modify_heap]
      split
      · rw [resid_heap, if_pos rfl]
      · rename_i hq
        rw [resid_heap, if_neg hq]
  · rename_i hs
    have hs : (st.heap p).sid = sid := not_not.mp hs
    refine ⟨fun q => live_modify, fun q => ?_⟩
    rw [modify_heap]
    subst hs
    rfl

theorem vfSsUpdate_self {p : Ptr} (hp : Live st p) :
    vfSsUpdate st (st.heap p).vip (st.heap p).sid addr draw now =
      st.modify p fun s => { s with remoteAddr := addr, lastSeen := now } := by
  have e : findByIp st (shardOf (st.heap p).vip) (st.heap p).vip = some p :=
    (lookupByIp_eq_some h).mpr ⟨hp, rfl⟩
  simp only [vfSsUpdate, e, ne_eq, not_true_eq_false, if_false]

variable {sid} in
theorem Store.WF.update (hs : shardOf sid = shardOf vip) :
    (vfSsUpdate st vip sid addr draw now).WF := by
  cases e : findByIp st (shardOf vip) vip with
  | none =>
    have hn := (lookupByIp_eq_none h).mp e
    rw [vfSsUpdate_new h sid addr draw now hn]
    exact h.create rfl hs hn
  | some p =>
    obtain ⟨hm, hv⟩ := hashFind_some e
    simp only [vfSsUpdate, e]
    split
    · exact (h.resid hm hs).modify p (fun _ => rfl) (fun _ => rfl)
    · exact h.modify p (fun _ => rfl) (fun _ => rfl)

theorem Store.WF.delete : (vfSsDelete st vip).WF := by
  unfold vfSsDelete
  split
  · exact h
  · exact h.unlink _ _

theorem live_delete {q : Ptr} :
    Live (vfSsDelete st vip) q ↔ Live st q ∧ (st.heap q).vip ≠ vip := by
  unfold vfSsDelete
  cases e : findByIp st (shardOf vip) vip with
  | none =>
    have hn := (lookupByIp_eq_none h).mp e
    exact ⟨fun hq => ⟨hq, hn q hq⟩, fun hq => hq.1⟩
  | some p =>
    obtain ⟨hp, rfl⟩ := (lookupByIp_eq_some h).mp e
    show Live (st.unlink _ p) q ↔ _
    rw [live_unlink h (h.mem_ip hp)]
    refine and_congr_right fun hq => not_congr ?_
    exact ⟨fun e => by rw [e], fun e => h.vip_inj hq hp e⟩

end Update

/-! ## The reaper -/

def Stale (st : Store) (timeoutSec now : Int) (q : Ptr) : Prop :=
  now - (st.heap q).lastSeen > timeoutSec

/-- What a reaping pass over the pointers that satisfy `scanned` leaves. -/
structure Reaped (timeoutSec now : Int) (scanned : Ptr → Prop) (st st' : Store) : Prop where
  wf : st'.WF
  heap : st'.heap = st.heap
  live : ∀ q, Live st' q ↔ Live st q ∧ ¬ (scanned q ∧ Stale st timeoutSec now q)

theorem Reaped.trans {timeoutSec now : Int} {f g k : Ptr → Prop} {st st' st'' : Store}
    (h1 : Reaped timeoutSec now f st st') (h2 : Reaped timeoutSec now g st' st'')
    (hk : ∀ q, Live st q → (k q ↔ f q ∨ g q)) : Reaped timeoutSec now k st st'' := by
  refine ⟨h2.wf, h2.heap.trans h1.heap, ?_⟩
  intro q
  rw [h2.live, h1.live, and_assoc]
  simp only [Stale, h1.heap]
  refine and_congr_right fun hq => ?_
  rw [hk q hq]
  tauto

theorem Reaped.refl {timeoutSec now : Int} {st : Store} (h : st.WF) :
    Reaped timeoutSec now (fun _ => False) st st :=
  ⟨h, rfl, fun _ => by simp⟩

theorem cleanStep_reaped (timeoutSec now : Int) {i : Fin 16} {acc : Store × Option IpPool}
    (h : acc.1.WF) {p : Ptr} (hp : p ∈ (acc.1.shards i).ipTable) :
    Reaped timeoutSec now (· = p) acc.1 (cleanStep timeoutSec now i acc p).1 := by
  unfold cleanStep
  split
  · rename_i hs
    refine ⟨h.unlink i p, rfl, ?_⟩
    intro q
    rw [live_unlink h hp]
    refine and_congr_right fun _ => ⟨fun hq e => hq e.1, ?_⟩
    rintro hq rfl
    exact hq ⟨rfl, hs⟩
  · rename_i hs
    refine ⟨h, rfl, ?_⟩
    intro q
    refine ⟨fun hq => ⟨hq, ?_⟩, fun hq => hq.1⟩
    rintro ⟨rfl, hst⟩
    exact hs hst

/-- A pointer not visited yet is still in its shard. -/
theorem cleanStep_mem {timeoutSec now : Int} {i : Fin 16} {acc : Store × Option IpPool}
    (h : acc.1.WF) {p q : Ptr} (hne : q ≠ p) (hq : q ∈ (acc.1.shards i).ipTable) :
    q ∈ ((cleanStep timeoutSec now i acc p).1.shards i).ipTable := by
  unfold cleanStep
  split
  · show q ∈ ((acc.1.setShard i _).shards i).ipTable
    rw [setShard_shards, if_pos rfl]
    exact (mem_hashDelete (h.ip_nodup i)).mpr ⟨hne, hq⟩
  · exact hq

theorem cleanFold_reaped (timeoutSec now : Int) {i : Fin 16} (ps : List Ptr) (hn : ps.Nodup)
    (acc : Store × Option IpPool) (h : acc.1.WF) (hps : ∀ p ∈ ps, p ∈ (acc.1.shards i).ipTable) :
    Reaped timeoutSec now (· ∈ ps) acc.1 (ps.foldl (cleanStep timeoutSec now i) acc).1 := by
  induction ps generalizing acc with
  | nil =>
    refine (Reaped.refl h).trans (Reaped.refl h) ?_
    simp
  | cons p ps ih =>
    obtain ⟨hp, hn⟩ := List.nodup_cons.mp hn
    have h1 := cleanStep_reaped timeoutSec now h (hps p (by simp))
    refine h1.trans (ih hn _ h1.wf ?_) (fun q _ => by simp)
    intro q hq
    refine cleanStep_mem h ?_ (hps q (by simp [hq]))
    rintro rfl
    exact hp hq

theorem cleanShard_reaped (timeoutSec now : Int) (acc : Store × Option IpPool) (h : acc.1.WF)
    (i : Fin 16) :
    Reaped timeoutSec now (fun q => shardOf (acc.1.heap q).vip = i) acc.1
      (cleanShard timeoutSec now acc i).1 := by
  have hs := cleanFold_reaped timeoutSec now (hashIter (acc.1.shards i).ipTable)
    (List.nodup_reverse.mpr (h.ip_nodup i)) acc h (fun p hp => mem_hashIter.mp hp)
  refine hs.trans (Reaped.refl hs.wf) ?_
  intro q hq
  rw [or_false, mem_hashIter]
  refine ⟨?_, h.vip_shard i q⟩
  rintro rfl
  exact h.mem_ip hq

theorem cleanShards_reaped (timeoutSec now : Int) (is : List (Fin 16))
    (acc : Store × Option IpPool) (h : acc.1.WF) :
    Reaped timeoutSec now (fun q => shardOf (acc.1.heap q).vip ∈ is) acc.1
      (is.foldl (cleanShard timeoutSec now) acc).1 := by
  induction is generalizing acc with
  | nil => exact (Reaped.refl h).trans (Reaped.refl h) (by simp)
  | cons i is ih =>
    have h1 := cleanShard_reaped timeoutSec now acc h i
    refine h1.trans (ih _ h1.wf) ?_
    intro q _
    rw [h1.heap, List.mem_cons]

/-- **The reaper** unlinks exactly the sessions idle for longer than the limit. -/
theorem vfSsCleanTimeout_reaped {st : Store} (h : st.WF) (ipp : Option IpPool)
    (timeoutSec now : Int) :
    Reaped timeoutSec now (fun _ => True) st (vfSsCleanTimeout st ipp timeoutSec now).1 := by
  have hs := cleanShards_reaped timeoutSec now (List.finRange 16) (st, ipp) h
  refine hs.trans (Reaped.refl hs.wf) ?_
  intro q _
  simp [List.mem_finRange]

/-! ## The expiry scan -/

/-- The sessions in the order in which the two loops visit them. -/
def scanOrder (st : Store) : List Ptr :=
  (List.finRange 16).flatMap fun i => hashIter (st.shards i).ipTable

theorem mem_scanOrder {st : Store} {p : Ptr} : p ∈ scanOrder st ↔ Live st p := by
  simp [scanOrder, Live, mem_hashIter]

section

variable {st : Store} {maxCount : Nat} {probeSec deadSec now : Int}

def idleNodes (st : Store) (probeSec deadSec now : Int) (ps : List Ptr) : List ExpiredNode :=
  (ps.filter fun p => now - (st.heap p).lastSeen ≥ probeSec).map fun p =>
    expiredNode (st.heap p) deadSec now

/-- The inner loop appends the idle sessions and stops when the list is full. -/
theorem expiredScan_eq (ps : List Ptr) {acc : List ExpiredNode} (h : acc.length < maxCount) :
    expiredScan st maxCount probeSec deadSec now ps acc =
      (acc ++ idleNodes st probeSec deadSec now ps).take maxCount := by
  induction ps generalizing acc with
  | nil => simp [expiredScan, idleNodes, List.take_of_length_le (Nat.le_of_lt h)]
  | cons p ps ih =>
    by_cases hp : now - (st.heap p).lastSeen ≥ probeSec
    · have hnodes : acc ++ idleNodes st probeSec deadSec now (p :: ps) =
          acc ++ [expiredNode (st.heap p) deadSec now] ++ idleNodes st probeSec deadSec now ps := by
        simp [idleNodes, hp]
      rw [expiredScan, if_pos hp, hnodes]
      by_cases hfull : (acc ++ [expiredNode (st.heap p) deadSec now]).length ≥ maxCount
      · have hlen : (acc ++ [expiredNode (st.heap p) deadSec now]).length = maxCount := by
          simp only [List.length_append, List.length_singleton] at hfull ⊢
          omega
        simp only [hfull, if_true]
        exact (List.take_left' hlen).symm
      · simp only [hfull, if_false]
        exact ih (by omega)
    · have hnodes : idleNodes st probeSec deadSec now (p :: ps) =
          idleNodes st probeSec deadSec now ps := by
        simp [idleNodes, hp]
      rw [expiredScan, if_neg hp, hnodes]
      exact ih h

theorem expiredShards_eq (is : List (Fin 16)) {acc : List ExpiredNode} (h : acc.length < maxCount) :
    expiredShards st maxCount probeSec deadSec now is acc =
      (acc ++ idleNodes st probeSec deadSec now
        (is.flatMap fun i => hashIter (st.shards i).ipTable)).take maxCount := by
  induction is generalizing acc with
  | nil => simp [expiredShards, idleNodes, List.take_of_length_le (Nat.le_of_lt h)]
  | cons i is ih =>
    have hnodes : idleNodes st probeSec deadSec now
          ((i :: is).flatMap fun i => hashIter (st.shards i).ipTable) =
        idleNodes st probeSec deadSec now (hashIter (st.shards i).ipTable) ++
          idleNodes st probeSec deadSec now
            (is.flatMap fun i => hashIter (st.shards i).ipTable) := by
      simp [idleNodes]
    rw [expiredShards, expiredScan_eq _ h, hnodes, ← List.append_assoc]
    generalize acc ++ idleNodes st probeSec deadSec now (hashIter (st.shards i).ipTable) = acc'
    by_cases hfull : maxCount ≤ acc'.length
    · rw [if_pos (by simpa using hfull), List.take_append_of_le_length hfull]
    · rw [if_neg (by simpa using hfull), List.take_of_length_le (by omega)]
      exact ih (by omega)

/-- **The expiry scan** lists the first `maxCount` sessions that are idle long enough. -/
theorem vfSsGetExpired_eq (h : 0 < maxCount) :
    vfSsGetExpired st maxCount probeSec deadSec now =
      (idleNodes st probeSec deadSec now (scanOrder st)).take maxCount :=
  expiredShards_eq (List.finRange 16) h

/-- Every node of the expiry list is a live session that is idle long enough. -/
theorem mem_getExpired (h0 : 0 < maxCount) {node : ExpiredNode}
    (h : node ∈ vfSsGetExpired st maxCount probeSec deadSec now) :
    ∃ p, Live st p ∧ now - (st.heap p).lastSeen ≥ probeSec ∧
      node = expiredNode (st.heap p) deadSec now := by
  rw [vfSsGetExpired_eq h0] at h
  obtain ⟨p, hp, rfl⟩ := List.mem_map.mp (List.mem_of_mem_take h)
  obtain ⟨hm, hidle⟩ := List.mem_filter.mp hp
  exact ⟨p, mem_scanOrder.mp hm, of_decide_eq_true hidle, rfl⟩

end

/-! ## Session ids -/

/-- The 28 bits of a session id that the random draw decides. -/
def upper (x : UInt32) : UInt32 := x &&& 0xFFFFFFF0

theorem masks_getLsbD {i : Nat} (hi : i < 32) :
    (0xFFFFFFF0#32).getLsbD i = decide (4 ≤ i) ∧ (0xFFFF0000#32).getLsbD i = decide (16 ≤ i) ∧
      (0x0000FFF0#32).getLsbD i = decide (4 ≤ i ∧ i < 16) ∧ (15#32).getLsbD i = decide (i < 4) := by
  revert i
  decide

theorem upper_getLsbD (x : UInt32) {i : Nat} (hi : i < 32) :
    (upper x).toBitVec.getLsbD i = (x.toBitVec.getLsbD i && decide (4 ≤ i)) := by
  rw [← (masks_getLsbD hi).1]
  exact BitVec.getLsbD_and

theorem shardIdx_getLsbD (x : UInt32) {i : Nat} (hi : i < 32) :
    (vpnGetShardIdx x).toBitVec.getLsbD i =
      ((x.toBitVec.getLsbD i ^^ x.toBitVec.getLsbD (16 + i)) && decide (i < 4)) := by
  rw [← (masks_getLsbD hi).2.2.2]
  simp [vpnGetShardIdx]

/-- The random draw decides the upper bits, the lower ones repair the shard. -/
theorem generateSid_getLsbD (vip r : UInt32) {i : Nat} (hi : i < 32) :
    (vfSsGenerateSid vip r).toBitVec.getLsbD i =
      if 4 ≤ i then r.toBitVec.getLsbD i
      else (vpnGetShardIdx vip).toBitVec.getLsbD i ^^ r.toBitVec.getLsbD (16 + i) := by
  obtain ⟨-, hhigh, hmid, hlow⟩ := masks_getLsbD hi
  have hbits : (vfSsGenerateSid vip r).toBitVec.getLsbD i =
      ((r.toBitVec.getLsbD i && decide (16 ≤ i) ||
          r.toBitVec.getLsbD i && decide (4 ≤ i ∧ i < 16)) ||
        ((vpnGetShardIdx vip).toBitVec.getLsbD i ^^
            (r.toBitVec.getLsbD (16 + i) && (0xFFFF0000#32).getLsbD (16 + i))) &&
          decide (i < 4)) := by
    rw [← hhigh, ← hmid, ← hlow]
    simp [vfSsGenerateSid]
  rw [hbits]
  by_cases h4 : 4 ≤ i
  · have hcover : (decide (16 ≤ i) || decide (4 ≤ i ∧ i < 16)) = true := by
      simp only [Bool.or_eq_true, decide_eq_true_eq]
      omega
    rw [if_pos h4, ← Bool.and_or_distrib_left, hcover]
    simp [Nat.not_lt.mpr h4]
  · have h16 : ¬ 16 ≤ i := by omega
    rw [(masks_getLsbD (by omega : 16 + i < 32)).2.1]
    simp [h4, h16, Nat.not_le.mp h4]

theorem upper_generateSid (vip r : UInt32) : upper (vfSsGenerateSid vip r) = upper r := by
  apply UInt32.toBitVec_inj.mp
  apply BitVec.eq_of_getLsbD_eq
  intro i hi
  rw [upper_getLsbD _ hi, upper_getLsbD _ hi, generateSid_getLsbD vip r hi]
  by_cases h4 : 4 ≤ i
  · rw [if_pos h4]
  · simp [h4]

theorem shardIdx_generateSid (vip r : UInt32) :
    vpnGetShardIdx (vfSsGenerateSid vip r) = vpnGetShardIdx vip := by
  apply UInt32.toBitVec_inj.mp
  apply BitVec.eq_of_getLsbD_eq
  intro i hi
  rw [shardIdx_getLsbD (vfSsGenerateSid vip r) hi]
  by_cases h4 : i < 4
  · -- the bits of the high half that the shard index folds in cancel
    rw [generateSid_getLsbD vip r hi, if_neg (Nat.not_le.mpr h4),
      generateSid_getLsbD vip r (by omega : 16 + i < 32), if_pos (by omega)]
    simp [h4]
  · rw [shardIdx_getLsbD vip hi]
    simp [h4]

/-- The generated id selects the shard of the address it was generated for. -/
theorem shardOf_generateSid (vip r : UInt32) :
    shardOf (vfSsGenerateSid vip r) = shardOf vip := by
  simp only [shardOf, shardIdx_generateSid]

theorem shardOf_inj {x y : UInt32} (h : shardOf x = shardOf y) :
    vpnGetShardIdx x = vpnGetShardIdx y := by
  apply UInt32.toNat_inj.mp
  exact Fin.mk.inj h

/-- A shard and the upper bits determine a session id. -/
theorem eq_of_upper {x y : UInt32} (hu : upper x = upper y) (hs : shardOf x = shardOf y) :
    x = y := by
  have hhigh : ∀ i, 4 ≤ i → i < 32 → x.toBitVec.getLsbD i = y.toBitVec.getLsbD i := by
    intro i h4 hi
    have hb := congrArg (fun u => u.toBitVec.getLsbD i) hu
    simpa only [upper_getLsbD _ hi, h4, decide_true, Bool.and_true] using hb
  have hlow : ∀ i, i < 4 → x.toBitVec.getLsbD i = y.toBitVec.getLsbD i := by
    intro i h4
    have hi : i < 32 := by omega
    have hb := congrArg (fun u => u.toBitVec.getLsbD i) (shardOf_inj hs)
    simp only [shardIdx_getLsbD _ hi, h4, decide_true, Bool.and_true,
      hhigh (16 + i) (by omega) (by omega)] at hb
    exact Bool.xor_left_inj.mp hb
  apply UInt32.toBitVec_inj.mp
  apply BitVec.eq_of_getLsbD_eq
  intro i hi
  rcases Nat.lt_or_ge i 4 with h4 | h4
  · exact hlow i h4
  · exact hhigh i h4 hi

theorem generateSid_eq_iff {vip r s : UInt32} (hs : shardOf s = shardOf vip) :
    vfSsGenerateSid vip r = s ↔ upper s = upper r := by
  constructor
  · rintro rfl
    exact upper_generateSid vip r
  · intro h
    apply eq_of_upper
    · rw [upper_generateSid, h]
    · rw [shardOf_generateSid, hs]

theorem generateSid_eq_zero_iff {vip r : UInt32} :
    vfSsGenerateSid vip r = 0 ↔ shardOf vip = 0 ∧ upper r = 0 := by
  constructor
  · intro h
    have hs := shardOf_generateSid vip r
    have hu := upper_generateSid vip r
    rw [h] at hs hu
    exact ⟨hs.symm, hu.symm⟩
  · rintro ⟨hs, hu⟩
    have h0 : shardOf 0 = shardOf vip := hs.symm
    exact (generateSid_eq_iff h0).mpr hu.symm

end Vfast.Sessions
