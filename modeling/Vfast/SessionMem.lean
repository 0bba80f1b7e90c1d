import Vfast.SessionRefine
import Vfast.UthashRuns

/-! The session table in memory: `session.c` over the macros of `uthash.h`, with sessions that are
allocated, linked by two handles each, unlinked and freed. The table of `Session` is what this
memory means. Every call does on the memory what it does on the table, no call touches a session
that was freed, and none that is allocated is out of the table. -/

namespace Vfast.SessionMem

open Bytes Key Ippool Sessions SessionRefine Uthash

/-! ## The calls on memory -/

/-- The sessions, their two handles, and the heads of the tables. `brk` is the address that
`zmalloc` returns next. -/
structure Memory where
  alive : Ptr → Bool
  obj : Ptr → Session
  brk : Ptr
  hhIp : Handles Ptr
  hhSid : Handles Ptr
  ipTable : Fin 16 → Root Ptr
  sidTable : Fin 16 → Root Ptr

/-- The sessions with the bytes of `vip`, and of `sid`, as keys. -/
def Memory.byIp (m : Memory) : Elements Ptr := ⟨m.alive, fun p => le32 (m.obj p).vip⟩

def Memory.bySid (m : Memory) : Elements Ptr := ⟨m.alive, fun p => le32 (m.obj p).sid⟩

/-- What the allocator does during one call: whether `zmalloc` gets its block, and which sizes
`malloc` refuses to the macros. -/
structure Alloc where
  zmalloc : Bool
  malloc : Nat → Bool

def Memory.load (m : Memory) (p : Ptr) : Except Halt Session :=
  if m.alive p then .ok (m.obj p) else .error .fault

def Memory.store (m : Memory) (p : Ptr) (f : Session → Session) : Except Halt Memory :=
  if m.alive p then .ok { m with obj := Function.update m.obj p (f (m.obj p)) } else .error .fault

/-- `zmalloc`; the block holds whatever was there, and without memory the program aborts. -/
def Memory.zmalloc (m : Memory) (env : Alloc) : Except Halt (Ptr × Memory) :=
  if env.zmalloc then
    .ok (m.brk, { m with alive := Function.update m.alive m.brk true, brk := m.brk + 1 })
  else .error .abort

/-- `zfree`; freeing twice is a fault. -/
def Memory.zfree (m : Memory) (p : Ptr) : Except Halt Memory :=
  if m.alive p then .ok { m with alive := Function.update m.alive p false } else .error .fault

/-- `HASH_ADD(hh_ip, …)`. -/
def Memory.addIp (m : Memory) (env : Alloc) (fuel : Nat) (i : Fin 16) (p : Ptr) :
    Except Halt Memory := do
  let r ← hashAdd m.byIp env.malloc fuel m.hhIp (m.ipTable i) p
  .ok { m with hhIp := r.1, ipTable := Function.update m.ipTable i r.2 }

def Memory.addSid (m : Memory) (env : Alloc) (fuel : Nat) (i : Fin 16) (p : Ptr) :
    Except Halt Memory := do
  let r ← hashAdd m.bySid env.malloc fuel m.hhSid (m.sidTable i) p
  .ok { m with hhSid := r.1, sidTable := Function.update m.sidTable i r.2 }

def Memory.delIp (m : Memory) (i : Fin 16) (p : Ptr) : Except Halt Memory := do
  let r ← hashDelete m.byIp m.hhIp (m.ipTable i) p
  .ok { m with hhIp := r.1, ipTable := Function.update m.ipTable i r.2 }

def Memory.delSid (m : Memory) (i : Fin 16) (p : Ptr) : Except Halt Memory := do
  let r ← hashDelete m.bySid m.hhSid (m.sidTable i) p
  .ok { m with hhSid := r.1, sidTable := Function.update m.sidTable i r.2 }

def findByIp (fuel : Nat) (m : Memory) (i : Fin 16) (vip : UInt32) : Except Halt (Option Ptr) :=
  hashFind m.byIp fuel m.hhIp (m.ipTable i) (le32 vip)

def findBySid (fuel : Nat) (m : Memory) (i : Fin 16) (sid : UInt32) : Except Halt (Option Ptr) :=
  hashFind m.bySid fuel m.hhSid (m.sidTable i) (le32 sid)

def vfSsLookupBySid (fuel : Nat) (m : Memory) (sid : UInt32) : Except Halt (Option Ptr) :=
  findBySid fuel m (shardOf sid) sid

def vfSsLookupByIp (fuel : Nat) (m : Memory) (vip : UInt32) : Except Halt (Option Ptr) :=
  findByIp fuel m (shardOf vip) vip

/-- The creating branch of `vf_ss_update`. -/
def newSession (env : Alloc) (fuel : Nat) (m : Memory) (i : Fin 16) (vip sid : UInt32)
    (draw : Option (Block 32)) (now : Int) : Except Halt (Ptr × Memory) := do
  let (p, m) ← m.zmalloc env
  let m ← m.store p fun s => { s with vip := vip }
  let m ← m.store p fun s => { s with sid := sid }
  let m ← m.store p fun s => { s with secCtx := vfRekeyInit sid draw now }
  let m ← m.addIp env fuel i p
  let m ← m.addSid env fuel i p
  .ok (p, m)

def oldSession (env : Alloc) (fuel : Nat) (m : Memory) (i : Fin 16) (p : Ptr) (sid : UInt32) :
    Except Halt Memory := do
  let s ← m.load p
  if s.sid ≠ sid then
    let m ← m.delSid i p
    let m ← m.store p fun s => { s with sid := sid }
    m.addSid env fuel i p
  else .ok m

def vfSsUpdate (env : Alloc) (fuel : Nat) (m : Memory) (vip sid : UInt32) (addr : SockAddr)
    (draw : Option (Block 32)) (now : Int) : Except Halt Memory := do
  let idx := shardOf vip
  let (p, m) ← match ← findByIp fuel m idx vip with
    | none => newSession env fuel m idx vip sid draw now
    | some p => do
      let m ← oldSession env fuel m idx p sid
      .ok (p, m)
  let m ← m.store p fun s => { s with remoteAddr := addr }
  m.store p fun s => { s with lastSeen := now }

def vfSsUpdateBySid (fuel : Nat) (m : Memory) (sid : UInt32) (addr : SockAddr) (now : Int) :
    Except Halt Memory := do
  match ← findBySid fuel m (shardOf sid) sid with
  | none => .ok m
  | some p =>
    let s ← m.load p
    let m ← if s.remoteAddr.addr ≠ addr.addr ∨ s.remoteAddr.port ≠ addr.port then
        m.store p fun s => { s with remoteAddr := addr }
      else .ok m
    m.store p fun s => { s with lastSeen := now }

def Memory.unlink (m : Memory) (i : Fin 16) (p : Ptr) : Except Halt Memory := do
  let m ← m.delIp i p
  m.delSid i p

def vfSsDelete (fuel : Nat) (m : Memory) (vip : UInt32) : Except Halt Memory := do
  let idx := shardOf vip
  match ← findByIp fuel m idx vip with
  | none => .ok m
  | some p =>
    let m ← m.unlink idx p
    let m ← m.store p fun s => { s with secCtx := SecCtx.zero }
    m.zfree p

/-- The body of the loop of `vf_ss_clean_timeout`, which never breaks. -/
def cleanBody (timeoutSec now : Int) (i : Fin 16) (acc : Memory × Option IpPool) (p : Ptr) :
    Except Halt ((Memory × Option IpPool) × Bool) := do
  let s ← acc.1.load p
  if now - s.lastSeen > timeoutSec then
    let m ← acc.1.unlink i p
    let m ← m.zfree p
    .ok ((m, acc.2.map fun ipp => vfIpPoolFree ipp s.vip), false)
  else .ok (acc, false)

def cleanShard (fuel : Nat) (timeoutSec now : Int) (acc : Memory × Option IpPool) (i : Fin 16) :
    Except Halt (Memory × Option IpPool) :=
  hashIter (fun acc => acc.1.byIp) (fun acc => acc.1.hhIp) (fun acc => acc.1.ipTable i)
    (cleanBody timeoutSec now i) fuel acc

def vfSsCleanTimeout (fuel : Nat) (m : Memory) (ipp : Option IpPool) (timeoutSec now : Int) :
    Except Halt (Memory × Option IpPool) :=
  (List.finRange 16).foldlM (cleanShard fuel timeoutSec now) (m, ipp)

/-- The body of the loop of `vf_ss_get_expired`, which breaks when the list is full. -/
def expiredBody (m : Memory) (maxCount : Nat) (probeSec deadSec now : Int)
    (acc : List ExpiredNode) (p : Ptr) : Except Halt (List ExpiredNode × Bool) := do
  let s ← m.load p
  if now - s.lastSeen ≥ probeSec then
    let acc := acc ++ [expiredNode s deadSec now]
    .ok (acc, acc.length ≥ maxCount)
  else .ok (acc, false)

/-- The loop over the shards with its own `break`. -/
def expiredShards (fuel : Nat) (m : Memory) (maxCount : Nat) (probeSec deadSec now : Int) :
    List (Fin 16) → List ExpiredNode → Except Halt (List ExpiredNode)
  | [], acc => .ok acc
  | i :: is, acc => do
    let acc ← hashIter (fun _ => m.byIp) (fun _ => m.hhIp) (fun _ => m.ipTable i)
      (expiredBody m maxCount probeSec deadSec now) fuel acc
    if acc.length ≥ maxCount then .ok acc
    else expiredShards fuel m maxCount probeSec deadSec now is acc

def vfSsGetExpired (fuel : Nat) (m : Memory) (maxCount : Nat) (probeSec deadSec now : Int) :
    Except Halt (List ExpiredNode) :=
  expiredShards fuel m maxCount probeSec deadSec now (List.finRange 16) []

def vfSsGetTotalCount (m : Memory) : Except Halt UInt32 :=
  (List.finRange 16).foldlM (fun n i => do
    let c ← hashCnt m.byIp (m.ipTable i)
    .ok (n + c)) 0

def destroyBody (i : Fin 16) (m : Memory) (p : Ptr) : Except Halt (Memory × Bool) := do
  let m ← m.unlink i p
  let m ← m.zfree p
  .ok (m, false)

def vfSsDestroy (fuel : Nat) (m : Memory) : Except Halt Memory :=
  (List.finRange 16).foldlM (fun m i =>
    hashIter Memory.byIp Memory.hhIp (fun m => m.ipTable i) (destroyBody i) fuel m) m

/-! ## Results and their rules -/

/-- The program stopped as `stop` allows, or the result is as `post` says. -/
def Ends {α : Type} (stop : Halt → Prop) (r : Except Halt α) (post : α → Prop) : Prop :=
  (∃ halt, stop halt ∧ r = .error halt) ∨ ∃ a, r = .ok a ∧ post a

section Ends

variable {α β : Type} {stop stop' : Halt → Prop} {r : Except Halt α} {post post' : α → Prop}

theorem Ends.ok {a : α} (h : post a) : Ends stop (.ok a) post := .inr ⟨a, rfl, h⟩

theorem Ends.bind {f : α → Except Halt β} {post' : β → Prop} (h : Ends stop r post)
    (hf : ∀ a, post a → Ends stop (f a) post') : Ends stop (r >>= f) post' := by
  rcases h with ⟨halt, hs, rfl⟩ | ⟨a, rfl, ha⟩
  · exact .inl ⟨halt, hs, rfl⟩
  · exact hf a ha

theorem Ends.mono (h : Ends stop r post) (hp : ∀ a, post a → post' a) : Ends stop r post' :=
  h.imp_right fun ⟨a, he, ha⟩ => ⟨a, he, hp a ha⟩

theorem Ends.allow (h : Ends stop r post) (hs : ∀ halt, stop halt → stop' halt) :
    Ends stop' r post := h.imp_left fun ⟨halt, hh, he⟩ => ⟨halt, hs halt hh, he⟩

end Ends

/-- `malloc` refused a size that an addition to this table asks for. -/
def Alloc.Refuses (env : Alloc) (root : Root Ptr) (halt : Halt) : Prop :=
  ∃ size, Asks root size ∧ env.malloc size = false ∧ halt = .exit size

/-! ## Memory that stands for lists -/

/-- The tables hold these sessions, in the order in which they were added. -/
structure Standing (m : Memory) (ip sid : Fin 16 → List Ptr) : Prop where
  ip : Shards m.byIp 4 m.hhIp m.ipTable ip
  sid : Shards m.bySid 4 m.hhSid m.sidTable sid

structure Kept (m m' : Memory) : Prop where
  alive : m'.alive = m.alive
  obj : m'.obj = m.obj
  brk : m'.brk = m.brk

theorem Kept.trans {m m' m'' : Memory} (h : Kept m m') (h' : Kept m' m'') : Kept m m'' :=
  ⟨h'.alive.trans h.alive, h'.obj.trans h.obj, h'.brk.trans h.brk⟩

section Standing

variable {m : Memory} {ip sid : Fin 16 → List Ptr} (h : Standing m ip sid) {p : Ptr}

theorem load_eq (ha : m.alive p = true) : m.load p = .ok (m.obj p) := by
  rw [Memory.load, if_pos ha]

theorem store_eq (ha : m.alive p = true) (f : Session → Session) :
    m.store p f = .ok { m with obj := Function.update m.obj p (f (m.obj p)) } := by
  rw [Memory.store, if_pos ha]

include h

theorem Standing.addIp {env : Alloc} (hmem : env.malloc (2 ^ 36) = false) {fuel : Nat} (i : Fin 16)
    (hf : (ip i).length < fuel) (ha : m.alive p = true) (hnew : ∀ j, p ∉ ip j) :
    Ends (env.Refuses (m.ipTable i)) (m.addIp env fuel i p) fun m' =>
      Standing m' (Function.update ip i (ip i ++ [p])) sid ∧ Kept m m' ∧
        m'.sidTable = m.sidTable := by
  rcases h.ip.add hmem i hf ha hnew (length_le32 _) with
    ⟨size, hasks, hs, he⟩ | ⟨hh', root', he, hr⟩
  · exact .inl ⟨.exit size, ⟨size, hasks, hs, rfl⟩, by rw [Memory.addIp, he]; rfl⟩
  · exact .inr ⟨{ m with hhIp := hh', ipTable := Function.update m.ipTable i root' },
      by rw [Memory.addIp, he]; rfl, ⟨hr, h.sid⟩, ⟨rfl, rfl, rfl⟩, rfl⟩

theorem Standing.addSid {env : Alloc} (hmem : env.malloc (2 ^ 36) = false) {fuel : Nat} (i : Fin 16)
    (hf : (sid i).length < fuel) (ha : m.alive p = true) (hnew : ∀ j, p ∉ sid j) :
    Ends (env.Refuses (m.sidTable i)) (m.addSid env fuel i p) fun m' =>
      Standing m' ip (Function.update sid i (sid i ++ [p])) ∧ Kept m m' := by
  rcases h.sid.add hmem i hf ha hnew (length_le32 _) with
    ⟨size, hasks, hs, he⟩ | ⟨hh', root', he, hr⟩
  · exact .inl ⟨.exit size, ⟨size, hasks, hs, rfl⟩, by rw [Memory.addSid, he]; rfl⟩
  · exact .inr ⟨{ m with hhSid := hh', sidTable := Function.update m.sidTable i root' },
      by rw [Memory.addSid, he]; rfl, ⟨h.ip, hr⟩, rfl, rfl, rfl⟩

theorem Standing.delIp (i : Fin 16) (hp : p ∈ ip i) : ∃ m', m.delIp i p = .ok m' ∧
    Standing m' (Function.update ip i ((ip i).erase p)) sid ∧ Kept m m' := by
  obtain ⟨hh', root', he, hr⟩ := h.ip.delete i hp
  exact ⟨{ m with hhIp := hh', ipTable := Function.update m.ipTable i root' },
    by rw [Memory.delIp, he]; rfl, ⟨hr, h.sid⟩, rfl, rfl, rfl⟩

theorem Standing.delSid (i : Fin 16) (hp : p ∈ sid i) : ∃ m', m.delSid i p = .ok m' ∧
    Standing m' ip (Function.update sid i ((sid i).erase p)) ∧ Kept m m' := by
  obtain ⟨hh', root', he, hr⟩ := h.sid.delete i hp
  exact ⟨{ m with hhSid := hh', sidTable := Function.update m.sidTable i root' },
    by rw [Memory.delSid, he]; rfl, ⟨h.ip, hr⟩, rfl, rfl, rfl⟩

theorem Standing.store {f : Session → Session}
    (hv : (∃ i, p ∈ ip i) → (f (m.obj p)).vip = (m.obj p).vip)
    (hs : (∃ i, p ∈ sid i) → (f (m.obj p)).sid = (m.obj p).sid) :
    Standing { m with obj := Function.update m.obj p (f (m.obj p)) } ip sid := by
  refine ⟨h.ip.frame fun i q hq => ⟨(h.ip.rep i).alive q hq, ?_⟩,
    h.sid.frame fun i q hq => ⟨(h.sid.rep i).alive q hq, ?_⟩⟩
  · show le32 (Function.update m.obj p (f (m.obj p)) q).vip = le32 (m.obj q).vip
    by_cases e : q = p
    · subst e
      rw [Function.update_self, hv ⟨i, hq⟩]
    · rw [Function.update_of_ne e]
  · show le32 (Function.update m.obj p (f (m.obj p)) q).sid = le32 (m.obj q).sid
    by_cases e : q = p
    · subst e
      rw [Function.update_self, hs ⟨i, hq⟩]
    · rw [Function.update_of_ne e]

/-- Sessions outside the tables come and go. -/
theorem Standing.realloc {alive : Ptr → Bool} (brk : Ptr)
    (hip : ∀ i, ∀ q ∈ ip i, alive q = true) (hsid : ∀ i, ∀ q ∈ sid i, alive q = true) :
    Standing { m with alive := alive, brk := brk } ip sid :=
  ⟨h.ip.frame fun i q hq => ⟨hip i q hq, rfl⟩, h.sid.frame fun i q hq => ⟨hsid i q hq, rfl⟩⟩

end Standing

/-! ## The memory of a table -/

def ipLists (st : Store) (i : Fin 16) : List Ptr := (st.shards i).ipTable.reverse

def sidLists (st : Store) (i : Fin 16) : List Ptr := (st.shards i).sidTable.reverse

theorem mem_ipLists {st : Store} {i : Fin 16} {p : Ptr} :
    p ∈ ipLists st i ↔ p ∈ (st.shards i).ipTable := List.mem_reverse

theorem mem_sidLists {st : Store} {i : Fin 16} {p : Ptr} :
    p ∈ sidLists st i ↔ p ∈ (st.shards i).sidTable := List.mem_reverse

theorem ipLists_create (st : Store) (i : Fin 16) (s : Session) :
    ipLists (st.create i s) = Function.update (ipLists st) i (ipLists st i ++ [st.brk]) := by
  funext j
  rw [ipLists, create_shards, Function.update_apply]
  split
  · exact List.reverse_cons
  · rfl

theorem sidLists_create (st : Store) (i : Fin 16) (s : Session) :
    sidLists (st.create i s) = Function.update (sidLists st) i (sidLists st i ++ [st.brk]) := by
  funext j
  rw [sidLists, create_shards, Function.update_apply]
  split
  · exact List.reverse_cons
  · rfl

theorem ipLists_unlink {st : Store} (hw : st.WF) (i : Fin 16) (p : Ptr) :
    ipLists (st.unlink i p) = Function.update (ipLists st) i ((ipLists st i).erase p) := by
  funext j
  rw [ipLists, Store.unlink, setShard_shards, Function.update_apply, ipLists,
    erase_reverse (hw.ip_nodup i)]
  split <;> rfl

theorem sidLists_unlink {st : Store} (hw : st.WF) (i : Fin 16) (p : Ptr) :
    sidLists (st.unlink i p) = Function.update (sidLists st) i ((sidLists st i).erase p) := by
  funext j
  rw [sidLists, Store.unlink, setShard_shards, Function.update_apply, sidLists,
    erase_reverse (hw.sid_nodup i)]
  split <;> rfl

theorem sidLists_resid {st : Store} (hw : st.WF) (i : Fin 16) (p : Ptr) (sid : UInt32) :
    sidLists (st.resid i p sid) =
      Function.update (sidLists st) i ((sidLists st i).erase p ++ [p]) := by
  funext j
  show (((st.setShard i _).shards j).sidTable).reverse = _
  rw [setShard_shards, Function.update_apply, sidLists, erase_reverse (hw.sid_nodup i)]
  split
  · exact List.reverse_cons
  · rfl

/-- The memory holds the table: its lists, its sessions, and nothing else is allocated. -/
structure Sim (m : Memory) (st : Store) : Prop where
  standing : Standing m (ipLists st) (sidLists st)
  obj : ∀ p, Live st p → m.obj p = st.heap p
  alive : ∀ p, m.alive p = true ↔ Live st p
  brk : m.brk = st.brk

theorem WF.length_ipTable {st : Store} (h : st.WF) (i : Fin 16) :
    (st.shards i).ipTable.length ≤ st.brk := by
  have hsub := (h.ip_nodup i).subperm fun p hp => List.mem_range.mpr (h.below i p hp)
  simpa using hsub.length_le

theorem WF.length_sidTable {st : Store} (h : st.WF) (i : Fin 16) :
    (st.shards i).sidTable.length ≤ st.brk := by
  have hsub := (h.sid_nodup i).subperm fun p hp =>
    List.mem_range.mpr (h.below i p ((h.same i p).mp hp))
  simpa using hsub.length_le

theorem le32_inj {a b : UInt32} (h : le32 a = le32 b) : a = b := by
  rw [← ofNat_leVal_le32 a, h, ofNat_leVal_le32]

/-- Four bytes of a number are as good a key as the number. -/
theorem find_le32 {o : Elements Ptr} {hh : Handles Ptr} {root : Root Ptr} {t : List Ptr}
    (h : Rep o 4 hh root t.reverse) {fuel : Nat} (hf : t.length ≤ fuel) {f : Ptr → UInt32}
    (hkey : ∀ p ∈ t, o.key p = le32 (f p)) (hd : Keyed.KeysDistinct f t) (k : UInt32) :
    hashFind o fuel hh root (le32 k) = .ok (Keyed.hashFind f t k) := by
  have hkd : Keyed.KeysDistinct o.key t := by
    intro a ha b hb e
    rw [hkey a ha, hkey b hb] at e
    exact hd a ha b hb (le32_inj e)
  have hfind : hashFind o fuel hh root (le32 k) = .ok (Keyed.hashFind o.key t (le32 k)) :=
    Holds.find (s := (hh, root)) h hf hkd (length_le32 k)
  rw [hfind, Keyed.hashFind_congr hkey]
  congr 1
  simp only [Keyed.hashFind]
  congr 1
  funext p
  exact decide_eq_decide.mpr ⟨fun e => le32_inj e, fun e => by rw [e]⟩

section Calls

variable {m : Memory} {st : Store} (h : Sim m st) (hw : st.WF)
include h hw

theorem Sim.findByIp {fuel : Nat} (hf : st.brk ≤ fuel) (i : Fin 16) (vip : UInt32) :
    SessionMem.findByIp fuel m i vip = .ok (Sessions.findByIp st i vip) :=
  find_le32 (h.standing.ip.rep i) (Nat.le_trans (WF.length_ipTable hw i) hf)
    (fun p hp => congrArg (fun s : Session => le32 s.vip) (h.obj p ⟨i, hp⟩)) (hw.vip_distinct i) vip

theorem Sim.findBySid (hd : SidsDistinct st) {fuel : Nat} (hf : st.brk ≤ fuel) (i : Fin 16)
    (sid : UInt32) : SessionMem.findBySid fuel m i sid = .ok (Sessions.findBySid st i sid) := by
  have hlive : ∀ p ∈ (st.shards i).sidTable, Live st p := fun p hp => ⟨i, (hw.same i p).mp hp⟩
  exact find_le32 (h.standing.sid.rep i) (Nat.le_trans (WF.length_sidTable hw i) hf)
    (fun p hp => congrArg (fun s : Session => le32 s.sid) (h.obj p (hlive p hp)))
    (fun a ha b hb e => hd a b (hlive a ha) (hlive b hb) e) sid

end Calls

/-! ## The calls keep the memory -/

theorem Sim.store {m : Memory} {st : Store} (h : Sim m st) {p : Ptr} (hp : Live st p)
    {f : Session → Session} (hv : ∀ s, (f s).vip = s.vip) (hs : ∀ s, (f s).sid = s.sid) :
    ∃ m', m.store p f = .ok m' ∧ Sim m' (st.modify p f) := by
  refine ⟨_, store_eq ((h.alive p).mpr hp) f, h.standing.store (fun _ => hv _) fun _ => hs _,
    fun q hq => ?_, h.alive, h.brk⟩
  rw [modify_heap]
  show Function.update m.obj p (f (m.obj p)) q = _
  by_cases e : q = p
  · rw [e, Function.update_self, if_pos rfl, h.obj p hp]
  · rw [Function.update_of_ne e, if_neg e, h.obj q hq]

/-- How the creation of a session may stop: no block for it, or no room for it in one of the two
tables of its shard. -/
def NewRefused (env : Alloc) (m : Memory) (i : Fin 16) (halt : Halt) : Prop :=
  (halt = .abort ∧ env.zmalloc = false) ∨ env.Refuses (m.ipTable i) halt ∨
    env.Refuses (m.sidTable i) halt

/-- How a change of id may stop: no room in the table that the session has just left. -/
def ResidRefused (env : Alloc) (m : Memory) (i : Fin 16) (p : Ptr) (sid : UInt32) (halt : Halt) :
    Prop :=
  (m.obj p).sid ≠ sid ∧ ∃ m', m.delSid i p = .ok m' ∧ env.Refuses (m'.sidTable i) halt

theorem Sim.newSession {m : Memory} {st : Store} (h : Sim m st) (hw : st.WF) {env : Alloc}
    (hmem : env.malloc (2 ^ 36) = false) {fuel : Nat} (hf : st.brk < fuel) (i : Fin 16)
    (vip sid : UInt32) (draw : Option (Block 32)) (now : Int) :
    Ends (NewRefused env m i) (SessionMem.newSession env fuel m i vip sid draw now) fun r =>
      r.1 = st.brk ∧ Sim r.2 (st.create i ⟨sid, vip, (m.obj st.brk).remoteAddr,
        vfRekeyInit sid draw now, (m.obj st.brk).lastSeen⟩) := by
  cases hz : env.zmalloc with
  | false =>
    exact .inl ⟨.abort, .inl ⟨rfl, hz⟩, by rw [SessionMem.newSession, Memory.zmalloc, hz]; rfl⟩
  | true =>
    set s : Session :=
      ⟨sid, vip, (m.obj st.brk).remoteAddr, vfRekeyInit sid draw now, (m.obj st.brk).lastSeen⟩
    set m₁ : Memory := { m with
      alive := Function.update m.alive st.brk true
      brk := st.brk + 1
      obj := Function.update m.obj st.brk s } with hm₁
    have hrun : SessionMem.newSession env fuel m i vip sid draw now = (do
        let m ← m₁.addIp env fuel i st.brk
        let m ← m.addSid env fuel i st.brk
        .ok (st.brk, m)) := by
      rw [SessionMem.newSession, Memory.zmalloc, hz, h.brk]
      simp only [if_true, bind, Except.bind, Memory.store, Function.update_self,
        Function.update_idem]
      rfl
    have hne : ∀ q, Live st q → q ≠ st.brk := fun q hq => Nat.ne_of_lt (hw.lt_brk hq)
    have hip : ∀ j, st.brk ∉ ipLists st j := fun j hm => hne _ ⟨j, mem_ipLists.mp hm⟩ rfl
    have hsid : ∀ j, st.brk ∉ sidLists st j := fun j hm =>
      hne _ ⟨j, (hw.same j _).mp (mem_sidLists.mp hm)⟩ rfl
    have halive : ∀ q, Live st q → m₁.alive q = true := fun q hq =>
      (Function.update_of_ne (hne q hq) ..).trans ((h.alive q).mpr hq)
    have hst : Standing m₁ (ipLists st) (sidLists st) := by
      have hgrown := h.standing.realloc (st.brk + 1)
        (fun j q hq => halive q ⟨j, mem_ipLists.mp hq⟩)
        fun j q hq => halive q ⟨j, (hw.same j q).mp (mem_sidLists.mp hq)⟩
      exact hgrown.store (p := st.brk) (f := fun _ => s) (fun ⟨j, hj⟩ => absurd hj (hip j))
        fun ⟨j, hj⟩ => absurd hj (hsid j)
    have hbrk : m₁.alive st.brk = true := Function.update_self ..
    rw [hrun]
    have hlen : (ipLists st i).length < fuel := by
      rw [ipLists, List.length_reverse]
      exact Nat.lt_of_le_of_lt (WF.length_ipTable hw i) hf
    have hlen' : (sidLists st i).length < fuel := by
      rw [sidLists, List.length_reverse]
      exact Nat.lt_of_le_of_lt (WF.length_sidTable hw i) hf
    refine ((hst.addIp hmem i hlen hbrk hip).allow fun halt hr => .inr (.inl hr)).bind
      fun m₂ ⟨hst₂, hk₂, hsid₂⟩ => ?_
    have hadd := hst₂.addSid hmem i hlen' (by rw [hk₂.alive, hbrk]) hsid
    rw [hsid₂] at hadd
    refine (hadd.allow fun halt hr => .inr (.inr hr)).bind fun m₃ ⟨hst₃, hk₃⟩ => ?_
    have hk := hk₂.trans hk₃
    refine .ok ⟨rfl, ?_, fun q hq => ?_, fun q => ?_, hk.brk⟩
    · rw [ipLists_create, sidLists_create]
      exact hst₃
    · rw [hk.obj, create_heap]
      show Function.update m.obj st.brk s q = _
      rcases live_create.mp hq with rfl | hq
      · rw [Function.update_self, if_pos rfl]
      · rw [Function.update_of_ne (hne q hq), if_neg (hne q hq), h.obj q hq]
    · rw [hk.alive, live_create]
      show Function.update m.alive st.brk true q = true ↔ _
      by_cases e : q = st.brk
      · rw [e, Function.update_self]
        exact ⟨fun _ => .inl rfl, fun _ => rfl⟩
      · rw [Function.update_of_ne e, h.alive]
        exact ⟨.inr, fun hq => hq.resolve_left e⟩

theorem Sim.oldSession {m : Memory} {st : Store} (h : Sim m st) (hw : st.WF) {env : Alloc}
    (hmem : env.malloc (2 ^ 36) = false) {fuel : Nat} (hf : st.brk < fuel) {i : Fin 16} {p : Ptr}
    (hp : p ∈ (st.shards i).ipTable) (sid : UInt32) :
    Ends (ResidRefused env m i p sid) (SessionMem.oldSession env fuel m i p sid) fun m' =>
      Sim m' (if (st.heap p).sid ≠ sid then st.resid i p sid else st) := by
  have ha : m.alive p = true := (h.alive p).mpr ⟨i, hp⟩
  rw [SessionMem.oldSession, load_eq ha]
  simp only [bind, Except.bind, h.obj p ⟨i, hp⟩]
  by_cases hs : (st.heap p).sid ≠ sid
  · rw [if_pos hs, if_pos hs]
    have hps : p ∈ sidLists st i := mem_sidLists.mpr ((hw.same i p).mpr hp)
    obtain ⟨m₁, he₁, hst₁, hk₁⟩ := h.standing.delSid i hps
    -- out of the id table, the session may change its id
    have hout : ∀ j, p ∉ Function.update (sidLists st) i ((sidLists st i).erase p) j := by
      intro j hj
      by_cases e : j = i
      · rw [e, Function.update_self] at hj
        exact (List.nodup_reverse.mpr (hw.sid_nodup i)).not_mem_erase hj
      · rw [Function.update_of_ne e] at hj
        exact e (h.standing.sid.disjoint j i p hj hps)
    have ha₁ : m₁.alive p = true := by rw [hk₁.alive, ha]
    have hst₂ := hst₁.store (p := p) (f := fun s => { s with sid := sid }) (fun _ => rfl)
      fun ⟨j, hj⟩ => absurd hj (hout j)
    simp only [he₁, store_eq ha₁]
    have hlen : (Function.update (sidLists st) i ((sidLists st i).erase p) i).length < fuel := by
      rw [Function.update_self]
      refine Nat.lt_of_le_of_lt (List.length_erase_le ..) (Nat.lt_of_le_of_lt ?_ hf)
      rw [sidLists, List.length_reverse]
      exact WF.length_sidTable hw i
    have hadd : Ends (ResidRefused env m i p sid) _ _ :=
      (hst₂.addSid hmem i hlen ha₁ hout).allow fun halt hr =>
        ⟨by rwa [h.obj p ⟨i, hp⟩], m₁, he₁, hr⟩
    refine hadd.mono fun m₃ ⟨hst₃, hk₃⟩ => ⟨?_, fun q hq => ?_, fun q => ?_, ?_⟩
    · rw [Function.update_self, Function.update_idem, ← sidLists_resid hw i p sid] at hst₃
      have hip : ipLists (st.resid i p sid) = ipLists st := by
        funext j
        rw [ipLists, resid_ipTable, ipLists]
      rwa [hip]
    · rw [hk₃.obj, resid_heap]
      show Function.update m₁.obj p { m₁.obj p with sid := sid } q = _
      rw [hk₁.obj]
      by_cases e : q = p
      · rw [e, Function.update_self, if_pos rfl, h.obj p ⟨i, hp⟩]
      · rw [Function.update_of_ne e, if_neg e, h.obj q (live_resid.mp hq)]
    · rw [hk₃.alive, live_resid, ← h.alive]
      show m₁.alive q = true ↔ _
      rw [hk₁.alive]
    · exact hk₃.brk.trans (hk₁.brk.trans h.brk)
  · rw [if_neg hs, if_neg hs]
    exact .ok h

def UpdateRefused (env : Alloc) (fuel : Nat) (m : Memory) (vip sid : UInt32) (halt : Halt) : Prop :=
  match SessionMem.vfSsLookupByIp fuel m vip with
  | .error _ => False
  | .ok none => NewRefused env m (shardOf vip) halt
  | .ok (some p) => ResidRefused env m (shardOf vip) p sid halt

/-- **Updating.** -/
theorem Sim.update {m : Memory} {st : Store} (h : Sim m st) (hw : st.WF) {env : Alloc}
    (hmem : env.malloc (2 ^ 36) = false) {fuel : Nat} (hf : st.brk < fuel) (vip sid : UInt32)
    (addr : SockAddr) (draw : Option (Block 32)) (now : Int) :
    Ends (UpdateRefused env fuel m vip sid)
      (SessionMem.vfSsUpdate env fuel m vip sid addr draw now) fun m' =>
      Sim m' (Sessions.vfSsUpdate st vip sid addr draw now) := by
  -- the endpoint and the time are stored last
  have hfill : ∀ {stop : Halt → Prop} {m₁ : Memory} {st₁ : Store} {p : Ptr}, Sim m₁ st₁ →
      Live st₁ p → Ends stop (do
        let m ← m₁.store p fun s => { s with remoteAddr := addr }
        m.store p fun s => { s with lastSeen := now }) fun m' =>
          Sim m' (st₁.modify p fun s => { s with remoteAddr := addr, lastSeen := now }) := by
    intro stop m₁ st₁ p h₁ hp
    obtain ⟨m₂, he₂, h₂⟩ := h₁.store hp (f := fun s => { s with remoteAddr := addr })
      (fun _ => rfl) fun _ => rfl
    obtain ⟨m₃, he₃, h₃⟩ := h₂.store (live_modify.mpr hp)
      (f := fun s => { s with lastSeen := now }) (fun _ => rfl) fun _ => rfl
    rw [he₂]
    refine .inr ⟨m₃, he₃, ?_⟩
    simpa only [Store.modify, Function.update_self, Function.update_idem] using h₃
  have hlookup : SessionMem.vfSsLookupByIp fuel m vip =
      .ok (Sessions.findByIp st (shardOf vip) vip) := h.findByIp hw (Nat.le_of_lt hf) _ vip
  have hstop : UpdateRefused env fuel m vip sid = fun halt =>
      match Sessions.findByIp st (shardOf vip) vip with
      | none => NewRefused env m (shardOf vip) halt
      | some p => ResidRefused env m (shardOf vip) p sid halt := by
    funext halt
    rw [UpdateRefused, hlookup]
    cases Sessions.findByIp st (shardOf vip) vip <;> rfl
  rw [hstop, SessionMem.vfSsUpdate, h.findByIp hw (Nat.le_of_lt hf), Sessions.vfSsUpdate]
  cases hfind : Sessions.findByIp st (shardOf vip) vip with
  | none =>
    refine (h.newSession hw hmem hf (shardOf vip) vip sid draw now).bind ?_
    rintro ⟨p, m₁⟩ ⟨rfl, h₁⟩
    refine (hfill h₁ (live_create.mpr (.inl rfl))).mono fun m' h' => ?_
    simpa only [Store.modify, Store.create, Function.update_self, Function.update_idem] using h'
  | some p =>
    obtain ⟨hp, -⟩ := Keyed.hashFind_some hfind
    have hlive : Live (if (st.heap p).sid ≠ sid then st.resid (shardOf vip) p sid else st) p := by
      split
      · exact live_resid.mpr ⟨_, hp⟩
      · exact ⟨_, hp⟩
    exact (h.oldSession hw hmem hf hp sid).bind fun m₁ h₁ => hfill h₁ hlive

theorem Sim.updateBySid {m : Memory} {st : Store} (h : Sim m st) (hw : st.WF) (hd : SidsDistinct st)
    {fuel : Nat} (hf : st.brk ≤ fuel) (sid : UInt32) (addr : SockAddr) (now : Int) :
    ∃ m', SessionMem.vfSsUpdateBySid fuel m sid addr now = .ok m' ∧
      Sim m' (Sessions.vfSsUpdateBySid st sid addr now) := by
  rw [SessionMem.vfSsUpdateBySid, h.findBySid hw hd hf, Sessions.vfSsUpdateBySid]
  cases hfind : Sessions.findBySid st (shardOf sid) sid with
  | none => exact ⟨m, rfl, h⟩
  | some p =>
    have hp : Live st p := (lookupBySid_some hw hfind).1
    simp only [bind, Except.bind, load_eq ((h.alive p).mpr hp), h.obj p hp]
    by_cases hr : (st.heap p).remoteAddr.addr ≠ addr.addr ∨ (st.heap p).remoteAddr.port ≠ addr.port
    · obtain ⟨m₁, he₁, h₁⟩ := h.store hp (f := fun s => { s with remoteAddr := addr })
        (fun _ => rfl) fun _ => rfl
      obtain ⟨m₂, he₂, h₂⟩ := h₁.store (live_modify.mpr hp)
        (f := fun s => { s with lastSeen := now }) (fun _ => rfl) fun _ => rfl
      refine ⟨m₂, ?_, ?_⟩
      · rw [if_pos hr, he₁]
        exact he₂
      · simpa only [Store.modify, Function.update_self, Function.update_idem, if_pos hr] using h₂
    · obtain ⟨m₁, he₁, h₁⟩ := h.store hp (f := fun s => { s with lastSeen := now })
        (fun _ => rfl) fun _ => rfl
      refine ⟨m₁, ?_, ?_⟩
      · rw [if_neg hr]
        exact he₁
      · simpa only [Store.modify, if_neg hr] using h₁

theorem Sim.unlink {m : Memory} {st : Store} (h : Sim m st) (hw : st.WF) {i : Fin 16} {p : Ptr}
    (hp : p ∈ (st.shards i).ipTable) : ∃ m', m.unlink i p = .ok m' ∧
      Standing m' (ipLists (st.unlink i p)) (sidLists (st.unlink i p)) ∧ Kept m m' := by
  obtain ⟨m₁, he₁, hst₁, hk₁⟩ := h.standing.delIp i (mem_ipLists.mpr hp)
  obtain ⟨m₂, he₂, hst₂, hk₂⟩ := hst₁.delSid i (mem_sidLists.mpr ((hw.same i p).mpr hp))
  refine ⟨m₂, ?_, ?_, hk₁.trans hk₂⟩
  · rw [Memory.unlink, he₁]
    exact he₂
  · rw [ipLists_unlink hw, sidLists_unlink hw]
    exact hst₂

theorem Sim.free {m m' : Memory} {st : Store} (h : Sim m st) (hw : st.WF) {i : Fin 16} {p : Ptr}
    (hp : p ∈ (st.shards i).ipTable)
    (hst : Standing m' (ipLists (st.unlink i p)) (sidLists (st.unlink i p)))
    (halive : m'.alive = m.alive) (hobj : ∀ q, q ≠ p → m'.obj q = m.obj q) (hbrk : m'.brk = m.brk) :
    ∃ m'', m'.zfree p = .ok m'' ∧ Sim m'' (st.unlink i p) := by
  have hfreed : ∀ q, Function.update m'.alive p false q = true ↔ Live (st.unlink i p) q := by
    intro q
    rw [live_unlink hw hp, ← h.alive, halive]
    by_cases e : q = p
    · rw [e, Function.update_self]
      exact ⟨fun hq => absurd hq Bool.false_ne_true, fun hq => absurd rfl hq.2⟩
    · rw [Function.update_of_ne e]
      exact ⟨fun hq => ⟨hq, e⟩, fun hq => hq.1⟩
  have ha : m'.alive p = true := by rw [halive, h.alive]; exact ⟨i, hp⟩
  refine ⟨{ m' with alive := Function.update m'.alive p false }, by rw [Memory.zfree, if_pos ha],
    hst.realloc m'.brk (fun j q hq => ?_) fun j q hq => ?_, fun q hq => ?_, hfreed,
      hbrk.trans h.brk⟩
  · exact (hfreed q).mpr ⟨j, mem_ipLists.mp hq⟩
  · exact (hfreed q).mpr ⟨j, ((hw.unlink i p).same j q).mp (mem_sidLists.mp hq)⟩
  · obtain ⟨hq, hne⟩ := (live_unlink hw hp).mp hq
    exact (hobj q hne).trans (h.obj q hq)

theorem Sim.unlinkFree {m : Memory} {st : Store} (h : Sim m st) (hw : st.WF) {i : Fin 16} {p : Ptr}
    (hp : p ∈ (st.shards i).ipTable) : ∃ m' m'', m.unlink i p = .ok m' ∧ m'.zfree p = .ok m'' ∧
      Sim m'' (st.unlink i p) := by
  obtain ⟨m₁, he₁, hst₁, hk₁⟩ := h.unlink hw hp
  obtain ⟨m₂, he₂, h₂⟩ := h.free hw hp hst₁ hk₁.alive (fun q _ => congrFun hk₁.obj q) hk₁.brk
  exact ⟨m₁, m₂, he₁, he₂, h₂⟩

theorem Sim.delete {m : Memory} {st : Store} (h : Sim m st) (hw : st.WF) {fuel : Nat}
    (hf : st.brk ≤ fuel) (vip : UInt32) :
    ∃ m', SessionMem.vfSsDelete fuel m vip = .ok m' ∧ Sim m' (Sessions.vfSsDelete st vip) := by
  rw [SessionMem.vfSsDelete, h.findByIp hw hf, Sessions.vfSsDelete]
  cases hfind : Sessions.findByIp st (shardOf vip) vip with
  | none => exact ⟨m, rfl, h⟩
  | some p =>
    obtain ⟨hp, -⟩ := Keyed.hashFind_some hfind
    obtain ⟨m₁, he₁, hst₁, hk₁⟩ := h.unlink hw hp
    have ha₁ : m₁.alive p = true := by rw [hk₁.alive, h.alive]; exact ⟨_, hp⟩
    -- the key context is wiped while the session is in neither table
    have hst₂ := hst₁.store (p := p) (f := fun s => { s with secCtx := SecCtx.zero })
      (fun _ => rfl) fun _ => rfl
    obtain ⟨m₃, he₃, h₃⟩ := h.free hw hp hst₂ hk₁.alive
      (fun q hq => (Function.update_of_ne hq ..).trans (congrFun hk₁.obj q)) hk₁.brk
    refine ⟨m₃, ?_, h₃⟩
    simp only [bind, Except.bind, he₁, store_eq ha₁]
    exact he₃

/-! ## The loops -/

/-- What a walk over a shard needs: the sessions still to come end its list. -/
structure Walking (fuel : Nat) (i : Fin 16) (m : Memory) (st : Store) (l : List Ptr) : Prop where
  sim : Sim m st
  wf : st.WF
  rest : l <:+ ipLists st i
  brk : st.brk ≤ fuel

section Walks

variable {fuel : Nat} {i : Fin 16} {m : Memory} {st : Store}

theorem Walking.start (h : Sim m st) (hw : st.WF) (hf : st.brk ≤ fuel) :
    Walking fuel i m st (ipLists st i) := ⟨h, hw, List.suffix_refl _, hf⟩

theorem Walking.head {p : Ptr} {l : List Ptr} (h : Walking fuel i m st (p :: l)) :
    p ∈ (st.shards i).ipTable := mem_ipLists.mp (h.rest.subset List.mem_cons_self)

theorem Walking.links {p : Ptr} {l : List Ptr} (h : Walking fuel i m st (p :: l)) :
    m.byIp.alive p = true ∧ m.hhIp.next p = l.head? :=
  (h.sim.standing.ip.rep i).suffix h.rest

theorem Walking.length_le {l : List Ptr} (h : Walking fuel i m st l) : l.length ≤ fuel := by
  refine Nat.le_trans h.rest.length_le (Nat.le_trans ?_ h.brk)
  rw [ipLists, List.length_reverse]
  exact WF.length_ipTable h.wf i

theorem Walking.load {p : Ptr} {l : List Ptr} (h : Walking fuel i m st (p :: l)) :
    m.load p = .ok (st.heap p) := by
  rw [load_eq ((h.sim.alive p).mpr ⟨i, h.head⟩), h.sim.obj p ⟨i, h.head⟩]

/-- The session at hand is unlinked and freed, and the walk goes on. -/
theorem Walking.drop {p : Ptr} {l : List Ptr} (h : Walking fuel i m st (p :: l)) :
    ∃ m' m'', m.unlink i p = .ok m' ∧ m'.zfree p = .ok m'' ∧
      Walking fuel i m'' (st.unlink i p) l := by
  obtain ⟨m₁, m₂, he₁, he₂, h₂⟩ := h.sim.unlinkFree h.wf h.head
  refine ⟨m₁, m₂, he₁, he₂, h₂, h.wf.unlink i p, ?_, h.brk⟩
  rw [ipLists_unlink h.wf, Function.update_self]
  exact Keyed.suffix_erase (List.nodup_reverse.mpr (h.wf.ip_nodup i)) h.rest

theorem Walking.keep {p : Ptr} {l : List Ptr} (h : Walking fuel i m st (p :: l)) :
    Walking fuel i m st l := ⟨h.sim, h.wf, (List.suffix_cons p l).trans h.rest, h.brk⟩

/-! ### The reaper -/

section Clean

variable (timeoutSec now : Int)

theorem cleanBody_walking (ipp : Option IpPool) {p : Ptr} {l : List Ptr}
    (h : Walking fuel i m st (p :: l)) :
    ∃ m', cleanBody timeoutSec now i (m, ipp) p =
        .ok ((m', (cleanStep timeoutSec now i (st, ipp) p).2), false) ∧
      Walking fuel i m' (cleanStep timeoutSec now i (st, ipp) p).1 l := by
  by_cases hs : now - (st.heap p).lastSeen > timeoutSec
  · obtain ⟨m₁, m₂, he₁, he₂, h₂⟩ := h.drop
    refine ⟨m₂, ?_, ?_⟩
    · simp only [cleanBody, cleanStep, bind, Except.bind, h.load, if_pos hs, he₁, he₂]
    · rw [cleanStep, if_pos hs]
      exact h₂
  · refine ⟨m, ?_, ?_⟩
    · simp only [cleanBody, cleanStep, bind, Except.bind, h.load, if_neg hs]
    · rw [cleanStep, if_neg hs]
      exact h.keep

theorem cleanLoop_walking {l : List Ptr} (ipp : Option IpPool) (h : Walking fuel i m st l) :
    ∃ m', iterList (cleanBody timeoutSec now i) l (m, ipp) =
        .ok (m', (l.foldl (cleanStep timeoutSec now i) (st, ipp)).2) ∧
      Walking fuel i m' (l.foldl (cleanStep timeoutSec now i) (st, ipp)).1 [] := by
  induction l generalizing m st ipp with
  | nil => exact ⟨m, rfl, h⟩
  | cons p l ih =>
    obtain ⟨m₁, he₁, h₁⟩ := cleanBody_walking timeoutSec now ipp h
    obtain ⟨m₂, he₂, h₂⟩ := ih (cleanStep timeoutSec now i (st, ipp) p).2 h₁
    refine ⟨m₂, ?_, h₂⟩
    rw [iterList, he₁]
    exact he₂

theorem cleanShard_walking (ipp : Option IpPool) (h : Sim m st) (hw : st.WF) (hf : st.brk ≤ fuel) :
    ∃ m', SessionMem.cleanShard fuel timeoutSec now (m, ipp) i =
        .ok (m', (Sessions.cleanShard timeoutSec now (st, ipp) i).2) ∧
      Walking fuel i m' (Sessions.cleanShard timeoutSec now (st, ipp) i).1 [] := by
  have hstart : Walking fuel i m st (ipLists st i) := .start h hw hf
  obtain ⟨m', he, h'⟩ := cleanLoop_walking timeoutSec now ipp hstart
  refine ⟨m', ?_, h'⟩
  refine Eq.trans ?_ he
  refine hashIter_eq (fun acc l => ∃ st', Walking fuel i acc.1 st' l)
    (fun acc p l ⟨st', hl⟩ => hl.links) (fun acc p l acc' ⟨st', hl⟩ hb => ?_) hstart.length_le
    ⟨st, hstart⟩ (h.standing.ip.rep i).head
  obtain ⟨m₁, he₁, h₁⟩ := cleanBody_walking timeoutSec now acc.2 hl
  rw [hb] at he₁
  cases he₁
  exact ⟨_, h₁⟩

theorem cleanShards_sim (is : List (Fin 16)) (ipp : Option IpPool) (h : Sim m st) (hw : st.WF)
    (hf : st.brk ≤ fuel) :
    ∃ m', is.foldlM (SessionMem.cleanShard fuel timeoutSec now) (m, ipp) =
        .ok (m', (is.foldl (Sessions.cleanShard timeoutSec now) (st, ipp)).2) ∧
      Sim m' (is.foldl (Sessions.cleanShard timeoutSec now) (st, ipp)).1 := by
  induction is generalizing m st ipp with
  | nil => exact ⟨m, rfl, h⟩
  | cons i is ih =>
    obtain ⟨m₁, he₁, h₁⟩ := cleanShard_walking (i := i) timeoutSec now ipp h hw hf
    obtain ⟨m₂, he₂, h₂⟩ := ih (Sessions.cleanShard timeoutSec now (st, ipp) i).2 h₁.sim h₁.wf
      h₁.brk
    refine ⟨m₂, ?_, h₂⟩
    rw [List.foldlM_cons, he₁]
    exact he₂

end Clean

/-! ### The other walks -/

theorem expiredLoop_eq (maxCount : Nat) (probeSec deadSec now : Int) {l : List Ptr}
    (acc : List ExpiredNode) (h : Walking fuel i m st l) :
    iterList (expiredBody m maxCount probeSec deadSec now) l acc =
      .ok (expiredScan st maxCount probeSec deadSec now l acc) := by
  induction l generalizing acc with
  | nil => rfl
  | cons p l ih =>
    simp only [iterList, expiredBody, expiredScan, bind, Except.bind, h.load]
    by_cases hidle : now - (st.heap p).lastSeen ≥ probeSec
    · simp only [if_pos hidle, decide_eq_true_eq]
      by_cases hfull : (acc ++ [expiredNode (st.heap p) deadSec now]).length ≥ maxCount
      · rw [if_pos hfull, if_pos hfull]
      · rw [if_neg hfull, if_neg hfull]
        exact ih _ h.keep
    · simp only [if_neg hidle, Bool.false_eq_true, if_false]
      exact ih acc h.keep

theorem Sim.getExpired (h : Sim m st) (hw : st.WF) (hf : st.brk ≤ fuel) (maxCount : Nat)
    (probeSec deadSec now : Int) :
    SessionMem.vfSsGetExpired fuel m maxCount probeSec deadSec now =
      .ok (Sessions.vfSsGetExpired st maxCount probeSec deadSec now) := by
  have hshards : ∀ (is : List (Fin 16)) (acc : List ExpiredNode),
      SessionMem.expiredShards fuel m maxCount probeSec deadSec now is acc =
        .ok (Sessions.expiredShards st maxCount probeSec deadSec now is acc) := by
    intro is
    induction is with
    | nil => exact fun acc => rfl
    | cons i is ih =>
      intro acc
      have hstart : Walking fuel i m st (ipLists st i) := .start h hw hf
      have hwalk : hashIter (fun _ => m.byIp) (fun _ => m.hhIp) (fun _ => m.ipTable i)
          (expiredBody m maxCount probeSec deadSec now) fuel acc =
            .ok (expiredScan st maxCount probeSec deadSec now (ipLists st i) acc) := by
        rw [← expiredLoop_eq maxCount probeSec deadSec now acc hstart]
        exact hashIter_eq (fun _ l => Walking fuel i m st l) (fun _ p l hl => hl.links)
          (fun _ p l _ hl _ => hl.keep) hstart.length_le hstart (h.standing.ip.rep i).head
      simp only [SessionMem.expiredShards, Sessions.expiredShards, bind, Except.bind, hwalk]
      rw [ih]
      split
      · rename_i hfull
        exact (congrArg Except.ok (if_pos hfull)).symm
      · rename_i hfull
        exact (congrArg Except.ok (if_neg hfull)).symm
  exact hshards (List.finRange 16) []

theorem Sim.totalCount (h : Sim m st) :
    SessionMem.vfSsGetTotalCount m = .ok (Sessions.vfSsGetTotalCount st) := by
  have hfold : ∀ (is : List (Fin 16)) (n : UInt32),
      is.foldlM (fun n i => do
        let c ← hashCnt m.byIp (m.ipTable i)
        .ok (n + c)) n =
      (.ok (is.foldl (fun n i => n + UInt32.ofNat (Keyed.hashCnt (st.shards i).ipTable)) n) :
        Except Halt UInt32) := by
    intro is
    induction is with
    | nil => exact fun n => rfl
    | cons i is ih =>
      intro n
      rw [List.foldlM_cons, List.foldl_cons, ← ih, (h.standing.ip.rep i).cnt, ipLists,
        List.length_reverse]
      rfl
  exact hfold (List.finRange 16) 0

theorem destroyLoop_walking {l : List Ptr} (h : Walking fuel i m st l) (hl : ipLists st i = l) :
    ∃ m' st', iterList (destroyBody i) l m = .ok m' ∧ Walking fuel i m' st' [] ∧
      ipLists st' i = [] ∧ ∀ j, j ≠ i → ipLists st' j = ipLists st j := by
  induction l generalizing m st with
  | nil => exact ⟨m, st, rfl, h, hl, fun _ _ => rfl⟩
  | cons p l ih =>
    obtain ⟨m₁, m₂, he₁, he₂, h₂⟩ := h.drop
    have hlists := ipLists_unlink h.wf i p
    have hrest : ipLists (st.unlink i p) i = l := by
      rw [hlists, Function.update_self, hl, List.erase_cons_head]
    obtain ⟨m', st', he, h', hnil, hother⟩ := ih h₂ hrest
    refine ⟨m', st', ?_, h', hnil, fun j hj => ?_⟩
    · simp only [iterList, destroyBody, bind, Except.bind, he₁, he₂]
      exact he
    · rw [hother j hj, hlists, Function.update_of_ne hj]

theorem destroyShards_sim (is : List (Fin 16)) (h : Sim m st) (hw : st.WF) (hf : st.brk ≤ fuel) :
    ∃ m' st', is.foldlM (fun m i => hashIter Memory.byIp Memory.hhIp (fun m => m.ipTable i)
        (destroyBody i) fuel m) m = .ok m' ∧ Sim m' st' ∧ st'.WF ∧
      ∀ j, j ∈ is ∨ ipLists st j = [] → ipLists st' j = [] := by
  induction is generalizing m st with
  | nil => exact ⟨m, st, rfl, h, hw, fun j hj => hj.resolve_left List.not_mem_nil⟩
  | cons i is ih =>
    have hstart : Walking fuel i m st (ipLists st i) := .start h hw hf
    obtain ⟨m₁, st₁, he₁, h₁, hnil, hother⟩ := destroyLoop_walking hstart rfl
    have hwalk : hashIter Memory.byIp Memory.hhIp (fun m => m.ipTable i) (destroyBody i) fuel m =
        .ok m₁ := by
      rw [← he₁]
      refine hashIter_eq (fun m l => ∃ st', Walking fuel i m st' l)
        (fun m p l ⟨st', hl⟩ => hl.links)
        (fun m p l m' ⟨st', hl⟩ hb => ?_) hstart.length_le ⟨st, hstart⟩ (h.standing.ip.rep i).head
      obtain ⟨n₁, n₂, hn₁, hn₂, h₂⟩ := hl.drop
      simp only [destroyBody, bind, Except.bind, hn₁, hn₂] at hb
      cases hb
      exact ⟨_, h₂⟩
    obtain ⟨m₂, st₂, he₂, h₂, hw₂, hall⟩ := ih h₁.sim h₁.wf h₁.brk
    refine ⟨m₂, st₂, ?_, h₂, hw₂, fun j hj => hall j ?_⟩
    · rw [List.foldlM_cons, hwalk]
      exact he₂
    · by_cases e : j = i
      · exact .inr (e ▸ hnil)
      · rw [hother j e]
        exact hj.imp_left fun hj => (List.mem_cons.mp hj).resolve_left e

/-- **Teardown.** Every session is freed once, and no table is left. -/
theorem Sim.destroy (h : Sim m st) (hw : st.WF) (hf : st.brk ≤ fuel) :
    ∃ m', vfSsDestroy fuel m = .ok m' ∧ (∀ p, m'.alive p = false) ∧
      ∀ i, (m'.ipTable i).head = none ∧ (m'.sidTable i).head = none := by
  obtain ⟨m', st', he, h', hw', hnil⟩ := destroyShards_sim (List.finRange 16) h hw hf
  have hip : ∀ i, ipLists st' i = [] := fun i => hnil i (.inl (List.mem_finRange i))
  have hsid : ∀ i, sidLists st' i = [] := fun i => by
    refine List.eq_nil_iff_forall_not_mem.mpr fun p hp => ?_
    have hp := mem_ipLists.mpr ((hw'.same i p).mp (mem_sidLists.mp hp))
    rw [hip i] at hp
    exact List.not_mem_nil hp
  refine ⟨m', he, fun p => Bool.eq_false_iff.mpr fun ha => ?_, fun i => ⟨?_, ?_⟩⟩
  · obtain ⟨i, hp⟩ := (h'.alive p).mp ha
    have hp := mem_ipLists.mpr hp
    rw [hip i] at hp
    exact List.not_mem_nil hp
  · rw [(h'.standing.ip.rep i).head, hip i, List.head?_nil]
  · rw [(h'.standing.sid.rep i).head, hsid i, List.head?_nil]

end Walks

/-! ## Whole runs -/

/-- `vf_ss_init`, in a memory without sessions. -/
def vfSsInit (obj : Ptr → Session) (hhIp hhSid : Handles Ptr) : Memory where
  alive _ := false
  obj := obj
  brk := 0
  hhIp := hhIp
  hhSid := hhSid
  ipTable _ := Root.empty
  sidTable _ := Root.empty

theorem sim_init (obj : Ptr → Session) (hhIp hhSid : Handles Ptr) :
    Sim (vfSsInit obj hhIp hhSid) (Store.empty obj) where
  standing := ⟨⟨fun _ => Rep.empty _ 4 hhIp none, fun _ _ _ hp => absurd hp List.not_mem_nil⟩,
    ⟨fun _ => Rep.empty _ 4 hhSid none, fun _ _ _ hp => absurd hp List.not_mem_nil⟩⟩
  obj _ _ := rfl
  alive p := ⟨fun h => absurd h Bool.false_ne_true, fun h => absurd h (not_live_empty obj p)⟩
  brk := rfl

/-- A call on memory, with what the allocator does during it. -/
def runMem (fuel : Nat) (m : Memory) (c : Alloc × Call) : Except Halt Memory :=
  match c.2 with
  | .update vip sid addr draw now => SessionMem.vfSsUpdate c.1 fuel m vip sid addr draw now
  | .updateBySid sid addr now => SessionMem.vfSsUpdateBySid fuel m sid addr now
  | .delete vip => SessionMem.vfSsDelete fuel m vip
  | .cleanTimeout ipp timeoutSec now => do
    let r ← SessionMem.vfSsCleanTimeout fuel m ipp timeoutSec now
    .ok r.1

/-- Updates come with an id of the address's shard that no other entry has; no more than 64 GiB
can be had at once. -/
def Admissible (f : Flat) (c : Alloc × Call) : Prop :=
  c.1.malloc (2 ^ 36) = false ∧
  match c.2 with
  | .update vip sid .. => shardOf sid = shardOf vip ∧
      ∀ v e, f v = some e → v ≠ vip → e.sid ≠ sid
  | _ => True

def AdmissibleRun : Flat → List (Alloc × Call) → Prop
  | _, [] => True
  | f, c :: cs => Admissible f c ∧ AdmissibleRun (c.2.runFlat f) cs

theorem Admissible.aligned {f : Flat} {st : Store} (h : Refines st f) {c : Alloc × Call}
    (hc : Admissible f c) : c.2.Aligned st := by
  obtain ⟨env, c⟩ := c
  cases c with
  | update vip sid addr draw now =>
    exact ⟨hc.2.1, fun p hp hne => hc.2.2 _ _ (h.sound p hp) hne⟩
  | updateBySid sid addr now => trivial
  | delete vip => trivial
  | cleanTimeout ipp timeoutSec now => trivial

theorem foldl_keeps {α β γ : Type} (g : α → γ) {f : α → β → α} (h : ∀ a b, g (f a b) = g a)
    (l : List β) (a : α) : g (l.foldl f a) = g a := by
  induction l generalizing a with
  | nil => rfl
  | cons b l ih => rw [List.foldl_cons, ih, h]

theorem brk_cleanTimeout (st : Store) (ipp : Option IpPool) (timeoutSec now : Int) :
    (Sessions.vfSsCleanTimeout st ipp timeoutSec now).1.brk = st.brk := by
  have hstep : ∀ i acc p, (cleanStep timeoutSec now i acc p).1.brk = acc.1.brk := by
    intro i acc p
    rw [cleanStep]
    split <;> rfl
  have hshard : ∀ acc i, (Sessions.cleanShard timeoutSec now acc i).1.brk = acc.1.brk := by
    intro acc i
    rw [Sessions.cleanShard]
    exact foldl_keeps (fun acc => acc.1.brk) (hstep i) _ acc
  rw [Sessions.vfSsCleanTimeout]
  exact foldl_keeps (fun acc => acc.1.brk) hshard _ (st, ipp)

theorem brk_run (st : Store) (c : Call) : (c.run st).brk ≤ st.brk + 1 := by
  cases c with
  | update vip sid addr draw now =>
    show (Sessions.vfSsUpdate st vip sid addr draw now).brk ≤ _
    rw [Sessions.vfSsUpdate]
    split
    · exact Nat.le_refl _
    · simp only []
      split <;> exact Nat.le_succ _
  | updateBySid sid addr now =>
    show (Sessions.vfSsUpdateBySid st sid addr now).brk ≤ _
    rw [(touch_updateBySid st sid addr now).brk]
    exact Nat.le_succ _
  | delete vip =>
    show (Sessions.vfSsDelete st vip).brk ≤ _
    rw [Sessions.vfSsDelete]
    split <;> exact Nat.le_succ _
  | cleanTimeout ipp timeoutSec now =>
    rw [Call.run, brk_cleanTimeout]
    exact Nat.le_succ _

/-- How a call may stop for want of memory: an update, and no other. -/
def Refused (fuel : Nat) (m : Memory) (c : Alloc × Call) (halt : Halt) : Prop :=
  match c.2 with
  | .update vip sid .. => UpdateRefused c.1 fuel m vip sid halt
  | _ => False

theorem Sim.call {m : Memory} {st : Store} {f : Flat} (h : Sim m st) (hr : Refines st f)
    {fuel : Nat} (hf : st.brk < fuel) {c : Alloc × Call} (hc : Admissible f c) :
    Ends (Refused fuel m c) (runMem fuel m c) fun m' => Sim m' (c.2.run st) := by
  obtain ⟨env, c⟩ := c
  cases c with
  | update vip sid addr draw now => exact h.update hr.wf hc.1 hf vip sid addr draw now
  | updateBySid sid addr now =>
    exact .inr (h.updateBySid hr.wf hr.sids (Nat.le_of_lt hf) sid addr now)
  | delete vip => exact .inr (h.delete hr.wf (Nat.le_of_lt hf) vip)
  | cleanTimeout ipp timeoutSec now =>
    obtain ⟨m', he, h'⟩ := cleanShards_sim timeoutSec now (List.finRange 16) ipp h hr.wf
      (Nat.le_of_lt hf)
    refine .inr ⟨m', ?_, h'⟩
    simp only [runMem, SessionMem.vfSsCleanTimeout, he]
    rfl

/-- The program has stopped in a call to which the memory it asked for was refused. -/
def RanOut (fuel : Nat) (m : Memory) (cs : List (Alloc × Call)) : Prop :=
  Run.Stops (List.foldlM (runMem fuel) m) (Refused fuel) cs

theorem Sim.calls {fuel : Nat} {cs : List (Alloc × Call)} {m : Memory} {st : Store} {f : Flat}
    (h : Sim m st) (hr : Refines st f) (hf : st.brk + cs.length ≤ fuel) (hc : AdmissibleRun f cs) :
    RanOut fuel m cs ∨
    ∃ m' st', cs.foldlM (runMem fuel) m = .ok m' ∧ Sim m' st' ∧
      Refines st' (cs.foldl (fun f c => c.2.runFlat f) f) ∧ st'.brk ≤ fuel := by
  induction cs generalizing m st f with
  | nil => exact .inr ⟨m, st, rfl, h, hr, hf⟩
  | cons c cs ih =>
    rw [List.length_cons] at hf
    have hlt : st.brk < fuel := Nat.lt_of_lt_of_le (Nat.lt_add_of_pos_right (Nat.succ_pos _)) hf
    rw [List.foldlM_cons, List.foldl_cons]
    rcases h.call hr hlt hc.1 with ⟨halt, hs, he⟩ | ⟨m₁, he, h₁⟩
    · exact .inl (.head he hs cs)
    · have hf₁ : (c.2.run st).brk + cs.length ≤ fuel :=
        calc (c.2.run st).brk + cs.length ≤ st.brk + 1 + cs.length :=
              Nat.add_le_add_right (brk_run st c.2) _
          _ = st.brk + (cs.length + 1) := Nat.add_right_comm ..
          _ ≤ fuel := hf
      rw [he]
      exact (ih h₁ (hr.call c.2 (hc.1.aligned hr)) hf₁ hc.2).imp_left (.cons he)

/-- The allocated sessions are as many as the entries. -/
theorem Sim.ncard_alive {m : Memory} {st : Store} {f : Flat} (h : Sim m st) (hr : Refines st f) :
    Set.ncard {p | m.alive p = true} = f.size := by
  have hset : {p | m.alive p = true} = ↑(allSessions st).toFinset := by
    ext p
    simp only [Set.mem_ofPred_eq, List.coe_toFinset, mem_allSessions]
    exact h.alive p
  rw [hr.size_eq, hset, Set.ncard_coe_finset,
    List.toFinset_card_of_nodup (nodup_allSessions hr.wf)]

def flatNode (v : UInt32) (e : Entry) (deadSec now : Int) : ExpiredNode :=
  ⟨e.sid, v, e.addr, now - e.lastSeen ≥ deadSec⟩

/-- The nodes are entries that are idle long enough, and all of them if there was room. -/
def ListsIdle (f : Flat) (maxCount : Nat) (probeSec deadSec now : Int)
    (nodes : List ExpiredNode) : Prop :=
  nodes.length ≤ maxCount ∧
  (∀ node ∈ nodes, ∃ e, f node.vip = some e ∧ now - e.lastSeen ≥ probeSec ∧
    node = flatNode node.vip e deadSec now) ∧
  (nodes.length < maxCount → ∀ v e, f v = some e → now - e.lastSeen ≥ probeSec →
    flatNode v e deadSec now ∈ nodes)

theorem listsIdle_getExpired {st : Store} {f : Flat} (hr : Refines st f) {maxCount : Nat}
    (h0 : 0 < maxCount) (probeSec deadSec now : Int) :
    ListsIdle f maxCount probeSec deadSec now
      (Sessions.vfSsGetExpired st maxCount probeSec deadSec now) := by
  refine ⟨?_, fun node hn => ?_, fun hlt v e hv hidle => ?_⟩
  · rw [vfSsGetExpired_eq h0, List.length_take]
    exact Nat.min_le_left ..
  · obtain ⟨p, hp, hidle, rfl⟩ := mem_getExpired h0 hn
    exact ⟨entryOf (st.heap p), hr.sound p hp, hidle, rfl⟩
  · obtain ⟨p, hp, rfl⟩ := hr.complete v e hv
    cases Option.some.inj ((hr.sound p hp).symm.trans hv)
    rw [vfSsGetExpired_eq h0, List.length_take] at hlt
    rw [vfSsGetExpired_eq h0, List.take_of_length_le (by omega)]
    exact List.mem_map.mpr ⟨p, List.mem_filter.mpr ⟨mem_scanOrder.mpr hp, decide_eq_true hidle⟩,
      rfl⟩

/-- **Runs of the session table in memory.** No call follows a bad pointer, frees a session twice
or loops. Unless an update was refused the memory it asked for, the lookups, the counter and the
expiry scan answer as the flat map of the same calls does; a session is allocated for every entry
and for nothing else, and teardown frees them all. -/
theorem session_memory_runs (obj : Ptr → Session) (hhIp hhSid : Handles Ptr) (fuel : Nat)
    (cs : List (Alloc × Call)) (hc : AdmissibleRun Flat.empty cs) (hf : cs.length ≤ fuel) :
    RanOut fuel (vfSsInit obj hhIp hhSid) cs ∨
    ∃ m f, cs.foldlM (runMem fuel) (vfSsInit obj hhIp hhSid) = .ok m ∧
      f = cs.foldl (fun f c => c.2.runFlat f) Flat.empty ∧
      (∀ vip, ∃ r, vfSsLookupByIp fuel m vip = .ok r ∧
        r.map (fun p => entryOf (m.obj p)) = f vip) ∧
      (∀ sid, ∃ r, vfSsLookupBySid fuel m sid = .ok r ∧
        r.map (fun p => ((m.obj p).vip, entryOf (m.obj p))) = f.lookupBySid sid) ∧
      vfSsGetTotalCount m = .ok (UInt32.ofNat f.size) ∧
      (∀ maxCount probeSec deadSec now, 0 < maxCount → ∃ nodes,
        vfSsGetExpired fuel m maxCount probeSec deadSec now = .ok nodes ∧
        ListsIdle f maxCount probeSec deadSec now nodes) ∧
      Set.ncard {p | m.alive p = true} = f.size ∧
      ∃ m', vfSsDestroy fuel m = .ok m' ∧ (∀ p, m'.alive p = false) ∧
        ∀ i, (m'.ipTable i).head = none ∧ (m'.sidTable i).head = none := by
  have hf₀ : (Store.empty obj).brk + cs.length ≤ fuel := by
    show 0 + cs.length ≤ fuel
    omega
  rcases (sim_init obj hhIp hhSid).calls (refines_empty obj) hf₀ hc with he | ⟨m, st, he, h, hr, hb⟩
  · exact .inl he
  refine .inr ⟨m, _, he, rfl, fun vip => ⟨_, h.findByIp hr.wf hb _ vip, ?_⟩, fun sid =>
    ⟨_, h.findBySid hr.wf hr.sids hb _ sid, ?_⟩, ?_, fun maxCount probeSec deadSec now h0 =>
    ⟨_, h.getExpired hr.wf hb maxCount probeSec deadSec now,
      listsIdle_getExpired hr h0 probeSec deadSec now⟩, h.ncard_alive hr, h.destroy hr.wf hb⟩
  · rw [← hr.lookupByIp vip]
    show (Sessions.vfSsLookupByIp st vip).map _ = _
    refine Option.map_congr fun p hp => ?_
    rw [h.obj p ((lookupByIp_eq_some hr.wf).mp hp).1]
  · rw [← hr.lookupBySid sid]
    show (Sessions.vfSsLookupBySid st sid).map _ = _
    refine Option.map_congr fun p hp => ?_
    rw [h.obj p (lookupBySid_some hr.wf hp).1]
  · rw [h.totalCount, hr.totalCount]

def twoUpdates : List (Alloc × Call) :=
  [(⟨true, (· < 2 ^ 36)⟩, .update 0x0200000A 0x0200000A ⟨0, 0⟩ none 7),
    (⟨true, (· < 2 ^ 36)⟩, .update 0x0200000A 0x1200001A ⟨0, 0⟩ none 8)]

theorem twoUpdates_lookup : ∃ m, twoUpdates.foldlM (runMem 2)
      (vfSsInit (fun _ => blankSession) blankHandles blankHandles) = .ok m ∧
    ∃ r, vfSsLookupByIp 2 m 0x0200000A = .ok r ∧
      r.map (fun p => entryOf (m.obj p)) = some ⟨0x1200001A, ⟨0, 0⟩, 8⟩ := by
  have hc : AdmissibleRun Flat.empty twoUpdates := by
    refine ⟨⟨by decide, by decide, fun v e hv => nomatch hv⟩,
      ⟨by decide, by decide, fun v e hv hne => ?_⟩, trivial⟩
    simp only [Call.runFlat, Flat.update, Function.update_of_ne hne] at hv
    exact nomatch hv
  rcases session_memory_runs (fun _ => blankSession) blankHandles blankHandles 2 twoUpdates hc
    (by decide) with ⟨-, -, -, -, halt, -, -, -, he⟩ | ⟨m, f, he, rfl, hip, -⟩
  · have hok : (twoUpdates.foldlM (runMem 2)
        (vfSsInit (fun _ => blankSession) blankHandles blankHandles)).isOk = true := by
      decide +kernel
    rw [he] at hok
    exact absurd hok Bool.false_ne_true
  · exact ⟨m, he, hip 0x0200000A⟩

end Vfast.SessionMem
