import Mathlib.Logic.Relation
import Vfast.Lib.Run
import Vfast.Server

/-! Runs of the server and what they do to the address pool and the session table.
Every event is a chain of four kinds of change (`Change`); the invariants of the
development are proved for each kind once. -/

namespace Vfast.ServerInv

open Bytes Bitmap Key Crypto Protocol Ippool Sessions Server Run

/-! ## Events -/

inductive Event where
  | udp (env : Env) (data : Mem) (len : Nat) (src : SockAddr)
  | tun (env : Env) (buf : Mem) (len : Nat)
  | maintenance (env : Env)

section

variable (A : Aead) (hmac : List UInt8 → List UInt8 → Block 32)

def Event.run (srv : VfastServer) : Event → VfastServer × List Out
  | .udp env data len src =>
    let r := serverOnUdp A hmac srv env data len src
    (r.1, r.2.1)
  | .tun env buf len =>
    let r := serverOnTun A srv env buf len
    (r.1, r.2.1)
  | .maintenance env => vfastServerMaintenance A srv env

/-- The server after initialisation: a fresh pool and an empty table. -/
def Started (srv : VfastServer) : Prop :=
  (∃ startIp size, vfIpPoolInit startIp size = some srv.ipPool) ∧
    ∃ heap, srv.sessions = Store.empty heap

def serverRuns : System VfastServer Event where
  init := Started
  step srv ev srv' := srv' = (ev.run A hmac srv).1

end

/-! ## The pool and the table together -/

def Usable (pool : IpPool) (pos : UInt32) : Prop :=
  pos < pool.poolSize ∧ isReserved (bswap32 pool.startIp + pos) = false

/-- `vip` is a usable address of the pool that is marked allocated. -/
def Held (pool : IpPool) (vip : UInt32) : Prop :=
  ∃ pos, Usable pool pos ∧ vip = addrOf pool pos ∧ testBit pool.bitmap pos.toNat = true

/-- The table is well formed, the reserved addresses are marked, and every live
session holds its address in the pool. -/
structure Isolated (srv : VfastServer) : Prop where
  wf : srv.sessions.WF
  size_ne : srv.ipPool.poolSize ≠ 0
  reserved : ∀ pos, pos < srv.ipPool.poolSize →
    isReserved (bswap32 srv.ipPool.startIp + pos) = true →
      testBit srv.ipPool.bitmap pos.toNat = true
  held : ∀ p, Live srv.sessions p → Held srv.ipPool (srv.sessions.heap p).vip

/-- Every marked position is reserved or the address of a live session. -/
def NoLeak (srv : VfastServer) : Prop :=
  ∀ pos, pos < srv.ipPool.poolSize → testBit srv.ipPool.bitmap pos.toNat = true →
    isReserved (bswap32 srv.ipPool.startIp + pos) = true ∨
      ∃ p, Live srv.sessions p ∧ (srv.sessions.heap p).vip = addrOf srv.ipPool pos

theorem testBit_init {startIp size : UInt32} {pool : IpPool}
    (h : vfIpPoolInit startIp size = some pool) (pos : UInt32) (hp : pos < pool.poolSize) :
    testBit pool.bitmap pos.toNat = isReserved (bswap32 pool.startIp + pos) := by
  unfold vfIpPoolInit at h
  split at h
  · cases h
  split at h
  · cases h
  cases h
  have hlt : pos.toNat < size.toNat := UInt32.lt_iff_toNat_lt.mp hp
  simp [testBit_reserveLoop, hlt]

theorem size_init {startIp size : UInt32} {pool : IpPool}
    (h : vfIpPoolInit startIp size = some pool) : pool.poolSize ≠ 0 := by
  unfold vfIpPoolInit at h
  split at h
  · cases h
  split at h
  · cases h
  rename_i h0 _
  cases h
  exact h0

theorem isolated_started {srv : VfastServer} (h : Started srv) : Isolated srv := by
  obtain ⟨⟨startIp, size, hp⟩, heap, hs⟩ := h
  refine ⟨?_, size_init hp, ?_, ?_⟩
  · rw [hs]
    exact Store.wf_empty heap
  · intro pos hpos hr
    rw [testBit_init hp pos hpos, hr]
  · intro p hl
    rw [hs] at hl
    exact absurd hl (not_live_empty heap p)

theorem noLeak_started {srv : VfastServer} (h : Started srv) : NoLeak srv := by
  obtain ⟨⟨startIp, size, hp⟩, _, _⟩ := h
  intro pos hpos hb
  rw [testBit_init hp pos hpos] at hb
  exact Or.inl hb

/-- A free position is usable and its address is held by no session. -/
theorem Isolated.free_pos {srv : VfastServer} (h : Isolated srv) {pos : UInt32}
    (hp : pos < srv.ipPool.poolSize) (hb : testBit srv.ipPool.bitmap pos.toNat = false) :
    Usable srv.ipPool pos ∧
      ∀ p, Live srv.sessions p → (srv.sessions.heap p).vip ≠ addrOf srv.ipPool pos := by
  have hnot : ∀ b, testBit srv.ipPool.bitmap pos.toNat = b → b = false := fun _ e => e ▸ hb
  refine ⟨⟨hp, ?_⟩, ?_⟩
  · cases hr : isReserved (bswap32 srv.ipPool.startIp + pos) with
    | false => rfl
    | true => exact nomatch hnot _ (h.reserved pos hp hr)
  · intro p hl e
    obtain ⟨q, _, hq, hbq⟩ := h.held p hl
    rw [addrOf_inj (hq.symm.trans e)] at hbq
    exact nomatch hnot _ hbq

/-- The address 0.0.0.0 ends in 0 and is never handed out. -/
theorem Usable.addr_ne_zero {pool : IpPool} {pos : UInt32} (h : Usable pool pos) :
    addrOf pool pos ≠ 0 := by
  intro e
  have hb := congrArg bswap32 e
  rw [bswap32_addrOf] at hb
  have hr := h.2
  rw [hb] at hr
  exact nomatch hr

/-! ## The four kinds of change -/

/-- One change of pool and table: sessions are refreshed; a session is created under
an address taken from the pool; an address is taken and then refused (possible only
when `refused`); a session is deleted and its address given back. -/
inductive Change (refused : Prop) (srv srv' : VfastServer) : Prop where
  | touch (hp : srv'.ipPool = srv.ipPool) (hs : Touch srv.sessions srv'.sessions)
  | grant (pos : UInt32) (s : Session) (hpos : pos < srv.ipPool.poolSize)
      (hb : testBit srv.ipPool.bitmap pos.toNat = false) (hp : srv'.ipPool = srv.ipPool.hold pos)
      (hv : s.vip = addrOf srv.ipPool pos) (hsid : shardOf s.sid = shardOf s.vip)
      (hs : srv'.sessions = srv.sessions.create (shardOf s.vip) s)
  | refuse (hr : refused) (pos : UInt32) (hp : srv'.ipPool = srv.ipPool.hold pos)
      (hs : srv'.sessions = srv.sessions)
  | reclaim (pos : UInt32) (hu : Usable srv.ipPool pos)
      (hp : srv'.ipPool = vfIpPoolFree srv.ipPool (addrOf srv.ipPool pos))
      (hs : srv'.sessions = vfSsDelete srv.sessions (addrOf srv.ipPool pos))

theorem Change.imp {r r' : Prop} {srv srv' : VfastServer} (h : Change r srv srv') (hr : r → r') :
    Change r' srv srv' := by
  cases h with
  | touch hp hs => exact .touch hp hs
  | grant pos s hpos hb hp hv hsid hs => exact .grant pos s hpos hb hp hv hsid hs
  | refuse h pos hp hs => exact .refuse (hr h) pos hp hs
  | reclaim pos hu hp hs => exact .reclaim pos hu hp hs

abbrev Changes (refused : Prop) : VfastServer → VfastServer → Prop :=
  Relation.ReflTransGen (Change refused)

theorem Changes.imp {r r' : Prop} {srv srv' : VfastServer} (h : Changes r srv srv')
    (hr : r → r') : Changes r' srv srv' := by
  induction h with
  | refl => exact .refl
  | tail _ hc ih => exact ih.tail (hc.imp hr)

theorem Change.range {refused : Prop} {srv srv' : VfastServer} (h : Change refused srv srv') :
    srv'.ipPool.startIp = srv.ipPool.startIp ∧ srv'.ipPool.poolSize = srv.ipPool.poolSize := by
  cases h with
  | touch hp _ => simp [hp]
  | grant _ _ _ _ hp _ _ _ => simp [hp, IpPool.hold]
  | refuse _ _ hp _ => simp [hp, IpPool.hold]
  | reclaim pos _ hp _ =>
    rcases vfIpPoolFree_addrOf srv.ipPool pos with e | e <;> simp [hp, e, IpPool.release]

theorem addrOf_congr {pool pool' : IpPool} (h : pool'.startIp = pool.startIp) (pos : UInt32) :
    addrOf pool' pos = addrOf pool pos := by
  simp only [addrOf, h]

theorem Usable.congr {pool pool' : IpPool} {pos : UInt32} (h : Usable pool pos)
    (hr : pool'.startIp = pool.startIp ∧ pool'.poolSize = pool.poolSize) : Usable pool' pos := by
  unfold Usable
  rw [hr.1, hr.2]
  exact h

theorem Held.hold {pool : IpPool} {vip : UInt32} (h : Held pool vip) (pos : UInt32) :
    Held (pool.hold pos) vip := by
  obtain ⟨q, hu, hv, hb⟩ := h
  exact ⟨q, hu, hv, by simp [IpPool.hold, hb]⟩

theorem Held.free {pool : IpPool} {vip : UInt32} {pos : UInt32} (h : Held pool vip)
    (hne : vip ≠ addrOf pool pos) : Held (vfIpPoolFree pool (addrOf pool pos)) vip := by
  obtain ⟨q, hu, rfl, hb⟩ := h
  rcases vfIpPoolFree_addrOf pool pos with e | e
  · rw [e]
    exact ⟨q, hu, rfl, hb⟩
  · rw [e]
    refine ⟨q, hu, rfl, ?_⟩
    have hqp : q.toNat ≠ pos.toNat := fun eq => hne (by rw [UInt32.toNat_inj.mp eq])
    simp [IpPool.release, hb, hqp]

theorem Change.isolated {refused : Prop} {srv srv' : VfastServer} (h : Change refused srv srv')
    (hi : Isolated srv) : Isolated srv' := by
  cases h with
  | touch hp hs =>
    refine ⟨hs.wf hi.wf, by rw [hp]; exact hi.size_ne, by rw [hp]; exact hi.reserved, ?_⟩
    intro p hl
    rw [hp, hs.vip]
    exact hi.held p (hs.live.mp hl)
  | grant pos s hpos hb hp hv hsid hs =>
    obtain ⟨hu, hfree⟩ := hi.free_pos hpos hb
    rw [← hv] at hfree
    refine ⟨?_, by rw [hp]; exact hi.size_ne, ?_, ?_⟩
    · rw [hs]
      exact hi.wf.create rfl hsid hfree
    · rw [hp]
      intro q hq hr
      simp [IpPool.hold, hi.reserved q hq hr]
    · intro p hl
      rw [hs] at hl ⊢
      rw [hp]
      rcases live_create.mp hl with rfl | hl
      · rw [create_heap, if_pos rfl, hv]
        exact ⟨pos, hu, rfl, by simp [IpPool.hold]⟩
      · rw [create_heap_live hi.wf hl]
        exact (hi.held p hl).hold pos
  | refuse _ pos hp hs =>
    refine ⟨by rw [hs]; exact hi.wf, by rw [hp]; exact hi.size_ne, ?_, ?_⟩
    · rw [hp]
      intro q hq hr
      simp [IpPool.hold, hi.reserved q hq hr]
    · intro p hl
      rw [hs] at hl ⊢
      rw [hp]
      exact (hi.held p hl).hold pos
  | reclaim pos hu hp hs =>
    refine ⟨by rw [hs]; exact hi.wf.delete, ?_, ?_, ?_⟩
    · rcases vfIpPoolFree_addrOf srv.ipPool pos with e | e
      · rw [hp, e]
        exact hi.size_ne
      · rw [hp, e]
        exact hi.size_ne
    · rcases vfIpPoolFree_addrOf srv.ipPool pos with e | e
      · rw [hp, e]
        exact hi.reserved
      · rw [hp, e]
        intro q hq hr
        -- the cleared position is not a reserved one
        have hqp : q.toNat ≠ pos.toNat := by
          intro eq
          have hr' := hu.2
          rw [← UInt32.toNat_inj.mp eq] at hr'
          exact nomatch hr'.symm.trans hr
        simp [IpPool.release, hi.reserved q hq hr, hqp]
    · intro p hl
      rw [hs] at hl
      obtain ⟨hl, hne⟩ := (live_delete hi.wf).mp hl
      rw [hs, vfSsDelete_heap, hp]
      exact (hi.held p hl).free hne

theorem Changes.isolated {refused : Prop} {srv srv' : VfastServer} (h : Changes refused srv srv')
    (hi : Isolated srv) : Isolated srv' := by
  induction h with
  | refl => exact hi
  | tail _ hc ih => exact hc.isolated ih

theorem Changes.range {refused : Prop} {srv srv' : VfastServer} (h : Changes refused srv srv') :
    srv'.ipPool.startIp = srv.ipPool.startIp ∧ srv'.ipPool.poolSize = srv.ipPool.poolSize := by
  induction h with
  | refl => exact ⟨rfl, rfl⟩
  | tail _ hc ih => exact ⟨hc.range.1.trans ih.1, hc.range.2.trans ih.2⟩

/-- Without refusals and with a range that does not wrap, no address is lost. -/
theorem Change.noLeak {srv srv' : VfastServer} (h : Change False srv srv') (hi : Isolated srv)
    (hw : NoWrap srv.ipPool) (hn : NoLeak srv) : NoLeak srv' := by
  cases h with
  | touch hp hs =>
    intro q hq hb
    rw [hp] at hq hb ⊢
    rcases hn q hq hb with hr | ⟨p, hl, hv⟩
    · exact Or.inl hr
    · exact Or.inr ⟨p, hs.live.mpr hl, by rw [hs.vip, hv]⟩
  | grant pos s hpos hb hp hv hsid hs =>
    intro q hq hbq
    rw [hp] at hq hbq ⊢
    rw [hs]
    by_cases hqp : q = pos
    · subst hqp
      exact Or.inr ⟨_, live_create.mpr (.inl rfl), by rw [create_heap, if_pos rfl, hv]; rfl⟩
    · have hqn : q.toNat ≠ pos.toNat := fun e => hqp (UInt32.toNat_inj.mp e)
      have hbq : testBit srv.ipPool.bitmap q.toNat = true := by
        simpa [IpPool.hold, hqn] using hbq
      rcases hn q hq hbq with hr | ⟨p, hl, hv⟩
      · exact Or.inl hr
      · exact Or.inr ⟨p, live_create.mpr (.inr hl), by rw [create_heap_live hi.wf hl, hv]; rfl⟩
  | refuse hr => exact hr.elim
  | reclaim pos hu hp hs =>
    intro q hq hb
    rw [vfIpPoolFree_of_noWrap _ hw pos hu.1 hu.addr_ne_zero] at hp
    rw [hp] at hq hb ⊢
    obtain ⟨hqp, hbq⟩ : q.toNat ≠ pos.toNat ∧ testBit srv.ipPool.bitmap q.toNat = true := by
      simpa [IpPool.release] using hb
    rcases hn q hq hbq with hr | ⟨p, hl, hv⟩
    · exact Or.inl hr
    · refine Or.inr ⟨p, ?_, by rw [hs, vfSsDelete_heap, hv]; rfl⟩
      rw [hs]
      refine (live_delete hi.wf).mpr ⟨hl, ?_⟩
      rw [hv]
      exact fun e => hqp (by rw [addrOf_inj e])

theorem NoWrap.congr {pool pool' : IpPool} (h : NoWrap pool)
    (hr : pool'.startIp = pool.startIp ∧ pool'.poolSize = pool.poolSize) : NoWrap pool' := by
  unfold NoWrap
  rw [hr.1, hr.2]
  exact h

theorem Changes.noLeak {srv srv' : VfastServer} (h : Changes False srv srv') (hi : Isolated srv)
    (hw : NoWrap srv.ipPool) (hn : NoLeak srv) : NoLeak srv' := by
  induction h with
  | refl => exact hn
  | tail hcs hc ih =>
    exact hc.noLeak (Changes.isolated hcs hi) (NoWrap.congr hw (Changes.range hcs)) ih

/-! ## What the handlers change -/

theorem Change.same {refused : Prop} {srv srv' : VfastServer} (hp : srv'.ipPool = srv.ipPool)
    (hs : srv'.sessions = srv.sessions) : Change refused srv srv' :=
  .touch hp (by rw [hs]; exact Touch.refl _)

structure Quiet (srv srv' : VfastServer) : Prop where
  ipPool : srv'.ipPool = srv.ipPool
  touch : Touch srv.sessions srv'.sessions

theorem Quiet.same {srv srv' : VfastServer} (hp : srv'.ipPool = srv.ipPool)
    (hs : srv'.sessions = srv.sessions) : Quiet srv srv' :=
  ⟨hp, by rw [hs]; exact Touch.refl _⟩

section

variable (A : Aead) (hmac : List UInt8 → List UInt8 → Block 32)

theorem vfPack_small (st : Statics) (rd : Urandom) (sec : Option SecCtx) (buf : Mem) (plen : Nat)
    (type : MsgType) (sid : UInt32) (hp : plen ≤ 1024) :
    ∃ tlen, (vfPack A st rd sec buf plen bufSize type sid).2.2 = some tlen := by
  have hpad := padLen_lt st.localSeed plen 32 (by decide)
  have h32 : (32 : UInt8).toNat = 32 := rfl
  have hlen : (Wire.packBody A st rd sec buf plen type).length ≤
      plen + padLen st.localSeed plen 32 + 40 := by
    unfold Wire.packBody
    split
    · rw [Wire.length_padded]
      omega
    · rw [Wire.length_sealedBody, Wire.length_padded]
  rw [Wire.vfPack_result, if_neg (by simp only [Protocol.hlen, bufSize]; omega)]
  exact ⟨_, rfl⟩

def newSession (env : Env) (src : SockAddr) (vip : UInt32) : Session :=
  ⟨vfSsGenerateSid vip env.rawRand, vip, src,
    vfRekeyInit (vfSsGenerateSid vip env.rawRand) env.keyDraw env.now, env.now⟩

/-- The packet that answers an accepted AUTH_REQ, as `vf_pack` leaves it. -/
def authAck (srv : VfastServer) (env : Env) (buf : Mem) (src : SockAddr) (vip : UInt32)
    (token : Block 16) : Statics × Mem × Option Nat :=
  vfPack A srv.statics env.urandom none
    (buf.write hlen (authResp vip token (newSession env src vip).secCtx)) 64 bufSize .authAck
    (newSession env src vip).sid

/-- With an address no session holds, admission cannot fail any more. -/
theorem authAdmit_eq (srv : VfastServer) (hw : srv.sessions.WF) (env : Env) (buf : Mem)
    (src : SockAddr) {vip : UInt32} (token : Block 16)
    (hfree : ∀ p, Live srv.sessions p → (srv.sessions.heap p).vip ≠ vip) :
    ∃ tlen, (authAck A srv env buf src vip token).2.2 = some tlen ∧
      authAdmit A srv env buf src vip token =
        ({ srv with
            sessions := srv.sessions.create (shardOf vip) (newSession env src vip)
            statics := (authAck A srv env buf src vip token).1 },
          [.udpSend ((authAck A srv env buf src vip token).2.1.read 0 tlen) src], true) := by
  have hlook : vfSsLookupBySid (srv.sessions.create (shardOf vip) (newSession env src vip))
      (vfSsGenerateSid vip env.rawRand) = some srv.sessions.brk :=
    lookupBySid_create srv.sessions (s := newSession env src vip) (shardOf_generateSid vip _)
  have hheap : (srv.sessions.create (shardOf vip) (newSession env src vip)).heap
      srv.sessions.brk = newSession env src vip := by rw [create_heap, if_pos rfl]
  have hup : vfSsUpdate srv.sessions vip (vfSsGenerateSid vip env.rawRand) src env.keyDraw env.now =
      srv.sessions.create (shardOf vip) (newSession env src vip) :=
    vfSsUpdate_new hw _ src env.keyDraw env.now hfree
  obtain ⟨tlen, ht⟩ := vfPack_small A srv.statics env.urandom none
    (buf.write hlen (authResp vip token (newSession env src vip).secCtx)) 64 .authAck
    (newSession env src vip).sid (by decide)
  refine ⟨tlen, ht, ?_⟩
  unfold authAdmit VfastServer.packSend
  simp only [hup, hlook, hheap]
  have ht' : (authAck A srv env buf src vip token).2.2 = some tlen := ht
  simp only [authAck, newSession] at ht' ⊢
  rw [ht']
  rfl

/-- The AUTH_REQ in `buf` passes every check up to the credentials, gets an address
from the pool, and `vf_user_login` refuses it. -/
def AuthRefused (srv : VfastServer) (env : Env) (buf : Mem) (plen : Nat) (src : SockAddr) : Prop :=
  152 ≤ plen ∧ cookieOk hmac srv buf src = true ∧ timestampOk env buf = true ∧
    (vfIpPoolAlloc srv.ipPool).2 ≠ 0 ∧
    env.login (cString buf (hlen + 24)) (cString buf (hlen + 88)) = none

/-- The AUTH_REQ in `buf` is accepted: it takes position `pos` and gets `token`. -/
structure Admitted (srv : VfastServer) (env : Env) (buf : Mem) (plen : Nat) (src : SockAddr)
    (pos : UInt32) (token : Block 16) : Prop where
  len : 152 ≤ plen
  cookie : cookieOk hmac srv buf src = true
  timestamp : timestampOk env buf = true
  pos_lt : pos < srv.ipPool.poolSize
  pos_free : testBit srv.ipPool.bitmap pos.toNat = false
  alloc : vfIpPoolAlloc srv.ipPool = (srv.ipPool.hold pos, addrOf srv.ipPool pos)
  login : env.login (cString buf (hlen + 24)) (cString buf (hlen + 88)) = some token

/-- **The exits of `vfast_handle_auth`**: nothing happened, the credentials were refused
with an address already taken, or a session was admitted. -/
theorem vfastHandleAuth_cases {srv : VfastServer} (hi : Isolated srv) (env : Env) (buf : Mem)
    (plen : Nat) (src : SockAddr) :
    vfastHandleAuth A hmac srv env buf plen src = (srv, [], false) ∨
    (AuthRefused hmac srv env buf plen src ∧
      ∃ pos, vfastHandleAuth A hmac srv env buf plen src =
        ({ srv with ipPool := srv.ipPool.hold pos }, [], false)) ∨
    ∃ pos token, Admitted hmac srv env buf plen src pos token ∧
      vfastHandleAuth A hmac srv env buf plen src =
        authAdmit A { srv with ipPool := srv.ipPool.hold pos } env buf src
          (addrOf srv.ipPool pos) token := by
  unfold vfastHandleAuth
  split
  · exact Or.inl rfl
  split
  · exact Or.inl rfl
  split
  · exact Or.inl rfl
  rename_i hplen hcookie htime
  have hcookie : cookieOk hmac srv buf src = true := by simpa using hcookie
  have htime : timestampOk env buf = true := by simpa using htime
  rcases vfIpPoolAlloc_cases srv.ipPool hi.size_ne with e | ⟨pos, hpos, hb, e⟩
  · left
    simp [e, authErr]
  · have hne := (hi.free_pos hpos hb).1.addr_ne_zero
    simp only [e, hne, if_false]
    cases hl : env.login (cString buf (hlen + 24)) (cString buf (hlen + 88)) with
    | none =>
      refine Or.inr (Or.inl ⟨⟨by omega, hcookie, htime, by rw [e]; exact hne, hl⟩, pos, rfl⟩)
    | some token =>
      exact Or.inr (Or.inr ⟨pos, token, ⟨by omega, hcookie, htime, hpos, hb, e, hl⟩, rfl⟩)

/-- **Admission**: the address was free, the session is created and its AUTH_ACK sent. -/
theorem Admitted.result {srv : VfastServer} (hi : Isolated srv) {env : Env} {buf : Mem}
    {plen : Nat} {src : SockAddr} {pos : UInt32} {token : Block 16}
    (ha : Admitted hmac srv env buf plen src pos token) :
    (∀ p, Live srv.sessions p → (srv.sessions.heap p).vip ≠ addrOf srv.ipPool pos) ∧
    ∃ st tlen, (authAck A srv env buf src (addrOf srv.ipPool pos) token).2.2 = some tlen ∧
      authAdmit A { srv with ipPool := srv.ipPool.hold pos } env buf src
          (addrOf srv.ipPool pos) token =
        ({ srv with
            ipPool := srv.ipPool.hold pos
            sessions := srv.sessions.create (shardOf (addrOf srv.ipPool pos))
              (newSession env src (addrOf srv.ipPool pos))
            statics := st },
          [.udpSend ((authAck A srv env buf src (addrOf srv.ipPool pos) token).2.1.read 0 tlen)
            src], true) := by
  have hfree := (hi.free_pos ha.pos_lt ha.pos_free).2
  obtain ⟨tlen, ht, e⟩ := authAdmit_eq A { srv with ipPool := srv.ipPool.hold pos }
    hi.wf env buf src token hfree
  exact ⟨hfree, _, tlen, ht, e⟩

theorem auth_change {srv : VfastServer} (hi : Isolated srv) (env : Env) (buf : Mem) (plen : Nat)
    (src : SockAddr) :
    Change (AuthRefused hmac srv env buf plen src) srv
      (vfastHandleAuth A hmac srv env buf plen src).1 := by
  rcases vfastHandleAuth_cases A hmac hi env buf plen src with
    e | ⟨hr, pos, e⟩ | ⟨pos, token, ha, e⟩
  · rw [e]
    exact .same rfl rfl
  · rw [e]
    exact .refuse hr pos rfl rfl
  · have hfree := (hi.free_pos ha.pos_lt ha.pos_free).2
    obtain ⟨tlen, _, e'⟩ := authAdmit_eq A { srv with ipPool := srv.ipPool.hold pos }
      hi.wf env buf src token hfree
    rw [e, e']
    exact .grant pos (newSession env src (addrOf srv.ipPool pos)) ha.pos_lt ha.pos_free rfl rfl
      (shardOf_generateSid _ _) rfl

theorem hello_quiet (srv : VfastServer) (env : Env) (buf : Mem) (plen : Nat)
    (src : SockAddr) : Quiet srv (vfastHandleHello A hmac srv env buf plen src).1 := by
  unfold vfastHandleHello
  split
  · exact .same rfl rfl
  · exact .same rfl rfl

theorem echo_quiet {srv : VfastServer} (hw : srv.sessions.WF) (env : Env)
    {s : Option Ptr} (hs : ∀ p, s = some p → Live srv.sessions p) (sid : UInt32) (buf : Mem)
    (plen : Nat) (src : SockAddr) :
    Quiet srv (vfastHandleEcho A srv env s sid buf plen src).1 := by
  unfold vfastHandleEcho
  split
  · exact .same rfl rfl
  cases s with
  | none => exact .same rfl rfl
  | some p =>
    have hup := vfSsUpdate_self hw src env.keyDraw env.now (hs p rfl)
    refine ⟨rfl, ?_⟩
    show Touch srv.sessions (vfSsUpdate srv.sessions (srv.sessions.heap p).vip
      (srv.sessions.heap p).sid src env.keyDraw env.now)
    rw [hup]
    exact touch_modify _ _ (fun _ => rfl) (fun _ => rfl)

theorem touch_setCtx (srv : VfastServer) (p : Ptr) (ctx : SecCtx) :
    Touch srv.sessions (srv.setCtx p ctx).sessions :=
  touch_modify srv.sessions p (f := fun s => { s with secCtx := ctx }) (fun _ => rfl) (fun _ => rfl)

theorem rekeyReq_quiet (srv : VfastServer) (env : Env) (p : Ptr) (buf : Mem)
    (plen : Nat) (src : SockAddr) :
    Quiet srv (vfastHandleRekeyReq A srv env p buf plen src).1 := by
  unfold vfastHandleRekeyReq
  split
  · exact .same rfl rfl
  · dsimp only
    split
    · exact .same rfl rfl
    · exact ⟨rfl, touch_setCtx srv p _⟩

/-- **A newer key id is committed**: the session's active key is the one in the payload. -/
theorem rekeyReq_commits {srv : VfastServer} {p : Ptr} {buf : Mem} {plen : Nat} (env : Env)
    (src : SockAddr) (hp : 36 ≤ plen)
    (hlt : (srv.sessions.heap p).secCtx.activeKey.id < bswap32 (buf.load32 hlen)) :
    ((vfastHandleRekeyReq A srv env p buf plen src).1.sessions.heap p).secCtx =
      vfRekeyCommit { (srv.sessions.heap p).secCtx with
        nextKey := ⟨Block.ofList 32 (buf.read (hlen + 4) 32), bswap32 (buf.load32 hlen), 0,
          env.now⟩ } := by
  have hle : ¬ bswap32 (buf.load32 hlen) ≤ (srv.sessions.heap p).secCtx.activeKey.id :=
    UInt32.not_le.mpr hlt
  unfold vfastHandleRekeyReq
  rw [if_neg (by omega)]
  simp only [rekeyStage, hle, if_false]
  simp only [VfastServer.setCtx, VfastServer.packSend, modify_heap, if_true]

theorem rekeyAck_quiet (srv : VfastServer) (p : Ptr) :
    Quiet srv (vfastHandleRekeyAck srv p) := by
  unfold vfastHandleRekeyAck
  dsimp only
  split
  · exact .same rfl rfl
  · exact ⟨rfl, touch_setCtx srv p _⟩

/-- **What a dispatched packet can change**: an AUTH_REQ goes to `vfast_handle_auth`, and all
other types refresh sessions at most. -/
theorem dispatch_cases {srv : VfastServer} (hw : srv.sessions.WF) (env : Env) {s : Option Ptr}
    (hs : ∀ p, s = some p → Live srv.sessions p) (sid : UInt32) (buf : Mem) (plen : Nat)
    (src : SockAddr) :
    (buf offMsgType = MsgType.authReq.code ∧
      dispatch A hmac srv env s sid buf plen src =
        vfastHandleAuth A hmac srv env buf plen src) ∨
    Quiet srv (dispatch A hmac srv env s sid buf plen src).1 := by
  unfold dispatch
  split
  · exact .inr (.same rfl rfl)
  · exact .inr (hello_quiet A hmac srv env buf plen src)
  · rename_i hty
    exact .inl ⟨(MsgType.code_of_ofCode hty).symm, rfl⟩
  · exact .inr (echo_quiet A hw env hs sid buf plen src)
  · exact .inr ⟨rfl, touch_updateBySid _ _ _ _⟩
  · right
    cases s with
    | none => exact .same rfl rfl
    | some p => exact rekeyAck_quiet srv p
  · right
    cases s with
    | none => exact .same rfl rfl
    | some p => exact rekeyReq_quiet A srv env p buf plen src
  · exact .inr (.same rfl rfl)

theorem dispatch_change {srv : VfastServer} (hi : Isolated srv) (env : Env) {s : Option Ptr}
    (hs : ∀ p, s = some p → Live srv.sessions p) (sid : UInt32) (buf : Mem) (plen : Nat)
    (src : SockAddr) :
    Change (buf offMsgType = MsgType.authReq.code ∧ AuthRefused hmac srv env buf plen src) srv
      (dispatch A hmac srv env s sid buf plen src).1 := by
  rcases dispatch_cases A hmac hi.wf env hs sid buf plen src with ⟨hty, e⟩ | hq
  · rw [e]
    exact (auth_change A hmac hi env buf plen src).imp fun hr => ⟨hty, hr⟩
  · exact .touch hq.ipPool hq.touch

/-- A datagram that `server_on_udp` unmasks, unpacks and dispatches: `s` is the session
its header names, `buf` and `plen` what `vf_unpack` returns, `mid` the server once the
lookup and the bytes were counted. -/
structure Delivered (srv : VfastServer) (data : Mem) (len : Nat) (mid : VfastServer)
    (s : Option Ptr) (buf : Mem) (plen : Nat) : Prop where
  len_ge : hlen ≤ len
  session : ∀ p, s = some p → vfSsLookupBySid srv.sessions
    (bswap32 ((vfRemoveHeaderObfs data len).load32 offSessionId)) = some p
  unpack : vfUnpack A (sessionCtx srv s) (vfRemoveHeaderObfs data len) len = (buf, some plen)
  ipPool : mid.ipPool = srv.ipPool
  masterKey : mid.masterKey = srv.masterKey
  statics : mid.statics = srv.statics
  sessions : mid.sessions = (srv.countBytes s len).sessions

theorem findSession_cases (srv : VfastServer) (sid : UInt32) :
    ∃ stats, (findSession srv sid).1 = { srv with stats := stats } ∧
      ∀ p, (findSession srv sid).2 = some p → vfSsLookupBySid srv.sessions sid = some p := by
  unfold findSession
  split
  · exact ⟨srv.stats, rfl, fun _ h => nomatch h⟩
  · cases h : vfSsLookupBySid srv.sessions sid with
    | none => exact ⟨_, rfl, fun _ h => nomatch h⟩
    | some q => exact ⟨srv.stats, rfl, fun _ h => h⟩

/-- **`server_on_udp`** drops the datagram or dispatches it. -/
theorem serverOnUdp_cases (srv : VfastServer) (env : Env) (data : Mem) (len : Nat)
    (src : SockAddr) :
    ((serverOnUdp A hmac srv env data len src).2 = ([], .done) ∧
      ∃ stats reass, (serverOnUdp A hmac srv env data len src).1 =
        { srv with stats := stats, reassStats := reass }) ∨
    ∃ mid s buf plen, Delivered A srv data len mid s buf plen ∧
      ∀ r, r = dispatch A hmac mid env s
          (bswap32 ((vfRemoveHeaderObfs data len).load32 offSessionId)) buf plen src →
        serverOnUdp A hmac srv env data len src =
          ({ r.1 with stats := r.1.stats.rx, reassStats := r.1.reassStats.rx }, r.2.1,
            if r.2.2 then .use else .done) := by
  unfold serverOnUdp
  split
  · exact Or.inl ⟨rfl, _, _, rfl⟩
  rename_i hl
  dsimp only
  obtain ⟨stats, hsrv, hfind⟩ := findSession_cases srv
    (bswap32 ((vfRemoveHeaderObfs data len).load32 offSessionId))
  generalize findSession srv (bswap32 ((vfRemoveHeaderObfs data len).load32 offSessionId)) =
    found at hsrv hfind ⊢
  obtain ⟨srv1, s⟩ := found
  dsimp only at hsrv hfind ⊢
  subst hsrv
  cases hu : vfUnpack A (sessionCtx { srv with stats := stats } s)
      (vfRemoveHeaderObfs data len) len with
  | mk buf res =>
  cases res with
  | none => exact Or.inl ⟨rfl, _, _, rfl⟩
  | some plen =>
    refine Or.inr ⟨({ srv with stats := stats } : VfastServer).countBytes s len, s, buf, plen,
      ⟨by omega, hfind, hu, ?_, ?_, ?_, ?_⟩, fun r hr => by rw [hr]⟩ <;> cases s <;> rfl

/-- A datagram of a known session that unpacks is dispatched. -/
theorem serverOnUdp_session {srv : VfastServer} {data buf : Mem} {len plen : Nat} {p : Ptr}
    (env : Env) (src : SockAddr) (hl : hlen ≤ len)
    (h0 : bswap32 ((vfRemoveHeaderObfs data len).load32 offSessionId) ≠ 0)
    (hp : vfSsLookupBySid srv.sessions
      (bswap32 ((vfRemoveHeaderObfs data len).load32 offSessionId)) = some p)
    (hu : vfUnpack A (some (srv.sessions.heap p).secCtx) (vfRemoveHeaderObfs data len) len =
      (buf, some plen)) :
    (∃ stats reass, (serverOnUdp A hmac srv env data len src).1 =
      { (dispatch A hmac (srv.countBytes (some p) len) env (some p)
          (bswap32 ((vfRemoveHeaderObfs data len).load32 offSessionId)) buf plen src).1 with
        stats := stats
        reassStats := reass }) ∧
      (serverOnUdp A hmac srv env data len src).2.1 =
        (dispatch A hmac (srv.countBytes (some p) len) env (some p)
          (bswap32 ((vfRemoveHeaderObfs data len).load32 offSessionId)) buf plen src).2.1 := by
  have hf : findSession srv (bswap32 ((vfRemoveHeaderObfs data len).load32 offSessionId)) =
      (srv, some p) := by
    simp only [findSession, h0, hp, if_false]
  unfold serverOnUdp
  rw [if_neg (by omega)]
  simp only [hf, sessionCtx, Option.map_some, hu]
  exact ⟨⟨_, _, rfl⟩, trivial⟩

theorem touch_countBytes (srv : VfastServer) (s : Option Ptr) (len : Nat) :
    Touch srv.sessions (srv.countBytes s len).sessions := by
  cases s with
  | none => exact Touch.refl _
  | some p => exact touch_setCtx srv p _

theorem Delivered.touch {srv mid : VfastServer} {data : Mem} {len : Nat} {s : Option Ptr}
    {buf : Mem} {plen : Nat} (h : Delivered A srv data len mid s buf plen) :
    Touch srv.sessions mid.sessions := by
  rw [h.sessions]
  exact touch_countBytes srv s len

theorem Delivered.msgType {srv mid : VfastServer} {data : Mem} {len : Nat} {s : Option Ptr}
    {buf : Mem} {plen : Nat} (h : Delivered A srv data len mid s buf plen) :
    buf offMsgType = vfRemoveHeaderObfs data len offMsgType := by
  have hf := Wire.vfUnpack_frame A (sessionCtx srv s) (vfRemoveHeaderObfs data len) len offMsgType
    (by decide) (by decide)
  rw [h.unpack] at hf
  exact hf

theorem Delivered.isolated {srv mid : VfastServer} {data : Mem} {len : Nat} {s : Option Ptr}
    {buf : Mem} {plen : Nat} (h : Delivered A srv data len mid s buf plen) (hi : Isolated srv) :
    Isolated mid := by
  have hc : Change False srv mid := .touch h.ipPool (h.touch A)
  exact hc.isolated hi

theorem Delivered.live {srv mid : VfastServer} {data : Mem} {len : Nat} {s : Option Ptr}
    {buf : Mem} {plen : Nat} (h : Delivered A srv data len mid s buf plen) (hi : Isolated srv) :
    ∀ p, s = some p → Live mid.sessions p := fun p hp =>
  (h.touch A).live.mpr (lookupBySid_some hi.wf (h.session p hp)).1

/-- A datagram that `server_on_udp` passes to `vfast_handle_auth`, which takes an
address for it and then has its credentials refused. -/
def LoginRefused (srv : VfastServer) : Event → Prop
  | .udp env data len src => hlen ≤ len ∧ ∃ buf plen,
      vfUnpack A none (vfRemoveHeaderObfs data len) len = (buf, some plen) ∧
        buf offMsgType = MsgType.authReq.code ∧ AuthRefused hmac srv env buf plen src
  | _ => False

theorem udp_changes {srv : VfastServer} (hi : Isolated srv) (env : Env) (data : Mem) (len : Nat)
    (src : SockAddr) :
    Changes (LoginRefused A hmac srv (.udp env data len src)) srv
      (serverOnUdp A hmac srv env data len src).1 := by
  rcases serverOnUdp_cases A hmac srv env data len src with
    ⟨_, stats, reass, e⟩ | ⟨mid, s, buf, plen, hd, hr⟩
  · rw [e]
    exact .single (.same rfl rfl)
  rw [hr _ rfl]
  -- counting the bytes refreshes a session; only the dispatch does more
  have hc1 : Change (LoginRefused A hmac srv (.udp env data len src)) srv mid :=
    .touch hd.ipPool (hd.touch A)
  have hc2 := dispatch_change A hmac (hd.isolated A hi) env (hd.live A hi)
    (bswap32 ((vfRemoveHeaderObfs data len).load32 offSessionId)) buf plen src
  refine ((Relation.ReflTransGen.single hc1).tail (hc2.imp ?_)).tail (.same rfl rfl)
  rintro ⟨hty, hplen, hck, hts, hal, hlog⟩
  have hbypass : bypassesAead (vfRemoveHeaderObfs data len offMsgType) = true := by
    rw [← hd.msgType, hty]
    rfl
  have hu := hd.unpack
  rw [Wire.vfUnpack_bypass A _ hbypass] at hu
  refine ⟨hd.len_ge, buf, plen, hu, hty, hplen, ?_, hts, by rw [← hd.ipPool]; exact hal, hlog⟩
  rw [← hck]
  simp only [cookieOk, hd.masterKey]

theorem tun_change (refused : Prop) (srv : VfastServer) (env : Env) (buf : Mem) (len : Nat) :
    Change refused srv (serverOnTun A srv env buf len).1 := by
  unfold serverOnTun
  split
  · exact .same rfl rfl
  dsimp only
  split
  · exact .same rfl rfl
  split
  · rename_i h
    have hs := congrArg Prod.fst h
    exact .same (congrArg VfastServer.ipPool hs).symm (congrArg VfastServer.sessions hs).symm
  · rename_i h
    have hs := congrArg Prod.fst h
    exact .same (congrArg VfastServer.ipPool hs).symm (congrArg VfastServer.sessions hs).symm

theorem maintainNode_change (refused : Prop) (env : Env) (acc : VfastServer × List Out × Nat)
    {node : ExpiredNode} {pos : UInt32} (hu : Usable acc.1.ipPool pos)
    (hv : node.vip = addrOf acc.1.ipPool pos) :
    Change refused acc.1 (maintainNode A env acc node).1 := by
  obtain ⟨srv, outs, borrowed⟩ := acc
  unfold maintainNode
  dsimp only at hu hv ⊢
  split
  · exact .reclaim pos hu (by rw [hv]) (by rw [hv])
  split
  · exact .same rfl rfl
  split
  · exact .same rfl rfl
  · exact .same rfl rfl

/-- The maintenance loop over nodes whose addresses are usable ones of the pool. -/
theorem maintain_changes (refused : Prop) (env : Env) (nodes : List ExpiredNode)
    (acc : VfastServer × List Out × Nat)
    (hn : ∀ node ∈ nodes, ∃ pos, Usable acc.1.ipPool pos ∧ node.vip = addrOf acc.1.ipPool pos) :
    Changes refused acc.1 (nodes.foldl (maintainNode A env) acc).1 := by
  induction nodes generalizing acc with
  | nil => exact .refl
  | cons node nodes ih =>
    obtain ⟨pos, hu, hv⟩ := hn node List.mem_cons_self
    have hc := maintainNode_change A refused env acc hu hv
    refine .head hc (ih _ ?_)
    intro node' hm
    obtain ⟨q, hq, hqv⟩ := hn node' (List.mem_cons_of_mem node hm)
    exact ⟨q, hq.congr hc.range, by rw [addrOf_congr hc.range.1, hqv]⟩

theorem maintenance_changes (refused : Prop) {srv : VfastServer} (hi : Isolated srv) (env : Env) :
    Changes refused srv (vfastServerMaintenance A srv env).1 := by
  refine maintain_changes A refused env _ (srv, [], 0) ?_
  intro node hm
  obtain ⟨p, hl, _, rfl⟩ := mem_getExpired (by decide) hm
  obtain ⟨pos, hu, hv, _⟩ := hi.held p hl
  exact ⟨pos, hu, hv⟩

/-- **Every event is a chain of changes.** -/
theorem event_changes {srv : VfastServer} (hi : Isolated srv) (ev : Event) :
    Changes (LoginRefused A hmac srv ev) srv (ev.run A hmac srv).1 := by
  cases ev with
  | udp env data len src => exact udp_changes A hmac hi env data len src
  | tun env buf len => exact .single (tun_change A _ srv env buf len)
  | maintenance env => exact maintenance_changes A _ hi env

theorem reachable_isolated {ok : VfastServer → Event → Prop} {srv : VfastServer}
    (h : ReachableBy (serverRuns A hmac) ok srv) : Isolated srv := by
  refine h.invariant Isolated (fun _ => isolated_started) ?_
  rintro srv ev _ hi _ rfl
  exact (event_changes A hmac hi ev).isolated hi

end

end Vfast.ServerInv
