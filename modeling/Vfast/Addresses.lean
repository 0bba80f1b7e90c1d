import Vfast.ServerInv

/-! Addresses and session ids over server runs: who holds an address of the pool,
when one is lost, and when the id drawn for a new session is unique. -/

namespace Vfast.Addresses

open Bytes Bitmap Key Crypto Protocol Ippool Sessions Server ServerInv Run

/-! ## A first AUTH_REQ -/

def startedServer (startIp : UInt32) : VfastServer where
  masterKey _ := 0
  ipPool := ⟨startIp, 16, reserveLoop (bswap32 startIp) 16 0 (fun _ => 0), 0⟩
  sessions := Store.empty fun _ => blankSession
  statics := ⟨0x5EED5EED, .init⟩
  stats := ⟨0, 0, 0⟩
  reassStats := ⟨0, 0, 0⟩

theorem startedServer_started {startIp : UInt32} (h : startIp ≠ inaddrNone) :
    Started (startedServer startIp) := by
  refine ⟨⟨startIp, 16, ?_⟩, _, rfl⟩
  simp [vfIpPoolInit, h, startedServer]

def zeroHmac : List UInt8 → List UInt8 → Block 32 := fun _ _ _ => 0

/-- An AUTH_REQ of 172 bytes with timestamp 5000, the zero cookie and empty credentials;
its sequence number switches the mask off. -/
def authDatagram : Mem := fun i =>
  if i = 3 then 0x09 else if i = 12 then 0xEF else if i = 13 then 0xBE else if i = 14 then 0xAD
  else if i = 15 then 0xDE else if i = 26 then 0x13 else if i = 27 then 0x88 else 0

def authEnv (verdict : Option (Block 16)) (rawRand : UInt32) : Env :=
  ⟨0, 5000, rawRand, some fun _ => 7, fun _ _ => verdict, none, fun _ => none⟩

theorem authDatagram_unmasked : vfRemoveHeaderObfs authDatagram 172 = authDatagram := by
  rw [Wire.vfRemoveHeaderObfs_eq _ _ (by decide)]
  have hk : obfsKey authDatagram = 0 := by decide
  rw [hk, Wire.maskHeader_zero]

/-! ## Isolation -/

section

variable (A : Aead) (hmac : List UInt8 → List UInt8 → Block 32)

/-- What an accepted AUTH_REQ leaves: a session under the allocated address that no
session held before, in an object of its own. -/
structure FreshSession (srv srv' : VfastServer) (env : Env) (src : SockAddr) : Prop where
  vip_free : vfSsLookupByIp srv.sessions (vfIpPoolAlloc srv.ipPool).2 = none
  ptr_free : ¬ Live srv.sessions srv.sessions.brk
  found : vfSsLookupByIp srv'.sessions (vfIpPoolAlloc srv.ipPool).2 = some srv.sessions.brk
  content : srv'.sessions.heap srv.sessions.brk =
    newSession env src (vfIpPoolAlloc srv.ipPool).2

theorem auth_true {srv : VfastServer} (hi : Isolated srv) {env : Env} {buf : Mem} {plen : Nat}
    {src : SockAddr} (h : (vfastHandleAuth A hmac srv env buf plen src).2.2 = true) :
    ∃ pos token, Admitted hmac srv env buf plen src pos token ∧
      (∀ p, Live srv.sessions p → (srv.sessions.heap p).vip ≠ addrOf srv.ipPool pos) ∧
      ∃ st tlen, (authAck A srv env buf src (addrOf srv.ipPool pos) token).2.2 = some tlen ∧
      vfastHandleAuth A hmac srv env buf plen src =
        ({ srv with
            ipPool := srv.ipPool.hold pos
            sessions := srv.sessions.create (shardOf (addrOf srv.ipPool pos))
              (newSession env src (addrOf srv.ipPool pos))
            statics := st },
          [.udpSend ((authAck A srv env buf src (addrOf srv.ipPool pos) token).2.1.read 0 tlen)
            src], true) := by
  rcases vfastHandleAuth_cases A hmac hi env buf plen src with
    e | ⟨_, pos, e⟩ | ⟨pos, token, ha, e⟩
  · rw [e] at h
    exact nomatch h
  · rw [e] at h
    exact nomatch h
  · obtain ⟨hfree, st, tlen, ht, e'⟩ := ha.result A hmac hi
    exact ⟨pos, token, ha, hfree, st, tlen, ht, e.trans e'⟩

theorem auth_freshSession {srv : VfastServer} (hi : Isolated srv) {env : Env} {buf : Mem}
    {plen : Nat} {src : SockAddr}
    (h : (vfastHandleAuth A hmac srv env buf plen src).2.2 = true) :
    FreshSession srv (vfastHandleAuth A hmac srv env buf plen src).1 env src := by
  obtain ⟨pos, token, ha, hfree, st, tlen, _, e⟩ := auth_true A hmac hi h
  have hvip : (vfIpPoolAlloc srv.ipPool).2 = addrOf srv.ipPool pos := by rw [ha.alloc]
  have hwf := hi.wf.create (s := newSession env src (addrOf srv.ipPool pos)) rfl
    (shardOf_generateSid _ _) hfree
  refine ⟨?_, ?_, ?_, ?_⟩
  · rw [hvip]
    exact (lookupByIp_eq_none hi.wf).mpr hfree
  · exact fun hl => Nat.lt_irrefl _ (hi.wf.lt_brk hl)
  · rw [e, hvip]
    refine (lookupByIp_eq_some hwf).mpr ⟨live_create.mpr (.inl rfl), ?_⟩
    rw [create_heap, if_pos rfl]
    rfl
  · rw [e, hvip]
    exact (create_heap ..).trans (if_pos rfl)

theorem udp_freshSession {srv : VfastServer} (hi : Isolated srv) {env : Env} {data : Mem}
    {len : Nat} {src : SockAddr}
    (hty : vfRemoveHeaderObfs data len offMsgType = MsgType.authReq.code)
    (huse : (serverOnUdp A hmac srv env data len src).2.2 = .use) :
    FreshSession srv (serverOnUdp A hmac srv env data len src).1 env src := by
  rcases serverOnUdp_cases A hmac srv env data len src with
    ⟨e, _⟩ | ⟨mid, s, buf, plen, hd, hr⟩
  · rw [e] at huse
    exact nomatch huse
  have hdisp : dispatch A hmac mid env s
      (bswap32 ((vfRemoveHeaderObfs data len).load32 offSessionId)) buf plen src =
        vfastHandleAuth A hmac mid env buf plen src := by
    simp only [dispatch, hd.msgType, hty, MsgType.ofCode_code]
  rw [hr _ hdisp.symm] at huse ⊢
  have hauth : (vfastHandleAuth A hmac mid env buf plen src).2.2 = true := by
    by_contra hne
    simp [hne] at huse
  have hmid := hd.isolated A hi
  obtain ⟨hv, hp, hf, hc⟩ := auth_freshSession A hmac hmid hauth
  have ht := hd.touch A
  rw [hd.ipPool] at hv hf hc
  rw [ht.brk] at hp hf hc
  refine ⟨?_, fun hl => hp (ht.live.mpr hl), hf, hc⟩
  rw [lookupByIp_eq_none hi.wf]
  intro p hl
  rw [← ht.vip]
  exact (lookupByIp_eq_none hmid.wf).mp hv p (ht.live.mpr hl)

/-- **Client isolation.** -/
theorem live_sessions_isolated {srv : VfastServer} (h : Reachable (serverRuns A hmac) srv) :
    (∀ p q, Live srv.sessions p → Live srv.sessions q →
      (srv.sessions.heap p).vip = (srv.sessions.heap q).vip → p = q) ∧
    (∀ p, Live srv.sessions p → ∃ pos, pos < srv.ipPool.poolSize ∧
      (srv.sessions.heap p).vip = addrOf srv.ipPool pos ∧
      isReserved (bswap32 (srv.sessions.heap p).vip) = false ∧
      testBit srv.ipPool.bitmap pos.toNat = true) ∧
    ∀ env data len src, vfRemoveHeaderObfs data len offMsgType = MsgType.authReq.code →
      (serverOnUdp A hmac srv env data len src).2.2 = .use →
      FreshSession srv (serverOnUdp A hmac srv env data len src).1 env src := by
  have hi := reachable_isolated A hmac h
  refine ⟨fun p q => hi.wf.vip_inj, ?_, fun env data len src => udp_freshSession A hmac hi⟩
  intro p hl
  obtain ⟨pos, hu, hv, hb⟩ := hi.held p hl
  refine ⟨pos, hu.1, hv, ?_, hb⟩
  rw [hv, bswap32_addrOf]
  exact hu.2

end

/-- The server over 10.0.0.0 with one client, which has the address 10.0.0.2. -/
def oneClient : VfastServer :=
  (Event.run markAead zeroHmac (startedServer 0x0000000A)
    (.udp (authEnv (some fun _ => 1) 0) authDatagram 172 ⟨1, 1⟩)).1

theorem oneClient_reachable : Reachable (serverRuns markAead zeroHmac) oneClient :=
  .step (l := .udp (authEnv (some fun _ => 1) 0) authDatagram 172 ⟨1, 1⟩)
    (.init (startedServer_started (by decide))) trivial rfl

/-- A second client gets an address and a session of its own. -/
theorem second_auth_isolated :
    Live oneClient.sessions 0 ∧ (oneClient.sessions.heap 0).vip = 0x0200000A ∧
      (vfIpPoolAlloc oneClient.ipPool).2 = 0x0300000A ∧
      FreshSession oneClient
        (serverOnUdp markAead zeroHmac oneClient (authEnv (some fun _ => 2) 16) authDatagram 172
          ⟨2, 2⟩).1 (authEnv (some fun _ => 2) 16) ⟨2, 2⟩ := by
  refine ⟨⟨10, by decide +kernel⟩, by decide +kernel, by decide +kernel,
    (live_sessions_isolated markAead zeroHmac oneClient_reachable).2.2 _ _ _ _ ?_ ?_⟩
  · rw [authDatagram_unmasked]
    rfl
  · decide +kernel

/-! ## Leaks -/

section

variable (A : Aead) (hmac : List UInt8 → List UInt8 → Block 32)

theorem reachable_noLeak {srv : VfastServer}
    (h : ReachableBy (serverRuns A hmac)
      (fun srv ev => NoWrap srv.ipPool ∧ ¬ LoginRefused A hmac srv ev) srv) :
    Isolated srv ∧ NoLeak srv := by
  refine h.invariant (fun srv => Isolated srv ∧ NoLeak srv)
    (fun _ hs => ⟨isolated_started hs, noLeak_started hs⟩) ?_
  rintro srv ev _ ⟨hi, hn⟩ ⟨hw, hr⟩ rfl
  have hc := event_changes A hmac hi ev
  exact ⟨Changes.isolated hc hi, Changes.noLeak (Changes.imp hc hr) hi hw hn⟩

/-- **No leaked addresses**, in runs over a pool whose range does not wrap in which no
AUTH_REQ is refused by `vf_user_login` after it was given an address. -/
theorem allocated_vip_has_session {srv : VfastServer}
    (h : ReachableBy (serverRuns A hmac)
      (fun srv ev => NoWrap srv.ipPool ∧ ¬ LoginRefused A hmac srv ev) srv) :
    NoLeak srv ∧
    ∀ env buf plen src, ¬ AuthRefused hmac srv env buf plen src →
      (vfastHandleAuth A hmac srv env buf plen src).2.2 = false →
      (vfastHandleAuth A hmac srv env buf plen src).1.ipPool = srv.ipPool := by
  obtain ⟨hi, hn⟩ := reachable_noLeak A hmac h
  refine ⟨hn, ?_⟩
  intro env buf plen src hr hf
  rcases vfastHandleAuth_cases A hmac hi env buf plen src with
    e | ⟨hr', _⟩ | ⟨pos, token, ha, e⟩
  · rw [e]
  · exact absurd hr' hr
  · have hfree := (hi.free_pos ha.pos_lt ha.pos_free).2
    obtain ⟨tlen, _, e'⟩ := authAdmit_eq A { srv with ipPool := srv.ipPool.hold pos }
      hi.wf env buf src token hfree
    rw [e, e'] at hf
    exact nomatch hf

end

theorem first_auth_kept :
    NoLeak (Event.run markAead zeroHmac (startedServer 0x0000000A)
      (.udp (authEnv (some fun _ => 1) 0) authDatagram 172 ⟨0, 0⟩)).1 := by
  refine (allocated_vip_has_session markAead zeroHmac
    (.step (l := .udp (authEnv (some fun _ => 1) 0)
    authDatagram 172 ⟨0, 0⟩) (.init (startedServer_started (by decide))) ⟨?_, ?_⟩ rfl)).1
  · show (bswap32 0x0000000A).toNat + (16 : UInt32).toNat < 2 ^ 32
    decide
  · rintro ⟨_, buf, plen, _, _, _, _, _, _, hl⟩
    exact nomatch hl

/-- One refused login and 10.0.0.2 is marked without a session. -/
theorem refused_login_leaks :
    ∃ srv, Reachable (serverRuns markAead zeroHmac) srv ∧ ¬ NoLeak srv := by
  refine ⟨_, .step (l := .udp (authEnv none 0) authDatagram 172 ⟨0, 0⟩)
    (.init (startedServer_started (show (0x0000000A : UInt32) ≠ inaddrNone by decide)))
    trivial rfl, ?_⟩
  intro hn
  rcases hn 2 (by decide) (by decide) with hr | ⟨p, ⟨i, hp⟩, _⟩
  · exact absurd hr (by decide)
  · exact nomatch hp

/-! ## Session ids -/

section

variable (A : Aead) (hmac : List UInt8 → List UInt8 → Block 32)

/-- The session that is new in `srv'` has a non-zero id that no session of `srv` has, and
the id leads to it. -/
def SidUsable (srv srv' : VfastServer) : Prop :=
  ∃ p, Live srv'.sessions p ∧ ¬ Live srv.sessions p ∧ (srv'.sessions.heap p).sid ≠ 0 ∧
    (∀ q, Live srv.sessions q → (srv.sessions.heap q).sid ≠ (srv'.sessions.heap p).sid) ∧
    vfSsLookupBySid srv'.sessions (srv'.sessions.heap p).sid = some p

/-- The draw can serve as an id in the shard of `vip`: its upper 28 bits are not those of a
session of the shard, nor zero in shard 0. -/
def DrawFresh (st : Store) (vip rawRand : UInt32) : Prop :=
  (shardOf vip = 0 → upper rawRand ≠ 0) ∧
    ∀ p, Live st p → shardOf (st.heap p).vip = shardOf vip → upper (st.heap p).sid ≠ upper rawRand

theorem sid_ne_iff {st : Store} (hw : st.WF) {p : Ptr} (hl : Live st p) (vip r : UInt32) :
    (st.heap p).sid ≠ vfSsGenerateSid vip r ↔
      (shardOf (st.heap p).vip = shardOf vip → upper (st.heap p).sid ≠ upper r) := by
  have hs := hw.shard_eq hl
  constructor
  · intro hne he hu
    exact hne ((generateSid_eq_iff (hs.trans he)).mpr hu).symm
  · intro himp e
    refine himp ?_ ?_
    · rw [← hs, e, shardOf_generateSid]
    · rw [e, upper_generateSid]

/-- **The id of a new session** is usable exactly when the draw is fresh. -/
theorem new_sid_usable_iff {srv : VfastServer} (h : Reachable (serverRuns A hmac) srv) {env : Env}
    {buf : Mem} {plen : Nat} {src : SockAddr}
    (hauth : (vfastHandleAuth A hmac srv env buf plen src).2.2 = true) :
    SidUsable srv (vfastHandleAuth A hmac srv env buf plen src).1 ↔
      DrawFresh srv.sessions (vfIpPoolAlloc srv.ipPool).2 env.rawRand := by
  have hi := reachable_isolated A hmac h
  obtain ⟨pos, token, ha, hfree, st, tlen, _, e⟩ := auth_true A hmac hi hauth
  rw [e, ha.alloc]
  dsimp only [SidUsable]
  generalize addrOf srv.ipPool pos = vip at hfree ⊢
  have hnew : (srv.sessions.create (shardOf vip) (newSession env src vip)).heap srv.sessions.brk =
      newSession env src vip := by rw [create_heap, if_pos rfl]
  have hsid : (newSession env src vip).sid = vfSsGenerateSid vip env.rawRand := rfl
  constructor
  · rintro ⟨p, hl, hnl, h0, hd, _⟩
    obtain rfl : p = srv.sessions.brk := by
      rcases live_create.mp hl with e | hl
      · exact e
      · exact absurd hl hnl
    rw [hnew, hsid] at h0 hd
    refine ⟨fun hs hu => h0 (generateSid_eq_zero_iff.mpr ⟨hs, hu⟩), ?_⟩
    exact fun q hq => (sid_ne_iff hi.wf hq vip env.rawRand).mp (hd q hq)
  · rintro ⟨hz, hd⟩
    refine ⟨srv.sessions.brk, live_create.mpr (.inl rfl), ?_, ?_, ?_, ?_⟩
    · exact fun hl => Nat.lt_irrefl _ (hi.wf.lt_brk hl)
    · rw [hnew, hsid]
      intro e0
      obtain ⟨hs, hu⟩ := generateSid_eq_zero_iff.mp e0
      exact hz hs hu
    · rw [hnew, hsid]
      exact fun q hq => (sid_ne_iff hi.wf hq vip env.rawRand).mpr (hd q hq)
    · rw [hnew]
      exact lookupBySid_create srv.sessions (shardOf_generateSid vip env.rawRand)

end

/-- Beside a session of the same shard the draw 16 gives a usable id, the draw 0 does not. -/
theorem second_sid_usable :
    shardOf 0x0300000A = shardOf 0x0200000A ∧
      SidUsable oneClient (vfastHandleAuth markAead zeroHmac oneClient
        (authEnv (some fun _ => 2) 16) authDatagram 152 ⟨2, 2⟩).1 ∧
      ¬ SidUsable oneClient (vfastHandleAuth markAead zeroHmac oneClient
        (authEnv (some fun _ => 2) 0) authDatagram 152 ⟨2, 2⟩).1 := by
  refine ⟨by decide, ?_, fun hu => ?_⟩
  · exact (new_sid_usable_iff markAead zeroHmac oneClient_reachable (by decide +kernel)).mpr
      ⟨by decide +kernel, forall_live.mp (by decide +kernel)⟩
  · obtain ⟨_, hd⟩ :=
      (new_sid_usable_iff markAead zeroHmac oneClient_reachable (by decide +kernel)).mp hu
    exact hd 0 ⟨10, by decide +kernel⟩ (by decide +kernel) (by decide +kernel)

/-- In 10.0.10.0 the draw 0 gives the first session the id that means "no session". -/
theorem first_sid_zero :
    ∃ srv env buf plen src, Reachable (serverRuns markAead zeroHmac) srv ∧
      (vfastHandleAuth markAead zeroHmac srv env buf plen src).2.2 = true ∧
      ¬ SidUsable srv (vfastHandleAuth markAead zeroHmac srv env buf plen src).1 := by
  have hs : Started (startedServer 0x000A000A) := startedServer_started (by decide)
  have hauth : (vfastHandleAuth markAead zeroHmac (startedServer 0x000A000A)
      (authEnv (some fun _ => 1) 0) authDatagram 152 ⟨0, 0⟩).2.2 = true := by decide
  refine ⟨_, _, _, _, _, .init hs, hauth, ?_⟩
  rintro ⟨p, hl, hnl, h0, _⟩
  obtain ⟨pos, token, _, _, st, tlen, _, e⟩ :=
    auth_true markAead zeroHmac (isolated_started hs) hauth
  rw [e] at hl
  rcases live_create.mp hl with rfl | hl
  · exact h0 (by decide)
  · exact hnl hl

end Vfast.Addresses
