import Vfast.Authenticity

/-! What one datagram can do to the server: which session it is for, what it leaves of a
live session, and what it can inject into the TUN device. -/

namespace Vfast.Ingress

open Bytes Key Crypto Protocol Wire Sessions Server ServerInv Addresses Authenticity Run

/-! ## The session a datagram is for -/

def sidOf (data : Mem) (len : Nat) : UInt32 :=
  bswap32 ((vfRemoveHeaderObfs data len).load32 offSessionId)

def typeOf (data : Mem) (len : Nat) : UInt8 := vfRemoveHeaderObfs data len offMsgType

/-- The session that `server_on_udp` processes the datagram with. -/
def sessionFor (srv : VfastServer) (data : Mem) (len : Nat) : Option Ptr :=
  if sidOf data len = 0 then none else vfSsLookupBySid srv.sessions (sidOf data len)

theorem sessionFor_some {srv : VfastServer} {data : Mem} {len : Nat} {p : Ptr}
    (h : sessionFor srv data len = some p) :
    sidOf data len ≠ 0 ∧ vfSsLookupBySid srv.sessions (sidOf data len) = some p := by
  unfold sessionFor at h
  split at h
  · cases h
  · rename_i h0
    exact ⟨h0, h⟩

section

variable (A : Aead) (hmac : List UInt8 → List UInt8 → Block 32)

/-- What `vf_unpack` makes of the datagram. -/
def unpackFor (srv : VfastServer) (data : Mem) (len : Nat) : Mem × Option Nat :=
  vfUnpack A (sessionCtx srv (sessionFor srv data len)) (vfRemoveHeaderObfs data len) len

theorem unpackFor_cases (srv : VfastServer) (data : Mem) (len : Nat) :
    (hlen ≤ len → (unpackFor A srv data len).2 = none) ∨
      hlen ≤ len ∧ ∃ buf plen, unpackFor A srv data len = (buf, some plen) := by
  by_cases hl : hlen ≤ len
  · cases hu : (unpackFor A srv data len).2 with
    | none => exact Or.inl fun _ => rfl
    | some plen => exact Or.inr ⟨hl, _, plen, Prod.ext rfl hu⟩
  · exact Or.inl fun h => absurd h hl

theorem findSession_eq (srv : VfastServer) (data : Mem) (len : Nat) :
    ∃ stats, findSession srv (sidOf data len) =
      ({ srv with stats := stats }, sessionFor srv data len) := by
  unfold findSession sessionFor
  split
  · exact ⟨srv.stats, rfl⟩
  · cases vfSsLookupBySid srv.sessions (sidOf data len) with
    | none => exact ⟨_, rfl⟩
    | some p => exact ⟨srv.stats, rfl⟩

/-- A datagram that does not unpack changes the counters only. -/
theorem serverOnUdp_dropped {srv : VfastServer} (env : Env) {data : Mem} {len : Nat}
    (src : SockAddr) (h : hlen ≤ len → (unpackFor A srv data len).2 = none) :
    (serverOnUdp A hmac srv env data len src).2 = ([], .done) ∧
      ∃ stats reass, (serverOnUdp A hmac srv env data len src).1 =
        { srv with stats := stats, reassStats := reass } := by
  unfold serverOnUdp
  split
  · exact ⟨rfl, _, _, rfl⟩
  · rename_i hl
    obtain ⟨stats, hf⟩ := findSession_eq srv data len
    have hu : vfUnpack A (sessionCtx { srv with stats := stats } (sessionFor srv data len))
        (vfRemoveHeaderObfs data len) len = ((unpackFor A srv data len).1, none) :=
      Prod.ext rfl (h (by omega))
    change findSession srv (bswap32 ((vfRemoveHeaderObfs data len).load32 offSessionId)) = _ at hf
    simp only [hf, hu]
    exact ⟨trivial, _, _, rfl⟩

/-- A datagram that unpacks is dispatched, with its bytes counted. -/
theorem serverOnUdp_dispatched {srv : VfastServer} (env : Env) {data buf : Mem} {len plen : Nat}
    (src : SockAddr) (hl : hlen ≤ len) (hu : unpackFor A srv data len = (buf, some plen)) :
    ∃ stats, ∀ r, r = dispatch A hmac
        (({ srv with stats := stats } : VfastServer).countBytes (sessionFor srv data len) len) env
        (sessionFor srv data len) (sidOf data len) buf plen src →
      serverOnUdp A hmac srv env data len src =
        ({ r.1 with stats := r.1.stats.rx, reassStats := r.1.reassStats.rx }, r.2.1,
          if r.2.2 then .use else .done) := by
  obtain ⟨stats, hf⟩ := findSession_eq srv data len
  refine ⟨stats, ?_⟩
  rintro r rfl
  unfold serverOnUdp
  rw [if_neg (by omega)]
  change findSession srv (bswap32 ((vfRemoveHeaderObfs data len).load32 offSessionId)) = _ at hf
  change vfUnpack A (sessionCtx { srv with stats := stats } (sessionFor srv data len))
    (vfRemoveHeaderObfs data len) len = _ at hu
  simp only [hf, hu]
  rfl

/-- Without a session only the handshake types unpack. -/
theorem unpack_none_bypass {m buf : Mem} {len plen : Nat}
    (h : vfUnpack A none m len = (buf, some plen)) : bypassesAead (m offMsgType) = true := by
  cases hb : bypassesAead (m offMsgType) with
  | true => rfl
  | false =>
    unfold vfUnpack at h
    split at h
    · cases h
    · simp [hb] at h

theorem unpackFor_header {srv : VfastServer} {data buf : Mem} {len plen : Nat}
    (hu : unpackFor A srv data len = (buf, some plen)) :
    buf offMsgType = typeOf data len ∧ bswap32 (buf.load32 offSessionId) = sidOf data len := by
  have hf := vfUnpack_frame A (sessionCtx srv (sessionFor srv data len))
    (vfRemoveHeaderObfs data len) len
  unfold unpackFor at hu
  rw [hu] at hf
  refine ⟨hf offMsgType (by decide) (by decide), ?_⟩
  rw [sidOf, load32_congr buf (vfRemoveHeaderObfs data len) offSessionId]
  intro i hi
  exact hf _ (by simp [offSessionId, hlen]; omega) (by simp [offSessionId, offFlags]; omega)

/-! ## What a datagram leaves of a session -/

end

/-- `bytes_processed` of the active key moves by the length of the datagram. -/
def counted (len : Nat) (s : Session) : Session := { s with secCtx := s.secCtx.countBytes len }

def refreshed (src : SockAddr) (now : Int) (s : Session) : Session :=
  { s with remoteAddr := src, lastSeen := now }

/-- The session after `vfast_handle_rekey_req`. -/
def rekeyed (now : Int) (buf : Mem) (plen : Nat) (s : Session) : Session :=
  if plen < 36 then s
  else
    match rekeyStage s.secCtx (bswap32 (buf.load32 hlen)) (Block.ofList 32 (buf.read (hlen + 4) 32))
      now with
    | none => s
    | some staged => { s with secCtx := vfRekeyCommit staged }

/-- The session that an unpacked packet names, after its dispatch. -/
def dispatched (env : Env) (src : SockAddr) (buf : Mem) (plen : Nat) (s : Session) : Session :=
  match MsgType.ofCode (buf offMsgType) with
  | some .keepalive => if plen < 16 then s else refreshed src env.now s
  | some .dpdResponse => refreshed src env.now s
  | some .rekeyAck =>
    if s.secCtx.rekeyPending then { s with secCtx := vfRekeyCommit s.secCtx } else s
  | some .rekeyReq => rekeyed env.now buf plen s
  | _ => s

def LivesAs (srv' : VfastServer) (p : Ptr) (s' : Session) : Prop :=
  Live srv'.sessions p ∧ srv'.sessions.heap p = s'

theorem livesAs_modify {srv srv' : VfastServer} {p q : Ptr} {f : Session → Session}
    (hl : Live srv.sessions p) (h : srv'.sessions = srv.sessions.modify q f) :
    LivesAs srv' p (if q = p then f (srv.sessions.heap p) else srv.sessions.heap p) := by
  refine ⟨by rw [h]; exact hl, ?_⟩
  rw [h, modify_heap]
  by_cases e : p = q
  · subst e
    rw [if_pos rfl]
  · rw [if_neg e, if_neg (Ne.symm e)]

theorem livesAs_setCtx {srv srv' : VfastServer} {p q : Ptr} {ctx : SecCtx}
    (hl : Live srv.sessions p) (h : srv'.sessions = (srv.setCtx q ctx).sessions) :
    LivesAs srv' p
      (if q = p then { srv.sessions.heap p with secCtx := ctx } else srv.sessions.heap p) :=
  livesAs_modify (f := fun s => { s with secCtx := ctx }) hl h

theorem livesAs_same {srv srv' : VfastServer} {p : Ptr} (hl : Live srv.sessions p)
    (h : srv'.sessions = srv.sessions) : LivesAs srv' p (srv.sessions.heap p) := by
  rw [LivesAs, h]
  exact ⟨hl, rfl⟩

section

variable (A : Aead) (hmac : List UInt8 → List UInt8 → Block 32)

theorem auth_livesAs {srv : VfastServer} (hi : Isolated srv) {p : Ptr} (hl : Live srv.sessions p)
    (env : Env) (buf : Mem) (plen : Nat) (src : SockAddr) :
    LivesAs (vfastHandleAuth A hmac srv env buf plen src).1 p (srv.sessions.heap p) := by
  rcases vfastHandleAuth_cases A hmac hi env buf plen src with
    e | ⟨_, pos, e⟩ | ⟨pos, token, ha, e⟩
  · rw [e]
    exact livesAs_same hl rfl
  · rw [e]
    exact livesAs_same hl rfl
  · obtain ⟨_, st, tlen, _, e'⟩ := ha.result A hmac hi
    rw [e, e']
    -- the new session has an object of its own
    exact ⟨live_create.mpr (.inr hl), create_heap_live hi.wf hl⟩

theorem hello_livesAs {srv : VfastServer} {p : Ptr} (hl : Live srv.sessions p) (env : Env)
    (buf : Mem) (plen : Nat) (src : SockAddr) :
    LivesAs (vfastHandleHello A hmac srv env buf plen src).1 p (srv.sessions.heap p) := by
  unfold vfastHandleHello
  split <;> exact livesAs_same hl rfl

theorem echo_livesAs {srv : VfastServer} (hw : srv.sessions.WF) {p : Ptr}
    (hl : Live srv.sessions p) (env : Env) {s : Option Ptr}
    (hs : ∀ q, s = some q → Live srv.sessions q) (sid : UInt32) (buf : Mem) (plen : Nat)
    (src : SockAddr) :
    LivesAs (vfastHandleEcho A srv env s sid buf plen src).1 p
      (if s = some p then (if plen < 16 then srv.sessions.heap p
        else refreshed src env.now (srv.sessions.heap p)) else srv.sessions.heap p) := by
  unfold vfastHandleEcho
  by_cases h16 : plen < 16
  · simp only [h16, if_true, ite_self]
    exact livesAs_same hl rfl
  simp only [h16, if_false]
  cases s with
  | none =>
    simp only [reduceCtorEq, if_false]
    exact livesAs_same hl rfl
  | some q =>
    have hup := vfSsUpdate_self hw src env.keyDraw env.now (hs q rfl)
    simp only [Option.some.injEq]
    exact livesAs_modify hl hup

theorem rekeyReq_livesAs {srv : VfastServer} {p q : Ptr} (hl : Live srv.sessions p) (env : Env)
    (buf : Mem) (plen : Nat) (src : SockAddr) :
    LivesAs (vfastHandleRekeyReq A srv env q buf plen src).1 p
      (if q = p then rekeyed env.now buf plen (srv.sessions.heap p) else srv.sessions.heap p) := by
  unfold vfastHandleRekeyReq rekeyed
  by_cases h36 : plen < 36
  · simp only [h36, if_true, ite_self]
    exact livesAs_same hl rfl
  simp only [h36, if_false]
  cases hst : rekeyStage (srv.sessions.heap q).secCtx (bswap32 (buf.load32 hlen))
      (Block.ofList 32 (buf.read (hlen + 4) 32)) env.now with
  | none =>
    by_cases e : q = p
    · subst e
      simp only [hst, if_true]
      exact livesAs_same hl rfl
    · simp only [e, if_false]
      exact livesAs_same hl rfl
  | some staged =>
    have hm : LivesAs ((srv.packSend A env (some staged)
        (buf.write hlen (le32 (bswap32 (bswap32 (buf.load32 hlen))))) 4 .rekeyAck
        (srv.sessions.heap q).sid src).1.setCtx q (vfRekeyCommit staged)) p _ :=
      livesAs_setCtx hl rfl
    by_cases e : q = p
    · subst e
      simp only [hst, if_true] at hm ⊢
      exact hm
    · simp only [e, if_false] at hm ⊢
      exact hm

theorem rekeyAck_livesAs {srv : VfastServer} {p q : Ptr} (hl : Live srv.sessions p) :
    LivesAs (vfastHandleRekeyAck srv q) p
      (if q = p then (if (srv.sessions.heap p).secCtx.rekeyPending then
          { srv.sessions.heap p with secCtx := vfRekeyCommit (srv.sessions.heap p).secCtx }
        else srv.sessions.heap p) else srv.sessions.heap p) := by
  unfold vfastHandleRekeyAck
  have hm : LivesAs (srv.setCtx q (vfRekeyCommit (srv.sessions.heap q).secCtx)) p _ :=
    livesAs_setCtx hl rfl
  by_cases e : q = p
  · subst e
    rw [if_pos rfl] at hm ⊢
    cases hp : (srv.sessions.heap q).secCtx.rekeyPending with
    | false =>
      simp only [hp, Bool.not_false, if_true, Bool.false_eq_true, if_false]
      exact livesAs_same hl rfl
    | true =>
      simp only [hp, Bool.not_true, Bool.false_eq_true, if_false, if_true]
      exact hm
  · rw [if_neg e] at hm ⊢
    cases hp : (srv.sessions.heap q).secCtx.rekeyPending with
    | false =>
      simp only [hp, Bool.not_false, if_true]
      exact livesAs_same hl rfl
    | true =>
      simp only [hp, Bool.not_true, Bool.false_eq_true, if_false]
      exact hm

/-- **Dispatch, seen from one session**: only the session that the packet names changes. -/
theorem dispatch_livesAs {srv : VfastServer} (hi : Isolated srv) {p : Ptr}
    (hl : Live srv.sessions p) (env : Env) {s : Option Ptr} {buf : Mem}
    (hs : ∀ q, s = some q →
      vfSsLookupBySid srv.sessions (bswap32 (buf.load32 offSessionId)) = some q)
    (hn : s = none → bypassesAead (buf offMsgType) = true) (sid : UInt32) (plen : Nat)
    (src : SockAddr) :
    LivesAs (dispatch A hmac srv env s sid buf plen src).1 p
      (if s = some p then dispatched env src buf plen (srv.sessions.heap p)
        else srv.sessions.heap p) := by
  have hlive : ∀ q, s = some q → Live srv.sessions q := fun q e =>
    (lookupBySid_some hi.wf (hs q e)).1
  -- a type that does not bypass the AEAD was opened with the keys of a session
  have hsome : ∀ ty : MsgType, ty.code = buf offMsgType → bypassesAead ty.code = false →
      ∃ q, s = some q := by
    intro ty hcode hb
    apply Option.ne_none_iff_exists'.mp
    intro e
    rw [hcode, hn e] at hb
    cases hb
  unfold dispatch dispatched
  cases hty : MsgType.ofCode (buf offMsgType) with
  | none =>
    rw [ite_self]
    exact livesAs_same hl rfl
  | some ty =>
    have hcode := MsgType.code_of_ofCode hty
    cases ty with
    | data =>
      rw [ite_self]
      exact livesAs_same hl rfl
    | hello =>
      rw [ite_self]
      exact hello_livesAs A hmac hl env buf plen src
    | keepalive => exact echo_livesAs A hi.wf hl env hlive sid buf plen src
    | disconnect =>
      rw [ite_self]
      exact livesAs_same hl rfl
    | dpdRequest =>
      rw [ite_self]
      exact livesAs_same hl rfl
    | dpdResponse =>
      obtain ⟨q, rfl⟩ := hsome _ hcode rfl
      simp only [Option.some.injEq]
      refine livesAs_modify hl ?_
      show vfSsUpdateBySid srv.sessions _ src env.now = _
      rw [vfSsUpdateBySid_eq, hs q rfl]
      rfl
    | rekeyReq =>
      obtain ⟨q, rfl⟩ := hsome _ hcode rfl
      simp only [Option.some.injEq]
      exact rekeyReq_livesAs A hl env buf plen src
    | rekeyAck =>
      obtain ⟨q, rfl⟩ := hsome _ hcode rfl
      simp only [Option.some.injEq]
      exact rekeyAck_livesAs hl
    | authReq =>
      rw [ite_self]
      exact auth_livesAs A hmac hi hl env buf plen src
    | authAck =>
      rw [ite_self]
      exact livesAs_same hl rfl
    | logout =>
      rw [ite_self]
      exact livesAs_same hl rfl

/-- A datagram that unpacks for session `p`. -/
structure Reaches (srv : VfastServer) (p : Ptr) (data : Mem) (len : Nat) (buf : Mem)
    (plen : Nat) : Prop where
  len_ge : hlen ≤ len
  session : sessionFor srv data len = some p
  unpack : unpackFor A srv data len = (buf, some plen)

/-- **A datagram, seen from one session**: the one it reaches is counted and dispatched. -/
theorem udp_reached {srv : VfastServer} (hi : Isolated srv) {p : Ptr} (hl : Live srv.sessions p)
    (env : Env) {data buf : Mem} {len plen : Nat} (src : SockAddr)
    (h : Reaches A srv p data len buf plen) :
    LivesAs (serverOnUdp A hmac srv env data len src).1 p
      (dispatched env src buf plen (counted len (srv.sessions.heap p))) := by
  obtain ⟨stats, hr⟩ := serverOnUdp_dispatched A hmac env src h.len_ge h.unpack
  rw [hr _ rfl, h.session]
  obtain ⟨_, hsid⟩ := unpackFor_header A h.unpack
  obtain ⟨_, hlook⟩ := sessionFor_some h.session
  have ht := touch_countBytes { srv with stats := stats } (some p) len
  have hc : Change False srv (VfastServer.countBytes { srv with stats := stats } (some p) len) :=
    .touch rfl ht
  have hs : ∀ q, some p = some q → vfSsLookupBySid
      (VfastServer.countBytes { srv with stats := stats } (some p) len).sessions
      (bswap32 (buf.load32 offSessionId)) = some q := by
    rintro q ⟨⟩
    rw [hsid, ht.lookupBySid]
    exact hlook
  have hn : some p = none → bypassesAead (buf offMsgType) = true := by
    intro e
    cases e
  have hd := dispatch_livesAs A hmac (hc.isolated hi) (ht.live.mpr hl) env hs hn
    (sidOf data len) plen src
  rw [if_pos rfl] at hd
  have hh : (VfastServer.countBytes { srv with stats := stats } (some p) len).sessions.heap p =
      counted len (srv.sessions.heap p) := by
    simp only [VfastServer.countBytes, VfastServer.setCtx, modify_heap, if_true]
    rfl
  rw [hh] at hd
  exact hd

theorem udp_unreached {srv : VfastServer} (hi : Isolated srv) {p : Ptr} (hl : Live srv.sessions p)
    (env : Env) {data : Mem} {len : Nat} (src : SockAddr)
    (h : ∀ buf plen, ¬ Reaches A srv p data len buf plen) :
    LivesAs (serverOnUdp A hmac srv env data len src).1 p (srv.sessions.heap p) := by
  rcases unpackFor_cases A srv data len with hnone | ⟨hlen', buf, plen, hu⟩
  · obtain ⟨_, stats, reass, e⟩ := serverOnUdp_dropped A hmac env src hnone
    rw [e]
    exact livesAs_same hl rfl
  · have hsp : sessionFor srv data len ≠ some p := fun e => h buf plen ⟨hlen', e, hu⟩
    obtain ⟨stats, hr⟩ := serverOnUdp_dispatched A hmac env src hlen' hu
    rw [hr _ rfl]
    obtain ⟨hty, hsid⟩ := unpackFor_header A hu
    have ht := touch_countBytes { srv with stats := stats } (sessionFor srv data len) len
    have hc : Change False srv
        (VfastServer.countBytes { srv with stats := stats } (sessionFor srv data len) len) :=
      .touch (by cases sessionFor srv data len <;> rfl) ht
    have hs : ∀ q, sessionFor srv data len = some q → vfSsLookupBySid
        (VfastServer.countBytes { srv with stats := stats } (sessionFor srv data len) len).sessions
        (bswap32 (buf.load32 offSessionId)) = some q := by
      intro q hq
      rw [hsid, ht.lookupBySid]
      exact (sessionFor_some hq).2
    have hn : sessionFor srv data len = none → bypassesAead (buf offMsgType) = true := by
      intro hnone
      rw [hty]
      unfold unpackFor at hu
      rw [hnone] at hu
      exact unpack_none_bypass A hu
    have hd := dispatch_livesAs A hmac (hc.isolated hi) (ht.live.mpr hl) env hs hn
      (sidOf data len) plen src
    rw [if_neg hsp] at hd
    have hh : (VfastServer.countBytes { srv with stats := stats } (sessionFor srv data len)
        len).sessions.heap p = srv.sessions.heap p := by
      cases hq : sessionFor srv data len with
      | none => rfl
      | some q =>
        have hne : p ≠ q := fun e => hsp (by rw [hq, e])
        simp only [VfastServer.countBytes, VfastServer.setCtx, modify_heap, hne, if_false]
    rw [hh] at hd
    exact hd

/-! ## Sessions over whole runs -/

theorem dispatch_born {srv : VfastServer} (hi : Isolated srv) (env : Env) {s : Option Ptr}
    (hs : ∀ q, s = some q → Live srv.sessions q) (sid : UInt32) (buf : Mem) (plen : Nat)
    (src : SockAddr) {p : Ptr}
    (hl : Live (dispatch A hmac srv env s sid buf plen src).1.sessions p) :
    Live srv.sessions p ∨ ∃ vip,
      (dispatch A hmac srv env s sid buf plen src).1.sessions.heap p = newSession env src vip := by
  rcases dispatch_cases A hmac hi.wf env hs sid buf plen src with ⟨-, hauth⟩ | hq
  · rw [hauth] at hl ⊢
    rcases vfastHandleAuth_cases A hmac hi env buf plen src with
      e | ⟨_, pos, e⟩ | ⟨pos, token, ha, e⟩
    · rw [e] at hl
      exact Or.inl hl
    · rw [e] at hl
      exact Or.inl hl
    · obtain ⟨_, st, tlen, _, e'⟩ := ha.result A hmac hi
      rw [e, e'] at hl ⊢
      rcases live_create.mp hl with rfl | hl
      · exact Or.inr ⟨_, by rw [create_heap, if_pos rfl]⟩
      · exact Or.inl hl
  · exact Or.inl (hq.touch.live.mp hl)

/-- **One datagram, seen from a session it leaves behind**: an old one that it reached or did
not reach, or the one it created. -/
theorem udp_session {srv : VfastServer} (hi : Isolated srv) (env : Env) (data : Mem) (len : Nat)
    (src : SockAddr) {p : Ptr} (hl : Live (serverOnUdp A hmac srv env data len src).1.sessions p) :
    (Live srv.sessions p ∧ ∃ buf plen, Reaches A srv p data len buf plen ∧
      (serverOnUdp A hmac srv env data len src).1.sessions.heap p =
        dispatched env src buf plen (counted len (srv.sessions.heap p))) ∨
    (Live srv.sessions p ∧ (∀ buf plen, ¬ Reaches A srv p data len buf plen) ∧
      (serverOnUdp A hmac srv env data len src).1.sessions.heap p = srv.sessions.heap p) ∨
    (¬ Live srv.sessions p ∧ ∃ vip,
      (serverOnUdp A hmac srv env data len src).1.sessions.heap p = newSession env src vip) := by
  by_cases hold : Live srv.sessions p
  · by_cases hr : ∃ buf plen, Reaches A srv p data len buf plen
    · obtain ⟨buf, plen, hr⟩ := hr
      exact Or.inl ⟨hold, buf, plen, hr, (udp_reached A hmac hi hold env src hr).2⟩
    · have hr' : ∀ buf plen, ¬ Reaches A srv p data len buf plen := fun buf plen h =>
        hr ⟨buf, plen, h⟩
      exact Or.inr (Or.inl ⟨hold, hr', (udp_unreached A hmac hi hold env src hr').2⟩)
  · refine Or.inr (Or.inr ⟨hold, ?_⟩)
    rcases serverOnUdp_cases A hmac srv env data len src with
      ⟨_, stats, reass, e⟩ | ⟨mid, s, buf, plen, hd, hr⟩
    · rw [e] at hl
      exact absurd hl hold
    · rw [hr _ rfl] at hl ⊢
      rcases dispatch_born A hmac (hd.isolated A hi) env (hd.live A hi) _ buf plen src hl with
        h | h
      · exact absurd ((hd.touch A).live.mp h) hold
      · exact h

theorem tun_sessions (srv : VfastServer) (env : Env) (buf : Mem) (len : Nat) :
    (serverOnTun A srv env buf len).1.sessions = srv.sessions := by
  unfold serverOnTun
  split
  · rfl
  dsimp only
  split
  · rfl
  split
  · rename_i h
    exact (congrArg (fun r => r.1.sessions) h).symm
  · rename_i h
    exact (congrArg (fun r => r.1.sessions) h).symm

/-- One node of the maintenance loop unlinks the session of its address if it is dead. -/
theorem maintainNode_sessions {acc : VfastServer × List Out × Nat} (hw : acc.1.sessions.WF)
    (env : Env) (node : ExpiredNode) :
    (maintainNode A env acc node).1.sessions.WF ∧
      (maintainNode A env acc node).1.sessions.heap = acc.1.sessions.heap ∧
      ∀ p, Live (maintainNode A env acc node).1.sessions p ↔
        Live acc.1.sessions p ∧
          (node.isDead = true → (acc.1.sessions.heap p).vip ≠ node.vip) := by
  obtain ⟨srv, outs, borrowed⟩ := acc
  unfold maintainNode
  dsimp only at hw ⊢
  cases hd : node.isDead with
  | true =>
    simp only [if_true, true_implies]
    exact ⟨hw.delete, vfSsDelete_heap _ _, fun p => live_delete hw⟩
  | false =>
    simp only [Bool.false_eq_true, if_false, false_implies, and_true]
    split
    · exact ⟨hw, rfl, fun _ => Iff.rfl⟩
    · split
      · exact ⟨hw, rfl, fun _ => Iff.rfl⟩
      · exact ⟨hw, rfl, fun _ => Iff.rfl⟩

theorem maintain_sessions (env : Env) (nodes : List ExpiredNode)
    (acc : VfastServer × List Out × Nat) (hw : acc.1.sessions.WF) :
    (nodes.foldl (maintainNode A env) acc).1.sessions.WF ∧
      (nodes.foldl (maintainNode A env) acc).1.sessions.heap = acc.1.sessions.heap ∧
      ∀ p, Live (nodes.foldl (maintainNode A env) acc).1.sessions p ↔
        Live acc.1.sessions p ∧ ∀ node ∈ nodes, node.isDead = true →
          (acc.1.sessions.heap p).vip ≠ node.vip := by
  induction nodes generalizing acc with
  | nil => simpa using hw
  | cons node nodes ih =>
    obtain ⟨hw', hh, hlive⟩ := maintainNode_sessions A hw env node
    obtain ⟨ihw, ihh, ihl⟩ := ih _ hw'
    refine ⟨ihw, ihh.trans hh, fun p => ?_⟩
    rw [List.foldl_cons, ihl, hlive, hh, List.forall_mem_cons, and_assoc]

theorem tick_sessions {srv : VfastServer} (hw : srv.sessions.WF) (env : Env) :
    (vfastServerMaintenance A srv env).1.sessions.WF ∧
      (vfastServerMaintenance A srv env).1.sessions.heap = srv.sessions.heap ∧
      ∀ p, Live (vfastServerMaintenance A srv env).1.sessions p ↔
        Live srv.sessions p ∧ ∀ node ∈ vfSsGetExpired srv.sessions 64 15 30 env.now,
          node.isDead = true → (srv.sessions.heap p).vip ≠ node.vip :=
  maintain_sessions A env _ (srv, [], 0) hw

/-- **Maintenance** changes no session; it unlinks dead ones. -/
theorem maintenance_sessions {srv : VfastServer} (hw : srv.sessions.WF) (env : Env) :
    (vfastServerMaintenance A srv env).1.sessions.heap = srv.sessions.heap ∧
      ∀ p, Live (vfastServerMaintenance A srv env).1.sessions p → Live srv.sessions p := by
  obtain ⟨-, hh, hl⟩ := tick_sessions A hw env
  exact ⟨hh, fun p h => ((hl p).mp h).1⟩

/-- **Session invariants**: what holds of a new session and is kept by every datagram that
reaches it holds of all live sessions of every reachable server. -/
theorem reachable_sessions {inv : Session → Prop}
    (hnew : ∀ env src vip, inv (newSession env src vip))
    (hstep : ∀ env src buf len plen s, inv s → inv (dispatched env src buf plen (counted len s)))
    {srv : VfastServer} (h : Reachable (serverRuns A hmac) srv) {p : Ptr}
    (hl : Live srv.sessions p) : inv (srv.sessions.heap p) := by
  refine (h.invariant (fun srv => Isolated srv ∧ ∀ p, Live srv.sessions p →
    inv (srv.sessions.heap p)) ?_ ?_).2 p hl
  · rintro srv hs
    obtain ⟨_, heap, he⟩ := id hs
    refine ⟨isolated_started hs, fun p hl => ?_⟩
    rw [he] at hl
    exact absurd hl (not_live_empty _ p)
  · rintro srv ev _ ⟨hi, hinv⟩ _ rfl
    refine ⟨(event_changes A hmac hi ev).isolated hi, fun p hl => ?_⟩
    cases ev with
    | udp env data len src =>
      change inv ((serverOnUdp A hmac srv env data len src).1.sessions.heap p)
      rcases udp_session A hmac hi env data len src hl with
        ⟨hold, buf, plen, _, e⟩ | ⟨hold, _, e⟩ | ⟨_, vip, e⟩
      · rw [e]
        exact hstep _ _ _ _ _ _ (hinv p hold)
      · rw [e]
        exact hinv p hold
      · rw [e]
        exact hnew _ _ _
    | tun env buf len =>
      have hs : (Event.run A hmac srv (.tun env buf len)).1.sessions = srv.sessions :=
        tun_sessions A srv env buf len
      rw [hs] at hl ⊢
      exact hinv p hl
    | maintenance env =>
      obtain ⟨hh, hlive⟩ := maintenance_sessions A hi.wf env
      change inv ((vfastServerMaintenance A srv env).1.sessions.heap p)
      rw [hh]
      exact hinv p (hlive p hl)

/-! ## Endpoints -/

/-- `server_on_udp` opens the datagram with a key of session `p`. -/
def Authenticated (srv : VfastServer) (p : Ptr) (data : Mem) (len : Nat) : Prop :=
  bypassesAead (typeOf data len) = false ∧ ∃ buf plen, Reaches A srv p data len buf plen

/-- The datagram is a KEEPALIVE for session `p` with a whole echo payload. -/
def KeepaliveFor (srv : VfastServer) (p : Ptr) (data : Mem) (len : Nat) : Prop :=
  typeOf data len = MsgType.keepalive.code ∧
    ∃ buf plen, Reaches A srv p data len buf plen ∧ 16 ≤ plen

theorem Reaches.type {A : Aead} {srv : VfastServer} {p : Ptr} {data buf : Mem} {len plen : Nat}
    (h : Reaches A srv p data len buf plen) : buf offMsgType = typeOf data len :=
  (unpackFor_header A h.unpack).1

/-- Of the types that bypass the AEAD only a KEEPALIVE touches the session it names. -/
theorem dispatched_bypass {env : Env} {src : SockAddr} {buf : Mem} {plen : Nat} {s : Session}
    (hb : bypassesAead (buf offMsgType) = true) :
    dispatched env src buf plen s =
      if buf offMsgType = MsgType.keepalive.code ∧ 16 ≤ plen then refreshed src env.now s
        else s := by
  by_cases hk : buf offMsgType = MsgType.keepalive.code
  · rw [dispatched, hk, MsgType.ofCode_code]
    by_cases h16 : plen < 16
    · simp [h16, Nat.not_le.mpr h16]
    · simp [h16, Nat.not_lt.mp h16]
  · rw [if_neg (fun h => hk h.1), dispatched]
    have hcases : buf offMsgType = MsgType.hello.code ∨ buf offMsgType = MsgType.authReq.code ∨
        buf offMsgType = MsgType.authAck.code := by
      simpa [bypassesAead, hk, or_assoc] using hb
    rcases hcases with e | e | e <;> rw [e, MsgType.ofCode_code]

/-- **A datagram that was not opened with a session's key** moves the session's endpoint
exactly when it is a KEEPALIVE for it: that type is not encrypted. -/
theorem unauthenticated_endpoint {srv : VfastServer} (h : Reachable (serverRuns A hmac) srv)
    {p : Ptr} (hl : Live srv.sessions p) (env : Env) {data : Mem} {len : Nat} (src : SockAddr)
    (hna : ¬ Authenticated A srv p data len) :
    (KeepaliveFor A srv p data len →
      ((serverOnUdp A hmac srv env data len src).1.sessions.heap p).remoteAddr = src ∧
      ((serverOnUdp A hmac srv env data len src).1.sessions.heap p).lastSeen = env.now) ∧
    (¬ KeepaliveFor A srv p data len →
      ((serverOnUdp A hmac srv env data len src).1.sessions.heap p).remoteAddr =
        (srv.sessions.heap p).remoteAddr ∧
      ((serverOnUdp A hmac srv env data len src).1.sessions.heap p).lastSeen =
        (srv.sessions.heap p).lastSeen) := by
  have hi := reachable_isolated A hmac h
  by_cases hr : ∃ buf plen, Reaches A srv p data len buf plen
  · obtain ⟨buf, plen, hr⟩ := hr
    have hty := hr.type
    have hb : bypassesAead (buf offMsgType) = true := by
      rw [hty]
      cases hb : bypassesAead (typeOf data len) with
      | true => rfl
      | false => exact absurd ⟨hb, buf, plen, hr⟩ hna
    have hs := (udp_reached A hmac hi hl env src hr).2
    rw [dispatched_bypass hb] at hs
    rw [hs]
    constructor
    · rintro ⟨hk, buf', plen', hr', h16⟩
      have he : plen' = plen := by
        have := hr'.unpack.symm.trans hr.unpack
        simpa using congrArg Prod.snd this
      rw [if_pos ⟨hty.trans hk, by omega⟩]
      exact ⟨rfl, rfl⟩
    · intro hk
      rw [if_neg (fun h => hk ⟨hty.symm.trans h.1, buf, plen, hr, h.2⟩)]
      exact ⟨rfl, rfl⟩
  · have hs := (udp_unreached A hmac hi hl env src
      (fun buf plen h => hr ⟨buf, plen, h⟩)).2
    rw [hs]
    refine ⟨?_, fun _ => ⟨rfl, rfl⟩⟩
    rintro ⟨_, buf, plen, h, _⟩
    exact absurd ⟨buf, plen, h⟩ hr

end

/-- The server of the first login: the client at 0.0.0.0:0 holds 10.0.0.2 under the id 10. -/
def servedOnce : VfastServer :=
  (ServerInv.Event.run markAead zeroHmac (startedServer 0x0000000A)
    (.udp (authEnv (some fun _ => 1) 0) authDatagram 172 ⟨0, 0⟩)).1

theorem servedOnce_reachable :
    Reachable (serverRuns markAead zeroHmac) servedOnce :=
  .step (l := .udp (authEnv (some fun _ => 1) 0) authDatagram 172 ⟨0, 0⟩)
    (.init (startedServer_started (by decide))) trivial rfl

theorem servedOnce_live : Live servedOnce.sessions 0 :=
  ⟨10, by decide⟩

/-- A datagram of the given type for session 10, with zero payload; its sequence number
switches the mask off. -/
def strangerDatagram (type : MsgType) : Mem := fun i =>
  if i = 3 then type.code else if i = 11 then 0x0A else if i = 12 then 0xEF
  else if i = 13 then 0xBE else if i = 14 then 0xAD else if i = 15 then 0xDE else 0

/-- A DATA packet of 80 bytes for session 10, sealed with its first key. -/
def dataDatagram : Mem := fun i =>
  if i = 6 then 1 else if 64 ≤ i then 7 else strangerDatagram .data i

theorem hello_keeps_endpoint :
    ¬ Authenticated markAead servedOnce 0 (strangerDatagram .hello) 28 ∧
      ((serverOnUdp markAead zeroHmac servedOnce (authEnv none 0)
        (strangerDatagram .hello) 28 ⟨1, 1⟩).1.sessions.heap 0).remoteAddr = ⟨0, 0⟩ := by
  have hna : ¬ Authenticated markAead servedOnce 0 (strangerDatagram .hello) 28 :=
    fun h => absurd h.1 (by decide)
  have hnk : ¬ KeepaliveFor markAead servedOnce 0 (strangerDatagram .hello) 28 :=
    fun h => absurd h.1 (by decide)
  refine ⟨hna, ?_⟩
  rw [((unauthenticated_endpoint markAead zeroHmac servedOnce_reachable servedOnce_live
    (authEnv none 0) ⟨1, 1⟩ hna).2 hnk).1]
  decide

/-- Anyone who knows a session id moves the session to an address of their choice with one
KEEPALIVE. -/
theorem keepalive_redirects :
    ∃ srv p env data len src, Reachable (serverRuns markAead zeroHmac) srv ∧
      Live srv.sessions p ∧ ¬ Authenticated markAead srv p data len ∧
      ((serverOnUdp markAead zeroHmac srv env data len src).1.sessions.heap
        p).remoteAddr ≠ (srv.sessions.heap p).remoteAddr := by
  refine ⟨servedOnce, 0, authEnv none 0, strangerDatagram .keepalive, 36, ⟨1, 1⟩,
    servedOnce_reachable, servedOnce_live, fun h => absurd h.1 (by decide), ?_⟩
  decide

/-! ## What reaches the TUN device -/

section

variable (A : Aead) (hmac : List UInt8 → List UInt8 → Block 32)

def IsSend (o : Out) : Prop := ∃ bytes dst, o = .udpSend bytes dst

/-- What a handler submitted and whether it keeps the task buffer: it keeps the buffer if it
sends an answer from it, and does nothing else with it. -/
inductive Answers : List Out × Bool → Prop where
  | silent : Answers ([], false)
  | sent (bytes : List UInt8) (dst : SockAddr) : Answers ([.udpSend bytes dst], true)

theorem Answers.isSend {r : List Out × Bool} (h : Answers r) : ∀ o ∈ r.1, IsSend o := by
  intro o ho
  cases h with
  | silent => cases ho
  | sent bytes dst => exact ⟨bytes, dst, List.mem_singleton.mp ho⟩

theorem packSend_isSend (srv : VfastServer) (env : Env) (sec : Option SecCtx) (buf : Mem)
    (plen : Nat) (type : MsgType) (sid : UInt32) (dst : SockAddr) :
    ∀ o ∈ (srv.packSend A env sec buf plen type sid dst).2, IsSend o := by
  intro o ho
  obtain ⟨tlen, _, rfl⟩ := Option.map_eq_some_iff.mp ho
  exact ⟨_, _, rfl⟩

theorem reply_answers {r : VfastServer × Option Out} (h : ∀ o ∈ r.2, IsSend o) :
    Answers (reply r).2 := by
  obtain ⟨srv, out⟩ := r
  cases out with
  | none => exact .silent
  | some o =>
    obtain ⟨bytes, dst, rfl⟩ := h o rfl
    exact .sent bytes dst

theorem hello_answers (srv : VfastServer) (env : Env) (buf : Mem) (plen : Nat) (src : SockAddr) :
    Answers (vfastHandleHello A hmac srv env buf plen src).2 := by
  unfold vfastHandleHello
  split
  · exact .silent
  · exact reply_answers (packSend_isSend A _ _ _ _ _ _ _ _)

theorem authAdmit_answers (srv : VfastServer) (env : Env) (buf : Mem) (src : SockAddr)
    (vip : UInt32) (token : Block 16) : Answers (authAdmit A srv env buf src vip token).2 := by
  unfold authAdmit
  dsimp only
  split
  · exact .silent
  · split
    · exact .silent
    · rename_i hs
      obtain ⟨bytes, dst, rfl⟩ := packSend_isSend A _ _ _ _ _ _ _ _ _ (congrArg Prod.snd hs)
      exact .sent bytes dst

theorem auth_answers (srv : VfastServer) (env : Env) (buf : Mem) (plen : Nat) (src : SockAddr) :
    Answers (vfastHandleAuth A hmac srv env buf plen src).2 := by
  unfold vfastHandleAuth
  split
  · exact .silent
  split
  · exact .silent
  split
  · exact .silent
  dsimp only
  split
  · exact .silent
  split
  · exact .silent
  · exact authAdmit_answers A _ _ _ _ _ _

theorem echo_answers (srv : VfastServer) (env : Env) (s : Option Ptr) (sid : UInt32) (buf : Mem)
    (plen : Nat) (src : SockAddr) : Answers (vfastHandleEcho A srv env s sid buf plen src).2 := by
  unfold vfastHandleEcho
  split
  · exact .silent
  split
  · exact .silent
  · exact reply_answers (packSend_isSend A _ _ _ _ _ _ _ _)

theorem rekeyReq_isSend (srv : VfastServer) (env : Env) (p : Ptr) (buf : Mem) (plen : Nat)
    (src : SockAddr) : ∀ o ∈ (vfastHandleRekeyReq A srv env p buf plen src).2, IsSend o := by
  intro o ho
  unfold vfastHandleRekeyReq at ho
  split at ho
  · cases ho
  dsimp only at ho
  split at ho
  · cases ho
  · exact packSend_isSend A _ _ _ _ _ _ _ _ o (Option.mem_toList.mp ho)

/-- Only a DATA packet is written to the TUN device: its payload. -/
theorem dispatch_outputs (srv : VfastServer) (env : Env) (s : Option Ptr) (sid : UInt32)
    (buf : Mem) (plen : Nat) (src : SockAddr) :
    ∀ o ∈ (dispatch A hmac srv env s sid buf plen src).2.1, IsSend o ∨
      (buf offMsgType = MsgType.data.code ∧ o = .tunWrite (buf.read hlen plen)) := by
  intro o ho
  unfold dispatch at ho
  split at ho
  · rename_i hty
    exact Or.inr ⟨(MsgType.code_of_ofCode hty).symm, List.mem_singleton.mp ho⟩
  · exact Or.inl ((hello_answers A hmac _ _ _ _ _).isSend o ho)
  · exact Or.inl ((auth_answers A hmac _ _ _ _ _).isSend o ho)
  · exact Or.inl ((echo_answers A _ _ _ _ _ _ _).isSend o ho)
  · cases ho
  · split at ho <;> cases ho
  · split at ho
    · cases ho
    · exact Or.inl (rekeyReq_isSend A _ _ _ _ _ _ o ho)
  · cases ho

/-- Without a key of the session only a packet of a handshake type unpacks. -/
theorem sealed_session {srv : VfastServer} {data buf : Mem} {len plen : Nat}
    (hu : unpackFor A srv data len = (buf, some plen))
    (hb : bypassesAead (buf offMsgType) = false) : sessionFor srv data len ≠ none := by
  intro hnone
  rw [(unpackFor_header A hu).1, typeOf] at hb
  unfold unpackFor at hu
  rw [hnone] at hu
  rw [unpack_none_bypass A hu] at hb
  cases hb

/-- `text` is what the body of the datagram `m`, with its nonce and its tag, opens to under
the active or the previous key of `ctx`; one of the `calls` locked it under that key. -/
def VerifiedText (calls : LockCall → Prop) (ctx : SecCtx) (m : Mem) (len : Nat)
    (text : List UInt8) : Prop :=
  ∃ key nonce c t, (key = ctx.activeKey.raw ∨ key = ctx.previousKey.raw) ∧
    m.read hlen (len - hlen) = Block.toList nonce ++ (c ++ Block.toList t) ∧
    A.unlock key nonce [] c t = some text ∧ calls ⟨key, nonce, [], text⟩

/-- The session table leads from `sid` to `p`. -/
structure NamedBy (srv : VfastServer) (sid : UInt32) (p : Ptr) : Prop where
  sid_ne : sid ≠ 0
  mem : p ∈ (srv.sessions.shards (shardOf sid)).sidTable
  sid_eq : (srv.sessions.heap p).sid = sid
  live : srv.sessions.WF → Live srv.sessions p

theorem namedBy_sessionFor {srv : VfastServer} {data : Mem} {len : Nat} {p : Ptr}
    (h : sessionFor srv data len = some p) : NamedBy srv (sidOf data len) p := by
  obtain ⟨h0, hp⟩ := sessionFor_some h
  obtain ⟨hm, hk⟩ := Keyed.hashFind_some hp
  exact ⟨h0, hm, hk, fun hw => (lookupBySid_some hw hp).1⟩

end

/-- **Only authenticated traffic is injected.** What `server_on_udp` writes to the TUN device
is a prefix of a text that a holder of the session's active or previous key locked, and the
branches that use the session have one. -/
theorem tun_write_authenticated {A : Aead} {calls : LockCall → Prop} (hA : A.IdealFor calls)
    (hmac : List UInt8 → List UInt8 → Block 32) (srv : VfastServer) (env : Env) (data : Mem)
    (len : Nat) (src : SockAddr) :
    (∀ bytes, Out.tunWrite bytes ∈ (serverOnUdp A hmac srv env data len src).2.1 →
      ∃ p text, NamedBy srv (sidOf data len) p ∧
        VerifiedText A calls (srv.sessions.heap p).secCtx (vfRemoveHeaderObfs data len) len text ∧
        bytes <+: text) ∧
    Out.tunNull ∉ (serverOnUdp A hmac srv env data len src).2.1 ∧
    (∀ buf plen, hlen ≤ len → unpackFor A srv data len = (buf, some plen) →
      (MsgType.ofCode (buf offMsgType) = some .data ∨
        MsgType.ofCode (buf offMsgType) = some .rekeyReq ∨
        MsgType.ofCode (buf offMsgType) = some .rekeyAck) →
      ∃ p, sessionFor srv data len = some p ∧ NamedBy srv (sidOf data len) p) := by
  have hsess : ∀ {buf plen}, unpackFor A srv data len = (buf, some plen) →
      bypassesAead (buf offMsgType) = false →
      ∃ p, sessionFor srv data len = some p ∧ NamedBy srv (sidOf data len) p := by
    intro buf plen hu hb
    obtain ⟨p, hp⟩ := Option.ne_none_iff_exists'.mp (sealed_session A hu hb)
    exact ⟨p, hp, namedBy_sessionFor hp⟩
  -- every output comes from the dispatch of an unpacked packet
  have houts : ∀ o ∈ (serverOnUdp A hmac srv env data len src).2.1, IsSend o ∨
      ∃ buf plen, unpackFor A srv data len = (buf, some plen) ∧
        buf offMsgType = MsgType.data.code ∧ o = .tunWrite (buf.read hlen plen) := by
    intro o ho
    rcases unpackFor_cases A srv data len with hnone | ⟨hl, buf, plen, hu⟩
    · rw [(serverOnUdp_dropped A hmac env src hnone).1] at ho
      cases ho
    · obtain ⟨stats, hr⟩ := serverOnUdp_dispatched A hmac env src hl hu
      rw [hr _ rfl] at ho
      rcases dispatch_outputs A hmac _ _ _ _ _ _ _ o ho with h | ⟨hty, e⟩
      · exact Or.inl h
      · exact Or.inr ⟨_, _, hu, hty, e⟩
  refine ⟨?_, ?_, ?_⟩
  · intro bytes hb
    rcases houts _ hb with ⟨_, _, e⟩ | ⟨buf, plen, hu, hty, e⟩
    · cases e
    cases e
    have hsealed : bypassesAead (buf offMsgType) = false := by
      rw [hty]
      rfl
    obtain ⟨p, hp, hn⟩ := hsess hu hsealed
    rw [(unpackFor_header A hu).1] at hsealed
    rw [unpackFor, hp] at hu
    obtain ⟨key, nonce, c, t, text, hk, hlay, hopen, hpre⟩ := unpack_sealed A hsealed hu
    exact ⟨p, text, hn, ⟨key, nonce, c, t, getDecryptKey_cases hk, hlay, hopen,
      (hA.only_calls _ _ _ _ _ _ hopen).1⟩, hpre⟩
  · intro hb
    rcases houts _ hb with ⟨_, _, e⟩ | ⟨_, _, _, _, e⟩
    · cases e
    · cases e
  · intro buf plen _ hu hty
    apply hsess hu
    rcases hty with h | h | h <;> (rw [← MsgType.code_of_ofCode h]; rfl)

theorem dataSent_unpacks :
    sessionFor sessionServer dataSent.2.1 117 = some 0 ∧
      typeOf dataSent.2.1 117 = MsgType.data.code ∧
      (unpackFor dataAead sessionServer dataSent.2.1 117).2 = some 57 := by
  obtain ⟨_, _, hh, _⟩ := vfPack_unmasked dataAead dataStatics none (some sharedCtx) dataBuf 36
    bufSize .data 0x0200000A (Nat.le_refl _) dataSent_len
  have hty : typeOf dataSent.2.1 117 = MsgType.data.code := hh.msgType
  have hsid : sidOf dataSent.2.1 117 = 0x0200000A := hh.sessionId
  have hs : sessionFor sessionServer dataSent.2.1 117 = some 0 := by
    rw [sessionFor, hsid]
    decide
  have hdec : bypassesAead (typeOf dataSent.2.1 117) = false := by
    rw [hty]
    rfl
  refine ⟨hs, hty, ?_⟩
  rw [unpackFor, hs]
  refine ((edited_unpack dataAead_ideal rfl rfl dataSent_len (fun _ _ _ => rfl) hdec
    sharedCtx).1 57).mpr ⟨?_, ?_⟩
  · exact (congrArg (vfRekeyGetDecryptKey sharedCtx) hh.keyId).trans
      (getDecryptKey_active sharedCtx)
  · have hl : (padded dataStatics dataBuf 36).length = 57 := by
      rw [length_padded]
      decide
    rw [hl, strippedLen, hh.flags]
    rfl

theorem data_packet_authenticated :
    ∃ bytes, Out.tunWrite bytes ∈ (serverOnUdp dataAead zeroHmac sessionServer (authEnv none 0)
        dataSent.2.1 117 ⟨0, 0⟩).2.1 ∧
      ∃ p text, NamedBy sessionServer (sidOf dataSent.2.1 117) p ∧
        VerifiedText dataAead (· = packCall dataStatics none sharedCtx dataBuf 36)
          (sessionServer.sessions.heap p).secCtx (vfRemoveHeaderObfs dataSent.2.1 117) 117 text ∧
        bytes <+: text := by
  obtain ⟨hs, hty, hlen'⟩ := dataSent_unpacks
  obtain ⟨buf, hu⟩ : ∃ buf, unpackFor dataAead sessionServer dataSent.2.1 117 = (buf, some 57) := by
    rw [← hlen']
    exact ⟨_, Prod.mk.eta.symm⟩
  obtain ⟨stats, hr⟩ := serverOnUdp_dispatched dataAead zeroHmac (authEnv none 0) ⟨0, 0⟩
    (by decide) hu
  have hmem : Out.tunWrite (buf.read hlen 57) ∈
      (serverOnUdp dataAead zeroHmac sessionServer (authEnv none 0) dataSent.2.1 117
        ⟨0, 0⟩).2.1 := by
    rw [hr _ rfl]
    dsimp only [dispatch]
    rw [(unpackFor_header _ hu).1, hty, MsgType.ofCode_code]
    exact List.mem_singleton.mpr rfl
  exact ⟨_, hmem, (tun_write_authenticated dataAead_ideal zeroHmac sessionServer (authEnv none 0)
    dataSent.2.1 117 ⟨0, 0⟩).1 _ hmem⟩

end Vfast.Ingress
