import Mathlib.Data.List.Forall2
import Vfast.Datagrams
import Vfast.Rekey

/-! The handlers of the two programs carry out the rekey protocol: a datagram encodes a
packet of `Rekey`, each handler acts on the contexts as the protocol's step does, and a
link of real datagrams between a client and its session therefore follows a run of the
protocol. -/

namespace Vfast.RekeyWire

open Bytes Key Crypto Protocol Sessions Server Client Wire RoundTrip Datagrams Rekey Run

/-! ## Packets as datagrams -/

def bodyType : Body → MsgType
  | .data => .data
  | .rekeyReq _ _ => .rekeyReq
  | .rekeyAck _ => .rekeyAck

/-- What the payload of a rekey message begins with. -/
def bodyBytes : Body → List UInt8
  | .data => []
  | .rekeyReq id raw => le32 (bswap32 id) ++ raw.toList
  | .rekeyAck id => le32 (bswap32 id)

section

variable (A : Aead)

/-- A received buffer holds the packet `p` of the session `sid`: a context that selects
the packet's key unpacks its content. -/
structure Holds (sid : UInt32) (p : Pkt) (data : Mem) (len : Nat) : Prop where
  len_ge : hlen ≤ len
  msgType : vfRemoveHeaderObfs data len offMsgType = (bodyType p.body).code
  keyId : vfRemoveHeaderObfs data len offKeyId = p.kid
  session : bswap32 ((vfRemoveHeaderObfs data len).load32 offSessionId) = sid
  unpack : ∀ ctx, opens ctx p → ∃ m plen,
    vfUnpack A (some ctx) (vfRemoveHeaderObfs data len) len = (m, some plen) ∧
      (bodyBytes p.body).length ≤ plen ∧
      m.read hlen (bodyBytes p.body).length = bodyBytes p.body

/-- The datagram encodes the packet: every copy of it holds it. -/
def Carries (sid : UInt32) (p : Pkt) (d : List UInt8) : Prop :=
  ∀ data len, data.read 0 len = d → Holds A sid p data len

variable {A}

theorem bypass_bodyType (body : Body) : bypassesAead (bodyType body).code = false := by
  cases body <;> rfl

/-- **Packing** a body under a context gives a datagram of the sealed packet. -/
theorem pack_carries (hA : A.Inverts) (body : Body) {st : Statics} {rd : Urandom} {ctx : SecCtx}
    {buf : Mem} {plen tlen : Nat} {sid : UInt32}
    (hp : (vfPack A st rd (some ctx) buf plen bufSize (bodyType body) sid).2.2 = some tlen)
    (hl : (bodyBytes body).length ≤ plen)
    (hb : buf.read hlen (bodyBytes body).length = bodyBytes body) :
    Carries A sid (sealPkt ctx body)
      ((vfPack A st rd (some ctx) buf plen bufSize (bodyType body) sid).2.1.read 0 tlen) := by
  intro data len hd
  obtain ⟨rfl, hr⟩ := received_of_read hd
  obtain ⟨htl, hh, _⟩ := hr.content (Nat.le_refl _) hp
  have hsec : packSec (some ctx) (bodyType body) = some ctx := by
    simp [packSec, bypass_bodyType]
  have hkid : packKid (some ctx) (bodyType body) = vfRekeyGetKeyid ctx := by
    simp [packKid, hsec]
  refine ⟨by omega, hh.msgType, ?_, hh.sessionId, fun rctx ho => ?_⟩
  · rw [hh.keyId, hkid]
    rfl
  have hopen : CanOpen (some ctx) (some rctx) (bodyType body) := by
    constructor
    · intro h
      cases hsec.symm.trans h
    · intro c hc
      cases Option.some.inj (hsec.symm.trans hc)
      exact ⟨rctx, rfl, ho⟩
  obtain ⟨_, m, hun, hread, _⟩ := delivered hA (Nat.le_refl _) hopen hp hr
  refine ⟨m, _, hun, ?_, ?_⟩
  · rw [length_padded]
    exact Nat.le_add_right_of_le hl
  · have hm : m.read hlen plen = buf.read hlen plen := by
      simpa using read_left hread
    have hbody : (bodyBytes (sealPkt ctx body).body).length ≤ plen := hl
    rw [← take_read m hlen plen _ hbody, hm, take_read _ _ _ _ hbody]
    exact hb

theorem pack_forall₂ (hA : A.Inverts) (st : Statics) (rd : Urandom) (ctx : SecCtx) (buf : Mem)
    (plen : Nat) (body : Body) (sid : UInt32) (dst : SockAddr)
    (hl : (bodyBytes body).length ≤ plen)
    (hb : buf.read hlen (bodyBytes body).length = bodyBytes body) :
    List.Forall₂ (Carries A sid)
      (if (vfPack A st rd (some ctx) buf plen bufSize (bodyType body) sid).2.2.isSome then
        [sealPkt ctx body] else [])
      (datagrams ((vfPack A st rd (some ctx) buf plen bufSize (bodyType body) sid).2.2.map
        fun tlen => Out.udpSend
          ((vfPack A st rd (some ctx) buf plen bufSize (bodyType body) sid).2.1.read 0 tlen)
          dst).toList) := by
  cases hp : (vfPack A st rd (some ctx) buf plen bufSize (bodyType body) sid).2.2 with
  | none => exact .nil
  | some tlen => exact .cons (pack_carries hA body hp hl hb) .nil

/-! ## The client -/

/-- `should_retry`, without the pending flag. -/
def due (mgr : RekeyMgr) (now : Int) : Bool := now - mgr.lastSent ≥ mgr.retryInterval

theorem rekeySend_carries (hA : A.Inverts) (c : VfastClient) (env : ClientEnv) (retry : Bool) :
    List.Forall₂ (Carries A c.fsm.sid) (request c.ctx env.task.isSome)
      (datagrams (rekeySend A c env retry).2) := by
  unfold rekeySend request
  cases env.task with
  | none => exact .nil
  | some buf =>
    have hlen36 : (rekeyPayload c.ctx.nextKey).length = 36 := by simp [rekeyPayload]
    obtain ⟨tlen, ht⟩ := ServerInv.vfPack_small A c.statics env.urandom (some c.ctx)
      (buf.write hlen (rekeyPayload c.ctx.nextKey)) 36 .rekeyReq c.fsm.sid (by decide)
    have h := pack_forall₂ hA c.statics env.urandom c.ctx
      (buf.write hlen (rekeyPayload c.ctx.nextKey)) 36
      (.rekeyReq c.ctx.nextKey.id c.ctx.nextKey.raw) c.fsm.sid c.fsm.dstAddr
      (Nat.le_of_eq hlen36) (read_write _ _ _)
    simp only [bodyType, ht, Option.isSome_some, if_true] at h ⊢
    exact h

/-- **The timer** stages and asks as the protocol's timer does. -/
theorem timer_refines (hA : A.Inverts) (c : VfastClient) (env : ClientEnv)
    (hc : c.fsm.state = .connected) :
    (vfastRekeyTimerHandler A c env).1.ctx =
        (timer c.ctx env.keyDraw env.now (due c.rekeyMgr env.now) env.task.isSome).1 ∧
      List.Forall₂ (Carries A c.fsm.sid)
        (timer c.ctx env.keyDraw env.now (due c.rekeyMgr env.now) env.task.isSome).2
        (datagrams (vfastRekeyTimerHandler A c env).2) := by
  have hconn : vfFsmIsConnected c = true := by simp [vfFsmIsConnected, hc]
  have hretry : shouldRetry c.ctx c.rekeyMgr env.now =
      (c.ctx.rekeyPending && due c.rekeyMgr env.now) := rfl
  simp only [vfastRekeyTimerHandler, timer, hconn, Bool.not_true, Bool.false_eq_true, if_false,
    hretry]
  cases hi : shouldInit c.ctx env.now with
  | true =>
    simp only [if_true]
    cases hd : env.keyDraw with
    | none => exact ⟨ClientKeys.ctx_setCtx c _, .nil⟩
    | some raw =>
      let staged : VfastClient :=
        { c.setCtx (vfRekeyPrepareNext c.ctx (some raw) env.now).1 with
          rekeyMgr := { c.rekeyMgr with retryInterval := 2 } }
      have hctx : staged.ctx = (vfRekeyPrepareNext c.ctx (some raw) env.now).1 :=
        ClientKeys.ctx_setCtx c _
      have hsend := rekeySend_carries hA staged env false
      rw [hctx] at hsend
      exact ⟨(ClientKeys.ctx_eq (ClientKeys.buffers_rekeySend A staged env false)).trans hctx,
        hsend⟩
  | false =>
    simp only [Bool.false_eq_true, if_false]
    split
    · exact ⟨ClientKeys.ctx_eq (ClientKeys.buffers_rekeySend A c env true),
        rekeySend_carries hA c env true⟩
    · exact ⟨rfl, .nil⟩

/-- **Data to the server** is counted and sealed under the active key. -/
theorem clientTun_refines (hA : A.Inverts) (c : VfastClient) (env : ClientEnv) (buf : Mem)
    (len : Nat) (hc : c.fsm.state = .connected) :
    (clientOnTun A c env buf len).1.ctx = c.ctx.countBytes len ∧
      ∃ packed : Bool, List.Forall₂ (Carries A c.fsm.sid)
        (if packed then [sealPkt (c.ctx.countBytes len) .data] else [])
        (datagrams (clientOnTun A c env buf len).2.1) := by
  have hconn : vfFsmIsConnected c = true := by simp [vfFsmIsConnected, hc]
  have hctx := ClientKeys.ctx_setCtx c (c.ctx.countBytes len)
  simp only [clientOnTun, hconn, Bool.not_true, Bool.false_eq_true, if_false]
  rw [hctx]
  cases ht : (vfPack A (c.setCtx (c.ctx.countBytes len)).statics env.urandom
      (some (c.ctx.countBytes len)) buf len bufSize .data
      (c.setCtx (c.ctx.countBytes len)).fsm.sid).2.2 with
  | none => exact ⟨hctx, false, .nil⟩
  | some tlen =>
    refine ⟨hctx, true, .cons ?_ .nil⟩
    exact pack_carries hA .data ht (Nat.zero_le _) rfl

/-- **A packet from the server**: only a REKEY_ACK touches the context. -/
theorem clientUdp_refines {c : VfastClient} (env : ClientEnv) {data : Mem} {len : Nat}
    (src : SockAddr) {sid : UInt32} {p : Pkt} (h : Holds A sid p data len) :
    (clientOnUdp A c env data len src).1.ctx = clientRecv c.ctx p.body ∧
      ClientKeys.standing (clientOnUdp A c env data len src).1 = ClientKeys.standing c ∧
      datagrams (clientOnUdp A c env data len src).2.1 = [] := by
  rw [ClientKeys.clientOnUdp_eq A h.len_ge, h.msgType, MsgType.ofCode_code]
  cases hb : p.body with
  | data =>
    refine ⟨rfl, rfl, ?_⟩
    simp only [bodyType, clientHandleData]
    split
    · rfl
    split <;> rfl
  | rekeyReq id raw => exact ⟨rfl, rfl, rfl⟩
  | rekeyAck id => exact ⟨ClientKeys.ctx_newKey _, rfl, rfl⟩

/-! ## The server -/

theorem rekeyReq_fields {m : Mem} {id : UInt32} {raw : Block 32}
    (h : m.read hlen (bodyBytes (.rekeyReq id raw)).length = bodyBytes (.rekeyReq id raw)) :
    bswap32 (m.load32 hlen) = id ∧ Block.ofList 32 (m.read (hlen + 4) 32) = raw := by
  have hid := read_left h
  have hraw := read_right h
  rw [length_le32] at hid hraw
  rw [Block.length_toList] at hraw
  rw [load32_of_read _ _ _ hid, bswap32_bswap32, hraw, Block.ofList_toList]
  exact ⟨rfl, rfl⟩

/-- **A REKEY_REQ** is staged, acknowledged under the old key and committed. -/
theorem rekeyReq_refines (hA : A.Inverts) (srv : VfastServer) (env : Env) {q : Ptr} {m : Mem}
    {plen : Nat} (src : SockAddr) {id : UInt32} {raw : Block 32}
    (hl : (bodyBytes (.rekeyReq id raw)).length ≤ plen)
    (hb : m.read hlen (bodyBytes (.rekeyReq id raw)).length = bodyBytes (.rekeyReq id raw)) :
    ((vfastHandleRekeyReq A srv env q m plen src).1.sessions.heap q).secCtx =
        (serverRecv (srv.sessions.heap q).secCtx env.now (.rekeyReq id raw)).1 ∧
      Touch srv.sessions (vfastHandleRekeyReq A srv env q m plen src).1.sessions ∧
      List.Forall₂ (Carries A (srv.sessions.heap q).sid)
        (serverRecv (srv.sessions.heap q).secCtx env.now (.rekeyReq id raw)).2
        (datagrams (vfastHandleRekeyReq A srv env q m plen src).2) := by
  obtain ⟨hid, hraw⟩ := rekeyReq_fields hb
  have h36 : ¬ plen < 36 := by
    simp only [bodyBytes, List.length_append, length_le32, Block.length_toList] at hl
    omega
  simp only [vfastHandleRekeyReq, if_neg h36, hid, hraw, serverRecv]
  cases hst : rekeyStage (srv.sessions.heap q).secCtx id raw env.now with
  | none => exact ⟨rfl, Touch.refl _, .nil⟩
  | some staged =>
    obtain ⟨tlen, ht⟩ := ServerInv.vfPack_small A srv.statics env.urandom (some staged)
      (m.write hlen (le32 (bswap32 id))) 4 .rekeyAck (srv.sessions.heap q).sid (by decide)
    refine ⟨?_, ServerInv.touch_setCtx srv q _, ?_⟩
    · simp only [VfastServer.packSend, VfastServer.setCtx, modify_heap, if_true]
    · have h := pack_forall₂ hA srv.statics env.urandom staged (m.write hlen (le32 (bswap32 id))) 4
        (.rekeyAck id) (srv.sessions.heap q).sid src (Nat.le_of_eq (length_le32 _))
        (read_write _ _ _)
      simp only [bodyType, ht, Option.isSome_some, if_true] at h
      simp only [VfastServer.packSend, ht]
      exact h

/-- **A packet from the client** that the session opens. -/
theorem serverUdp_refines (hA : A.Inverts) (hmac : List UInt8 → List UInt8 → Block 32)
    {srv : VfastServer} (env : Env) {data : Mem} {len : Nat} (src : SockAddr) {sid : UInt32}
    {q : Ptr} {p : Pkt} (h : Holds A sid p data len) (h0 : sid ≠ 0)
    (hq : vfSsLookupBySid srv.sessions sid = some q) (hsid : (srv.sessions.heap q).sid = sid)
    (ho : opens (srv.sessions.heap q).secCtx p) :
    ((serverOnUdp A hmac srv env data len src).1.sessions.heap q).secCtx =
        (serverRecv ((srv.sessions.heap q).secCtx.countBytes len) env.now p.body).1 ∧
      Touch srv.sessions (serverOnUdp A hmac srv env data len src).1.sessions ∧
      List.Forall₂ (Carries A sid)
        (serverRecv ((srv.sessions.heap q).secCtx.countBytes len) env.now p.body).2
        (datagrams (serverOnUdp A hmac srv env data len src).2.1) := by
  obtain ⟨m, plen, hun, hl, hb⟩ := h.unpack _ ho
  have hs := h.session
  obtain ⟨⟨stats, reass, e1⟩, e2⟩ := ServerInv.serverOnUdp_session A hmac env src h.len_ge
    (by rw [hs]; exact h0) (by rw [hs]; exact hq) hun
  have hty : m offMsgType = (bodyType p.body).code := by
    have hf := vfUnpack_frame A (some (srv.sessions.heap q).secCtx) (vfRemoveHeaderObfs data len)
      len offMsgType (by decide) (by decide)
    rw [hun] at hf
    exact hf.trans h.msgType
  have hcount : ((srv.countBytes (some q) len).sessions.heap q).secCtx =
      (srv.sessions.heap q).secCtx.countBytes len := by
    simp only [VfastServer.countBytes, VfastServer.setCtx, modify_heap, if_true]
  have hsid' : ((srv.countBytes (some q) len).sessions.heap q).sid = sid := by
    rw [(ServerInv.touch_countBytes srv (some q) len).sid]
    exact hsid
  have htouch := ServerInv.touch_countBytes srv (some q) len
  rw [e1, e2]
  simp only [dispatch, hty, MsgType.ofCode_code]
  cases hbody : p.body with
  | data => exact ⟨hcount, htouch, .nil⟩
  | rekeyReq id raw =>
    rw [hbody] at hl hb
    obtain ⟨r1, r2, r3⟩ := rekeyReq_refines hA (srv.countBytes (some q) len) env src hl hb
    rw [hcount] at r1 r3
    rw [hsid'] at r3
    exact ⟨r1, htouch.trans r2, r3⟩
  | rekeyAck id =>
    simp only [bodyType, vfastHandleRekeyAck, hcount, serverRecv]
    cases hp : ((srv.sessions.heap q).secCtx.countBytes len).rekeyPending with
    | false => exact ⟨hcount, htouch, .nil⟩
    | true =>
      refine ⟨?_, htouch.trans (ServerInv.touch_setCtx _ q _), .nil⟩
      simp only [Bool.not_true, Bool.false_eq_true, if_false, VfastServer.setCtx, modify_heap,
        if_true]

/-- **Data to the client** is sealed under the session's active key. -/
theorem serverTun_refines (hA : A.Inverts) {srv : VfastServer} (env : Env) (buf : Mem) (len : Nat)
    {q : Ptr} (hq : vfSsLookupByIp srv.sessions (buf.load32 (hlen + 16)) = some q) :
    (serverOnTun A srv env buf len).1.sessions = srv.sessions ∧
      ∃ packed : Bool, List.Forall₂ (Carries A (srv.sessions.heap q).sid)
        (if packed then [sealPkt (srv.sessions.heap q).secCtx .data] else [])
        (datagrams (serverOnTun A srv env buf len).2.1) := by
  unfold serverOnTun
  split
  · exact ⟨rfl, false, .nil⟩
  simp only [hq, VfastServer.packSend]
  cases ht : (vfPack A srv.statics env.urandom (some (srv.sessions.heap q).secCtx) buf len bufSize
      .data (srv.sessions.heap q).sid).2.2 with
  | none => exact ⟨rfl, false, .nil⟩
  | some tlen =>
    refine ⟨rfl, true, .cons ?_ .nil⟩
    exact pack_carries hA .data ht (Nat.zero_le _) rfl

end

/-! ## A link of datagrams -/

/-- A client, the server and the datagrams under way between them, oldest first. -/
structure Link where
  cli : VfastClient
  srv : VfastServer
  up : List (List UInt8)
  down : List (List UInt8)

inductive LinkEvent where
  | clientTun (env : ClientEnv) (buf : Mem) (len : Nat)
  | clientTimer (env : ClientEnv)
  | serverTun (env : Env) (buf : Mem) (len : Nat)
  | deliverUp (env : Env) (data : Mem) (src : SockAddr)
  | deliverDown (env : ClientEnv) (data : Mem) (src : SockAddr)

section

variable (A : Aead) (hmac : List UInt8 → List UInt8 → Block 32)

/-- One event of the link: the handlers of the two programs, with the datagrams they send
appended to the channels and the oldest datagram received. -/
inductive LinkStep (l : Link) : LinkEvent → Link → Prop where
  | clientTun (env : ClientEnv) (buf : Mem) (len : Nat) :
      LinkStep l (.clientTun env buf len) { l with
        cli := (clientOnTun A l.cli env buf len).1
        up := l.up ++ datagrams (clientOnTun A l.cli env buf len).2.1 }
  | clientTimer (env : ClientEnv) :
      LinkStep l (.clientTimer env) { l with
        cli := (vfastRekeyTimerHandler A l.cli env).1
        up := l.up ++ datagrams (vfastRekeyTimerHandler A l.cli env).2 }
  | serverTun (env : Env) (buf : Mem) (len : Nat) (hv : buf.load32 (hlen + 16) = l.cli.vip) :
      LinkStep l (.serverTun env buf len) { l with
        srv := (serverOnTun A l.srv env buf len).1
        down := l.down ++ datagrams (serverOnTun A l.srv env buf len).2.1 }
  | deliverUp (env : Env) (data : Mem) (src : SockAddr) (d : List UInt8) (rest : List (List UInt8))
      (hup : l.up = d :: rest) (hd : data.read 0 d.length = d) :
      LinkStep l (.deliverUp env data src) { l with
        srv := (serverOnUdp A hmac l.srv env data d.length src).1
        up := rest
        down := l.down ++ datagrams (serverOnUdp A hmac l.srv env data d.length src).2.1 }
  | deliverDown (env : ClientEnv) (data : Mem) (src : SockAddr) (d : List UInt8)
      (rest : List (List UInt8)) (hdown : l.down = d :: rest) (hd : data.read 0 d.length = d) :
      LinkStep l (.deliverDown env data src) { l with
        cli := (clientOnUdp A l.cli env data d.length src).1
        up := l.up ++ datagrams (clientOnUdp A l.cli env data d.length src).2.1
        down := rest }

def linkRuns (init : Link → Prop) : System Link LinkEvent where
  init := init
  step := LinkStep A hmac

def LinkNoWrap (l : Link) : LinkEvent → Prop
  | .clientTimer env => shouldInit l.cli.ctx env.now = true → l.cli.ctx.activeKey.id ≠ 0xFFFFFFFF
  | _ => True

/-- The link stands where the protocol stands: a connected client, its session `q`, their
contexts, and datagrams that carry the packets under way. -/
structure Linked (q : Ptr) (l : Link) (j : Joint) : Prop where
  connected : l.cli.fsm.state = .connected
  cli : l.cli.ctx = j.cli
  sid_ne : l.cli.fsm.sid ≠ 0
  bySid : vfSsLookupBySid l.srv.sessions l.cli.fsm.sid = some q
  byIp : vfSsLookupByIp l.srv.sessions l.cli.vip = some q
  sid : (l.srv.sessions.heap q).sid = l.cli.fsm.sid
  srv : (l.srv.sessions.heap q).secCtx = j.srv
  up : List.Forall₂ (Carries A l.cli.fsm.sid) j.up l.up
  down : List.Forall₂ (Carries A l.cli.fsm.sid) j.down l.down

variable {A}

/-- The client acts: its standing stays, its context and both channels follow the
protocol. -/
theorem Linked.client {q : Ptr} {l : Link} {j : Joint} (h : Linked A q l j) {c : VfastClient}
    (hs : ClientKeys.standing c = ClientKeys.standing l.cli) {ctx : SecCtx} (hc : c.ctx = ctx)
    {pu pd : List Pkt} {du dd : List (List UInt8)}
    (hu : List.Forall₂ (Carries A l.cli.fsm.sid) pu du)
    (hd : List.Forall₂ (Carries A l.cli.fsm.sid) pd dd) :
    Linked A q { l with cli := c, up := du, down := dd }
      { j with cli := ctx, up := pu, down := pd } := by
  have hstate : c.fsm.state = l.cli.fsm.state := congrArg Prod.fst hs
  have hsid : c.fsm.sid = l.cli.fsm.sid := congrArg (fun s => s.2.1) hs
  have hvip : c.vip = l.cli.vip := congrArg (fun s => s.2.2) hs
  constructor
  case connected => exact hstate.trans h.connected
  case cli => exact hc
  case srv => exact h.srv
  all_goals simp only [hsid, hvip]
  case sid_ne => exact h.sid_ne
  case bySid => exact h.bySid
  case byIp => exact h.byIp
  case sid => exact h.sid
  case up => exact hu
  case down => exact hd

/-- The server acts on the session of the link. -/
theorem Linked.server {q : Ptr} {l : Link} {j : Joint} (h : Linked A q l j) {srv : VfastServer}
    (ht : Touch l.srv.sessions srv.sessions) {ctx : SecCtx}
    (hc : (srv.sessions.heap q).secCtx = ctx) {pu pd : List Pkt} {du dd : List (List UInt8)}
    (hu : List.Forall₂ (Carries A l.cli.fsm.sid) pu du)
    (hd : List.Forall₂ (Carries A l.cli.fsm.sid) pd dd) :
    Linked A q { l with srv := srv, up := du, down := dd }
      { j with srv := ctx, up := pu, down := pd } where
  connected := h.connected
  cli := h.cli
  sid_ne := h.sid_ne
  bySid := (ht.lookupBySid _).trans h.bySid
  byIp := (ht.lookupByIp _).trans h.byIp
  sid := (ht.sid q).trans h.sid
  srv := hc
  up := hu
  down := hd

/-- **Simulation**: an event of the link is a step of the protocol, without losses. -/
theorem Linked.step (hA : A.Inverts) {q : Ptr} {l l' : Link} {j : Joint} {ev : LinkEvent}
    (h : Linked A q l j) (hi : Inv j) (hw : LinkNoWrap l ev) (hstep : LinkStep A hmac l ev l') :
    ∃ act, NoWrap j act ∧ ¬ IsLoss act ∧ Linked A q l' (j.step act) := by
  cases hstep with
  | clientTun env buf len =>
    obtain ⟨hctx, packed, hds⟩ := clientTun_refines hA l.cli env buf len h.connected
    rw [h.cli] at hctx hds
    refine ⟨.clientSend len packed, trivial, id, ?_⟩
    exact h.client (ClientKeys.tun_standing A l.cli env buf len) hctx (List.rel_append h.up hds)
      h.down
  | clientTimer env =>
    obtain ⟨hctx, hds⟩ := timer_refines hA l.cli env h.connected
    rw [h.cli] at hctx hds
    refine ⟨.clientTimer env.keyDraw env.now (due l.cli.rekeyMgr env.now) env.task.isSome, ?_, id,
      ?_⟩
    · intro hinit
      rw [← h.cli] at hinit ⊢
      exact hw hinit
    · exact h.client (ClientKeys.timer_standing A l.cli env) hctx (List.rel_append h.up hds) h.down
  | serverTun env buf len hv =>
    have hq : vfSsLookupByIp l.srv.sessions (buf.load32 (hlen + 16)) = some q := by
      rw [hv]
      exact h.byIp
    obtain ⟨hsess, packed, hds⟩ := serverTun_refines hA env buf len hq
    rw [h.sid, h.srv] at hds
    refine ⟨.serverSend packed, trivial, id, ?_⟩
    refine h.server (by rw [hsess]; exact Touch.refl _) ?_ h.up (List.rel_append h.down hds)
    rw [hsess]
    exact h.srv
  | deliverUp env data src d rest hup hd =>
    have hfa := h.up
    rw [hup] at hfa
    obtain ⟨p, ps, hp, hrest, hju⟩ := List.forall₂_cons_right_iff.mp hfa
    have ho : opens j.srv p := hi.opens.1 p (by rw [hju]; rfl)
    have ho' := ho
    rw [← h.srv] at ho'
    obtain ⟨hctx, ht, hds⟩ := serverUdp_refines hA hmac env src (hp data d.length hd) h.sid_ne
      h.bySid h.sid ho'
    rw [h.srv] at hctx hds
    refine ⟨.deliverUp d.length env.now, trivial, id, ?_⟩
    simp only [Joint.step, hju, if_pos ho]
    exact h.server ht hctx hrest (List.rel_append h.down hds)
  | deliverDown env data src d rest hdown hd =>
    have hfa := h.down
    rw [hdown] at hfa
    obtain ⟨p, ps, hp, hrest, hjd⟩ := List.forall₂_cons_right_iff.mp hfa
    obtain ⟨hctx, hs, hds⟩ := clientUdp_refines (c := l.cli) env src (hp data d.length hd)
    rw [h.cli] at hctx
    refine ⟨.deliverDown, trivial, id, ?_⟩
    simp only [Joint.step, hjd]
    rw [hds, List.append_nil]
    exact h.client hs hctx h.up hrest

/-- **The link follows the protocol.** -/
theorem link_follows (hA : A.Inverts) {q : Ptr} {l₀ l : Link} {j₀ : Joint}
    (h₀ : Linked A q l₀ j₀) (hs : Start j₀)
    (h : ReachableBy (linkRuns A hmac (· = l₀)) LinkNoWrap l) :
    ∃ j, Linked A q l j ∧ Inv j := by
  refine h.invariant (fun l => ∃ j, Linked A q l j ∧ Inv j) ?_ ?_
  · rintro _ rfl
    exact ⟨j₀, h₀, inv_start hs⟩
  · rintro l ev l' ⟨j, hl, hi⟩ hw hstep
    obtain ⟨act, hw', hloss, hl'⟩ := hl.step hmac hA hi hw hstep
    exact ⟨_, hl', hi.step hw' hloss⟩

/-- **Nothing is undecryptable on a reliable link**: the oldest datagram of either channel
unpacks under the receiver's context, in the middle of a rekey too. -/
theorem link_unpacks (hA : A.Inverts) {q : Ptr} {l₀ l : Link} {j₀ : Joint}
    (h₀ : Linked A q l₀ j₀) (hs : Start j₀)
    (h : ReachableBy (linkRuns A hmac (· = l₀)) LinkNoWrap l) {d : List UInt8} {data : Mem}
    (hd : data.read 0 d.length = d) :
    (l.up.head? = some d → ∃ m plen, vfUnpack A (some (l.srv.sessions.heap q).secCtx)
      (vfRemoveHeaderObfs data d.length) d.length = (m, some plen)) ∧
    (l.down.head? = some d → ∃ m plen, vfUnpack A (some l.cli.ctx)
      (vfRemoveHeaderObfs data d.length) d.length = (m, some plen)) := by
  obtain ⟨j, hl, hi⟩ := link_follows hmac hA h₀ hs h
  obtain ⟨hup, hdown⟩ := hi.opens
  have hopen : ∀ {ps : List Pkt} {ds : List (List UInt8)} {ctx : SecCtx},
      List.Forall₂ (Carries A l.cli.fsm.sid) ps ds → (∀ p, ps.head? = some p → opens ctx p) →
      ds.head? = some d → ∃ m plen, vfUnpack A (some ctx)
        (vfRemoveHeaderObfs data d.length) d.length = (m, some plen) := by
    intro ps ds ctx hf ho hhead
    cases hf with
    | nil => exact nomatch hhead
    | cons hp _ =>
      cases Option.some.inj hhead
      obtain ⟨m, plen, hun, _⟩ := (hp data d.length hd).unpack ctx (ho _ rfl)
      exact ⟨m, plen, hun⟩
  rw [hl.srv, hl.cli]
  exact ⟨hopen hl.up hup, hopen hl.down hdown⟩

end

end Vfast.RekeyWire
