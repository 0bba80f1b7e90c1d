import Vfast.Authenticity
import Vfast.Handshake
import Vfast.RekeyWire

/-! The tunnel as its two networks see it: IP packets read from one TUN device and written to
the other. Over a link of datagrams that loses none, through any number of rekeys and in any
interleaving of the two directions, every packet that is read is written once and in order; what
is written is the packet with the padding of its datagram behind it (`tunnel_in_order`). -/

namespace Vfast.Tunnel

open Bytes Key Crypto Protocol Sessions Server Client Wire RoundTrip Datagrams Rekey RekeyWire Run

/-! ## What goes through the TUN devices -/

def tunWrites (outs : List Out) : List (List UInt8) :=
  outs.filterMap fun out =>
    match out with
    | .tunWrite bytes => some bytes
    | _ => none

def PaddedTo (packet written : List UInt8) : Prop :=
  ∃ tail : List UInt8, written = packet ++ tail ∧ tail.length < 32

theorem paddedTo_padded (st : Statics) (buf : Mem) (len : Nat) :
    PaddedTo (buf.read hlen len) (padded st buf len) :=
  ⟨padTail st.localSeed len 32, rfl, by
    rw [length_padTail]
    exact padLen_lt st.localSeed len 32 (by decide)⟩

/-- A link with what its ends have read from their TUN devices and written to them. -/
structure Traffic where
  link : Link
  cliRead : List (List UInt8)
  srvWrote : List (List UInt8)
  srvRead : List (List UInt8)
  cliWrote : List (List UInt8)

def Traffic.start (l : Link) : Traffic := ⟨l, [], [], [], []⟩

def cliReads : LinkEvent → List (List UInt8)
  | .clientTun _ buf len => [buf.read hlen len]
  | _ => []

def srvReads : LinkEvent → List (List UInt8)
  | .serverTun _ buf len => [buf.read hlen len]
  | _ => []

section

variable (A : Aead) (hmac : List UInt8 → List UInt8 → Block 32)

def srvWrites (l : Link) : LinkEvent → List (List UInt8)
  | .deliverUp env data src =>
    tunWrites (serverOnUdp A hmac l.srv env data (l.up.headD []).length src).2.1
  | _ => []

def cliWrites (l : Link) : LinkEvent → List (List UInt8)
  | .deliverDown env data src =>
    tunWrites (clientOnUdp A l.cli env data (l.down.headD []).length src).2.1
  | _ => []

/-- An event of the link, with the packets it reads and writes. -/
structure TunnelStep (t : Traffic) (ev : LinkEvent) (t' : Traffic) : Prop where
  link : LinkStep A hmac t.link ev t'.link
  cliRead : t'.cliRead = t.cliRead ++ cliReads ev
  srvWrote : t'.srvWrote = t.srvWrote ++ srvWrites A hmac t.link ev
  srvRead : t'.srvRead = t.srvRead ++ srvReads ev
  cliWrote : t'.cliWrote = t.cliWrote ++ cliWrites A t.link ev

def tunnelRuns (l : Link) : System Traffic LinkEvent where
  init := (· = .start l)
  step := TunnelStep A hmac

/-- No rekey starts from the last key id, and the packets that are read leave room for a nonce,
a tag and 31 bytes of padding; the server takes none shorter than an IP header. -/
def Regular (t : Traffic) (ev : LinkEvent) : Prop :=
  LinkNoWrap t.link ev ∧
  match ev with
  | .clientTun _ _ len => len ≤ 1957
  | .serverTun _ _ len => 20 ≤ len ∧ len ≤ 1957
  | _ => True

/-! ## Datagrams and their content -/

/-- The datagram carries a data packet with the content `c`. -/
structure Delivers (sid : UInt32) (p : Pkt) (c d : List UInt8) : Prop where
  carries : Carries A sid p d
  content : ∀ data len, data.read 0 len = d → ∀ ctx, opens ctx p → ∃ m,
    vfUnpack A (some ctx) (vfRemoveHeaderObfs data len) len = (m, some c.length) ∧
      m.read hlen c.length = c

/-- The packets under way, the datagrams that carry them and the contents of those with data. -/
inductive Conveys (sid : UInt32) : List Pkt → List (List UInt8) → List (List UInt8) → Prop
  | nil : Conveys sid [] [] []
  | data {p c d ps ds cs} : p.body = .data → Delivers A sid p c d → Conveys sid ps ds cs →
      Conveys sid (p :: ps) (d :: ds) (c :: cs)
  | control {p d ps ds cs} : p.body ≠ .data → Carries A sid p d → Conveys sid ps ds cs →
      Conveys sid (p :: ps) (d :: ds) cs

variable {A}

theorem Conveys.carries {sid : UInt32} {ps : List Pkt} {ds cs : List (List UInt8)}
    (h : Conveys A sid ps ds cs) : List.Forall₂ (Carries A sid) ps ds := by
  induction h with
  | nil => exact .nil
  | data _ hd _ ih => exact .cons hd.carries ih
  | control _ hd _ ih => exact .cons hd ih

theorem Conveys.length_le {sid : UInt32} {ps : List Pkt} {ds cs : List (List UInt8)}
    (h : Conveys A sid ps ds cs) : cs.length ≤ ds.length := by
  induction h with
  | nil => exact Nat.le_refl _
  | data _ _ _ ih => exact Nat.succ_le_succ ih
  | control _ _ _ ih => exact Nat.le_succ_of_le ih

theorem Conveys.append {sid : UInt32} {ps ps' : List Pkt} {ds ds' cs cs' : List (List UInt8)}
    (h : Conveys A sid ps ds cs) (h' : Conveys A sid ps' ds' cs') :
    Conveys A sid (ps ++ ps') (ds ++ ds') (cs ++ cs') := by
  induction h with
  | nil => exact h'
  | data hb hd _ ih => exact .data hb hd ih
  | control hb hd _ ih => exact .control hb hd ih

/-- Packets of the rekey protocol carry no content. -/
theorem conveys_control {sid : UInt32} {ps : List Pkt} {ds : List (List UInt8)}
    (h : List.Forall₂ (Carries A sid) ps ds) (hb : ∀ p ∈ ps, p.body ≠ .data) :
    Conveys A sid ps ds [] := by
  induction h with
  | nil => exact .nil
  | cons hd _ ih =>
    exact .control (hb _ List.mem_cons_self) hd (ih fun p hp => hb p (List.mem_cons_of_mem _ hp))

/-- **Packing data** gives a datagram with the padded payload as its content. -/
theorem pack_delivers (hA : A.Inverts) {st : Statics} {rd : Urandom} {ctx : SecCtx} {buf : Mem}
    {plen tlen : Nat} {sid : UInt32}
    (hp : (vfPack A st rd (some ctx) buf plen bufSize .data sid).2.2 = some tlen) :
    Delivers A sid (sealPkt ctx .data) (padded st buf plen)
      ((vfPack A st rd (some ctx) buf plen bufSize .data sid).2.1.read 0 tlen) where
  carries := pack_carries hA .data hp (Nat.zero_le _) rfl
  content := by
    intro data len hd rctx ho
    obtain ⟨rfl, hr⟩ := received_of_read hd
    have hopen : CanOpen (some ctx) (some rctx) .data := by
      constructor
      · intro h
        cases h
      · intro c hc
        cases Option.some.inj hc
        exact ⟨rctx, rfl, ho⟩
    obtain ⟨_, m, hun, hread, _⟩ := delivered hA (Nat.le_refl _) hopen hp hr
    exact ⟨m, hun, hread⟩

theorem vfPack_data (st : Statics) (rd : Urandom) (ctx : SecCtx) (buf : Mem) {plen : Nat}
    (sid : UInt32) (h : plen ≤ 1957) :
    ∃ tlen, (vfPack A st rd (some ctx) buf plen bufSize .data sid).2.2 = some tlen := by
  have hpad := padLen_lt st.localSeed plen 32 (by decide)
  have h32 : (32 : UInt8).toNat = 32 := rfl
  have hlen : (packBody A st rd (some ctx) buf plen .data).length =
      plen + padLen st.localSeed plen 32 + 40 := by
    rw [← length_padded st buf, ← length_sealedBody A st rd ctx]
    rfl
  rw [vfPack_result, hlen, if_neg (by simp only [Protocol.hlen, bufSize]; omega)]
  exact ⟨_, rfl⟩

/-! ## The handlers -/

theorem clientTun_conveys (hA : A.Inverts) (c : VfastClient) (env : ClientEnv) (buf : Mem)
    {len : Nat} (hc : c.fsm.state = .connected) (hl : len ≤ 1957) :
    (clientOnTun A c env buf len).1.ctx = c.ctx.countBytes len ∧
      Conveys A c.fsm.sid [sealPkt (c.ctx.countBytes len) .data]
        (datagrams (clientOnTun A c env buf len).2.1) [padded c.statics buf len] := by
  have hconn : vfFsmIsConnected c = true := by simp [vfFsmIsConnected, hc]
  have hctx := ClientKeys.ctx_setCtx c (c.ctx.countBytes len)
  obtain ⟨tlen, ht⟩ := vfPack_data (A := A) c.statics env.urandom (c.ctx.countBytes len) buf
    c.fsm.sid hl
  have ht' : (vfPack A (c.setCtx (c.ctx.countBytes len)).statics env.urandom
      (some (c.ctx.countBytes len)) buf len bufSize .data
      (c.setCtx (c.ctx.countBytes len)).fsm.sid).2.2 = some tlen := ht
  simp only [clientOnTun, hconn, Bool.not_true, Bool.false_eq_true, if_false]
  rw [hctx, ht']
  exact ⟨hctx, .data rfl (pack_delivers hA ht) .nil⟩

theorem serverTun_conveys (hA : A.Inverts) {srv : VfastServer} (env : Env) (buf : Mem) {len : Nat}
    {q : Ptr} (hq : vfSsLookupByIp srv.sessions (buf.load32 (hlen + 16)) = some q)
    (hl : 20 ≤ len ∧ len ≤ 1957) :
    (serverOnTun A srv env buf len).1.sessions = srv.sessions ∧
      Conveys A (srv.sessions.heap q).sid [sealPkt (srv.sessions.heap q).secCtx .data]
        (datagrams (serverOnTun A srv env buf len).2.1) [padded srv.statics buf len] := by
  obtain ⟨tlen, ht⟩ := vfPack_data (A := A) srv.statics env.urandom (srv.sessions.heap q).secCtx buf
    (srv.sessions.heap q).sid hl.2
  unfold serverOnTun
  rw [if_neg (by simp only [bufSize, hlen]; omega)]
  simp only [hq, VfastServer.packSend, ht]
  exact ⟨rfl, .data rfl (pack_delivers hA ht) .nil⟩

theorem timer_control (ctx : SecCtx) (draw : Option (Block 32)) (now : Int) (due task : Bool) :
    ∀ p ∈ (timer ctx draw now due task).2, p.body ≠ .data := by
  have hreq : ∀ ctx, ∀ p ∈ request ctx task, p.body ≠ .data := by
    intro ctx p hp
    unfold request at hp
    split at hp
    · rw [List.mem_singleton.mp hp]
      exact fun e => nomatch e
    · exact nomatch hp
  unfold timer
  split
  · split
    · exact fun _ hp => nomatch hp
    · exact hreq _
  · split
    · exact hreq _
    · exact fun _ hp => nomatch hp

theorem serverRecv_control (ctx : SecCtx) (now : Int) (body : Body) :
    ∀ p ∈ (serverRecv ctx now body).2, p.body ≠ .data := by
  cases body with
  | data => exact fun _ hp => absurd hp List.not_mem_nil
  | rekeyReq id raw =>
    simp only [serverRecv]
    cases rekeyStage ctx id raw now with
    | none => exact fun _ hp => absurd hp List.not_mem_nil
    | some staged =>
      intro p hp
      rw [List.mem_singleton.mp hp]
      exact Body.noConfusion
  | rekeyAck id => exact fun _ hp => absurd hp List.not_mem_nil

/-- The server writes the content of a data packet, and nothing for any other. -/
theorem serverUdp_writes {srv : VfastServer} (env : Env) {data : Mem} {len : Nat} (src : SockAddr)
    {sid : UInt32} {q : Ptr} {p : Pkt} (h : Holds A sid p data len) (h0 : sid ≠ 0)
    (hq : vfSsLookupBySid srv.sessions sid = some q) {m : Mem} {plen : Nat}
    (hun : vfUnpack A (some (srv.sessions.heap q).secCtx) (vfRemoveHeaderObfs data len) len =
      (m, some plen)) :
    tunWrites (serverOnUdp A hmac srv env data len src).2.1 =
      if p.body = .data then [m.read hlen plen] else [] := by
  have hs := h.session
  obtain ⟨_, e2⟩ := ServerInv.serverOnUdp_session A hmac env src h.len_ge
    (by rw [hs]; exact h0) (by rw [hs]; exact hq) hun
  have hty : m offMsgType = (bodyType p.body).code := by
    have hf := vfUnpack_frame A (some (srv.sessions.heap q).secCtx) (vfRemoveHeaderObfs data len)
      len offMsgType (by decide) (by decide)
    rw [hun] at hf
    exact hf.trans h.msgType
  rw [e2]
  simp only [dispatch, hty, MsgType.ofCode_code]
  cases hbody : p.body with
  | data => rfl
  | rekeyReq id raw =>
    rw [if_neg Body.noConfusion]
    simp only [bodyType, vfastHandleRekeyReq]
    split
    · rfl
    split
    · rfl
    · simp only [VfastServer.packSend, tunWrites]
      cases (vfPack A _ _ _ _ _ _ _ _).2.2 <;> rfl
  | rekeyAck id => rfl

theorem clientUdp_writes {c : VfastClient} (env : ClientEnv) {data : Mem} {len : Nat}
    (src : SockAddr) {sid : UInt32} {p : Pkt} (h : Holds A sid p data len)
    (hc : c.fsm.state = .connected) {m : Mem} {plen : Nat}
    (hun : vfUnpack A (some c.ctx) (vfRemoveHeaderObfs data len) len = (m, some plen)) :
    tunWrites (clientOnUdp A c env data len src).2.1 =
      if p.body = .data then [m.read hlen plen] else [] := by
  rw [ClientKeys.clientOnUdp_eq A h.len_ge, h.msgType, MsgType.ofCode_code]
  cases hb : p.body with
  | data =>
    have hconn : vfFsmIsConnected (vfFsmUpdate c env.now) = true := by
      simp [vfFsmIsConnected, vfFsmUpdate, hc]
    have hunp : ClientKeys.unpacked A c data len = (m, some plen) := by
      have hne : vfRemoveHeaderObfs data len offMsgType ≠ MsgType.hello.code := by
        rw [h.msgType, hb]
        decide
      rw [ClientKeys.unpacked, if_neg hne, hun]
    simp only [bodyType, hunp, clientHandleData, hconn, Bool.not_true, Bool.false_eq_true, if_false]
    rfl
  | rekeyReq id raw => rfl
  | rekeyAck id => rfl

/-! ## The invariant -/

variable (A)

/-- What was read is what was written and what is under way, in both directions. -/
structure Flow (q : Ptr) (sid : UInt32) (t : Traffic) (j : Joint) (ups downs : List (List UInt8)) :
    Prop where
  linked : Linked A q t.link j
  sid_eq : t.link.cli.fsm.sid = sid
  up : Conveys A sid j.up t.link.up ups
  down : Conveys A sid j.down t.link.down downs
  toServer : List.Forall₂ PaddedTo t.cliRead (t.srvWrote ++ ups)
  toClient : List.Forall₂ PaddedTo t.srvRead (t.cliWrote ++ downs)

variable {A}

/-- A connected client and its session, as a handshake leaves them. -/
structure Established (q : Ptr) (c : VfastClient) (srv : VfastServer) : Prop where
  connected : c.fsm.state = .connected
  agrees : Handshake.Agrees c (srv.sessions.heap q)
  bySid : vfSsLookupBySid srv.sessions c.fsm.sid = some q
  byIp : vfSsLookupByIp srv.sessions c.vip = some q
  sid_ne : c.fsm.sid ≠ 0
  keyId_ne : c.ctx.activeKey.id ≠ 0
  idle : c.ctx.rekeyPending = false

/-- With nothing under way, the protocol starts with both ends on one key. -/
theorem Established.flow {q : Ptr} {c : VfastClient} {srv : VfastServer} (h : Established q c srv) :
    ∃ j, Flow A q c.fsm.sid (.start ⟨c, srv, [], []⟩) j [] [] ∧ Inv j := by
  have hkey : c.ctx.activeKey.mat = (srv.sessions.heap q).secCtx.activeKey.mat :=
    Prod.ext h.agrees.key h.agrees.keyId
  refine ⟨⟨c.ctx, (srv.sessions.heap q).secCtx, [], []⟩, ⟨?_, rfl, .nil, .nil, .nil, .nil⟩, ?_⟩
  · exact ⟨h.connected, rfl, h.sid_ne, h.bySid, h.byIp, h.agrees.sid.symm, rfl, .nil, .nil⟩
  · refine ⟨h.keyId_ne, fun hp => ?_, ?_⟩
    · exact absurd (h.idle.symm.trans hp) (by decide)
    · exact .synced [] [] hkey rfl (.nil _ _) (fun hne => absurd rfl hne) (.nil _ _)
        fun _ hp => nomatch hp

theorem forall₂_sent {reads written under : List (List UInt8)} {r c : List UInt8}
    (h : List.Forall₂ PaddedTo reads (written ++ under)) (hp : PaddedTo r c) :
    List.Forall₂ PaddedTo (reads ++ [r]) (written ++ (under ++ [c])) := by
  rw [← List.append_assoc]
  exact List.rel_append h (.cons hp .nil)

theorem sid_of_standing {c c' : VfastClient} (h : ClientKeys.standing c' = ClientKeys.standing c) :
    c'.fsm.sid = c.fsm.sid := congrArg (fun s => s.2.1) h

/-- The oldest datagram of a channel, with what its receiver writes for it. -/
theorem Conveys.head {sid : UInt32} {ps : List Pkt} {d : List UInt8} {ds cs : List (List UInt8)}
    (h : Conveys A sid ps (d :: ds) cs) :
    ∃ p ps' w cs', ps = p :: ps' ∧ cs = w ++ cs' ∧ Carries A sid p d ∧ Conveys A sid ps' ds cs' ∧
      ∀ data len, data.read 0 len = d → ∀ ctx, opens ctx p → ∃ m plen,
        vfUnpack A (some ctx) (vfRemoveHeaderObfs data len) len = (m, some plen) ∧
          (if p.body = .data then [m.read hlen plen] else []) = w := by
  cases h with
  | data hb hd hrest =>
    rename_i p c ps cs
    refine ⟨p, ps, [c], cs, rfl, rfl, hd.carries, hrest, ?_⟩
    intro data len hread ctx ho
    obtain ⟨m, hun, hm⟩ := hd.content data len hread ctx ho
    exact ⟨m, _, hun, by rw [if_pos hb, hm]⟩
  | control hb hd hrest =>
    rename_i p ps
    refine ⟨p, ps, [], cs, rfl, rfl, hd, hrest, ?_⟩
    intro data len hread ctx ho
    obtain ⟨m, plen, hun, _⟩ := (hd data len hread).unpack ctx ho
    exact ⟨m, plen, hun, if_neg hb⟩

/-- **One event** of the tunnel. -/
theorem Flow.step (hA : A.Inverts) {q : Ptr} {sid : UInt32} {t t' : Traffic} {j : Joint}
    {ev : LinkEvent} {ups downs : List (List UInt8)} (h : Flow A q sid t j ups downs) (hi : Inv j)
    (hw : Regular t ev) (hstep : TunnelStep A hmac t ev t') :
    ∃ j' ups' downs', Flow A q sid t' j' ups' downs' ∧ Inv j' := by
  obtain ⟨hlink, hcr, hsw, hsr, hcw⟩ := hstep
  obtain ⟨l', cr', sw', sr', cw'⟩ := t'
  simp only at hlink hcr hsw hsr hcw
  subst hcr hsw hsr hcw
  have hl := h.linked
  have hsid := h.sid_eq
  cases hlink with
  | clientTun env buf len =>
    obtain ⟨hctx, hds⟩ := clientTun_conveys hA t.link.cli env buf hl.connected hw.2
    have hst := ClientKeys.tun_standing A t.link.cli env buf len
    rw [hl.cli] at hctx hds
    rw [hsid] at hds
    refine ⟨_, _, downs, ⟨hl.client hst hctx
      (List.rel_append hl.up (by rw [hsid]; exact hds.carries))
      hl.down, (sid_of_standing hst).trans hsid, h.up.append hds, h.down, ?_, ?_⟩,
      hi.step (l := .clientSend len true) trivial id⟩
    · simp only [srvWrites, List.append_nil]
      exact forall₂_sent h.toServer (paddedTo_padded _ _ _)
    · simp only [cliWrites, srvReads, List.append_nil]
      exact h.toClient
  | clientTimer env =>
    obtain ⟨hctx, hds⟩ := timer_refines hA t.link.cli env hl.connected
    have hst := ClientKeys.timer_standing A t.link.cli env
    rw [hl.cli] at hctx hds
    have hcon := conveys_control hds (timer_control _ _ _ _ _)
    rw [hsid] at hcon
    refine ⟨_, _, downs, ⟨hl.client hst hctx (List.rel_append hl.up hds) hl.down,
      (sid_of_standing hst).trans hsid, h.up.append hcon, h.down, ?_, ?_⟩,
      hi.step (l := .clientTimer env.keyDraw env.now (due t.link.cli.rekeyMgr env.now)
        env.task.isSome) ?_ id⟩
    · simp only [srvWrites, cliReads, List.append_nil]
      exact h.toServer
    · simp only [cliWrites, srvReads, List.append_nil]
      exact h.toClient
    · intro hinit
      rw [← hl.cli] at hinit ⊢
      exact hw.1 hinit
  | serverTun env buf len hv =>
    have hq : vfSsLookupByIp t.link.srv.sessions (buf.load32 (hlen + 16)) = some q := by
      rw [hv]
      exact hl.byIp
    obtain ⟨hsess, hds⟩ := serverTun_conveys hA env buf hq hw.2
    rw [hl.sid, hl.srv] at hds
    have hsrv : ((serverOnTun A t.link.srv env buf len).1.sessions.heap q).secCtx = j.srv := by
      rw [hsess]
      exact hl.srv
    refine ⟨_, ups, _, ⟨hl.server (by rw [hsess]; exact Touch.refl _) hsrv hl.up
      (List.rel_append hl.down hds.carries), hsid, h.up, h.down.append (by rw [← hsid]; exact hds),
      ?_, ?_⟩, hi.step (l := .serverSend true) trivial id⟩
    · simp only [srvWrites, cliReads, List.append_nil]
      exact h.toServer
    · simp only [cliWrites, List.append_nil]
      exact forall₂_sent h.toClient (paddedTo_padded _ _ _)
  | deliverUp env data src d rest hup hd =>
    have hconv := h.up
    rw [hup] at hconv
    obtain ⟨p, ps, w, ups', hju, rfl, hp, hrest, hun⟩ := hconv.head
    have ho : opens j.srv p := hi.opens.1 p (by rw [hju]; rfl)
    have ho' := ho
    rw [← hl.srv] at ho'
    have h0 := hl.sid_ne
    have hbySid := hl.bySid
    have hqsid := hl.sid
    rw [hsid] at h0 hbySid hqsid
    obtain ⟨hctx, ht, hds⟩ :=
      serverUdp_refines hA hmac env src (hp data d.length hd) h0 hbySid hqsid ho'
    obtain ⟨m, plen, hu, hwr⟩ := hun data d.length hd _ ho'
    have hwrites := (serverUdp_writes hmac env src (hp data d.length hd) h0 hbySid hu).trans hwr
    rw [hl.srv] at hctx hds
    have hcon := conveys_control hds (serverRecv_control _ _ _)
    have hinv := hi.step (l := .deliverUp d.length env.now) trivial id
    simp only [Joint.step, hju, if_pos ho] at hinv
    refine ⟨_, ups', _, ⟨hl.server ht hctx (by rw [hsid]; exact hrest.carries)
      (List.rel_append hl.down (by rw [hsid]; exact hds)), hsid, hrest, h.down.append hcon, ?_, ?_⟩,
      hinv⟩
    · simp only [srvWrites, cliReads, hup, List.headD_cons, hwrites, List.append_nil,
        List.append_assoc]
      exact h.toServer
    · simp only [cliWrites, srvReads, List.append_nil]
      exact h.toClient
  | deliverDown env data src d rest hdown hd =>
    have hconv := h.down
    rw [hdown] at hconv
    obtain ⟨p, ps, w, downs', hjd, rfl, hp, hrest, hun⟩ := hconv.head
    have ho : opens t.link.cli.ctx p := by
      rw [hl.cli]
      exact hi.opens.2 p (by rw [hjd]; rfl)
    obtain ⟨hctx, hst, hds⟩ := clientUdp_refines (c := t.link.cli) env src (hp data d.length hd)
    obtain ⟨m, plen, hu, hwr⟩ := hun data d.length hd _ ho
    have hwrites := (clientUdp_writes env src (hp data d.length hd) hl.connected hu).trans hwr
    rw [hl.cli] at hctx
    have hinv := hi.step (l := .deliverDown) trivial id
    simp only [Joint.step, hjd] at hinv
    rw [hds, List.append_nil]
    refine ⟨_, ups, downs', ⟨hl.client hst hctx hl.up (by rw [hsid]; exact hrest.carries),
      (sid_of_standing hst).trans hsid, h.up, hrest, ?_, ?_⟩, hinv⟩
    · simp only [srvWrites, cliReads, List.append_nil]
      exact h.toServer
    · simp only [cliWrites, srvReads, hdown, List.headD_cons, hwrites, List.append_nil,
        List.append_assoc]
      exact h.toClient

/-- **In order, none lost and none twice.** What one end read from its TUN device is what the
other wrote to its own, followed by what is still under way; padding apart, and through any number
of rekeys. -/
theorem tunnel_in_order (hA : A.Inverts) {q : Ptr} {c : VfastClient} {srv : VfastServer}
    (h₀ : Established q c srv) {t : Traffic}
    (h : ReachableBy (tunnelRuns A hmac ⟨c, srv, [], []⟩) Regular t) :
    ∃ ups downs, List.Forall₂ PaddedTo t.cliRead (t.srvWrote ++ ups) ∧
      List.Forall₂ PaddedTo t.srvRead (t.cliWrote ++ downs) ∧
      ups.length ≤ t.link.up.length ∧ downs.length ≤ t.link.down.length := by
  obtain ⟨j, ups, downs, hf, -⟩ := h.invariant
    (fun t => ∃ j ups downs, Flow A q c.fsm.sid t j ups downs ∧ Inv j)
    (by
      rintro _ rfl
      obtain ⟨j, hf, hi⟩ := h₀.flow
      exact ⟨j, [], [], hf, hi⟩)
    (by
      rintro t ev t' ⟨j, ups, downs, hf, hi⟩ hw hstep
      exact hf.step hmac hA hi hw hstep)
  exact ⟨ups, downs, hf.toServer, hf.toClient, hf.up.length_le, hf.down.length_le⟩

end

/-! ## A run -/

def sessionClient : VfastClient where
  secCtxs _ := Authenticity.sharedCtx
  activePtr := ⟨0, Nat.two_pos⟩
  fsm := ⟨.connected, 0x0200000A, 0, 0, 0, 0, ⟨0, 0⟩, some ⟨0, Nat.two_pos⟩, 0, [], [], [], 0⟩
  vip := 0x0200000A
  rekeyMgr := ⟨0, 2⟩
  statics := ⟨0x5EED5EED, .init⟩
  workerSeed := 0x5EED5EED

theorem sessionClient_established : Established 0 sessionClient Authenticity.sessionServer where
  connected := rfl
  agrees := ⟨rfl, rfl, rfl, rfl⟩
  bySid := by decide
  byIp := by decide
  sid_ne := by decide
  keyId_ne := by decide
  idle := rfl

def wireMem (d : List UInt8) : Mem := fun i => d.getD i 0

theorem read_wireMem (d : List UInt8) : (wireMem d).read 0 d.length = d := by
  refine read_ext _ 0 d fun i hi => ?_
  rw [Nat.zero_add, wireMem, List.getD_eq_getElem?_getD, List.getElem?_eq_getElem hi,
    Option.getD_some]

/-- The traffic after an event; a delivery takes the oldest datagram. -/
def Traffic.after (A : Aead) (hmac : List UInt8 → List UInt8 → Block 32) (t : Traffic)
    (ev : LinkEvent) : Traffic where
  link :=
    match ev with
    | .clientTun env buf len => { t.link with
        cli := (clientOnTun A t.link.cli env buf len).1
        up := t.link.up ++ datagrams (clientOnTun A t.link.cli env buf len).2.1 }
    | .clientTimer env => { t.link with
        cli := (vfastRekeyTimerHandler A t.link.cli env).1
        up := t.link.up ++ datagrams (vfastRekeyTimerHandler A t.link.cli env).2 }
    | .serverTun env buf len => { t.link with
        srv := (serverOnTun A t.link.srv env buf len).1
        down := t.link.down ++ datagrams (serverOnTun A t.link.srv env buf len).2.1 }
    | .deliverUp env data src => { t.link with
        srv := (serverOnUdp A hmac t.link.srv env data (t.link.up.headD []).length src).1
        up := t.link.up.tail
        down := t.link.down ++
          datagrams (serverOnUdp A hmac t.link.srv env data (t.link.up.headD []).length src).2.1 }
    | .deliverDown env data src => { t.link with
        cli := (clientOnUdp A t.link.cli env data (t.link.down.headD []).length src).1
        up := t.link.up ++
          datagrams (clientOnUdp A t.link.cli env data (t.link.down.headD []).length src).2.1
        down := t.link.down.tail }
  cliRead := t.cliRead ++ cliReads ev
  srvWrote := t.srvWrote ++ srvWrites A hmac t.link ev
  srvRead := t.srvRead ++ srvReads ev
  cliWrote := t.cliWrote ++ cliWrites A t.link ev

/-- A delivery has a datagram to deliver, and a packet for the client names it. -/
def Possible (t : Traffic) : LinkEvent → Prop
  | .serverTun _ buf _ => buf.load32 (hlen + 16) = t.link.cli.vip
  | .deliverUp _ data _ => ∃ d, t.link.up.head? = some d ∧ data = wireMem d
  | .deliverDown _ data _ => ∃ d, t.link.down.head? = some d ∧ data = wireMem d
  | _ => True

theorem Possible.step {A : Aead} {hmac : List UInt8 → List UInt8 → Block 32} {t : Traffic}
    {ev : LinkEvent} (h : Possible t ev) : TunnelStep A hmac t ev (t.after A hmac ev) := by
  refine ⟨?_, rfl, rfl, rfl, rfl⟩
  cases ev with
  | clientTun env buf len => exact .clientTun env buf len
  | clientTimer env => exact .clientTimer env
  | serverTun env buf len => exact .serverTun env buf len h
  | deliverUp env data src =>
    obtain ⟨d, hd, rfl⟩ := h
    obtain ⟨rest, hup⟩ := List.head?_eq_some_iff.mp hd
    simp only [Traffic.after, hup, List.headD_cons, List.tail_cons]
    exact .deliverUp env _ src d rest hup (read_wireMem d)
  | deliverDown env data src =>
    obtain ⟨d, hd, rfl⟩ := h
    obtain ⟨rest, hdown⟩ := List.head?_eq_some_iff.mp hd
    simp only [Traffic.after, hdown, List.headD_cons, List.tail_cons]
    exact .deliverDown env _ src d rest hdown (read_wireMem d)

theorem reachable_after {A : Aead} {hmac : List UInt8 → List UInt8 → Block 32} {l : Link}
    {t : Traffic} (h : ReachableBy (tunnelRuns A hmac l) Regular t) (ev : LinkEvent)
    (hr : Regular t ev) (hp : Possible t ev) :
    ReachableBy (tunnelRuns A hmac l) Regular (t.after A hmac ev) := h.step hr hp.step

/-- The session's traffic, and the events that follow. -/
def quiet : Traffic := .start ⟨sessionClient, Authenticity.sessionServer, [], []⟩

def srvEnv : Env := { Addresses.authEnv none 0 with now := 300 }

/-- The client asks for a new key. -/
def asked : Traffic :=
  quiet.after markAead Addresses.zeroHmac (.clientTimer (ClientKeys.envAt 300 (some fun _ => 21)))

/-- The server has it. -/
def answered : Traffic :=
  asked.after markAead Addresses.zeroHmac
    (.deliverUp srvEnv (wireMem (asked.link.up.headD [])) ⟨0, 0⟩)

/-- The client reads a packet of 20 bytes under the old one. -/
def halfway : Traffic :=
  answered.after markAead Addresses.zeroHmac
    (.clientTun (ClientKeys.envAt 300 none) (fun _ => 9) 20)

/-- The client has the new one too. -/
def rekeyed : Traffic :=
  halfway.after markAead Addresses.zeroHmac
    (.deliverDown (ClientKeys.envAt 300 none) (wireMem (halfway.link.down.headD [])) ⟨0, 0⟩)

/-- The packet has arrived. -/
def arrived : Traffic :=
  rekeyed.after markAead Addresses.zeroHmac
    (.deliverUp srvEnv (wireMem (rekeyed.link.up.headD [])) ⟨0, 0⟩)

theorem headD_of_ne {ds : List (List UInt8)} (h : ds ≠ []) :
    ∃ d, ds.head? = some d ∧ wireMem (ds.headD []) = wireMem d := by
  obtain ⟨d, rest, rfl⟩ := List.exists_cons_of_ne_nil h
  exact ⟨d, rfl, rfl⟩

/-- The packet that was read under the old key is written when both ends use the new one. -/
theorem read_written_across_rekey :
    List.Forall₂ PaddedTo [Mem.read (fun _ => 9) hlen 20] arrived.srvWrote ∧
      arrived.link.cli.ctx.activeKey.id = 2 := by
  have hquiet : ReachableBy (tunnelRuns markAead Addresses.zeroHmac quiet.link) Regular quiet :=
    .init rfl
  have hasked : ReachableBy _ _ asked := reachable_after hquiet (.clientTimer _)
    ⟨fun _ => by decide, trivial⟩ trivial
  have hanswered : ReachableBy _ _ answered := reachable_after hasked (.deliverUp _ _ _)
    ⟨trivial, trivial⟩ (headD_of_ne (by decide +kernel))
  have hhalfway : ReachableBy _ _ halfway := reachable_after hanswered (.clientTun _ _ _)
    ⟨trivial, by decide⟩ trivial
  have hrekeyed : ReachableBy _ _ rekeyed := reachable_after hhalfway (.deliverDown _ _ _)
    ⟨trivial, trivial⟩ (headD_of_ne (by decide +kernel))
  have harrived : ReachableBy _ _ arrived := reachable_after hrekeyed (.deliverUp _ _ _)
    ⟨trivial, trivial⟩ (headD_of_ne (by decide +kernel))
  obtain ⟨ups, _, hup, _, hle, _⟩ :=
    tunnel_in_order Addresses.zeroHmac markAead_inverts sessionClient_established harrived
  have hnone : arrived.link.up = [] := by decide +kernel
  rw [hnone] at hle
  rw [List.eq_nil_of_length_eq_zero (Nat.le_zero.mp hle), List.append_nil] at hup
  exact ⟨hup, by decide +kernel⟩

end Vfast.Tunnel
