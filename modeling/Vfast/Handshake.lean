import Vfast.Datagrams
import Vfast.Addresses

/-! Any number of clients and one server that exchange only what they packed. The
network keeps every datagram ever sent, so that it may be lost, repeated and reordered;
the log keeps each session as it was created, with the AUTH_ACK sent for it. -/

namespace Vfast.Handshake

open Bytes Key Crypto Protocol Sessions Server Client Wire RoundTrip Datagrams Run

/-! ## What an AUTH_ACK carries -/

section

variable {A : Aead}

theorem AckOf.content {s : Session} {data : Mem} {len : Nat} (h : AckOf A s (data.read 0 len)) :
    hlen ≤ len ∧ vfRemoveHeaderObfs data len offMsgType = MsgType.authAck.code ∧
      vfRemoveHeaderObfs data len offFlags = 0 ∧
      bswap32 ((vfRemoveHeaderObfs data len).load32 offSessionId) = s.sid ∧
      ∃ token, (vfRemoveHeaderObfs data len).read hlen 64 = authResp s.vip token s.secCtx := by
  obtain ⟨st, rd, buf, token, tlen, ht, hb⟩ := h
  obtain ⟨rfl, hr⟩ := received_of_read hb
  obtain ⟨hl, hh, -, hbody⟩ := delivered_plain (by decide) ht hr none
  refine ⟨hl, hh.msgType, hh.flags, hh.sessionId, token, ?_⟩
  rw [hbody]
  exact read_write_len _ _ _ _ (by simp [authResp])

theorem authResp_fields {m : Mem} {vip : UInt32} {token : Block 16} {ctx : SecCtx}
    (h : m.read hlen 64 = authResp vip token ctx) :
    m.load32 (hlen + 4) = vip ∧ bswap32 (m.load32 (hlen + 24)) = ctx.activeKey.id ∧
      Block.ofList 32 (m.read (hlen + 32) 32) = ctx.activeKey.raw := by
  have h4 := read_right h
  have h8 := read_right h4
  have h24 := read_right h8
  have h28 := read_right h24
  have h32 := read_right h28
  have hvip := read_left h4
  have hkid := read_left h24
  simp only [length_le32, Block.length_toList, Nat.add_assoc, Nat.reduceAdd] at hvip hkid h32
  refine ⟨load32_of_read _ _ _ hvip, ?_, ?_⟩
  · rw [load32_of_read _ _ _ hkid, bswap32_bswap32]
  · rw [h32, Block.ofList_toList]

/-! ## How a client gets connected -/

/-- The worker never declares the client connected. -/
theorem worker_connected {c : VfastClient} {env : ClientEnv} {seen : FsmState} {lastRx : Int}
    (h : (fsmWorker A c env seen lastRx).1.fsm.state = .connected) :
    c.fsm.state = .connected := by
  cases seen with
  | idle => cases h
  | reconnecting => cases h
  | authSend => cases h
  | helloWait =>
    simp only [fsmWorker] at h
    split at h
    · cases h
    · exact h
  | authWait =>
    simp only [fsmWorker] at h
    split at h
    · cases h
    · exact h
  | connected =>
    simp only [fsmWorker] at h
    split at h
    · split at h <;> cases h
    split at h
    · rw [← ClientKeys.fsmSendPkt_state A c env .keepalive]
      exact h
    · exact h

theorem clientHandleHello_connected {c : VfastClient} {buf : Mem} {payload : Option Nat}
    (h : (clientHandleHello c buf payload).fsm.state = .connected) :
    c.fsm.state = .connected := by
  unfold clientHandleHello helloAfterLoad at h
  split at h
  · exact h
  split at h
  · exact h
  split at h
  · exact h
  split at h <;> exact nomatch h

theorem clientHandleAuth_connected {c : VfastClient} {env : ClientEnv} {sid : UInt32} {buf : Mem}
    {payload : Option Nat} (h0 : c.fsm.state ≠ .connected)
    (h : (clientHandleAuth c env sid buf payload).1.fsm.state = .connected) :
    (clientHandleAuth c env sid buf payload).1.fsm.sid = sid ∧
      (clientHandleAuth c env sid buf payload).1.vip = buf.load32 (hlen + 4) ∧
      (clientHandleAuth c env sid buf payload).1.ctx = authCtx c.ctx buf sid env.now := by
  unfold clientHandleAuth authAfterLoad at h ⊢
  split at h
  · exact absurd h h0
  split at h
  · exact absurd h h0
  split at h
  · exact absurd h h0
  split at h
  · exact nomatch h
  dsimp only at h
  rename_i hs _ _ hl hst
  rw [if_neg hs]
  dsimp only
  rw [if_neg hl, if_neg hst]
  split at h
  · rename_i ht
    rw [if_pos ht]
    exact ⟨rfl, rfl, ClientKeys.ctx_setCtx c _⟩
  · exact absurd h h0

/-- **Only an AUTH_ACK connects a client.** -/
theorem connected_by_auth {c : VfastClient} {ev : ClientKeys.Event}
    (h0 : c.fsm.state ≠ .connected) (h : (ev.run A c).1.fsm.state = .connected) :
    ∃ env data len src, ev = .udp env data len src ∧ hlen ≤ len ∧
      vfRemoveHeaderObfs data len offMsgType = MsgType.authAck.code := by
  cases ev with
  | tun env buf len =>
    exact absurd ((congrArg Prod.fst (ClientKeys.tun_standing A c env buf len)).symm.trans h) h0
  | timer env =>
    exact absurd ((congrArg Prod.fst (ClientKeys.timer_standing A c env)).symm.trans h) h0
  | worker env seen lastRx => exact absurd (worker_connected h) h0
  | udp env data len src =>
    refine ⟨env, data, len, src, rfl, ?_⟩
    by_cases hl : len < hlen
    · simp only [ClientKeys.Event.run, clientOnUdp, if_pos hl] at h
      exact absurd h h0
    refine ⟨by omega, ?_⟩
    simp only [ClientKeys.Event.run, ClientKeys.clientOnUdp_eq A (Nat.le_of_not_lt hl)] at h
    split at h
    · exact absurd h h0
    · exact absurd (clientHandleHello_connected h) h0
    · exact absurd h h0
    · exact absurd h h0
    · rename_i hty
      exact (MsgType.code_of_ofCode hty).symm
    · exact absurd h h0

/-- Client and session agree on the session id, the address and the active key. -/
structure Agrees (c : VfastClient) (s : Session) : Prop where
  sid : c.fsm.sid = s.sid
  vip : c.vip = s.vip
  keyId : c.ctx.activeKey.id = s.secCtx.activeKey.id
  key : c.ctx.activeKey.raw = s.secCtx.activeKey.raw

/-- A client that a copy of the session's AUTH_ACK connects agrees with the session. -/
theorem connected_agrees {c : VfastClient} {env : ClientEnv} {data : Mem} {len : Nat}
    {src : SockAddr} {s : Session} (hack : AckOf A s (data.read 0 len))
    (h0 : c.fsm.state ≠ .connected)
    (h : (clientOnUdp A c env data len src).1.fsm.state = .connected) :
    Agrees (clientOnUdp A c env data len src).1 s := by
  obtain ⟨hl, hty, hfl, hsid, token, hread⟩ := AckOf.content hack
  have hun : ClientKeys.unpacked A c data len =
      (vfRemoveHeaderObfs data len, some (len - hlen)) := by
    obtain ⟨n, rfl⟩ : ∃ n, len = hlen + n := ⟨len - hlen, by omega⟩
    rw [Nat.add_sub_cancel_left]
    exact vfUnpack_plain A _ _ n (by rw [hty]; rfl) hfl
  rw [ClientKeys.clientOnUdp_eq A hl, hty, MsgType.ofCode_code, hun] at h ⊢
  obtain ⟨e1, e2, e3⟩ := clientHandleAuth_connected (c := vfFsmUpdate c env.now) h0 h
  obtain ⟨f1, f2, f3⟩ := authResp_fields hread
  refine ⟨e1.trans hsid, e2.trans f1, ?_, ?_⟩
  · exact (congrArg (fun ctx => ctx.activeKey.id) e3).trans f2
  · exact (congrArg (fun ctx => ctx.activeKey.raw) e3).trans f3

end

/-! ## The network -/

/-- The parties, every datagram sent so far, and every session as it was created with
the AUTH_ACK that was sent for it. -/
structure Net (ι : Type) where
  srv : VfastServer
  cli : ι → VfastClient
  sent : List (List UInt8)
  log : List (Session × List UInt8)

inductive NetEvent (ι : Type) where
  | server (ev : ServerInv.Event)
  | client (i : ι) (ev : ClientKeys.Event)

/-- What the server receives is a copy of a datagram that was sent. -/
def serverReads (sent : List (List UInt8)) : ServerInv.Event → Prop
  | .udp _ data len _ => data.read 0 len ∈ sent
  | _ => True

def clientReads (sent : List (List UInt8)) : ClientKeys.Event → Prop
  | .udp _ data len _ => data.read 0 len ∈ sent
  | _ => True

def created (srv srv' : VfastServer) (ds : List (List UInt8)) : List (Session × List UInt8) :=
  if srv'.sessions.brk = srv.sessions.brk then []
  else ds.map fun d => (srv'.sessions.heap srv.sessions.brk, d)

section

variable {ι : Type} (A : Aead) (hmac : List UInt8 → List UInt8 → Block 32)

def Net.server (n : Net ι) (ev : ServerInv.Event) : Net ι :=
  let r := ev.run A hmac n.srv
  { n with
    srv := r.1
    sent := n.sent ++ datagrams r.2
    log := n.log ++ created n.srv r.1 (datagrams r.2) }

def Net.client [DecidableEq ι] (n : Net ι) (i : ι) (ev : ClientKeys.Event) : Net ι :=
  let r := ev.run A (n.cli i)
  { n with
    cli := fun k => if k = i then r.1 else n.cli k
    sent := n.sent ++ datagrams r.2 }

def netRuns [DecidableEq ι] : System (Net ι) (NetEvent ι) where
  init n := ServerInv.Started n.srv ∧
    (∀ i, ∃ draw now dst userName passWord statics workerSeed,
      n.cli i = vfastInitClient draw now dst userName passWord statics workerSeed) ∧
    n.sent = [] ∧ n.log = []
  step n l n' :=
    match l with
    | .server ev => serverReads n.sent ev ∧ n' = n.server A hmac ev
    | .client i ev => clientReads n.sent ev ∧ n' = n.client A i ev

/-- Every AUTH_ACK under way was sent for a session of the log, and carries it. -/
structure NetInv (n : Net ι) : Prop where
  isolated : ServerInv.Isolated n.srv
  log : ∀ e ∈ n.log, AckOf A e.1 e.2
  sent : ∀ d ∈ n.sent, NoAuthAck A d ∨ ∃ s, (s, d) ∈ n.log

theorem NetInv.server {n : Net ι} (h : NetInv A n) (ev : ServerInv.Event) :
    NetInv A (n.server A hmac ev) := by
  have hold : ∀ d ∈ n.sent, NoAuthAck A d ∨ ∃ s, (s, d) ∈ (n.server A hmac ev).log := by
    intro d hd
    rcases h.sent d hd with ho | ⟨s, hs⟩
    · exact Or.inl ho
    · exact Or.inr ⟨s, List.mem_append_left _ hs⟩
  refine ⟨(ServerInv.event_changes A hmac h.isolated ev).isolated h.isolated, ?_, ?_⟩
  · intro e he
    rcases List.mem_append.mp he with he | he
    · exact h.log e he
    · unfold created at he
      split at he
      · exact nomatch he
      · rename_i hne
        obtain ⟨d, hd, rfl⟩ := List.mem_map.mp he
        cases server_sends A hmac h.isolated ev with
        | other brk _ => exact absurd brk hne
        | ack brk hack => exact hack d hd
  · intro d hd
    rcases List.mem_append.mp hd with hd | hd
    · exact hold d hd
    · cases server_sends A hmac h.isolated ev with
      | other brk ho => exact Or.inl (ho d hd)
      | ack brk hack =>
        right
        have hne : ¬ (ev.run A hmac n.srv).1.sessions.brk = n.srv.sessions.brk := fun e =>
          Nat.succ_ne_self _ (brk.symm.trans e)
        refine ⟨(ev.run A hmac n.srv).1.sessions.heap n.srv.sessions.brk,
          List.mem_append_right _ ?_⟩
        rw [created, if_neg hne]
        exact List.mem_map.mpr ⟨d, hd, rfl⟩

theorem NetInv.client [DecidableEq ι] {n : Net ι} (h : NetInv A n) (i : ι) (ev : ClientKeys.Event) :
    NetInv A (n.client A i ev) := by
  refine ⟨h.isolated, h.log, fun d hd => ?_⟩
  rcases List.mem_append.mp hd with hd | hd
  · exact h.sent d hd
  · exact Or.inl (client_datagrams A hd)

theorem reachable_netInv [DecidableEq ι] {n : Net ι} (h : Reachable (netRuns A hmac) n) :
    NetInv A n := by
  refine h.invariant (NetInv A) ?_ ?_
  · rintro n ⟨hs, _, hsent, hlog⟩
    refine ⟨ServerInv.isolated_started hs, ?_, ?_⟩
    · rw [hlog]
      exact fun _ he => nomatch he
    · rw [hsent]
      exact fun _ hd => nomatch hd
  · rintro n l n' hi _ hstep
    cases l with
    | server ev =>
      obtain ⟨_, rfl⟩ := hstep
      exact hi.server A hmac ev
    | client i ev =>
      obtain ⟨_, rfl⟩ := hstep
      exact hi.client A i ev

/-- **Handshake agreement.** Whatever was lost, repeated or reordered, a client gets
connected only by an AUTH_ACK that the server sent for a session it created, and then
agrees with that session as it was created. -/
theorem handshake_agreement [DecidableEq ι] {n : Net ι} (h : Reachable (netRuns A hmac) n)
    {i : ι} {ev : ClientKeys.Event} (hread : clientReads n.sent ev)
    (h0 : (n.cli i).fsm.state ≠ .connected)
    (h1 : ((n.client A i ev).cli i).fsm.state = .connected) :
    ∃ env data len src, ev = .udp env data len src ∧
      (∃ s, (s, data.read 0 len) ∈ n.log) ∧
      ∀ s, (s, data.read 0 len) ∈ n.log → Agrees ((n.client A i ev).cli i) s := by
  have hi := reachable_netInv A hmac h
  have hcli : (n.client A i ev).cli i = (ev.run A (n.cli i)).1 := if_pos rfl
  rw [hcli] at h1 ⊢
  obtain ⟨env, data, len, src, rfl, hl, hty⟩ := connected_by_auth h0 h1
  refine ⟨env, data, len, src, rfl, ?_, fun s hs => ?_⟩
  · rcases hi.sent _ hread with ⟨type, hne, hp⟩ | hs
    · exact absurd (MsgType.code_inj (hp.msgType.2.symm.trans hty)) hne
    · exact hs
  · have hack : AckOf A s (data.read 0 len) := hi.log (s, data.read 0 len) hs
    exact connected_agrees hack h0 h1

end

/-! ## A run of the handshake -/

def copyOf (d : List UInt8) : Mem := fun i => d.getD i 0

theorem read_copyOf (d : List UInt8) : (copyOf d).read 0 d.length = d :=
  read_ext _ _ _ fun i hi => by simp [copyOf, hi]

def Net.last {ι : Type} (n : Net ι) : List UInt8 := n.sent.getLastD []

theorem Net.last_mem {ι : Type} {n : Net ι} (h : n.sent ≠ []) : n.last ∈ n.sent := by
  rw [Net.last, List.getLastD_eq_getLast?, List.getLast?_eq_some_getLast h]
  exact List.getLast_mem h

def helloEnv : ClientEnv := ⟨0, 0, none, true, none, some fun _ => 0⟩

def toClient (n : Net Bool) : ClientKeys.Event :=
  .udp helloEnv (copyOf n.last) n.last.length ⟨0, 0⟩

/-- The server receives the datagram sent last; the credentials will be accepted. -/
def toServer (n : Net Bool) : ServerInv.Event :=
  .udp (Addresses.authEnv (some fun _ => 1) 0) (copyOf n.last) n.last.length ⟨0, 0⟩

def idleNet : Net Bool :=
  ⟨Addresses.startedServer 0x0000000A, fun _ => ClientKeys.idleClient, [], []⟩

def helloSent : Net Bool := idleNet.client markAead false (.worker helloEnv .idle 0)

def helloAnswered : Net Bool := helloSent.server markAead Addresses.zeroHmac (toServer helloSent)

def cookieHeld : Net Bool := helloAnswered.client markAead false (toClient helloAnswered)

def authSent : Net Bool := cookieHeld.client markAead false (.worker helloEnv .authSend 0)

def authAnswered : Net Bool := authSent.server markAead Addresses.zeroHmac (toServer authSent)

theorem helloSent_ne : helloSent.sent ≠ [] := by decide +kernel

theorem authSent_ne : helloAnswered.sent ≠ [] ∧ authSent.sent ≠ [] ∧ authAnswered.sent ≠ [] := by
  have h2 : helloAnswered.sent ≠ [] := List.append_ne_nil_of_left_ne_nil helloSent_ne _
  have h3 : cookieHeld.sent ≠ [] := List.append_ne_nil_of_left_ne_nil h2 _
  have h4 : authSent.sent ≠ [] := List.append_ne_nil_of_left_ne_nil h3 _
  exact ⟨h2, h4, List.append_ne_nil_of_left_ne_nil h4 _⟩

theorem authAnswered_reachable :
    Reachable (netRuns markAead Addresses.zeroHmac) authAnswered := by
  have h0 : Reachable (netRuns markAead Addresses.zeroHmac) idleNet :=
    .init ⟨Addresses.startedServer_started (by decide),
      fun _ => ⟨_, _, _, _, _, _, _, rfl⟩, rfl, rfl⟩
  have h1 : Reachable (netRuns markAead Addresses.zeroHmac) helloSent :=
    h0.next (l := .client false (.worker helloEnv .idle 0)) ⟨trivial, rfl⟩
  have h2 : Reachable (netRuns markAead Addresses.zeroHmac) helloAnswered := by
    refine h1.next (l := .server (toServer helloSent)) ⟨?_, rfl⟩
    rw [toServer, serverReads, read_copyOf]
    exact Net.last_mem helloSent_ne
  have h3 : Reachable (netRuns markAead Addresses.zeroHmac) cookieHeld := by
    refine h2.next (l := .client false (toClient helloAnswered)) ⟨?_, rfl⟩
    rw [toClient, clientReads, read_copyOf]
    exact Net.last_mem authSent_ne.1
  have h4 : Reachable (netRuns markAead Addresses.zeroHmac) authSent :=
    h3.next (l := .client false (.worker helloEnv .authSend 0)) ⟨trivial, rfl⟩
  refine h4.next (l := .server (toServer authSent)) ⟨?_, rfl⟩
  rw [toServer, serverReads, read_copyOf]
  exact Net.last_mem authSent_ne.2.1

/-- The first client to finish the handshake agrees with its session. -/
theorem first_handshake_agrees :
    ∃ s, (s, authAnswered.last) ∈ authAnswered.log ∧
      Agrees ((authAnswered.client markAead false (toClient authAnswered)).cli false) s := by
  have hread : clientReads authAnswered.sent (toClient authAnswered) := by
    rw [toClient, clientReads, read_copyOf]
    exact Net.last_mem authSent_ne.2.2
  obtain ⟨env, data, len, src, e, ⟨s, hs⟩, hall⟩ := handshake_agreement markAead
    Addresses.zeroHmac authAnswered_reachable (i := false) hread (by decide +kernel)
      (by decide +kernel)
  cases e
  rw [read_copyOf] at hs hall
  exact ⟨s, hs, hall s hs⟩

end Vfast.Handshake
