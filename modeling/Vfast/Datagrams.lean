import Vfast.RoundTrip
import Vfast.ServerInv
import Vfast.ClientKeys

/-! What the two programs put on the wire. Every datagram of an event is the result of
`vf_pack` with a type that the event determines; only an accepted AUTH_REQ makes the
server send an AUTH_ACK, and it creates a session in the same event. -/

namespace Vfast.Datagrams

open Bytes Key Crypto Protocol Ippool Sessions Server Client Wire RoundTrip

def datagrams (outs : List Out) : List (List UInt8) :=
  outs.filterMap fun out =>
    match out with
    | .udpSend bytes _ => some bytes
    | _ => none

theorem datagrams_append (outs outs' : List Out) :
    datagrams (outs ++ outs') = datagrams outs ++ datagrams outs' := List.filterMap_append ..

section

variable (A : Aead)

/-- What `vf_pack` made of some payload as a packet of this type. -/
def PackedAs (type : MsgType) (bytes : List UInt8) : Prop :=
  ∃ st rd sec buf plen sid tlen, (vfPack A st rd sec buf plen bufSize type sid).2.2 = some tlen ∧
    bytes = (vfPack A st rd sec buf plen bufSize type sid).2.1.read 0 tlen

def NoAuthAck (bytes : List UInt8) : Prop := ∃ type, type ≠ .authAck ∧ PackedAs A type bytes

theorem mem_datagrams_pack {st : Statics} {rd : Urandom} {sec : Option SecCtx} {buf : Mem}
    {plen : Nat} {type : MsgType} {sid : UInt32} {dst : SockAddr} {d : List UInt8}
    (h : d ∈ datagrams ((vfPack A st rd sec buf plen bufSize type sid).2.2.map fun tlen =>
      Out.udpSend ((vfPack A st rd sec buf plen bufSize type sid).2.1.read 0 tlen) dst).toList) :
    PackedAs A type d := by
  cases ht : (vfPack A st rd sec buf plen bufSize type sid).2.2 with
  | none =>
    rw [ht] at h
    exact nomatch h
  | some tlen =>
    rw [ht] at h
    exact ⟨st, rd, sec, buf, plen, sid, tlen, ht, List.mem_singleton.mp h⟩

/-- A copy of a packed datagram is read with the type it was packed with. -/
theorem PackedAs.msgType {A : Aead} {type : MsgType} {data : Mem} {len : Nat}
    (h : PackedAs A type (data.read 0 len)) :
    hlen ≤ len ∧ vfRemoveHeaderObfs data len offMsgType = type.code := by
  obtain ⟨st, rd, sec, buf, plen, sid, tlen, ht, hb⟩ := h
  obtain ⟨rfl, hr⟩ := received_of_read hb
  obtain ⟨htl, hh, _⟩ := hr.content (Nat.le_refl _) ht
  exact ⟨by omega, hh.msgType⟩

/-! ## The client -/

theorem fsmSendPkt_datagrams {c : VfastClient} {env : ClientEnv} {type : MsgType} {d : List UInt8}
    (h : d ∈ datagrams (fsmSendPkt A c env type).2) : PackedAs A type d := by
  unfold fsmSendPkt at h
  split at h
  · exact nomatch h
  split at h
  · exact nomatch h
  · exact mem_datagrams_pack A h

theorem worker_datagrams {c : VfastClient} {env : ClientEnv} {seen : FsmState} {lastRx : Int}
    {d : List UInt8} (h : d ∈ datagrams (fsmWorker A c env seen lastRx).2) : NoAuthAck A d := by
  cases seen with
  | idle => exact ⟨.hello, by decide, fsmSendPkt_datagrams A h⟩
  | reconnecting => exact ⟨.hello, by decide, fsmSendPkt_datagrams A h⟩
  | authSend => exact ⟨.authReq, by decide, fsmSendPkt_datagrams A h⟩
  | helloWait =>
    simp only [fsmWorker] at h
    split at h <;> cases h
  | authWait =>
    simp only [fsmWorker] at h
    split at h <;> cases h
  | connected =>
    simp only [fsmWorker] at h
    split at h <;> split at h
    · exact ⟨.keepalive, by decide, fsmSendPkt_datagrams A h⟩
    · cases h
    · exact ⟨.keepalive, by decide, fsmSendPkt_datagrams A h⟩
    · cases h

theorem rekeySend_datagrams {c : VfastClient} {env : ClientEnv} {retry : Bool} {d : List UInt8}
    (h : d ∈ datagrams (rekeySend A c env retry).2) : NoAuthAck A d := by
  unfold rekeySend at h
  split at h
  · exact nomatch h
  · exact ⟨.rekeyReq, by decide, mem_datagrams_pack A h⟩

theorem timer_datagrams {c : VfastClient} {env : ClientEnv} {d : List UInt8}
    (h : d ∈ datagrams (vfastRekeyTimerHandler A c env).2) : NoAuthAck A d := by
  unfold vfastRekeyTimerHandler at h
  split at h
  · exact nomatch h
  split at h
  · split at h
    · exact nomatch h
    · exact rekeySend_datagrams A h
  split at h
  · exact rekeySend_datagrams A h
  · exact nomatch h

theorem clientOnTun_datagrams {c : VfastClient} {env : ClientEnv} {buf : Mem} {len : Nat}
    {d : List UInt8} (h : d ∈ datagrams (clientOnTun A c env buf len).2.1) : NoAuthAck A d := by
  unfold clientOnTun at h
  split at h
  · exact nomatch h
  dsimp only at h
  split at h
  · exact nomatch h
  · rename_i ht
    exact ⟨.data, by decide, _, _, _, _, _, _, _, ht, List.mem_singleton.mp h⟩

theorem clientOnUdp_datagrams {c : VfastClient} {env : ClientEnv} {data : Mem} {len : Nat}
    {src : SockAddr} {d : List UInt8}
    (h : d ∈ datagrams (clientOnUdp A c env data len src).2.1) : NoAuthAck A d := by
  by_cases hl : len < hlen
  · rw [clientOnUdp, if_pos hl] at h
    cases h
  rw [ClientKeys.clientOnUdp_eq A (by omega)] at h
  split at h
  · unfold clientHandleData at h
    split at h
    · cases h
    split at h <;> cases h
  · cases h
  · exact ⟨.dpdResponse, by decide, mem_datagrams_pack A h⟩
  · cases h
  · cases h
  · cases h

/-- **No client sends an AUTH_ACK.** -/
theorem client_datagrams {c : VfastClient} {ev : ClientKeys.Event} {d : List UInt8}
    (h : d ∈ datagrams (ev.run A c).2) : NoAuthAck A d := by
  cases ev with
  | udp env data len src => exact clientOnUdp_datagrams A h
  | tun env buf len => exact clientOnTun_datagrams A h
  | timer env => exact timer_datagrams A h
  | worker env seen lastRx => exact worker_datagrams A h

/-! ## The server -/

/-- The AUTH_ACK that hands the session `s` to its client. -/
def AckOf (s : Session) (bytes : List UInt8) : Prop :=
  ∃ st rd, ∃ buf : Mem, ∃ token tlen,
    (vfPack A st rd none (buf.write hlen (authResp s.vip token s.secCtx)) 64 bufSize .authAck
      s.sid).2.2 = some tlen ∧
    bytes = (vfPack A st rd none (buf.write hlen (authResp s.vip token s.secCtx)) 64 bufSize
      .authAck s.sid).2.1.read 0 tlen

/-- An event of the server sends no AUTH_ACK, or creates a session and sends nothing but
its AUTH_ACK. -/
inductive Sends (srv srv' : VfastServer) (ds : List (List UInt8)) : Prop where
  | other (brk : srv'.sessions.brk = srv.sessions.brk) (h : ∀ d ∈ ds, NoAuthAck A d)
  | ack (brk : srv'.sessions.brk = srv.sessions.brk + 1)
      (h : ∀ d ∈ ds, AckOf A (srv'.sessions.heap srv.sessions.brk) d)

theorem Sends.none {srv srv' : VfastServer} (h : srv'.sessions.brk = srv.sessions.brk) :
    Sends A srv srv' [] := .other h fun _ hd => nomatch hd

theorem hello_sends (hmac : List UInt8 → List UInt8 → Block 32) (srv : VfastServer) (env : Env)
    (buf : Mem) (plen : Nat) (src : SockAddr) :
    Sends A srv (vfastHandleHello A hmac srv env buf plen src).1
      (datagrams (vfastHandleHello A hmac srv env buf plen src).2.1) := by
  unfold vfastHandleHello
  split
  · exact .none A rfl
  · exact .other rfl fun d hd => ⟨.hello, by decide, mem_datagrams_pack A hd⟩

theorem auth_sends (hmac : List UInt8 → List UInt8 → Block 32) {srv : VfastServer}
    (hi : ServerInv.Isolated srv) (env : Env) (buf : Mem) (plen : Nat) (src : SockAddr) :
    Sends A srv (vfastHandleAuth A hmac srv env buf plen src).1
      (datagrams (vfastHandleAuth A hmac srv env buf plen src).2.1) := by
  rcases ServerInv.vfastHandleAuth_cases A hmac hi env buf plen src with
    e | ⟨_, pos, e⟩ | ⟨pos, token, ha, e⟩
  · rw [e]
    exact .none A rfl
  · rw [e]
    exact .none A rfl
  · obtain ⟨_, st, tlen, ht, e'⟩ := ha.result A hmac hi
    rw [e, e']
    refine .ack rfl fun d hd => ?_
    have hs : ((srv.sessions.create (shardOf (addrOf srv.ipPool pos))
        (ServerInv.newSession env src (addrOf srv.ipPool pos))).heap srv.sessions.brk) =
        ServerInv.newSession env src (addrOf srv.ipPool pos) :=
      (create_heap ..).trans (if_pos rfl)
    show AckOf A ((srv.sessions.create _ _).heap srv.sessions.brk) d
    rw [hs]
    exact ⟨_, _, buf, token, tlen, ht, List.mem_singleton.mp hd⟩

theorem echo_sends {srv : VfastServer} (hw : srv.sessions.WF) (env : Env) {s : Option Ptr}
    (hs : ∀ p, s = some p → Live srv.sessions p) (sid : UInt32) (buf : Mem) (plen : Nat)
    (src : SockAddr) :
    Sends A srv (vfastHandleEcho A srv env s sid buf plen src).1
      (datagrams (vfastHandleEcho A srv env s sid buf plen src).2.1) := by
  unfold vfastHandleEcho
  split
  · exact .none A rfl
  cases s with
  | none => exact .none A rfl
  | some p =>
    refine .other ?_ fun d hd => ⟨.keepalive, by decide, mem_datagrams_pack A hd⟩
    show (vfSsUpdate srv.sessions (srv.sessions.heap p).vip (srv.sessions.heap p).sid src
      env.keyDraw env.now).brk = srv.sessions.brk
    rw [vfSsUpdate_self hw src env.keyDraw env.now (hs p rfl)]
    rfl

theorem rekeyReq_sends (srv : VfastServer) (env : Env) (p : Ptr) (buf : Mem) (plen : Nat)
    (src : SockAddr) :
    Sends A srv (vfastHandleRekeyReq A srv env p buf plen src).1
      (datagrams (vfastHandleRekeyReq A srv env p buf plen src).2) := by
  unfold vfastHandleRekeyReq
  split
  · exact .none A rfl
  dsimp only
  split
  · exact .none A rfl
  · exact .other rfl fun d hd => ⟨.rekeyAck, by decide, mem_datagrams_pack A hd⟩

theorem dispatch_sends (hmac : List UInt8 → List UInt8 → Block 32) {srv : VfastServer}
    (hi : ServerInv.Isolated srv) (env : Env) {s : Option Ptr}
    (hs : ∀ p, s = some p → Live srv.sessions p) (sid : UInt32) (buf : Mem) (plen : Nat)
    (src : SockAddr) :
    Sends A srv (dispatch A hmac srv env s sid buf plen src).1
      (datagrams (dispatch A hmac srv env s sid buf plen src).2.1) := by
  unfold dispatch
  split
  · exact .none A rfl
  · exact hello_sends A hmac srv env buf plen src
  · exact auth_sends A hmac hi env buf plen src
  · exact echo_sends A hi.wf env hs sid buf plen src
  · exact .none A (touch_updateBySid _ _ _ _).brk
  · cases s with
    | none => exact .none A rfl
    | some p =>
      refine .none A ?_
      simp only [vfastHandleRekeyAck]
      split <;> rfl
  · cases s with
    | none => exact .none A rfl
    | some p => exact rekeyReq_sends A srv env p buf plen src
  · exact .none A rfl

theorem udp_sends (hmac : List UInt8 → List UInt8 → Block 32) {srv : VfastServer}
    (hi : ServerInv.Isolated srv) (env : Env) (data : Mem) (len : Nat) (src : SockAddr) :
    Sends A srv (serverOnUdp A hmac srv env data len src).1
      (datagrams (serverOnUdp A hmac srv env data len src).2.1) := by
  rcases ServerInv.serverOnUdp_cases A hmac srv env data len src with
    ⟨e, stats, reass, e'⟩ | ⟨mid, s, buf, plen, hd, hr⟩
  · rw [e, e']
    exact .none A rfl
  · have hbrk := (hd.touch A).brk
    have hsend := dispatch_sends A hmac (hd.isolated A hi) env (hd.live A hi)
      (bswap32 ((vfRemoveHeaderObfs data len).load32 offSessionId)) buf plen src
    rw [hr _ rfl]
    cases hsend with
    | other brk h => exact .other (brk.trans hbrk) h
    | ack brk h =>
      rw [hbrk] at brk h
      exact .ack brk h

theorem tun_sends (srv : VfastServer) (env : Env) (buf : Mem) (len : Nat) :
    Sends A srv (serverOnTun A srv env buf len).1
      (datagrams (serverOnTun A srv env buf len).2.1) := by
  unfold serverOnTun
  split
  · exact .none A rfl
  dsimp only
  split
  · exact .none A rfl
  rename_i p _
  simp only [VfastServer.packSend]
  cases ht : (vfPack A srv.statics env.urandom (some (srv.sessions.heap p).secCtx) buf len bufSize
      .data (srv.sessions.heap p).sid).2.2 with
  | none => exact .none A rfl
  | some tlen =>
    refine .other rfl fun d hd => ⟨.data, by decide, _, _, _, _, _, _, tlen, ht, ?_⟩
    exact List.mem_singleton.mp hd

theorem brk_delete (st : Store) (vip : UInt32) : (vfSsDelete st vip).brk = st.brk := by
  unfold vfSsDelete
  split <;> rfl

theorem maintainNode_sends (env : Env) (acc : VfastServer × List Out × Nat) (node : ExpiredNode) :
    (maintainNode A env acc node).1.sessions.brk = acc.1.sessions.brk ∧
      ∀ d ∈ datagrams (maintainNode A env acc node).2.1,
        d ∈ datagrams acc.2.1 ∨ NoAuthAck A d := by
  obtain ⟨srv, outs, borrowed⟩ := acc
  unfold maintainNode
  dsimp only
  split
  · exact ⟨brk_delete _ _, fun d hd => Or.inl hd⟩
  split
  · exact ⟨rfl, fun d hd => Or.inl hd⟩
  split
  · exact ⟨rfl, fun d hd => Or.inl hd⟩
  · refine ⟨rfl, fun d hd => ?_⟩
    rw [datagrams_append] at hd
    rcases List.mem_append.mp hd with hd | hd
    · exact Or.inl hd
    · dsimp only [VfastServer.packSend] at hd
      exact Or.inr ⟨.dpdRequest, by decide, mem_datagrams_pack A hd⟩

theorem maintain_sends (env : Env) (nodes : List ExpiredNode)
    (acc : VfastServer × List Out × Nat) :
    (nodes.foldl (maintainNode A env) acc).1.sessions.brk = acc.1.sessions.brk ∧
      ∀ d ∈ datagrams (nodes.foldl (maintainNode A env) acc).2.1,
        d ∈ datagrams acc.2.1 ∨ NoAuthAck A d := by
  induction nodes generalizing acc with
  | nil => exact ⟨rfl, fun d hd => Or.inl hd⟩
  | cons node nodes ih =>
    obtain ⟨hb, hd⟩ := maintainNode_sends A env acc node
    obtain ⟨hb', hd'⟩ := ih (maintainNode A env acc node)
    refine ⟨hb'.trans hb, fun d h => ?_⟩
    rcases hd' d h with h | h
    · exact hd d h
    · exact Or.inr h

/-- **The server sends an AUTH_ACK only with the session it creates.** -/
theorem server_sends (hmac : List UInt8 → List UInt8 → Block 32) {srv : VfastServer}
    (hi : ServerInv.Isolated srv) (ev : ServerInv.Event) :
    Sends A srv (ev.run A hmac srv).1 (datagrams (ev.run A hmac srv).2) := by
  cases ev with
  | udp env data len src => exact udp_sends A hmac hi env data len src
  | tun env buf len => exact tun_sends A srv env buf len
  | maintenance env =>
    obtain ⟨hb, hd⟩ := maintain_sends A env (vfSsGetExpired srv.sessions 64 15 30 env.now)
      (srv, [], 0)
    refine .other hb fun d h => ?_
    rcases hd d h with h | h
    · exact nomatch h
    · exact h

end

end Vfast.Datagrams
