import Vfast.Lib.Run
import Vfast.Wire
import Vfast.Client

/-! Runs of the client and the keys its packets are packed with. Every event changes
the double buffer in one of five ways (`KeyChange`). -/

namespace Vfast.ClientKeys

open Bytes Key Crypto Protocol Sessions Server Client Run

inductive Event where
  | udp (env : ClientEnv) (data : Mem) (len : Nat) (src : SockAddr)
  | tun (env : ClientEnv) (buf : Mem) (len : Nat)
  | timer (env : ClientEnv)
  | worker (env : ClientEnv) (seen : FsmState) (lastRx : Int)

section

variable (A : Aead)

def Event.run (c : VfastClient) : Event → VfastClient × List Out
  | .udp env data len src =>
    let r := clientOnUdp A c env data len src
    (r.1, r.2.1)
  | .tun env buf len =>
    let r := clientOnTun A c env buf len
    (r.1, r.2.1)
  | .timer env => vfastRekeyTimerHandler A c env
  | .worker env seen lastRx => fsmWorker A c env seen lastRx

/-! ## What an event does to the keys -/

def unpacked (c : VfastClient) (data : Mem) (len : Nat) : Mem × Option Nat :=
  vfUnpack A (if vfRemoveHeaderObfs data len offMsgType = MsgType.hello.code then none
    else some c.ctx) (vfRemoveHeaderObfs data len) len

/-- `client_handle_auth` accepts the payload: it waits for one, the payload is long
enough and the status is `VF_S_OK`. -/
def authAccepted (c : VfastClient) (r : Mem × Option Nat) : Bool :=
  c.fsm.state == .authWait &&
    match r.2 with
    | none => false
    | some plen => decide (64 ≤ plen) && bswap32 (r.1.load32 hlen) == 0

/-- The key an event brings into the client: drawn by `vf_rekey_prepare_next`, or the
init key of an AUTH_ACK that `client_handle_auth` accepts. -/
def issuedBy (c : VfastClient) : Event → List KeyMat
  | .udp env data len _ =>
    if hlen ≤ len ∧ vfRemoveHeaderObfs data len offMsgType = MsgType.authAck.code ∧
        authAccepted c (unpacked A c data len) then
      [(authCtx c.ctx (unpacked A c data len).1 0 env.now).activeKey.mat]
    else []
  | .timer env =>
    if vfFsmIsConnected c && shouldInit c.ctx env.now then
      (env.keyDraw.map fun raw => (raw, c.ctx.activeKey.id + 1)).toList
    else []
  | _ => []

def IsRekeyAck : Event → Prop
  | .udp _ data len _ =>
    hlen ≤ len ∧ vfRemoveHeaderObfs data len offMsgType = MsgType.rekeyAck.code
  | _ => False

/-- The double buffer: both contexts and the one in use. -/
def buffers (c : VfastClient) : (Fin 2 → SecCtx) × Fin 2 := (c.secCtxs, c.activePtr)

/-- The change of the double buffer by an event that brings in the keys `issued`. -/
inductive KeyChange (ack : Prop) (c c' : VfastClient) (issued : List KeyMat) : Prop where
  | same (h : buffers c' = buffers c)
  | count (len : Nat) (h : buffers c' = buffers (c.setCtx (c.ctx.countBytes len)))
  | prepare (draw : Option (Block 32)) (now : Int) (hp : c.ctx.rekeyPending = false)
      (h : buffers c' = buffers (c.setCtx (vfRekeyPrepareNext c.ctx draw now).1))
      (hi : issued = (draw.map fun raw => (raw, c.ctx.activeKey.id + 1)).toList)
  | commit (ha : ack) (h : buffers c' = buffers (vfastHandleNewKey c))
  | auth (buf : Mem) (sid : UInt32) (now : Int)
      (h : buffers c' = buffers (c.setCtx (authCtx c.ctx buf sid now)))
      (hi : issued = [c'.ctx.activeKey.mat])

theorem ctx_eq {c c' : VfastClient} (h : buffers c' = buffers c) : c'.ctx = c.ctx := by
  have hs : c'.secCtxs = c.secCtxs := congrArg Prod.fst h
  have ha : c'.activePtr = c.activePtr := congrArg Prod.snd h
  rw [VfastClient.ctx, VfastClient.ctx, hs, ha]

@[simp] theorem ctx_setCtx (c : VfastClient) (ctx : SecCtx) : (c.setCtx ctx).ctx = ctx := by
  simp [VfastClient.setCtx, VfastClient.ctx]

@[simp] theorem ctx_newKey (c : VfastClient) :
    (vfastHandleNewKey c).ctx = vfRekeyCommit c.ctx := by
  simp [vfastHandleNewKey, VfastClient.ctx]

theorem authCtx_activeKey (ctx : SecCtx) (buf : Mem) (sid sid' : UInt32) (now : Int) :
    (authCtx ctx buf sid now).activeKey = (authCtx ctx buf sid' now).activeKey := rfl

theorem buffers_hello (c : VfastClient) (buf : Mem) (payload : Option Nat) :
    buffers (clientHandleHello c buf payload) = buffers c := by
  unfold clientHandleHello helloAfterLoad
  split
  · rfl
  split
  · rfl
  split
  · rfl
  split <;> rfl

theorem buffers_auth (c : VfastClient) (env : ClientEnv) (sid : UInt32) (buf : Mem)
    (payload : Option Nat) :
    buffers (clientHandleAuth c env sid buf payload).1 =
      buffers (if authAccepted c (buf, payload) then c.setCtx (authCtx c.ctx buf sid env.now)
        else c) := by
  unfold clientHandleAuth authAfterLoad authAccepted
  by_cases hs : c.fsm.state = .authWait
  · cases payload with
    | none => simp [hs]
    | some plen =>
      by_cases hl : plen < 64
      · have h64 : ¬ 64 ≤ plen := by omega
        simp [hs, hl, h64]
      · by_cases hst : bswap32 (buf.load32 hlen) = 0
        · have h64 : 64 ≤ plen := by omega
          simp only [hs, hl, hst, h64, ne_eq, not_true_eq_false, if_false, beq_self_eq_true,
            decide_true, Bool.and_self, if_true]
          split <;> rfl
        · simp [hs, hl, hst, VfastClient.setState, buffers]
  · simp [hs]

theorem buffers_fsmSendPkt (c : VfastClient) (env : ClientEnv) (type : MsgType) :
    buffers (fsmSendPkt A c env type).1 = buffers c := by
  unfold fsmSendPkt
  split
  · rfl
  split <;> rfl

theorem fsmPayload_state {fsm fsm' : Fsm} {env : ClientEnv} {type : MsgType}
    {payload : List UInt8} (h : fsmPayload fsm env type = some (payload, fsm')) :
    fsm'.state = fsm.state := by
  cases type <;> cases h <;> rfl

theorem fsmSendPkt_state (c : VfastClient) (env : ClientEnv) (type : MsgType) :
    (fsmSendPkt A c env type).1.fsm.state = c.fsm.state := by
  unfold fsmSendPkt
  split
  · rfl
  split
  · rfl
  · rename_i h
    exact fsmPayload_state h

theorem buffers_worker (c : VfastClient) (env : ClientEnv) (seen : FsmState) (lastRx : Int) :
    buffers (fsmWorker A c env seen lastRx).1 = buffers c := by
  cases seen with
  | idle => exact buffers_fsmSendPkt A c env .hello
  | reconnecting => exact buffers_fsmSendPkt A c env .hello
  | authSend => exact buffers_fsmSendPkt A c env .authReq
  | helloWait =>
    simp only [fsmWorker]
    split <;> rfl
  | authWait =>
    simp only [fsmWorker]
    split <;> rfl
  | connected =>
    simp only [fsmWorker]
    split <;> split
    · exact buffers_fsmSendPkt A c env .keepalive
    · rfl
    · exact buffers_fsmSendPkt A c env .keepalive
    · rfl

theorem buffers_rekeySend (c : VfastClient) (env : ClientEnv) (retry : Bool) :
    buffers (rekeySend A c env retry).1 = buffers c := by
  unfold rekeySend
  split <;> rfl

/-- The timer stages a key, or leaves the double buffer. -/
theorem timer_cases (c : VfastClient) (env : ClientEnv) :
    (buffers (vfastRekeyTimerHandler A c env).1 = buffers c ∧ issuedBy A c (.timer env) = []) ∨
    (c.ctx.rekeyPending = false ∧
      buffers (vfastRekeyTimerHandler A c env).1 =
        buffers (c.setCtx (vfRekeyPrepareNext c.ctx env.keyDraw env.now).1) ∧
      issuedBy A c (.timer env) =
        (env.keyDraw.map fun raw => (raw, c.ctx.activeKey.id + 1)).toList) := by
  simp only [vfastRekeyTimerHandler, issuedBy]
  cases hc : vfFsmIsConnected c with
  | false => exact Or.inl ⟨rfl, rfl⟩
  | true =>
    cases hi : shouldInit c.ctx env.now with
    | false =>
      simp only [Bool.not_true, Bool.false_eq_true, if_false]
      split
      · exact Or.inl ⟨buffers_rekeySend A c env true, rfl⟩
      · exact Or.inl ⟨rfl, rfl⟩
    | true =>
      refine Or.inr ⟨shouldInit_pending hi, ?_, rfl⟩
      cases hd : env.keyDraw with
      | none => simp only [Bool.not_true, Bool.false_eq_true, if_false, if_true, vfRekeyPrepareNext]
      | some raw =>
        simp only [Bool.not_true, Bool.false_eq_true, if_false, if_true, vfRekeyPrepareNext]
        exact buffers_rekeySend A _ env false

theorem timer_change (c : VfastClient) (env : ClientEnv) (ack : Prop) :
    KeyChange ack c (vfastRekeyTimerHandler A c env).1 (issuedBy A c (.timer env)) := by
  rcases timer_cases A c env with ⟨h, _⟩ | ⟨hp, h, hi⟩
  · exact .same h
  · exact .prepare env.keyDraw env.now hp h hi

theorem tun_change (c : VfastClient) (env : ClientEnv) (buf : Mem) (len : Nat) (ack : Prop)
    (issued : List KeyMat) : KeyChange ack c (clientOnTun A c env buf len).1 issued := by
  unfold clientOnTun
  split
  · exact .same rfl
  · dsimp only
    split <;> exact .count len rfl

def standing (c : VfastClient) : FsmState × UInt32 × UInt32 := (c.fsm.state, c.fsm.sid, c.vip)

theorem timer_standing (c : VfastClient) (env : ClientEnv) :
    standing (vfastRekeyTimerHandler A c env).1 = standing c := by
  have hsend : ∀ (c : VfastClient) retry, standing (rekeySend A c env retry).1 = standing c := by
    intro c retry
    unfold rekeySend
    split <;> rfl
  unfold vfastRekeyTimerHandler
  split
  · rfl
  split
  · split
    · rfl
    · exact hsend _ false
  split
  · exact hsend c true
  · rfl

theorem tun_standing (c : VfastClient) (env : ClientEnv) (buf : Mem) (len : Nat) :
    standing (clientOnTun A c env buf len).1 = standing c := by
  unfold clientOnTun
  split
  · rfl
  dsimp only
  split <;> rfl

/-- `client_on_udp` dispatches on the type in the unmasked header. -/
theorem clientOnUdp_eq {c : VfastClient} {env : ClientEnv} {data : Mem} {len : Nat}
    {src : SockAddr} (hl : hlen ≤ len) :
    clientOnUdp A c env data len src =
      match MsgType.ofCode (vfRemoveHeaderObfs data len offMsgType) with
      | some .data => (vfFsmUpdate c env.now, clientHandleData (vfFsmUpdate c env.now)
          (unpacked A c data len).1 (unpacked A c data len).2, .done)
      | some .hello => (clientHandleHello (vfFsmUpdate c env.now) (unpacked A c data len).1
          (unpacked A c data len).2, [], .done)
      | some .dpdRequest =>
        let r := clientHandleDpd A (vfFsmUpdate c env.now) env (unpacked A c data len).1 src
        (r.1, r.2.toList, if r.2.isSome then .use else .done)
      | some .rekeyAck => (vfastHandleNewKey (vfFsmUpdate c env.now), [], .done)
      | some .authAck => ((clientHandleAuth (vfFsmUpdate c env.now) env
          (bswap32 ((vfRemoveHeaderObfs data len).load32 offSessionId))
          (unpacked A c data len).1 (unpacked A c data len).2).1, [], .done)
      | _ => (vfFsmUpdate c env.now, [], .done) := by
  have hty : (unpacked A c data len).1 offMsgType = vfRemoveHeaderObfs data len offMsgType :=
    Wire.vfUnpack_frame _ _ _ _ _ (by decide) (by decide)
  rw [← hty, clientOnUdp, if_neg (by omega)]
  rfl

theorem udp_change (c : VfastClient) (env : ClientEnv) (data : Mem) (len : Nat) (src : SockAddr) :
    KeyChange (IsRekeyAck (.udp env data len src)) c (clientOnUdp A c env data len src).1
      (issuedBy A c (.udp env data len src)) := by
  by_cases hl : len < hlen
  · rw [clientOnUdp, if_pos hl]
    exact .same rfl
  have hl : hlen ≤ len := by omega
  rw [clientOnUdp_eq A hl]
  split
  · exact .same rfl
  · exact .same (buffers_hello _ _ _)
  · exact .same rfl
  · rename_i h
    exact .commit ⟨hl, (MsgType.code_of_ofCode h).symm⟩ rfl
  · rename_i h
    have h := (MsgType.code_of_ofCode h).symm
    have hb := buffers_auth (vfFsmUpdate c env.now) env
      (bswap32 ((vfRemoveHeaderObfs data len).load32 offSessionId)) (unpacked A c data len).1
      (unpacked A c data len).2
    have hacc : authAccepted (vfFsmUpdate c env.now) (unpacked A c data len) =
      authAccepted c (unpacked A c data len) := rfl
    rw [hacc] at hb
    cases ha : authAccepted c (unpacked A c data len) with
    | false =>
      rw [ha, if_neg Bool.false_ne_true] at hb
      exact .same hb
    | true =>
      rw [ha, if_pos rfl] at hb
      refine .auth _ _ _ hb ?_
      simp only [issuedBy, hl, h, ha, and_self, if_true]
      rw [ctx_eq hb, ctx_setCtx]
      exact congrArg (fun k => [VKey.mat k]) (authCtx_activeKey c.ctx _ 0 _ env.now)
  · exact .same rfl

/-- **Every event changes the double buffer in one of five ways.** -/
theorem event_change (c : VfastClient) (ev : Event) :
    KeyChange (IsRekeyAck ev) c (ev.run A c).1 (issuedBy A c ev) := by
  cases ev with
  | udp env data len src => exact udp_change A c env data len src
  | tun env buf len => exact tun_change A c env buf len _ _
  | timer env => exact timer_change A c env _
  | worker env seen lastRx => exact .same (buffers_worker A c env seen lastRx)

/-- The buffers are swapped by a REKEY_ACK only. -/
theorem KeyChange.swap {ack : Prop} {c c' : VfastClient} {issued : List KeyMat}
    (h : KeyChange ack c c' issued) (hs : c'.activePtr ≠ c.activePtr) : ack := by
  cases h with
  | same h => exact absurd (congrArg Prod.snd h) hs
  | count len h => exact absurd (congrArg Prod.snd h) hs
  | prepare draw now hp h hi => exact absurd (congrArg Prod.snd h) hs
  | commit ha h => exact ha
  | auth buf sid now h hi => exact absurd (congrArg Prod.snd h) hs

/-- **Every REKEY_ACK swaps the buffers**, whatever the context holds. -/
theorem rekeyAck_swaps (c : VfastClient) (ev : Event) (h : IsRekeyAck ev) :
    buffers (ev.run A c).1 = buffers (vfastHandleNewKey c) := by
  cases ev with
  | udp env data len src =>
    obtain ⟨hl, hty⟩ := h
    rw [Event.run, clientOnUdp_eq A hl, hty, MsgType.ofCode_code]
    rfl
  | tun env buf len => exact h.elim
  | timer env => exact h.elim
  | worker env seen lastRx => exact h.elim

/-! ## Runs -/

/-- The client with the list of the keys it drew or was given. It starts with the key
drawn by `vf_rekey_init`, if the draw succeeds. -/
def clientRuns (draw : Option (Block 32)) : System (VfastClient × List KeyMat) Event where
  init s := ∃ now dst userName passWord statics workerSeed,
    s = (vfastInitClient draw now dst userName passWord statics workerSeed,
      (draw.map fun raw => (raw, 1)).toList)
  step s ev s' := s' = ((ev.run A s.1).1, s.2 ++ issuedBy A s.1 ev)

/-- A rekey is pending and the message acknowledges the staged key. -/
def Acknowledges (c : VfastClient) : Event → Prop
  | .udp _ data len _ => c.ctx.rekeyPending = true ∧ ∃ buf plen,
      vfUnpack A (some c.ctx) (vfRemoveHeaderObfs data len) len = (buf, some plen) ∧
        4 ≤ plen ∧ bswap32 (buf.load32 hlen) = c.ctx.nextKey.id
  | _ => False

def Solicited (c : VfastClient) (ev : Event) : Prop := IsRekeyAck ev → Acknowledges A c ev

theorem Acknowledges.pending {A : Aead} {c : VfastClient} {ev : Event}
    (h : Acknowledges A c ev) : c.ctx.rekeyPending = true := by
  cases ev with
  | udp env data len src => exact h.1
  | tun env buf len => exact h.elim
  | timer env => exact h.elim
  | worker env seen lastRx => exact h.elim

/-- The active key is one the client drew or was given, and so is a staged key. -/
structure KeysIssued (ctx : SecCtx) (issued : List KeyMat) : Prop where
  active : (vfRekeyGetKey ctx, vfRekeyGetKeyid ctx) ∈ issued
  staged : ctx.rekeyPending = true → ctx.nextKey.mat ∈ issued

theorem KeyChange.issued {ack : Prop} {c c' : VfastClient} {issued new : List KeyMat}
    (h : KeyChange ack c c' new) (hk : KeysIssued c.ctx issued)
    (hack : ack → c.ctx.rekeyPending = true) : KeysIssued c'.ctx (issued ++ new) := by
  have hact := List.mem_append_left new hk.active
  have hst := fun hp => List.mem_append_left new (hk.staged hp)
  cases h with
  | same h =>
    rw [ctx_eq h]
    exact ⟨hact, hst⟩
  | count len h =>
    rw [ctx_eq h, ctx_setCtx]
    exact ⟨hact, hst⟩
  | prepare draw now hp h hi =>
    subst hi
    rw [ctx_eq h, ctx_setCtx]
    cases draw with
    | none =>
      refine ⟨hact, fun hpend => ?_⟩
      rw [show (vfRekeyPrepareNext c.ctx none now).1.rekeyPending = c.ctx.rekeyPending from rfl,
        hp] at hpend
      exact nomatch hpend
    | some raw =>
      exact ⟨hact, fun _ => List.mem_append_right issued (List.mem_singleton.mpr rfl)⟩
  | commit ha h =>
    rw [ctx_eq h, ctx_newKey]
    exact ⟨hst (hack ha), fun hp => nomatch hp⟩
  | auth buf sid now h hi =>
    subst hi
    refine ⟨List.mem_append_right issued (List.mem_singleton.mpr rfl), fun hp => ?_⟩
    rw [ctx_eq h, ctx_setCtx] at hp
    exact nomatch hp

/-- **Swaps are acknowledgements** exactly of the events that are no stray REKEY_ACK. -/
theorem swap_acknowledges_iff (c : VfastClient) (ev : Event) :
    ((ev.run A c).1.activePtr ≠ c.activePtr → Acknowledges A c ev) ↔ Solicited A c ev := by
  refine ⟨fun hp ha => hp ?_, fun hs hp => hs ((event_change A c ev).swap hp)⟩
  have hswap : (ev.run A c).1.activePtr = 1 - c.activePtr :=
    congrArg Prod.snd (rekeyAck_swaps A c ev ha)
  rw [hswap]
  generalize c.activePtr = i
  revert i
  decide

/-- **The active key was drawn or given**, in every run without a stray REKEY_ACK; and an
event promotes the staged key only as an acknowledgement of it exactly when it is not a
stray REKEY_ACK. -/
theorem active_key_issued (raw : Block 32) {s : VfastClient × List KeyMat}
    (h : ReachableBy (clientRuns A (some raw)) (fun s ev => Solicited A s.1 ev) s) :
    (vfRekeyGetKey s.1.ctx, vfRekeyGetKeyid s.1.ctx) ∈ s.2 ∧
      ∀ ev, ((ev.run A s.1).1.activePtr ≠ s.1.activePtr → Acknowledges A s.1 ev) ↔
        Solicited A s.1 ev := by
  have hk : KeysIssued s.1.ctx s.2 := by
    refine h.invariant (fun s => KeysIssued s.1.ctx s.2) ?_ ?_
    · rintro _ ⟨now, dst, userName, passWord, statics, workerSeed, rfl⟩
      exact ⟨List.mem_singleton.mpr rfl, fun hp => nomatch hp⟩
    · rintro s ev _ hk hs rfl
      exact (event_change A s.1 ev).issued hk fun ha => (hs ha).pending
  exact ⟨hk.active, swap_acknowledges_iff A s.1⟩

end

/-! ## A client and its datagrams -/

/-- A client whose first key is all sevens. -/
def idleClient : VfastClient :=
  vfastInitClient (some fun _ => 7) 0 ⟨0, 0⟩ [] [] ⟨0x5EED5EED, .init⟩ 0x5EED5EED

theorem idleClient_init :
    (clientRuns markAead (some fun _ => 7)).init (idleClient, [(fun _ => 7, 1)]) :=
  ⟨0, ⟨0, 0⟩, [], [], ⟨0x5EED5EED, .init⟩, 0x5EED5EED, rfl⟩

def idleEnv : ClientEnv := ⟨0, 0, none, true, none, some fun _ => 0⟩

/-- A bare header of type REKEY_ACK; its sequence number switches the mask off. -/
def strayAck : Mem := fun i =>
  if i = 3 then 0x08 else if i = 12 then 0xEF else if i = 13 then 0xBE else if i = 14 then 0xAD
  else if i = 15 then 0xDE else 0

def helloDatagram : Mem := fun i => if i = 3 then MsgType.hello.code else strayAck i

/-- An AUTH_ACK of 84 bytes for session 10 with status 0, key id 1 and the key of all `b`. -/
def authAckDatagram (b : UInt8) : Mem := fun i =>
  if i = 3 then MsgType.authAck.code else if i = 11 then 10 else if i = 47 then 1
  else if 52 ≤ i then b else strayAck i

/-- A REKEY_ACK of 64 bytes for the key `id`: header, nonce, the id and the tag, sealed under the
key of all `b` with the id `kid`. -/
def rekeyAckDatagram (kid b id : UInt8) : Mem := fun i =>
  if i = offKeyId then kid else if i = 47 then id else if 48 ≤ i then b else strayAck i

def envAt (now : Int) (draw : Option (Block 32)) : ClientEnv :=
  { idleEnv with now := now, keyDraw := draw }

/-- The handshake at time `now` from the state `seen`, up to the AUTH_ACK. -/
def handshake (now : Int) (seen : FsmState) : List Event :=
  [.worker (envAt now none) seen now, .udp (envAt now none) helloDatagram 52 ⟨0, 0⟩,
    .worker (envAt now none) .authSend now]

def granted (now : Int) (b : UInt8) : Event := .udp (envAt now none) (authAckDatagram b) 84 ⟨0, 0⟩

/-- A rekey at time `now` that draws the key `id`, of all `b`; it is acknowledged at once under the
key of all `old` before it. -/
def rekey (now : Int) (old b id : UInt8) : List Event :=
  [.timer (envAt now (some fun _ => b)),
    .udp (envAt now none) (rekeyAckDatagram (id - 1) old id) 64 ⟨0, 0⟩]

def afterEvents (A : Aead) (s : VfastClient × List KeyMat) (evs : List Event) :
    VfastClient × List KeyMat :=
  evs.foldl (fun s ev => ((ev.run A s.1).1, s.2 ++ issuedBy A s.1 ev)) s

/-- A session whose first key is all fives, and a rekey to the key of all 21s. -/
def rekeyedOnce : VfastClient × List KeyMat :=
  afterEvents markAead (idleClient, [(fun _ => 7, 1)])
    (handshake 0 .idle ++ granted 0 5 :: rekey 300 5 21 2)

/-- The acknowledged key 2 is in use, and it is one the client drew. -/
theorem acknowledged_key_issued :
    (vfRekeyGetKey rekeyedOnce.1.ctx, vfRekeyGetKeyid rekeyedOnce.1.ctx) ∈ rekeyedOnce.2 ∧
      vfRekeyGetKeyid rekeyedOnce.1.ctx = 2 ∧ vfRekeyGetKey rekeyedOnce.1.ctx 0 = 21 := by
  have hrun : ReachableBy (clientRuns markAead (some fun _ => 7))
      (fun s ev => Solicited markAead s.1 ev) rekeyedOnce := by
    refine (ReachableBy.init idleClient_init).along (fun _ _ _ => rfl)
      ⟨?_, ?_, ?_, ?_, ?_, ?_, trivial⟩
    · exact fun h => h.elim
    · exact fun h => absurd h.2 (by decide)
    · exact fun h => h.elim
    · exact fun h => absurd h.2 (by decide)
    · exact fun h => h.elim
    · exact fun _ => ⟨by decide +kernel, _, 4, Prod.ext rfl (by decide +kernel), by decide,
        by decide +kernel⟩
  exact ⟨(active_key_issued markAead (fun _ => 7) hrun).1, by decide +kernel, by decide +kernel⟩

/-- **A stray REKEY_ACK makes the client encrypt with the zero key**: no rekey is pending,
the header does not even unpack, and the cleared slot becomes the active key. -/
theorem stray_ack_activates_zero_key :
    ∃ s, Reachable (clientRuns markAead (some fun _ => 7)) s ∧
      (vfRekeyGetKey s.1.ctx, vfRekeyGetKeyid s.1.ctx) = (fun _ => 0, 0) ∧
      (vfRekeyGetKey s.1.ctx, vfRekeyGetKeyid s.1.ctx) ∉ s.2 := by
  have hb := rekeyAck_swaps markAead idleClient (.udp idleEnv strayAck 20 ⟨0, 0⟩)
    ⟨by decide, by decide⟩
  refine ⟨_, .step (l := .udp idleEnv strayAck 20 ⟨0, 0⟩) (.init idleClient_init) trivial rfl, ?_⟩
  have hctx := ctx_eq hb
  have hi : issuedBy markAead idleClient (.udp idleEnv strayAck 20 ⟨0, 0⟩) = [] := by
    rw [issuedBy, if_neg]
    exact fun h => absurd h.2.1 (by decide)
  rw [hi, hctx]
  refine ⟨rfl, fun h => ?_⟩
  have hid := congrArg Prod.snd (List.mem_singleton.mp h)
  exact absurd hid (by decide)

end Vfast.ClientKeys
