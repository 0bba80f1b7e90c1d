import Vfast.Server

/-! The client (`vfast_client.c`) and its handshake state machine (`fsm.c`). The
security context is double-buffered: `active_ptr` selects one of two contexts, and a
committed rekey is written to the other one before the pointer is swapped. -/

namespace Vfast.Client

open Bytes Key Crypto Protocol Sessions Server

/-- `vfast_state_t`. -/
inductive FsmState where
  | idle
  | helloWait
  | authSend
  | authWait
  | connected
  | reconnecting
  deriving DecidableEq, Repr

/-- `vfast_fsm_t`; `sec` is the index of the context it points to. -/
structure Fsm where
  state : FsmState
  sid : UInt32
  lastRxTime : Int
  lastTxHello : Int
  lastTxAuth : Int
  lastTxKeep : Int
  dstAddr : SockAddr
  sec : Option (Fin 2)
  nextSeq : UInt32
  userName : List UInt8
  passWord : List UInt8
  cookie : List UInt8
  serverTs : UInt64

structure RekeyMgr where
  lastSent : Int
  retryInterval : Int

/-- `vfclient`, the rekey manager, the statics of the I/O thread and the padding seed of
the state machine's thread. -/
structure VfastClient where
  secCtxs : Fin 2 → SecCtx
  activePtr : Fin 2
  fsm : Fsm
  vip : UInt32
  rekeyMgr : RekeyMgr
  statics : Statics
  workerSeed : UInt32

/-- The clocks, the draw of `vf_rekey_prepare_next`, whether `vf_tun_set_ip` succeeds,
`/dev/urandom` and the buffer of `vf_io_task` during one event. -/
structure ClientEnv where
  now : Int
  nowMs : UInt64
  keyDraw : Option (Block 32)
  tunOk : Bool
  urandom : Urandom
  task : Option Mem

/-- `*active_ptr`. -/
def VfastClient.ctx (c : VfastClient) : SecCtx := c.secCtxs c.activePtr

/-- A write through `active_ptr`. -/
def VfastClient.setCtx (c : VfastClient) (ctx : SecCtx) : VfastClient :=
  { c with secCtxs := fun i => if i = c.activePtr then ctx else c.secCtxs i }

def VfastClient.setState (c : VfastClient) (state : FsmState) : VfastClient :=
  { c with fsm := { c.fsm with state := state } }

/-- `vfast_init_secctx` and `vf_fsm_init`. -/
def vfastInitClient (draw : Option (Block 32)) (now : Int) (dst : SockAddr)
    (userName passWord : List UInt8) (statics : Statics) (workerSeed : UInt32) : VfastClient where
  secCtxs i := if i = 0 then vfRekeyInit 0 draw now else .zero
  activePtr := 0
  fsm := ⟨.idle, 0, now, 0, 0, 0, dst, none, 0, userName, passWord, List.replicate 16 0, 0⟩
  vip := 0
  rekeyMgr := ⟨0, 2⟩
  statics := statics
  workerSeed := workerSeed

def vfFsmUpdate (c : VfastClient) (now : Int) : VfastClient :=
  { c with fsm := { c.fsm with lastRxTime := now } }

def vfFsmIsConnected (c : VfastClient) : Bool := c.fsm.state == .connected

section

variable (A : Aead)

/-! ## The state machine's worker -/

/-- `strncpy` of 63 bytes into a zeroed field of 64. -/
def fieldBytes (s : List UInt8) : List UInt8 :=
  let s := (s.takeWhile fun b => b ≠ 0).take 63
  s ++ List.replicate (64 - s.length) 0

/-- The payload of a control packet, `none` for an unsupported type. The sequence
number is consumed by a keepalive only. -/
def fsmPayload (fsm : Fsm) (env : ClientEnv) : MsgType → Option (List UInt8 × Fsm)
  | .hello => some (le64 (bswap64 (UInt64.ofInt env.now)), fsm)
  | .authReq => some (le64 (bswap64 fsm.serverTs) ++ (fsm.cookie ++
      (fieldBytes fsm.userName ++ fieldBytes fsm.passWord)), fsm)
  | .keepalive => some (le64 (bswap64 (UInt64.ofNat fsm.nextSeq.toNat)) ++ le64 (bswap64 env.nowMs),
      { fsm with nextSeq := fsm.nextSeq + 1 })
  | _ => none

/-- `fsm_send_pkt` into a wiped task buffer. -/
def fsmSendPkt (c : VfastClient) (env : ClientEnv) (type : MsgType) : VfastClient × List Out :=
  match env.task with
  | none => (c, [])
  | some buf =>
    match fsmPayload c.fsm env type with
    | none => (c, [])
    | some (payload, fsm) =>
      let c := { c with fsm := fsm }
      let buf := (buf.write 0 (List.replicate bufSize 0)).write hlen payload
      let r := vfPack A ⟨c.workerSeed, c.statics.nonceGen⟩ env.urandom none buf payload.length
        bufSize type c.fsm.sid
      ({ c with workerSeed := r.1.localSeed },
        (r.2.2.map fun tlen => Out.udpSend (r.2.1.read 0 tlen) c.fsm.dstAddr).toList)

/-- One iteration of `fsm_worker`, which loaded `seen` and `lastRx` before it acts. -/
def fsmWorker (c : VfastClient) (env : ClientEnv) (seen : FsmState) (lastRx : Int) :
    VfastClient × List Out :=
  match seen with
  | .idle | .reconnecting =>
    let (c, outs) := fsmSendPkt A c env .hello
    ({ c with fsm := { c.fsm with lastTxHello := env.now, state := .helloWait } }, outs)
  | .helloWait =>
    if env.now - c.fsm.lastTxHello ≥ 5 then (c.setState .idle, []) else (c, [])
  | .authSend =>
    let (c, outs) := fsmSendPkt A c env .authReq
    ({ c with fsm := { c.fsm with lastTxAuth := env.now, state := .authWait } }, outs)
  | .authWait =>
    if env.now - c.fsm.lastTxAuth ≥ 5 then (c.setState .idle, []) else (c, [])
  | .connected =>
    let (c, outs) :=
      if env.now - c.fsm.lastTxKeep ≥ 10 then
        let (c, outs) := fsmSendPkt A c env .keepalive
        ({ c with fsm := { c.fsm with lastTxKeep := env.now } }, outs)
      else (c, [])
    if env.now - lastRx ≥ 30 then (c.setState .reconnecting, outs) else (c, outs)

/-! ## Packets from the server -/

/-- `client_handle_data`; the payload pointer is not checked. -/
def clientHandleData (c : VfastClient) (buf : Mem) (payload : Option Nat) : List Out :=
  if !vfFsmIsConnected c then []
  else
    match payload with
    | none => [.tunNull]
    | some plen => [.tunWrite (buf.read hlen plen)]

/-- `client_handle_hello` after its load of the state. -/
def helloAfterLoad (c : VfastClient) (seen : FsmState) (buf : Mem) (payload : Option Nat) :
    VfastClient :=
  if seen ≠ .helloWait then c
  else
    match payload with
    | none => c
    | some plen =>
      if plen < 32 then c
      else if bswap32 (buf.load32 (hlen + 8)) ≠ 0 then c.setState .idle
      else
        { c with fsm := { c.fsm with
            cookie := buf.read (hlen + 16) 16
            serverTs := bswap64 (buf.load64 hlen)
            state := .authSend } }

def clientHandleHello (c : VfastClient) (buf : Mem) (payload : Option Nat) : VfastClient :=
  helloAfterLoad c c.fsm.state buf payload

def authCtx (ctx : SecCtx) (buf : Mem) (sid : UInt32) (now : Int) : SecCtx :=
  { ctx with
    activeKey :=
      ⟨Block.ofList 32 (buf.read (hlen + 32) 32), bswap32 (buf.load32 (hlen + 24)), 0, now⟩
    sid := sid
    rekeyPending := false }

/-- `client_handle_auth` after its load of the state; the flag is `true` when it returns 0. -/
def authAfterLoad (c : VfastClient) (seen : FsmState) (env : ClientEnv) (sid : UInt32) (buf : Mem)
    (payload : Option Nat) : VfastClient × Bool :=
  if seen ≠ .authWait then (c, false)
  else
    match payload with
    | none => (c, false)
    | some plen =>
      if plen < 64 then (c, false)
      else if bswap32 (buf.load32 hlen) ≠ 0 then (c.setState .idle, false)
      else
        let c := c.setCtx (authCtx c.ctx buf sid env.now)
        let c := { c with
          vip := buf.load32 (hlen + 4)
          fsm := { c.fsm with sid := sid, sec := some c.activePtr } }
        if env.tunOk then (c.setState .connected, true) else (c, false)

def clientHandleAuth (c : VfastClient) (env : ClientEnv) (sid : UInt32) (buf : Mem)
    (payload : Option Nat) : VfastClient × Bool :=
  authAfterLoad c c.fsm.state env sid buf payload

/-- `vfast_handle_new_key`: commit in the standby buffer, swap, clear the old flag. -/
def vfastHandleNewKey (c : VfastClient) : VfastClient :=
  let standby := 1 - c.activePtr
  { c with
    secCtxs := fun i =>
      if i = standby then vfRekeyCommit c.ctx else { c.ctx with rekeyPending := false }
    activePtr := standby
    fsm := { c.fsm with sec := some standby } }

/-- `client_handle_dpd`: the answer is packed over whatever the buffer holds. -/
def clientHandleDpd (c : VfastClient) (env : ClientEnv) (buf : Mem) (src : SockAddr) :
    VfastClient × Option Out :=
  let r := vfPack A c.statics env.urandom (some c.ctx) buf 16 bufSize .dpdResponse c.fsm.sid
  ({ c with statics := r.1 }, r.2.2.map fun tlen => .udpSend (r.2.1.read 0 tlen) src)

/-- `client_on_udp`; every branch runs whether or not `vf_unpack` returned `NULL`. -/
def clientOnUdp (c : VfastClient) (env : ClientEnv) (data : Mem) (len : Nat) (src : SockAddr) :
    VfastClient × List Out × TaskState :=
  if len < hlen then (c, [], .done)
  else
    let buf := vfRemoveHeaderObfs data len
    let sid := bswap32 (buf.load32 offSessionId)
    let sec := if buf offMsgType = MsgType.hello.code then none else some c.ctx
    let (buf, payload) := vfUnpack A sec buf len
    let c := vfFsmUpdate c env.now
    match MsgType.ofCode (buf offMsgType) with
    | some .data => (c, clientHandleData c buf payload, .done)
    | some .hello => (clientHandleHello c buf payload, [], .done)
    | some .dpdRequest =>
      let (c, out) := clientHandleDpd A c env buf src
      (c, out.toList, if out.isSome then .use else .done)
    | some .rekeyAck => (vfastHandleNewKey c, [], .done)
    | some .authAck => ((clientHandleAuth c env sid buf payload).1, [], .done)
    | _ => (c, [], .done)

/-! ## Packets from the TUN device -/

def clientOnTun (c : VfastClient) (env : ClientEnv) (buf : Mem) (len : Nat) :
    VfastClient × List Out × TaskState :=
  if !vfFsmIsConnected c then (c, [], .done)
  else
    let c := c.setCtx (c.ctx.countBytes len)
    let r := vfPack A c.statics env.urandom (some c.ctx) buf len bufSize .data c.fsm.sid
    let c := { c with statics := r.1 }
    match r.2.2 with
    | none => (c, [], .done)
    | some tlen => (c, [.udpSend (r.2.1.read 0 tlen) c.fsm.dstAddr], .use)

/-! ## The rekey timer -/

def rekeyPayload (k : VKey) : List UInt8 := le32 (bswap32 k.id) ++ k.raw.toList

/-- The sending half of `vfast_rekey_timer_handler`. -/
def rekeySend (c : VfastClient) (env : ClientEnv) (retry : Bool) : VfastClient × List Out :=
  match env.task with
  | none => (c, [])
  | some buf =>
    let buf := buf.write hlen (rekeyPayload c.ctx.nextKey)
    let r := vfPack A c.statics env.urandom (some c.ctx) buf 36 bufSize .rekeyReq c.fsm.sid
    let interval := c.rekeyMgr.retryInterval
    ({ c with
        statics := r.1
        rekeyMgr := ⟨env.now, if retry && interval < 32 then interval * 2 else interval⟩ },
      (r.2.2.map fun tlen => Out.udpSend (r.2.1.read 0 tlen) c.fsm.dstAddr).toList)

def shouldInit (ctx : SecCtx) (now : Int) : Bool :=
  !ctx.rekeyPending && (now - ctx.activeKey.createdAt ≥ rekeyTimeoutSec ||
    ctx.activeKey.bytesProcessed ≥ rekeyDataThreshold)

/-- The timer's test is `vf_rekey_needed`, which it does not call. -/
theorem shouldInit_eq_needed (ctx : SecCtx) (now : Int) :
    shouldInit ctx now = vfRekeyNeeded ctx now := by
  unfold shouldInit vfRekeyNeeded
  cases ctx.rekeyPending with
  | true => rfl
  | false =>
    by_cases h : now - ctx.activeKey.createdAt ≥ rekeyTimeoutSec
    · simp [h]
    · simp [h]

/-- No rekey starts while one is pending. -/
theorem shouldInit_pending {ctx : SecCtx} {now : Int} (h : shouldInit ctx now = true) :
    ctx.rekeyPending = false := by
  rw [shouldInit_eq_needed, vfRekeyNeeded] at h
  cases hp : ctx.rekeyPending with
  | false => rfl
  | true => simp [hp] at h

def shouldRetry (ctx : SecCtx) (mgr : RekeyMgr) (now : Int) : Bool :=
  ctx.rekeyPending && now - mgr.lastSent ≥ mgr.retryInterval

def vfastRekeyTimerHandler (c : VfastClient) (env : ClientEnv) : VfastClient × List Out :=
  if !vfFsmIsConnected c then (c, [])
  else if shouldInit c.ctx env.now then
    match vfRekeyPrepareNext c.ctx env.keyDraw env.now with
    | (ctx, false) => (c.setCtx ctx, [])
    | (ctx, true) =>
      rekeySend A { c.setCtx ctx with rekeyMgr := { c.rekeyMgr with retryInterval := 2 } } env false
  else if shouldRetry c.ctx c.rekeyMgr env.now then rekeySend A c env true
  else (c, [])

end

end Vfast.Client
