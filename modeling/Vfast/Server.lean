import Vfast.Wire
import Vfast.Session

/-! The server (`vfast_server.c`, and the reaper of `vfast.c`). A handler gets the
outcomes of the system calls of its event in an `Env`; each may be anything. It
works in place on the task buffer, seen from its base: the header is at 0, the
payload at `hlen`. -/

namespace Vfast.Server

open Bytes Keyed Key Crypto Protocol Ippool Sessions

/-- `vf_io_write` on the UDP socket or on the TUN device; `tunNull` is the write of a
`NULL` payload. -/
inductive Out where
  | udpSend (bytes : List UInt8) (dst : SockAddr)
  | tunWrite (bytes : List UInt8)
  | tunNull
  deriving DecidableEq, Repr

inductive TaskState where
  | done
  | use
  deriving DecidableEq, Repr

structure Stats where
  rxPkts : UInt64
  txPkts : UInt64
  drops : UInt64
  deriving DecidableEq, Repr

def Stats.rx (s : Stats) : Stats := { s with rxPkts := s.rxPkts + 1 }
def Stats.tx (s : Stats) : Stats := { s with txPkts := s.txPkts + 1 }
def Stats.drop (s : Stats) : Stats := { s with drops := s.drops + 1 }

/-- `vfserver` with the session table and the console's `reass_stats`. -/
structure VfastServer where
  masterKey : Block 32
  ipPool : IpPool
  sessions : Store
  statics : Statics
  stats : Stats
  reassStats : Stats

/-- What the world answers during one event: the clocks, the draws of
`vf_ss_generate_sid` and `vf_rekey_init`, the verdict (with the token) of
`vf_user_login`, `/dev/urandom`, and the buffers that `vf_io_task` hands out. -/
structure Env where
  now : Int
  nowMs : UInt64
  rawRand : UInt32
  keyDraw : Option (Block 32)
  login : List UInt8 → List UInt8 → Option (Block 16)
  urandom : Urandom
  task : Nat → Option Mem

def cString (buf : Mem) (off : Nat) : List UInt8 :=
  (buf.read off (bufSize - off)).takeWhile fun b => b ≠ 0

/-! ## Handlers -/

section Handlers

variable (A : Aead) (hmac : List UInt8 → List UInt8 → Block 32)

/-- `vfast_generate_cookie`; the secret is the first half of the master key. -/
def vfastGenerateCookie (src : SockAddr) (masterKey : Block 32) : List UInt8 :=
  let secret := masterKey.toList.take 16
  (hmac secret (le32 src.addr ++ (le16 src.port ++ secret))).toList.take 16

/-- `vf_pack` into the task buffer and, if it succeeds, `vf_io_write`. -/
def VfastServer.packSend (srv : VfastServer) (env : Env) (sec : Option SecCtx) (buf : Mem)
    (plen : Nat) (type : MsgType) (sid : UInt32) (dst : SockAddr) : VfastServer × Option Out :=
  let r := vfPack A srv.statics env.urandom sec buf plen bufSize type sid
  ({ srv with statics := r.1 }, r.2.2.map fun tlen => .udpSend (r.2.1.read 0 tlen) dst)

/-- A handler that ends with its answer: `true` once the answer was submitted. -/
def reply (r : VfastServer × Option Out) : VfastServer × List Out × Bool :=
  (r.1, r.2.toList, r.2.isSome)

/-- `vf_payload_hello_resp_t` with status `VF_S_OK` and `VF_DEFAULT_CAPS`. -/
def helloResp (nowMs : UInt64) (cookie : List UInt8) : List UInt8 :=
  le64 (bswap64 nowMs) ++ (le32 (bswap32 0) ++ (le32 (bswap32 1) ++ cookie))

def vfastHandleHello (srv : VfastServer) (env : Env) (buf : Mem) (plen : Nat) (src : SockAddr) :
    VfastServer × List Out × Bool :=
  if plen < 8 then (srv, [], false)
  else
    let cookie := vfastGenerateCookie hmac src srv.masterKey
    let buf := buf.write hlen (helloResp env.nowMs cookie)
    reply (srv.packSend A env none buf 32 .hello 0 src)

def cookieOk (srv : VfastServer) (buf : Mem) (src : SockAddr) : Bool :=
  buf.read (hlen + 8) 16 = vfastGenerateCookie hmac src srv.masterKey

/-- The window test of `vfast_handle_auth`; both sums are 64-bit. -/
def timestampOk (env : Env) (buf : Mem) : Bool :=
  let clientTs := bswap64 (buf.load64 hlen)
  !(env.nowMs > clientTs + 300000 || env.nowMs < clientTs - 5000)

/-- `vf_payload_auth_resp_t` with status `VF_S_OK` and the fixed keepalive interval. -/
def authResp (vip : UInt32) (token : Block 16) (ctx : SecCtx) : List UInt8 :=
  le32 (bswap32 0) ++ (le32 vip ++ (token.toList ++ (le32 (bswap32 ctx.activeKey.id) ++
    (le32 (bswap32 300) ++ ctx.activeKey.raw.toList))))

/-- The `err:` exit of `vfast_handle_auth`. -/
def authErr (srv : VfastServer) (vip : UInt32) : VfastServer :=
  if vip ≠ 0 then { srv with ipPool := vfIpPoolFree srv.ipPool vip } else srv

/-- The rest of `vfast_handle_auth` once the credentials were accepted. -/
def authAdmit (srv : VfastServer) (env : Env) (buf : Mem) (src : SockAddr) (vip : UInt32)
    (token : Block 16) : VfastServer × List Out × Bool :=
  let sid := vfSsGenerateSid vip env.rawRand
  let srv := { srv with sessions := vfSsUpdate srv.sessions vip sid src env.keyDraw env.now }
  match vfSsLookupBySid srv.sessions sid with
  | none => (authErr srv vip, [], false)
  | some p =>
    let buf := buf.write hlen (authResp vip token (srv.sessions.heap p).secCtx)
    match srv.packSend A env none buf 64 .authAck sid src with
    | (srv, none) => (authErr srv vip, [], false)
    | (srv, some out) => (srv, [out], true)

def vfastHandleAuth (srv : VfastServer) (env : Env) (buf : Mem) (plen : Nat) (src : SockAddr) :
    VfastServer × List Out × Bool :=
  if plen < 152 then (srv, [], false)
  else if !cookieOk hmac srv buf src then (srv, [], false)
  else if !timestampOk env buf then (srv, [], false)
  else
    let alloc := vfIpPoolAlloc srv.ipPool
    let vip := alloc.2
    let srv := { srv with ipPool := alloc.1 }
    if vip = 0 then (authErr srv vip, [], false)
    else
      match env.login (cString buf (hlen + 24)) (cString buf (hlen + 88)) with
      -- the one exit behind the allocation that does not go to `err:`
      | none => (srv, [], false)
      | some token => authAdmit A srv env buf src vip token

def vfastHandleEcho (srv : VfastServer) (env : Env) (s : Option Ptr) (sid : UInt32) (buf : Mem)
    (plen : Nat) (src : SockAddr) : VfastServer × List Out × Bool :=
  if plen < 16 then (srv, [], false)
  else
    match s with
    | none => (srv, [], false)
    | some p =>
      let s := srv.sessions.heap p
      let srv := { srv with
        sessions := vfSsUpdate srv.sessions s.vip s.sid src env.keyDraw env.now }
      reply (srv.packSend A env none buf 16 .keepalive sid src)

def VfastServer.setCtx (srv : VfastServer) (p : Ptr) (ctx : SecCtx) : VfastServer :=
  { srv with sessions := srv.sessions.modify p fun s => { s with secCtx := ctx } }

/-- The checks and the staging of `vfast_handle_rekey_req`; `none` is a stale id. -/
def rekeyStage (ctx : SecCtx) (rKid : UInt32) (rKey : Block 32) (now : Int) : Option SecCtx :=
  if rKid ≤ ctx.activeKey.id then none
  else some { ctx with nextKey := ⟨rKey, rKid, 0, now⟩ }

/-- `vfast_handle_rekey_req`: stage, acknowledge under the old key, commit. -/
def vfastHandleRekeyReq (srv : VfastServer) (env : Env) (p : Ptr) (buf : Mem) (plen : Nat)
    (src : SockAddr) : VfastServer × List Out :=
  if plen < 36 then (srv, [])
  else
    let rKid := bswap32 (buf.load32 hlen)
    let rKey := Block.ofList 32 (buf.read (hlen + 4) 32)
    match rekeyStage (srv.sessions.heap p).secCtx rKid rKey env.now with
    | none => (srv, [])
    | some staged =>
      let buf := buf.write hlen (le32 (bswap32 rKid))
      let (srv, out) :=
        srv.packSend A env (some staged) buf 4 .rekeyAck (srv.sessions.heap p).sid src
      (srv.setCtx p (vfRekeyCommit staged), out.toList)

def vfastHandleRekeyAck (srv : VfastServer) (p : Ptr) : VfastServer :=
  let ctx := (srv.sessions.heap p).secCtx
  if !ctx.rekeyPending then srv else srv.setCtx p (vfRekeyCommit ctx)

/-! ## Dispatch -/

/-- The `switch` of `server_on_udp` over the unmasked and decrypted buffer. The
session is never missing in the branches that use it: `vf_unpack` without a
context only accepts the handshake types. -/
def dispatch (srv : VfastServer) (env : Env) (s : Option Ptr) (sid : UInt32) (buf : Mem)
    (plen : Nat) (src : SockAddr) : VfastServer × List Out × Bool :=
  match MsgType.ofCode (buf offMsgType) with
  | some .data => (srv, [.tunWrite (buf.read hlen plen)], false)
  | some .hello => vfastHandleHello A hmac srv env buf plen src
  | some .authReq => vfastHandleAuth A hmac srv env buf plen src
  | some .keepalive => vfastHandleEcho A srv env s sid buf plen src
  | some .dpdResponse =>
    let sid := bswap32 (buf.load32 offSessionId)
    ({ srv with sessions := vfSsUpdateBySid srv.sessions sid src env.now }, [], false)
  | some .rekeyAck =>
    match s with
    | none => (srv, [], false)
    | some p => (vfastHandleRekeyAck srv p, [], false)
  | some .rekeyReq =>
    match s with
    | none => (srv, [], false)
    | some p =>
      let (srv, outs) := vfastHandleRekeyReq A srv env p buf plen src
      (srv, outs, false)
  | _ => (srv, [], false)

def VfastServer.dropped (srv : VfastServer) : VfastServer :=
  { srv with stats := srv.stats.drop, reassStats := srv.reassStats.drop }

/-- The session lookup of `server_on_udp`; an unknown id is counted as a drop, but
processing goes on. -/
def findSession (srv : VfastServer) (sid : UInt32) : VfastServer × Option Ptr :=
  if sid = 0 then (srv, none)
  else
    match vfSsLookupBySid srv.sessions sid with
    | none => ({ srv with stats := srv.stats.drop }, none)
    | some p => (srv, some p)

def VfastServer.countBytes (srv : VfastServer) (s : Option Ptr) (len : Nat) : VfastServer :=
  match s with
  | none => srv
  | some p => srv.setCtx p ((srv.sessions.heap p).secCtx.countBytes len)

def sessionCtx (srv : VfastServer) (s : Option Ptr) : Option SecCtx :=
  s.map fun p => (srv.sessions.heap p).secCtx

def serverOnUdp (srv : VfastServer) (env : Env) (data : Mem) (len : Nat) (src : SockAddr) :
    VfastServer × List Out × TaskState :=
  if len < hlen then (srv.dropped, [], .done)
  else
    let buf := vfRemoveHeaderObfs data len
    let sid := bswap32 (buf.load32 offSessionId)
    let (srv, s) := findSession srv sid
    match vfUnpack A (sessionCtx srv s) buf len with
    | (_, none) => (srv.dropped, [], .done)
    | (buf, some plen) =>
      let srv := srv.countBytes s len
      let (srv, outs, isuse) := dispatch A hmac srv env s sid buf plen src
      ({ srv with stats := srv.stats.rx, reassStats := srv.reassStats.rx }, outs,
        if isuse then .use else .done)

/-- `server_on_tun`; the IP packet is at `hlen` of the task buffer. -/
def serverOnTun (srv : VfastServer) (env : Env) (buf : Mem) (len : Nat) :
    VfastServer × List Out × TaskState :=
  if len < 20 ∨ len > bufSize - hlen then (srv.dropped, [], .done)
  else
    let destVip := buf.load32 (hlen + 16)
    match vfSsLookupByIp srv.sessions destVip with
    | none => (srv.dropped, [], .done)
    | some p =>
      let s := srv.sessions.heap p
      match srv.packSend A env (some s.secCtx) buf len .data s.sid s.remoteAddr with
      | (srv, none) => (srv.dropped, [], .done)
      | (srv, some out) =>
        ({ srv with stats := srv.stats.tx, reassStats := srv.reassStats.tx }, [out], .use)

/-! ## Maintenance -/

/-- One node of `vfast_server_maintenance`; `borrowed` counts the calls of `vf_io_task`. -/
def maintainNode (env : Env) (acc : VfastServer × List Out × Nat) (node : ExpiredNode) :
    VfastServer × List Out × Nat :=
  let (srv, outs, borrowed) := acc
  if node.isDead then
    ({ srv with
        sessions := vfSsDelete srv.sessions node.vip
        ipPool := vfIpPoolFree srv.ipPool node.vip }, outs, borrowed)
  else
    match env.task borrowed with
    | none => (srv, outs, borrowed + 1)
    | some buf =>
      match vfSsLookupBySid srv.sessions node.sid with
      | none => (srv, outs, borrowed + 1)
      | some p =>
        let (srv, out) := srv.packSend A env (some (srv.sessions.heap p).secCtx) buf 0 .dpdRequest
          node.sid node.remoteAddr
        (srv, outs ++ out.toList, borrowed + 1)

/-- `vfast_server_maintenance` with its limits: probe after 15 s, dead after 30 s,
at most 64 nodes a tick. -/
def vfastServerMaintenance (srv : VfastServer) (env : Env) : VfastServer × List Out :=
  let nodes := vfSsGetExpired srv.sessions 64 15 30 env.now
  let r := nodes.foldl (maintainNode A env) (srv, [], 0)
  (r.1, r.2.1)

end Handlers

end Vfast.Server
