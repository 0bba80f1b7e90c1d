import Vfast.ClientKeys
import Vfast.Ingress

/-! What `vfast_handle_auth` asks of a request before it admits a client: the cookie and the
time window, which the answer of an honest client to a HELLO response is to pass, and the
credentials, two C strings in fields of 64 bytes. -/

namespace Vfast.Admission

open Bytes Crypto Protocol Sessions Server Client Wire RoundTrip Ingress

/-! ## The time window -/

/-- The request is at most five seconds ahead of the clock and at most five minutes old. -/
def InWindow (t now : UInt64) : Prop :=
  (t.toNat : Int) - 5000 ≤ now.toNat ∧ now.toNat ≤ t.toNat + 300000

def Bounded (t : UInt64) : Prop := 5000 ≤ t.toNat ∧ t.toNat + 300000 < 2 ^ 64

/-- The test in 64-bit arithmetic: where an end of the window wraps, nothing passes. -/
theorem timestampOk_iff (env : Env) (buf : Mem) :
    timestampOk env buf = true ↔
      InWindow (bswap64 (buf.load64 hlen)) env.nowMs ∧ Bounded (bswap64 (buf.load64 hlen)) := by
  unfold timestampOk InWindow Bounded
  generalize bswap64 (buf.load64 hlen) = t
  have ht := t.toNat_lt
  have hn := env.nowMs.toNat_lt
  simp only [Bool.not_eq_true', Bool.or_eq_false_iff, decide_eq_false_iff_not, gt_iff_lt,
    UInt64.lt_iff_toNat_lt, UInt64.toNat_add, UInt64.toNat_sub, UInt64.reduceToNat]
  omega

/-- **Requests outside the window are rejected.** -/
def RejectsOutside (A : Aead) (hmac : List UInt8 → List UInt8 → Block 32) : Prop :=
  ∀ (srv : VfastServer) (env : Env) (buf : Mem) (plen : Nat) (src : SockAddr),
    ¬ InWindow (bswap64 (buf.load64 hlen)) env.nowMs →
    vfastHandleAuth A hmac srv env buf plen src = (srv, [], false)

section

variable {A : Aead} {hmac : List UInt8 → List UInt8 → Block 32}

theorem rejects_outside : RejectsOutside A hmac := by
  intro srv env buf plen src h
  have hts : timestampOk env buf = false := by
    simpa using mt (fun ht => ((timestampOk_iff env buf).mp ht).1) h
  unfold vfastHandleAuth
  split
  · rfl
  split
  · rfl
  simp [hts]

/-! ## Honest requests -/

theorem helloResp_fields {m : Mem} {nowMs : UInt64} {cookie : List UInt8} (hc : cookie.length = 16)
    (h : m.read hlen 32 = helloResp nowMs cookie) :
    bswap64 (m.load64 hlen) = nowMs ∧ bswap32 (m.load32 (hlen + 8)) = 0 ∧
      m.read (hlen + 16) 16 = cookie := by
  have h0 := read_left h
  have h8 := read_right h
  have hst := read_left h8
  have h16 := read_right (read_right h8)
  simp only [length_le64, length_le32, hc, Nat.add_assoc, Nat.reduceAdd] at h0 hst h16
  refine ⟨?_, ?_, h16⟩
  · rw [load64_of_read _ _ _ h0, bswap64_bswap64]
  · rw [load32_of_read _ _ _ hst, bswap32_bswap32]

theorem length_cookie (src : SockAddr) (key : Block 32) :
    (vfastGenerateCookie hmac src key).length = 16 := by
  simp [vfastGenerateCookie]

theorem hello_learned {srv : VfastServer} {env : Env} {req data : Mem} {plen : Nat}
    {src : SockAddr} {resp : List UInt8} {c : VfastClient} (cenv : ClientEnv) (peer : SockAddr)
    (h : Out.udpSend resp src ∈ (vfastHandleHello A hmac srv env req plen src).2.1)
    (hc : c.fsm.state = .helloWait) (hd : data.read 0 resp.length = resp) :
    (clientOnUdp A c cenv data resp.length peer).1.fsm.cookie =
        vfastGenerateCookie hmac src srv.masterKey ∧
      (clientOnUdp A c cenv data resp.length peer).1.fsm.serverTs = env.nowMs := by
  unfold vfastHandleHello at h
  split at h
  · cases h
  simp only [reply, VfastServer.packSend, Option.mem_toList, Option.map_eq_some_iff] at h
  obtain ⟨tlen, hp, he⟩ := h
  cases he
  obtain ⟨hlen', hr⟩ := received_of_read hd
  rw [hlen']
  obtain ⟨hl, hh, -, hbody⟩ := delivered_plain (by decide) hp hr none
  have hty : vfRemoveHeaderObfs data tlen offMsgType = MsgType.hello.code := hh.msgType
  have hun : ClientKeys.unpacked A c data tlen =
      (vfRemoveHeaderObfs data tlen, some (32 + padLen srv.statics.localSeed 32 32)) :=
    (delivered_plain (by decide) hp hr _).2.2.1
  have hread : (vfRemoveHeaderObfs data tlen).read hlen 32 =
      helloResp env.nowMs (vfastGenerateCookie hmac src srv.masterKey) := by
    rw [hbody]
    exact read_write_len _ _ _ _ (by simp [helloResp, length_cookie])
  obtain ⟨hts, hst, hck⟩ := helloResp_fields (length_cookie _ _) hread
  rw [ClientKeys.clientOnUdp_eq A hl, hty, hun, MsgType.ofCode_code]
  have hlong : ¬ 32 + padLen srv.statics.localSeed 32 32 < 32 := by omega
  simp [clientHandleHello, helloAfterLoad, vfFsmUpdate, hc, hlong, hst, hts, hck]

theorem authReq_fields {m : Mem} {ts : UInt64} {cookie rest : List UInt8} (hc : cookie.length = 16)
    {n : Nat} (h : m.read hlen n = le64 (bswap64 ts) ++ (cookie ++ rest)) :
    bswap64 (m.load64 hlen) = ts ∧ m.read (hlen + 8) 16 = cookie := by
  have h0 := read_left h
  have h8 := read_left (read_right h)
  simp only [length_le64, hc] at h0 h8
  exact ⟨by rw [load64_of_read _ _ _ h0, bswap64_bswap64], h8⟩

theorem length_fieldBytes (s : List UInt8) : (fieldBytes s).length = 64 := by
  simp [fieldBytes]

/-- The server that unpacks an AUTH_REQ finds the client's timestamp and cookie. -/
theorem authReq_delivered {c : VfastClient} {cenv : ClientEnv} {dst : SockAddr}
    {bytes : List UInt8} {data : Mem} (hc : c.fsm.cookie.length = 16)
    (h : Out.udpSend bytes dst ∈ (fsmSendPkt A c cenv .authReq).2)
    (hd : data.read 0 bytes.length = bytes) (srv : VfastServer) :
    ∃ buf plen, unpackFor A srv data bytes.length = (buf, some plen) ∧ 152 ≤ plen ∧
      buf offMsgType = MsgType.authReq.code ∧ bswap64 (buf.load64 hlen) = c.fsm.serverTs ∧
      buf.read (hlen + 8) 16 = c.fsm.cookie := by
  unfold fsmSendPkt at h
  cases ht : cenv.task with
  | none => simp [ht] at h
  | some task =>
    simp only [ht, fsmPayload, Option.mem_toList, Option.map_eq_some_iff] at h
    obtain ⟨tlen, hp, he⟩ := h
    cases he
    obtain ⟨hlen', hr⟩ := received_of_read hd
    rw [hlen']
    obtain ⟨hl, hh, hun, hbody⟩ := delivered_plain (by decide) hp hr
      (sessionCtx srv (sessionFor srv data tlen))
    rw [read_write] at hbody
    obtain ⟨hts, hck⟩ := authReq_fields hc hbody
    refine ⟨_, _, hun, ?_, hh.msgType, hts, hck⟩
    simp [hc, length_fieldBytes]

/-- The datagram is unpacked as an AUTH_REQ that passes the two checks of
`vfast_handle_auth`. -/
def PassesChecks (A : Aead) (hmac : List UInt8 → List UInt8 → Block 32) (srv : VfastServer)
    (env : Env) (data : Mem) (len : Nat) (src : SockAddr) : Prop :=
  ∃ buf plen, unpackFor A srv data len = (buf, some plen) ∧ 152 ≤ plen ∧
    buf offMsgType = MsgType.authReq.code ∧ cookieOk hmac srv buf src = true ∧
    timestampOk env buf = true

/-- An honest handshake up to the AUTH_REQ: the server answers a HELLO, a copy of the
response reaches a client that waits for it, and the client, which may have done other things
since, sends its request with the cookie and the timestamp it learned. -/
structure Exchange (A : Aead) (hmac : List UInt8 → List UInt8 → Block 32) where
  srv : VfastServer
  env : Env
  src : SockAddr
  hello : Mem
  helloLen : Nat
  resp : List UInt8
  answered : Out.udpSend resp src ∈ (vfastHandleHello A hmac srv env hello helloLen src).2.1
  client : VfastClient
  clientEnv : ClientEnv
  peer : SockAddr
  received : Mem
  copied : received.read 0 resp.length = resp
  waiting : client.fsm.state = .helloWait
  sender : VfastClient
  senderEnv : ClientEnv
  cookie : sender.fsm.cookie =
    (clientOnUdp A client clientEnv received resp.length peer).1.fsm.cookie
  serverTs : sender.fsm.serverTs =
    (clientOnUdp A client clientEnv received resp.length peer).1.fsm.serverTs
  dst : SockAddr
  request : List UInt8
  sent : Out.udpSend request dst ∈ (fsmSendPkt A sender senderEnv .authReq).2

/-- The request of an exchange at the same server, `delay` milliseconds after the response. -/
theorem Exchange.passes_iff (x : Exchange A hmac) {srv : VfastServer} {env : Env} {data : Mem}
    {delay : Nat} (hkey : srv.masterKey = x.srv.masterKey) (hdelay : delay ≤ 300000)
    (hnow : env.nowMs = x.env.nowMs + UInt64.ofNat delay)
    (hdata : data.read 0 x.request.length = x.request) :
    PassesChecks A hmac srv env data x.request.length x.src ↔ Bounded x.env.nowMs := by
  obtain ⟨hck, hts⟩ := hello_learned x.clientEnv x.peer x.answered x.waiting x.copied
  rw [← x.cookie] at hck
  rw [← x.serverTs] at hts
  have hlen16 : x.sender.fsm.cookie.length = 16 := by rw [hck, length_cookie]
  obtain ⟨buf, plen, hun, hplen, hty, hbts, hbck⟩ := authReq_delivered hlen16 x.sent hdata srv
  rw [hts] at hbts
  have hcookie : cookieOk hmac srv buf x.src = true := by
    simp [cookieOk, hbck, hck, hkey]
  have hwindow : timestampOk env buf = true ↔ Bounded x.env.nowMs := by
    rw [timestampOk_iff, hbts, hnow]
    -- in a bounded window the clock has not wrapped since the response
    have ht := x.env.nowMs.toNat_lt
    simp only [InWindow, Bounded, UInt64.toNat_add, UInt64.toNat_ofNat']
    omega
  rw [← hwindow]
  constructor
  · rintro ⟨buf', plen', hun', -, -, -, ht⟩
    rw [hun] at hun'
    cases hun'
    exact ht
  · intro ht
    exact ⟨buf, plen, hun, hplen, hty, hcookie, ht⟩

end

section

variable (A : Aead) (hmac : List UInt8 → List UInt8 → Block 32)

theorem hello_answered (srv : VfastServer) (env : Env) (src : SockAddr) (buf : Mem) :
    ∃ resp, Out.udpSend resp src ∈ (vfastHandleHello A hmac srv env buf 8 src).2.1 := by
  obtain ⟨tlen, hp⟩ := ServerInv.vfPack_small A srv.statics env.urandom none
    (buf.write hlen (helloResp env.nowMs (vfastGenerateCookie hmac src srv.masterKey)))
    32 .hello 0 (by decide)
  simp [vfastHandleHello, reply, VfastServer.packSend, hp]

theorem authReq_sent (c : VfastClient) (cenv : ClientEnv) {task : Mem} (ht : cenv.task = some task)
    (hc : c.fsm.cookie.length = 16) :
    ∃ bytes, Out.udpSend bytes c.fsm.dstAddr ∈ (fsmSendPkt A c cenv .authReq).2 := by
  obtain ⟨payload, hpay, hsize⟩ : ∃ payload,
      fsmPayload c.fsm cenv .authReq = some (payload, c.fsm) ∧ payload.length ≤ 1024 :=
    ⟨_, rfl, by simp [hc, length_fieldBytes]⟩
  obtain ⟨tlen, hp⟩ := ServerInv.vfPack_small A ⟨c.workerSeed, c.statics.nonceGen⟩ cenv.urandom none
    ((task.write 0 (List.replicate bufSize 0)).write hlen payload) payload.length .authReq c.fsm.sid
    hsize
  simp [fsmSendPkt, ht, hpay, hp]

/-- Every server has honest exchanges with every address at any time. -/
theorem exchange_exists (srv : VfastServer) (env : Env) (src : SockAddr) :
    ∃ x : Exchange A hmac, x.srv = srv ∧ x.env = env ∧ x.src = src := by
  obtain ⟨resp, hresp⟩ := hello_answered A hmac srv env src fun _ => 0
  let c := (vfastInitClient none 0 ⟨0, 0⟩ [] [] srv.statics 0).setState .helloWait
  let cenv : ClientEnv := ⟨0, 0, none, true, none, some fun _ => 0⟩
  let copy := Mem.write (fun _ => 0) 0 resp
  have hcopy : copy.read 0 resp.length = resp := read_write _ _ _
  let c' := (clientOnUdp A c cenv copy resp.length ⟨0, 0⟩).1
  have hc : c'.fsm.cookie.length = 16 := by
    rw [(hello_learned cenv ⟨0, 0⟩ hresp (c := c) rfl hcopy).1, length_cookie]
  obtain ⟨bytes, hbytes⟩ := authReq_sent A c' cenv rfl hc
  exact ⟨⟨srv, env, src, _, 8, resp, hresp, c, cenv, ⟨0, 0⟩, copy, hcopy, rfl, c', cenv, rfl, rfl,
    _, bytes, hbytes⟩, rfl, rfl, rfl⟩

/-- **Honest handshakes pass the checks exactly when both ends of the window around the
server's clock are 64-bit times**; requests outside the window are always rejected. -/
theorem honest_request_passes_iff (x : Exchange A hmac) {srv : VfastServer} {env : Env} {data : Mem}
    {delay : Nat} (hkey : srv.masterKey = x.srv.masterKey) (hdelay : delay ≤ 300000)
    (hnow : env.nowMs = x.env.nowMs + UInt64.ofNat delay)
    (hdata : data.read 0 x.request.length = x.request) :
    PassesChecks A hmac srv env data x.request.length x.src ∧ RejectsOutside A hmac ↔
      Bounded x.env.nowMs := by
  rw [x.passes_iff hkey hdelay hnow hdata]
  exact and_iff_left rejects_outside

end

def clockEnv (nowMs : UInt64) : Env := ⟨0, nowMs, 0, none, fun _ _ => none, none, fun _ => none⟩

/-- Five seconds after the clock started a request may take five minutes. -/
theorem slow_request_passes :
    ∃ x : Exchange markAead Addresses.zeroHmac, x.env.nowMs = 5000 ∧
      PassesChecks markAead Addresses.zeroHmac x.srv (clockEnv 305000)
        (Mem.write (fun _ => 0) 0 x.request) x.request.length x.src := by
  obtain ⟨x, -, hx, -⟩ := exchange_exists markAead Addresses.zeroHmac
    (Addresses.startedServer 0x0000000A) (clockEnv 5000) ⟨0, 0⟩
  have h5000 : x.env.nowMs = 5000 := by rw [hx]; rfl
  refine ⟨x, h5000, ((honest_request_passes_iff markAead Addresses.zeroHmac x rfl
    (Nat.le_refl 300000) (by rw [h5000]; rfl) (read_write _ _ _)).mpr ?_).1⟩
  rw [h5000]
  unfold Bounded
  decide

/-- **A server that has just been started turns honest clients away.** -/
theorem early_request_rejected :
    ∃ x : Exchange markAead Addresses.zeroHmac, x.env.nowMs = 4000 ∧
      ¬ PassesChecks markAead Addresses.zeroHmac x.srv (clockEnv 4050)
        (Mem.write (fun _ => 0) 0 x.request) x.request.length x.src := by
  obtain ⟨x, -, hx, -⟩ := exchange_exists markAead Addresses.zeroHmac
    (Addresses.startedServer 0x0000000A) (clockEnv 4000) ⟨0, 0⟩
  have h4000 : x.env.nowMs = 4000 := by rw [hx]; rfl
  refine ⟨x, h4000, ?_⟩
  rw [x.passes_iff rfl (show 50 ≤ 300000 by decide) (by rw [h4000]; rfl) (read_write _ _ _), h4000]
  unfold Bounded
  decide

/-! ## Credentials -/

theorem cString_terminated {buf : Mem} {off : Nat} (ho : off + 64 ≤ bufSize)
    (h : 0 ∈ buf.read off 64) :
    cString buf off = (buf.read off 64).takeWhile fun b => b ≠ 0 := by
  obtain ⟨k, hk⟩ : ∃ k, bufSize - off = 64 + k := ⟨bufSize - off - 64, by omega⟩
  rw [cString, hk, read_add, List.takeWhile_append, if_neg]
  intro hlen
  -- a prefix of full length would be the whole field
  have hall : (buf.read off 64).takeWhile (fun b => b ≠ 0) = buf.read off 64 :=
    (List.takeWhile_prefix _).eq_of_length hlen
  rw [← hall] at h
  simpa using List.all_eq_true.mp List.all_takeWhile 0 h

/-- Without a NUL byte the string runs into what follows. -/
theorem cString_unterminated {buf : Mem} {off : Nat} (ho : off + 64 ≤ bufSize)
    (h : 0 ∉ buf.read off 64) : cString buf off = buf.read off 64 ++ cString buf (off + 64) := by
  obtain ⟨k, hk⟩ : ∃ k, bufSize - off = 64 + k := ⟨bufSize - off - 64, by omega⟩
  have hk' : bufSize - (off + 64) = k := by omega
  have hne : ∀ b ∈ buf.read off 64, b ≠ 0 := fun b hb he => h (he ▸ hb)
  rw [cString, cString, hk, hk', read_add, List.takeWhile_append_of_pos (by simpa using hne)]

theorem cString_eq_nil_iff {buf : Mem} {off : Nat} (ho : off < bufSize) :
    cString buf off = [] ↔ buf off = 0 := by
  obtain ⟨k, hk⟩ : ∃ k, bufSize - off = 1 + k := ⟨bufSize - off - 1, by omega⟩
  have h1 : buf.read off 1 = [buf off] := by simp [Mem.read]
  rw [cString, hk, read_add, h1]
  by_cases h0 : buf off = 0
  · simp [h0]
  · simp [h0]

/-- The byte behind an unterminated field decides about the string. -/
theorem cString_flip {buf : Mem} {off : Nat} (ho : off + 64 < bufSize) (h : 0 ∉ buf.read off 64) :
    ∃ b, cString (buf.write (off + 64) [b]) off ≠ cString buf off := by
  -- the byte becomes NUL if it was not, and the other way round
  refine ⟨if buf (off + 64) = 0 then 1 else 0, fun he => ?_⟩
  generalize hb : (if buf (off + 64) = 0 then 1 else 0 : UInt8) = b at he
  have hfield : (buf.write (off + 64) [b]).read off 64 = buf.read off 64 :=
    read_write_disjoint _ _ _ _ _ (Or.inl (Nat.le_refl _))
  rw [cString_unterminated (by omega) (by rwa [hfield]), cString_unterminated (by omega) h,
    hfield] at he
  have hrest := List.append_cancel_left he
  have hbyte : (buf.write (off + 64) [b]) (off + 64) = b := by simp [write_apply]
  have hnil : b = 0 ↔ buf (off + 64) = 0 := by
    rw [← cString_eq_nil_iff ho, ← hrest, cString_eq_nil_iff ho, hbyte]
  by_cases h0 : buf (off + 64) = 0
  · rw [if_pos h0] at hb
    exact absurd (hnil.mpr h0) (by rw [← hb]; decide)
  · rw [if_neg h0] at hb
    exact h0 (hnil.mp hb.symm)

/-- A payload that is long enough and passes the two checks. -/
structure Checked (hmac : List UInt8 → List UInt8 → Block 32) (srv : VfastServer) (env : Env)
    (src : SockAddr) (buf : Mem) (plen : Nat) : Prop where
  long : 152 ≤ plen
  cookie : cookieOk hmac srv buf src = true
  timestamp : timestampOk env buf = true

section

variable (A : Aead) (hmac : List UInt8 → List UInt8 → Block 32)

/-- `vf_user_login` is asked about the strings at the two fields, and about nothing else. -/
theorem auth_login_args (srv : VfastServer) (env : Env) (buf : Mem) (plen : Nat) (src : SockAddr) :
    vfastHandleAuth A hmac srv env buf plen src =
      vfastHandleAuth A hmac srv
        { env with login := fun _ _ =>
          env.login (cString buf (hlen + 24)) (cString buf (hlen + 88)) }
        buf plen src := by
  unfold vfastHandleAuth
  generalize cString buf (hlen + 24) = user
  generalize cString buf (hlen + 88) = pass
  rfl

/-- **Credentials are read from their own fields**: any other accepted payload with the same
64 bytes in a field yields the same string. -/
def OwnFields (buf : Mem) : Prop :=
  ∀ (srv : VfastServer) (env : Env) (src : SockAddr) (other : Mem) (plen : Nat),
    Checked hmac srv env src other plen →
    (other.read (hlen + 24) 64 = buf.read (hlen + 24) 64 →
      cString other (hlen + 24) = cString buf (hlen + 24)) ∧
    (other.read (hlen + 88) 64 = buf.read (hlen + 88) 64 →
      cString other (hlen + 88) = cString buf (hlen + 88))

variable {hmac} {srv : VfastServer} {env : Env} {src : SockAddr} {buf : Mem} {plen : Nat}

/-- The checks do not look behind the cookie. -/
theorem Checked.write (h : Checked hmac srv env src buf plen) {off : Nat} (ho : hlen + 24 ≤ off)
    (bs : List UInt8) : Checked hmac srv env src (buf.write off bs) plen := by
  have hck : (buf.write off bs).read (hlen + 8) 16 = buf.read (hlen + 8) 16 :=
    read_write_disjoint _ _ _ _ _ (Or.inl (by omega))
  have hts : (buf.write off bs).load64 hlen = buf.load64 hlen := by
    rw [Mem.load64, Mem.load64, read_write_disjoint _ _ _ _ _ (Or.inl (by omega))]
  refine ⟨h.long, ?_, ?_⟩
  · rw [cookieOk, hck]
    exact h.cookie
  · rw [timestampOk, hts]
    exact h.timestamp

theorem own_field_iff (h : Checked hmac srv env src buf plen) {off : Nat}
    (ho : hlen + 24 ≤ off + 64) (hend : off + 64 < bufSize) :
    (∀ (srv : VfastServer) (env : Env) (src : SockAddr) (other : Mem) (plen : Nat),
      Checked hmac srv env src other plen → other.read off 64 = buf.read off 64 →
      cString other off = cString buf off) ↔ 0 ∈ buf.read off 64 := by
  constructor
  · intro hown
    by_contra hn
    obtain ⟨b, hb⟩ := cString_flip hend hn
    exact hb (hown srv env src _ plen (h.write ho _)
      (read_write_disjoint _ _ _ _ _ (Or.inl (Nat.le_refl _))))
  · intro hnul srv' env' src' other plen' _ he
    rw [cString_terminated (by omega) (by rwa [he]), cString_terminated (by omega) hnul, he]

/-- **The strings come from their fields exactly when both fields hold a NUL byte.** -/
theorem credentials_own_fields_iff (h : Checked hmac srv env src buf plen) :
    OwnFields hmac buf ↔ 0 ∈ buf.read (hlen + 24) 64 ∧ 0 ∈ buf.read (hlen + 88) 64 := by
  rw [← own_field_iff h (by decide) (by decide), ← own_field_iff h (by decide) (by decide)]
  constructor
  · intro hown
    exact ⟨fun srv env src other plen hc => (hown srv env src other plen hc).1,
      fun srv env src other plen hc => (hown srv env src other plen hc).2⟩
  · rintro ⟨hu, hp⟩ srv env src other plen hc
    exact ⟨hu srv env src other plen hc, hp srv env src other plen hc⟩

end

/-- An AUTH_REQ with these credentials, in fields of zero bytes. -/
def credentials (user pass : List UInt8) : Mem :=
  (Addresses.authDatagram.write (hlen + 24) user).write (hlen + 88) pass

theorem credentials_checked (user pass : List UInt8) :
    Checked Addresses.zeroHmac (Addresses.startedServer 0x0000000A) (Addresses.authEnv none 0)
      ⟨0, 0⟩ (credentials user pass) 152 := by
  have h : Checked Addresses.zeroHmac (Addresses.startedServer 0x0000000A)
      (Addresses.authEnv none 0) ⟨0, 0⟩ Addresses.authDatagram 152 :=
    ⟨by decide, by decide, by decide⟩
  exact (h.write (by decide) user).write (by decide) pass

def bob : Mem := credentials [0x62, 0x6F, 0x62] [0x70, 0x77]

theorem bob_own_fields :
    OwnFields Addresses.zeroHmac bob ∧ cString bob (hlen + 24) = [0x62, 0x6F, 0x62] ∧
      cString bob (hlen + 88) = [0x70, 0x77] :=
  ⟨(credentials_own_fields_iff (credentials_checked _ _)).mpr ⟨by decide, by decide⟩,
    by decide +kernel, by decide +kernel⟩

def longName (b : UInt8) : Mem := credentials (List.replicate 64 0x61) [b]

/-- **A user name without a NUL byte runs on into the password.** -/
theorem long_name_takes_password :
    (∀ b, Checked Addresses.zeroHmac (Addresses.startedServer 0x0000000A) (Addresses.authEnv none 0)
      ⟨0, 0⟩ (longName b) 152) ∧
    (longName 0).read (hlen + 24) 64 = (longName 0x62).read (hlen + 24) 64 ∧
    cString (longName 0) (hlen + 24) = List.replicate 64 0x61 ∧
    cString (longName 0x62) (hlen + 24) = List.replicate 64 0x61 ++ [0x62] := by
  refine ⟨fun b => credentials_checked _ _, ?_, ?_, ?_⟩
  · decide
  · decide +kernel
  · decide +kernel

end Vfast.Admission
