import Vfast.RoundTrip
import Vfast.Addresses

/-! What the AEAD tag covers. `vf_encrypt` passes no associated data, so the tag binds
nonce and payload to the key and nothing to the header: a sealed packet is opened under
any header that still selects the key, and the message type, the padding flag and the
padding length are read from that header. -/

namespace Vfast.Authenticity

open Bytes Key Crypto Protocol Wire Sessions Server ServerInv Run

/-! ## Sealed packets under an edited header -/

/-- The `lock` call `vf_pack` makes for a sealed packet. -/
def packCall (st : Statics) (rd : Urandom) (ctx : SecCtx) (buf : Mem) (plen : Nat) : LockCall :=
  ⟨vfRekeyGetKey ctx, nextNonce st.nonceGen rd, [], padded st buf plen⟩

/-- `data` is a packet with its header edited: behind the header it is what was sent. -/
def KeepsBody (sent data : Mem) (tlen : Nat) : Prop :=
  ∀ i, hlen ≤ i → i < tlen → data i = sent i

/-- The length `vf_remove_padding` leaves of `n` decrypted bytes under a header. -/
def strippedLen (hdr : Mem) (n : Nat) : Option Nat :=
  if hdr offFlags &&& flagPadding = 0 then some n
  else if (hdr offPaddingLen).toNat ≤ n then some (n - (hdr offPaddingLen).toNat) else none

theorem finishUnpack_spec (m : Mem) (p : List UInt8) :
    (finishUnpack (m.write hlen p) p.length).2 = strippedLen m p.length ∧
      (finishUnpack (m.write hlen p) p.length).1.read hlen p.length = p := by
  have hfl : (m.write hlen p) offFlags = m offFlags :=
    write_of_lt _ _ _ _ (by simp [offFlags, hlen])
  have hpl : (m.write hlen p) offPaddingLen = m offPaddingLen :=
    write_of_lt _ _ _ _ (by simp [offPaddingLen, hlen])
  have hrd : (m.write hlen p).read hlen p.length = p := read_write _ _ _
  unfold finishUnpack vfRemovePadding strippedLen
  rw [if_neg (by omega), hfl, hpl]
  by_cases h : m offFlags &&& flagPadding = 0
  · simp only [h, ne_eq, not_true_eq_false, if_false, if_true]
    exact ⟨by simp, hrd⟩
  · simp only [h, ne_eq, not_false_eq_true, if_true, if_false]
    by_cases hle : (m offPaddingLen).toNat ≤ p.length
    · rw [if_pos (by omega), if_pos hle]
      refine ⟨by simp; omega, ?_⟩
      rw [read_write_disjoint _ _ _ _ _ (Or.inr (by simp [offFlags, hlen]))]
      exact hrd
    · rw [if_neg (by omega), if_neg hle]
      exact ⟨rfl, hrd⟩

theorem strippedLen_le {hdr : Mem} {n k : Nat} (h : strippedLen hdr n = some k) : k ≤ n := by
  unfold strippedLen at h
  split at h
  · cases h
    exact Nat.le_refl _
  · split at h
    · cases h
      omega
    · cases h

/-- The payload that is left is the start of the decrypted text. -/
theorem finishUnpack_some {m buf : Mem} {p : List UInt8} {plen : Nat}
    (h : finishUnpack (m.write hlen p) p.length = (buf, some plen)) :
    strippedLen m p.length = some plen ∧ buf.read hlen plen = p.take plen := by
  obtain ⟨hs, hr⟩ := finishUnpack_spec m p
  rw [h] at hs hr
  refine ⟨hs.symm, ?_⟩
  rw [← take_read buf hlen p.length plen (strippedLen_le hs.symm), hr]

/-- **What a sealed packet delivers** was locked under the selected key. -/
theorem unpack_sealed (A : Aead) {ctx : SecCtx} {m buf : Mem} {len plen : Nat}
    (hb : bypassesAead (m offMsgType) = false)
    (h : vfUnpack A (some ctx) m len = (buf, some plen)) :
    ∃ key nonce c t plain, vfRekeyGetDecryptKey ctx (m offKeyId) = some key ∧
      m.read hlen (len - hlen) = Block.toList nonce ++ (c ++ Block.toList t) ∧
      A.unlock key nonce [] c t = some plain ∧ buf.read hlen plen <+: plain := by
  unfold vfUnpack at h
  split at h
  · cases h
  simp only [hb, Bool.false_eq_true, if_false] at h
  cases hk : vfRekeyGetDecryptKey ctx (m offKeyId) with
  | none =>
    rw [hk] at h
    cases h
  | some key =>
    rw [hk] at h
    simp only [vfDecrypt, cryptoNonceSize, cryptoTagSize] at h
    by_cases hshort : len - hlen < 24 + 16
    · simp only [hshort, if_true] at h
      cases h
    simp only [hshort, if_false] at h
    cases hu : A.unlock key (fun i => m (hlen + i)) [] (m.read (hlen + 24) (len - hlen - 24 - 16))
        (fun i => m (hlen + 24 + (len - hlen - 24 - 16) + i)) with
    | none =>
      rw [hu] at h
      cases h
    | some plain =>
      rw [hu] at h
      have hl := A.length_unlock _ _ _ _ _ _ hu
      rw [length_read] at hl
      simp only [Except.toOption, ← hl] at h
      refine ⟨key, _, _, _, plain, rfl, ?_, hu, ?_⟩
      · have e : len - hlen = 24 + ((len - hlen - 24 - 16) + 16) := by omega
        have hk : 24 + (len - hlen - 24 - 16 + 16) - 24 - 16 = len - hlen - 24 - 16 := by omega
        rw [e, read_add, read_add, toList_read, toList_read, hk]
      · rw [(finishUnpack_some h).2]
        exact List.take_prefix plen plain

/-- With an ideal AEAD a sealed text opens under the key that sealed it and no other. -/
theorem unlock_call_iff {A : Aead} {calls : LockCall → Prop} (hA : A.IdealFor calls)
    {call : LockCall} (hc : calls call) (key : Block 32) (p : List UInt8) :
    A.unlock key call.nonce call.ad (call.out A).1 (call.out A).2 = some p ↔
      key = call.key ∧ p = call.plain := by
  constructor
  · intro h
    obtain ⟨hcall, hlock⟩ := hA.only_calls _ _ _ _ _ _ h
    have he := hA.origin _ _ hcall hc rfl hlock
    exact ⟨congrArg LockCall.key he, congrArg LockCall.plain he⟩
  · rintro ⟨rfl, rfl⟩
    exact hA.unlock_call call hc

/-- Editing the header leaves nonce, ciphertext and tag behind it, masked or not. -/
theorem KeepsBody.read {sent data : Mem} {tlen : Nat} (h : KeepsBody sent data tlen)
    (ht : hlen ≤ tlen) :
    (vfRemoveHeaderObfs data tlen).read hlen (tlen - hlen) =
      (vfRemoveHeaderObfs sent tlen).read hlen (tlen - hlen) := by
  refine read_congr _ _ _ _ fun i hi => ?_
  rw [vfRemoveHeaderObfs_eq _ _ ht, vfRemoveHeaderObfs_eq _ _ ht,
    maskHeader_frame _ _ _ (Or.inl (by simp [hlen]; omega)),
    maskHeader_frame _ _ _ (Or.inl (by simp [hlen]; omega))]
  exact h _ (by omega) (by omega)

section Edited

variable {A : Aead} {calls : LockCall → Prop} (hA : A.IdealFor calls) {st : Statics} {rd : Urandom}
  {ctx : SecCtx} {buf : Mem} {plen tlen : Nat} {type : MsgType} {sid : UInt32}
  (hty : bypassesAead type.code = false) (hcall : calls (packCall st rd ctx buf plen))
  (hpack : (vfPack A st rd (some ctx) buf plen bufSize type sid).2.2 = some tlen) {data : Mem}
  (hkeep : KeepsBody (vfPack A st rd (some ctx) buf plen bufSize type sid).2.1 data tlen)

include hty hpack hkeep in
/-- Behind the edited header stand the nonce, the ciphertext and the tag that were sealed. -/
theorem edited_layout :
    tlen = hlen + ((padded st buf plen).length + 40) ∧
    (vfRemoveHeaderObfs data tlen).read hlen
      (24 + (((packCall st rd ctx buf plen).out A).1.length + 16)) =
      (nextNonce st.nonceGen rd).toList ++ (((packCall st rd ctx buf plen).out A).1 ++
        ((packCall st rd ctx buf plen).out A).2.toList) := by
  have hsec : packSec (some ctx) type = some ctx := by simp [packSec, hty]
  obtain ⟨htl, _, _, hbody⟩ := vfPack_unmasked A st rd (some ctx) buf plen bufSize type sid
    (Nat.le_refl _) hpack
  have hpb : packBody A st rd (some ctx) buf plen type =
      sealedBody A st rd ctx (padded st buf plen) := by
    unfold packBody
    rw [hsec]
  rw [hpb] at htl hbody
  have hbl := length_sealedBody A st rd ctx (padded st buf plen)
  have hread := hkeep.read (by omega)
  rw [show tlen - hlen = (sealedBody A st rd ctx (padded st buf plen)).length by omega, hbody,
    hbl] at hread
  have hcl : ((packCall st rd ctx buf plen).out A).1.length = (padded st buf plen).length :=
    A.length_lock _ _ _ _
  refine ⟨by omega, ?_⟩
  rw [hcl, show 24 + ((padded st buf plen).length + 16) = (padded st buf plen).length + 40 by
    omega, hread]
  rfl

include hA hty hcall hpack hkeep

/-- **Opening an edited packet**: acceptance, length and text. -/
theorem edited_unpack (hdec : bypassesAead (vfRemoveHeaderObfs data tlen offMsgType) = false)
    (rctx : SecCtx) :
    (∀ n, (vfUnpack A (some rctx) (vfRemoveHeaderObfs data tlen) tlen).2 = some n ↔
      vfRekeyGetDecryptKey rctx (vfRemoveHeaderObfs data tlen offKeyId) =
          some (vfRekeyGetKey ctx) ∧
        strippedLen (vfRemoveHeaderObfs data tlen) (padded st buf plen).length = some n) ∧
    (vfRekeyGetDecryptKey rctx (vfRemoveHeaderObfs data tlen offKeyId) =
        some (vfRekeyGetKey ctx) →
      (vfUnpack A (some rctx) (vfRemoveHeaderObfs data tlen) tlen).1.read hlen
        (padded st buf plen).length = padded st buf plen) := by
  obtain ⟨htl, hlay⟩ := edited_layout hty hpack hkeep
  have hcl : ((packCall st rd ctx buf plen).out A).1.length = (padded st buf plen).length :=
    A.length_lock _ _ _ _
  have hun := vfUnpack_sealed A rctx _ _ _ _ hdec hlay
  rw [hcl, ← htl] at hun
  have hspec := finishUnpack_spec (vfRemoveHeaderObfs data tlen) (padded st buf plen)
  have hopen := unlock_call_iff hA hcall
  cases hk : vfRekeyGetDecryptKey rctx (vfRemoveHeaderObfs data tlen offKeyId) with
  | none =>
    rw [hk] at hun
    rw [hun]
    simp
  | some key =>
    rw [hk] at hun
    dsimp only at hun
    by_cases he : key = vfRekeyGetKey ctx
    · have hu : A.unlock key (nextNonce st.nonceGen rd) []
          ((packCall st rd ctx buf plen).out A).1 ((packCall st rd ctx buf plen).out A).2 =
          some (padded st buf plen) := (hopen key _).mpr ⟨he, rfl⟩
      rw [hu] at hun
      rw [hun]
      dsimp only
      rw [hspec.1, he]
      exact ⟨fun n => ⟨fun h => ⟨rfl, h⟩, fun h => h.2⟩, fun _ => hspec.2⟩
    · have hu : A.unlock key (nextNonce st.nonceGen rd) []
          ((packCall st rd ctx buf plen).out A).1 ((packCall st rd ctx buf plen).out A).2 =
          none :=
        Option.eq_none_iff_forall_ne_some.mpr fun p hp => he ((hopen key p).mp hp).1
      rw [hu] at hun
      rw [hun]
      simp [he]

/-- An edited packet of a session that now says REKEY_REQ is handled as one: the server
commits the key found in the payload. -/
theorem edited_rekey (hmac : List UInt8 → List UInt8 → Block 32) (srv : VfastServer) (p : Ptr)
    (env : Env) (src : SockAddr) {n : Nat}
    (hrk : vfRemoveHeaderObfs data tlen offMsgType = MsgType.rekeyReq.code)
    (h0 : bswap32 ((vfRemoveHeaderObfs data tlen).load32 offSessionId) ≠ 0)
    (hp : vfSsLookupBySid srv.sessions
      (bswap32 ((vfRemoveHeaderObfs data tlen).load32 offSessionId)) = some p)
    (hkey : vfRekeyGetDecryptKey (srv.sessions.heap p).secCtx
      (vfRemoveHeaderObfs data tlen offKeyId) = some (vfRekeyGetKey ctx))
    (hn : strippedLen (vfRemoveHeaderObfs data tlen) (padded st buf plen).length = some n)
    (h36 : 36 ≤ n) (hplen : 36 ≤ plen)
    (hlt : (srv.sessions.heap p).secCtx.activeKey.id < bswap32 (buf.load32 hlen)) :
    ((serverOnUdp A hmac srv env data tlen src).1.sessions.heap p).secCtx.activeKey =
      ⟨Block.ofList 32 (buf.read (hlen + 4) 32), bswap32 (buf.load32 hlen), 0, env.now⟩ := by
  have hdec : bypassesAead (vfRemoveHeaderObfs data tlen offMsgType) = false := by
    rw [hrk]
    rfl
  obtain ⟨hacc, htext⟩ := edited_unpack hA hty hcall hpack hkeep hdec
    (srv.sessions.heap p).secCtx
  have hlen := (hacc n).mpr ⟨hkey, hn⟩
  have htext := htext hkey
  have hfr := vfUnpack_frame A (some (srv.sessions.heap p).secCtx) (vfRemoveHeaderObfs data tlen)
    tlen offMsgType (by decide) (by decide)
  obtain ⟨htl, _⟩ := vfPack_unmasked A st rd (some ctx) buf plen bufSize type sid
    (Nat.le_refl _) hpack
  cases hu : vfUnpack A (some (srv.sessions.heap p).secCtx) (vfRemoveHeaderObfs data tlen)
    tlen with
  | mk m res =>
  rw [hu] at hlen htext hfr
  dsimp only at hlen htext hfr
  subst hlen
  -- the text starts with the payload
  have hpay : m.read Protocol.hlen plen = buf.read Protocol.hlen plen := by
    have hl := read_left htext
    rwa [length_read] at hl
  have hat := fun i hi => apply_eq_of_read hpay i hi
  have hkid : m.load32 Protocol.hlen = buf.load32 Protocol.hlen :=
    load32_congr _ _ _ fun i hi => hat i (by omega)
  have hraw : m.read (Protocol.hlen + 4) 32 = buf.read (Protocol.hlen + 4) 32 :=
    read_congr _ _ _ _ fun i hi => by
      rw [Nat.add_assoc]
      exact hat (4 + i) (by omega)
  obtain ⟨⟨stats, reass, e⟩, _⟩ := serverOnUdp_session A hmac env src (by omega) h0 hp hu
  have hctx : ((srv.countBytes (some p) tlen).sessions.heap p).secCtx =
      (srv.sessions.heap p).secCtx.countBytes tlen := by
    simp only [VfastServer.countBytes, VfastServer.setCtx, modify_heap, if_true]
  have hlt' : ((srv.countBytes (some p) tlen).sessions.heap p).secCtx.activeKey.id <
      bswap32 (m.load32 Protocol.hlen) := by
    rw [hctx, hkid]
    exact hlt
  have hcommit := rekeyReq_commits A env src h36 hlt'
  rw [hkid, hraw] at hcommit
  rw [e]
  dsimp only [dispatch]
  rw [hfr, hrk, MsgType.ofCode_code]
  exact congrArg SecCtx.activeKey hcommit

end Edited

/-! ## A relabelled packet -/

/-- Unmask a sent packet, overwrite its message type, mask it again: the mask depends on
the sequence number in the same packet and on nothing secret. -/
def relabel (sent : Mem) (tlen : Nat) (type : MsgType) : Mem :=
  vfApplyHeaderObfs ((vfRemoveHeaderObfs sent tlen).write offMsgType [type.code]) tlen

theorem relabel_unmasked (sent : Mem) (tlen : Nat) (type : MsgType) :
    vfRemoveHeaderObfs (relabel sent tlen type) tlen =
      (vfRemoveHeaderObfs sent tlen).write offMsgType [type.code] :=
  vfRemoveHeaderObfs_apply _ _

theorem relabel_keepsBody (sent : Mem) {tlen : Nat} (type : MsgType) (ht : hlen ≤ tlen) :
    KeepsBody sent (relabel sent tlen type) tlen := by
  intro i hi _
  have h12 : 12 ≤ i := by simp only [hlen] at hi; omega
  rw [relabel, vfApplyHeaderObfs_eq _ _ ht, maskHeader_frame _ _ _ (Or.inl h12),
    write_of_not_mem _ _ _ _ (by simp [offMsgType]; omega), vfRemoveHeaderObfs_eq _ _ ht,
    maskHeader_frame _ _ _ (Or.inl h12)]

theorem relabel_type (sent : Mem) (tlen : Nat) (type : MsgType) :
    vfRemoveHeaderObfs (relabel sent tlen type) tlen offMsgType = type.code := by
  rw [relabel_unmasked]
  simp [write_apply]

/-- The rest of the header is what was packed. -/
theorem relabel_header {sent : Mem} {tlen : Nat} {ty : UInt8} {sid kid : UInt32}
    (hh : HasHeader (vfRemoveHeaderObfs sent tlen) tlen ty sid kid) (type : MsgType) :
    vfRemoveHeaderObfs (relabel sent tlen type) tlen offKeyId = lowByte kid ∧
      vfRemoveHeaderObfs (relabel sent tlen type) tlen offFlags = 0 ∧
      bswap32 ((vfRemoveHeaderObfs (relabel sent tlen type) tlen).load32 offSessionId) = sid := by
  rw [relabel_unmasked]
  refine ⟨?_, ?_, ?_⟩
  · rw [write_of_not_mem _ _ _ _ (by simp [offKeyId, offMsgType])]
    exact hh.keyId
  · rw [write_of_not_mem _ _ _ _ (by simp [offFlags, offMsgType])]
    exact hh.flags
  · rw [load32_write_disjoint _ _ _ _ (Or.inr (by simp [offSessionId, offMsgType]))]
    exact hh.sessionId

def sharedCtx : SecCtx := vfRekeyInit 0x0200000A (some fun _ => 5) 0

/-- A DATA payload of 36 bytes that starts with the number 2. -/
def dataBuf : Mem := fun i => if i < 23 then 0 else if i = 23 then 2 else 9

def dataStatics : Statics := ⟨0x5EED5EED, .init⟩

def dataAead : Aead := onceAead (packCall dataStatics none sharedCtx dataBuf 36)

theorem dataAead_ideal :
    dataAead.IdealFor (· = packCall dataStatics none sharedCtx dataBuf 36) := onceAead_ideal _

def dataSent : Statics × Mem × Option Nat :=
  vfPack dataAead dataStatics none (some sharedCtx) dataBuf 36 bufSize .data 0x0200000A

theorem dataSent_len : dataSent.2.2 = some 117 := by
  rw [dataSent, vfPack_result]
  decide

def relabelled : Mem := relabel dataSent.2.1 117 .rekeyReq

theorem relabelled_header :
    vfRemoveHeaderObfs relabelled 117 offMsgType = MsgType.rekeyReq.code ∧
      vfRekeyGetDecryptKey sharedCtx (vfRemoveHeaderObfs relabelled 117 offKeyId) =
        some (vfRekeyGetKey sharedCtx) ∧
      strippedLen (vfRemoveHeaderObfs relabelled 117)
        (padded dataStatics dataBuf 36).length = some 57 ∧
      bswap32 ((vfRemoveHeaderObfs relabelled 117).load32 offSessionId) = 0x0200000A := by
  have hh := (vfPack_unmasked dataAead dataStatics none (some sharedCtx) dataBuf 36 bufSize .data
    0x0200000A (Nat.le_refl _) dataSent_len).2.2.1
  obtain ⟨hk, hf, hs⟩ := relabel_header hh .rekeyReq
  refine ⟨relabel_type dataSent.2.1 117 .rekeyReq, ?_, ?_, hs⟩
  · exact (congrArg (vfRekeyGetDecryptKey sharedCtx) hk).trans (getDecryptKey_active sharedCtx)
  · have hl : (padded dataStatics dataBuf 36).length = 57 := by
      rw [length_padded]
      decide
    have hf : vfRemoveHeaderObfs relabelled 117 offFlags = 0 := hf
    rw [hl, strippedLen, hf]
    rfl

theorem relabelled_keepsBody : KeepsBody dataSent.2.1 relabelled 117 :=
  relabel_keepsBody dataSent.2.1 .rekeyReq (by decide)

/-- A server whose only session is the client's. -/
def sessionServer : VfastServer :=
  { Addresses.startedServer 0x0000000A with
    sessions := (Store.empty fun _ => blankSession).create (shardOf 0x0200000A)
      ⟨0x0200000A, 0x0200000A, ⟨0, 0⟩, sharedCtx, 0⟩ }

/-- **The header is not authenticated.** What the tag protects is the text: an edited
sealed packet is accepted exactly when its key id selects the sender's key and its own
padding fields fit, its text is the sender's, and its type and padding are those of the
edited header. In particular a session's packet edited to say REKEY_REQ makes the server
commit the key that its payload spells. -/
theorem edited_header_accepted_iff {A : Aead} {calls : LockCall → Prop} (hA : A.IdealFor calls)
    (hmac : List UInt8 → List UInt8 → Block 32) {st : Statics} {rd : Urandom} {ctx : SecCtx}
    {buf : Mem} {plen tlen : Nat} {type : MsgType} {sid : UInt32}
    (hty : bypassesAead type.code = false) (hcall : calls (packCall st rd ctx buf plen))
    (hpack : (vfPack A st rd (some ctx) buf plen bufSize type sid).2.2 = some tlen) {data : Mem}
    (hkeep : KeepsBody (vfPack A st rd (some ctx) buf plen bufSize type sid).2.1 data tlen)
    (hdec : bypassesAead (vfRemoveHeaderObfs data tlen offMsgType) = false) :
    (∀ rctx n, (vfUnpack A (some rctx) (vfRemoveHeaderObfs data tlen) tlen).2 = some n ↔
      vfRekeyGetDecryptKey rctx (vfRemoveHeaderObfs data tlen offKeyId) =
          some (vfRekeyGetKey ctx) ∧
        strippedLen (vfRemoveHeaderObfs data tlen) (padded st buf plen).length = some n) ∧
    (∀ rctx n, (vfUnpack A (some rctx) (vfRemoveHeaderObfs data tlen) tlen).2 = some n →
      (vfUnpack A (some rctx) (vfRemoveHeaderObfs data tlen) tlen).1.read hlen
          (padded st buf plen).length = padded st buf plen ∧
        (vfUnpack A (some rctx) (vfRemoveHeaderObfs data tlen) tlen).1 offMsgType =
          vfRemoveHeaderObfs data tlen offMsgType) ∧
    (∀ (srv : VfastServer) (p : Ptr) (n : Nat) (env : Env) (src : SockAddr),
      vfRemoveHeaderObfs data tlen offMsgType = MsgType.rekeyReq.code →
      bswap32 ((vfRemoveHeaderObfs data tlen).load32 offSessionId) ≠ 0 →
      vfSsLookupBySid srv.sessions
        (bswap32 ((vfRemoveHeaderObfs data tlen).load32 offSessionId)) = some p →
      vfRekeyGetDecryptKey (srv.sessions.heap p).secCtx
        (vfRemoveHeaderObfs data tlen offKeyId) = some (vfRekeyGetKey ctx) →
      strippedLen (vfRemoveHeaderObfs data tlen) (padded st buf plen).length = some n →
      36 ≤ n → 36 ≤ plen →
      (srv.sessions.heap p).secCtx.activeKey.id < bswap32 (buf.load32 hlen) →
      ((serverOnUdp A hmac srv env data tlen src).1.sessions.heap p).secCtx.activeKey =
        ⟨Block.ofList 32 (buf.read (hlen + 4) 32), bswap32 (buf.load32 hlen), 0, env.now⟩) := by
  refine ⟨?_, ?_, ?_⟩
  · intro rctx
    exact (edited_unpack hA hty hcall hpack hkeep hdec rctx).1
  · intro rctx n hn
    obtain ⟨hacc, htext⟩ := edited_unpack hA hty hcall hpack hkeep hdec rctx
    refine ⟨htext ((hacc n).mp hn).1, ?_⟩
    exact vfUnpack_frame _ _ _ _ _ (by decide) (by decide)
  · intro srv p n env src hrk h0 hp hkey hn h36 hplen hlt
    exact edited_rekey hA hty hcall hpack hkeep hmac srv p env src hrk h0 hp hkey hn h36 hplen hlt

theorem relabelled_data_key :
    ((serverOnUdp dataAead Addresses.zeroHmac sessionServer (Addresses.authEnv none 0) relabelled
      117 ⟨0, 0⟩).1.sessions.heap 0).secCtx.activeKey.id = 2 := by
  obtain ⟨hty, hkey, hlen, hsid⟩ := relabelled_header
  obtain ⟨_, _, h⟩ := edited_header_accepted_iff dataAead_ideal Addresses.zeroHmac rfl rfl
    dataSent_len relabelled_keepsBody (by rw [hty]; rfl)
  have hfound : vfSsLookupBySid sessionServer.sessions 0x0200000A = some 0 := by decide
  rw [h sessionServer 0 57 (Addresses.authEnv none 0) ⟨0, 0⟩ hty (by rw [hsid]; decide)
    (by rw [hsid]; exact hfound) hkey hlen (by decide) (by decide) (by decide)]
  decide

/-- A DATA packet whose payload starts with the number 2, relabelled as REKEY_REQ, is opened
with the session's own key and makes the server switch the session to key id 2. -/
theorem data_relabelled_as_rekey_req :
    ∃ (A : Aead) (calls : LockCall → Prop) (st : Statics) (rd : Urandom) (ctx : SecCtx) (buf : Mem)
      (plen tlen : Nat) (sid : UInt32) (data : Mem),
      A.IdealFor calls ∧ calls (packCall st rd ctx buf plen) ∧
      (vfPack A st rd (some ctx) buf plen bufSize .data sid).2.2 = some tlen ∧
      KeepsBody (vfPack A st rd (some ctx) buf plen bufSize .data sid).2.1 data tlen ∧
      (vfUnpack A (some ctx) (vfRemoveHeaderObfs data tlen) tlen).2 ≠ none ∧
      vfRemoveHeaderObfs data tlen offMsgType = MsgType.rekeyReq.code ∧
      ∃ (srv : VfastServer) (p : Ptr) (env : Env) (src : SockAddr), Live srv.sessions p ∧
        (srv.sessions.heap p).secCtx = ctx ∧ ctx.activeKey.id = 1 ∧
        ((serverOnUdp A Addresses.zeroHmac srv env data tlen src).1.sessions.heap
          p).secCtx.activeKey.id = 2 := by
  obtain ⟨hty, hkey, hlen, hsid⟩ := relabelled_header
  have hdec : bypassesAead (vfRemoveHeaderObfs relabelled 117 offMsgType) = false := by
    rw [hty]
    rfl
  refine ⟨dataAead, (· = packCall dataStatics none sharedCtx dataBuf 36), dataStatics, none,
    sharedCtx, dataBuf, 36, 117, 0x0200000A, relabelled, dataAead_ideal, rfl, dataSent_len,
    relabelled_keepsBody, ?_, hty, sessionServer, 0, Addresses.authEnv none 0, ⟨0, 0⟩, ?_, rfl, rfl,
    ?_⟩
  · have hacc := (edited_unpack dataAead_ideal rfl rfl dataSent_len relabelled_keepsBody hdec
      sharedCtx).1 57
    rw [show (vfUnpack dataAead (some sharedCtx) (vfRemoveHeaderObfs relabelled 117) 117).2 =
      some 57 from hacc.mpr ⟨hkey, hlen⟩]
    exact nofun
  · exact live_create.mpr (.inl rfl)
  · have hfound : vfSsLookupBySid sessionServer.sessions 0x0200000A = some 0 := by decide
    rw [edited_rekey dataAead_ideal rfl rfl dataSent_len relabelled_keepsBody Addresses.zeroHmac
      sessionServer 0 (Addresses.authEnv none 0) ⟨0, 0⟩ hty (by rw [hsid]; decide)
      (by rw [hsid]; exact hfound) hkey hlen (by decide) (by decide) (by decide)]
    decide

end Vfast.Authenticity
