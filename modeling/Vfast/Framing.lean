import Vfast.Authenticity

/-! The packet frame at both ends: which header a receiver reads off a packet that `vf_pack`
sent, and which packets `vf_unpack` accepts. -/

namespace Vfast.Framing

open Bytes Key Crypto Protocol Wire Authenticity

/-! ## The header of a sent packet -/

structure Identifies (hdr : Mem) (len : Nat) : Prop where
  magic : bswap16 (hdr.load16 offMagic) = vfMagic
  version : hdr offVersion = vpnVersion
  totalLen : (bswap16 (hdr.load16 offTotalLen)).toNat = len

/-- What a sent packet reads as once the mask is off. -/
structure ReadsAs (hdr : Mem) (len : Nat) (type : UInt8) (sid : UInt32) (kid : UInt8) : Prop
    extends Identifies hdr len where
  msgType : hdr offMsgType = type
  sessionId : bswap32 (hdr.load32 offSessionId) = sid
  keyId : hdr offKeyId = kid

theorem readsAs_of_hasHeader {hdr : Mem} {len : Nat} {type : UInt8} {sid kid : UInt32}
    (h : HasHeader hdr len type sid kid) (hlen : len ≤ bufSize) :
    ReadsAs hdr len type sid (lowByte kid) := by
  refine ⟨⟨h.magic, h.version, ?_⟩, h.msgType, h.sessionId, h.keyId⟩
  rw [h.totalLen, UInt16.toNat_ofNat']
  simp only [bufSize] at hlen
  exact Nat.mod_eq_of_lt (by omega)

/-- The key id in the header of a packet: the low byte of the active key's, 0 in the clear. -/
def headerKeyId (sec : Option SecCtx) (type : MsgType) : UInt8 :=
  match packSec sec type with
  | none => 0
  | some ctx => lowByte ctx.activeKey.id

theorem lowByte_packKid (sec : Option SecCtx) (type : MsgType) :
    lowByte (packKid sec type) = headerKeyId sec type := by
  unfold packKid headerKeyId
  cases packSec sec type <;> rfl

theorem vfPack_masked (A : Aead) (st : Statics) (rd : Urandom) (sec : Option SecCtx) (buf : Mem)
    (plen : Nat) (type : MsgType) (sid : UInt32) {maxSize tlen : Nat}
    (h : (vfPack A st rd sec buf plen maxSize type sid).2.2 = some tlen) :
    vfApplyHeaderObfs (vfRemoveHeaderObfs (vfPack A st rd sec buf plen maxSize type sid).2.1 tlen)
      tlen = (vfPack A st rd sec buf plen maxSize type sid).2.1 := by
  obtain ⟨m, hf, _⟩ := vfPack_finish A st rd sec buf plen maxSize type sid
  rw [hf] at h ⊢
  unfold finishPack at h ⊢
  dsimp only at h ⊢
  split at h
  · cases h
  · cases h
    rw [if_neg (by assumption), vfRemoveHeaderObfs_apply]

theorem vfApplyHeaderObfs_frame (m : Mem) (wireLen : Nat) {i : Nat}
    (h : 4 ≤ i ∧ i < 8 ∨ 12 ≤ i) : vfApplyHeaderObfs m wireLen i = m i := by
  by_cases hl : wireLen < hlen
  · simp [vfApplyHeaderObfs, hl]
  · rw [vfApplyHeaderObfs_eq m wireLen (by omega)]
    exact maskHeader_frame _ _ _ h.symm

/-- **Header transparency.** -/
theorem header_transparent (A : Aead) (st : Statics) (rd : Urandom) (sec : Option SecCtx)
    (buf : Mem) (plen : Nat) (type : MsgType) (sid : UInt32) {tlen : Nat}
    (h : (vfPack A st rd sec buf plen bufSize type sid).2.2 = some tlen) :
    ReadsAs (vfRemoveHeaderObfs (vfPack A st rd sec buf plen bufSize type sid).2.1 tlen) tlen
      type.code sid (headerKeyId sec type) ∧
    vfApplyHeaderObfs (vfRemoveHeaderObfs (vfPack A st rd sec buf plen bufSize type sid).2.1 tlen)
      tlen = (vfPack A st rd sec buf plen bufSize type sid).2.1 ∧
    ∀ i, (4 ≤ i ∧ i < 8 ∨ 12 ≤ i) →
      (vfPack A st rd sec buf plen bufSize type sid).2.1 i =
        vfRemoveHeaderObfs (vfPack A st rd sec buf plen bufSize type sid).2.1 tlen i := by
  obtain ⟨_, hle, hh, _⟩ := vfPack_unmasked A st rd sec buf plen bufSize type sid (Nat.le_refl _) h
  have hm := vfPack_masked A st rd sec buf plen type sid h
  refine ⟨?_, hm, ?_⟩
  · rw [← lowByte_packKid]
    exact readsAs_of_hasHeader hh hle
  · intro i hi
    conv => lhs; rw [← hm]
    exact vfApplyHeaderObfs_frame _ _ hi

/-- The first DATA packet of a session carries the low byte of key id 1. -/
theorem dataSent_transparent :
    ReadsAs (vfRemoveHeaderObfs dataSent.2.1 117) 117 MsgType.data.code 0x0200000A 1 :=
  (header_transparent dataAead dataStatics none (some sharedCtx) dataBuf 36 .data 0x0200000A
    dataSent_len).1

/-! ## What `vf_unpack` accepts -/

/-- The text that the body of a received packet stands for: the body itself for a handshake
type, else what it opens to under the key that the header names. -/
def bodyText (A : Aead) (sec : Option SecCtx) (buf : Mem) (res : Nat) : Option (List UInt8) :=
  if res < hlen then none
  else if bypassesAead (buf offMsgType) then some (buf.read hlen (res - hlen))
  else
    match sec with
    | none => none
    | some ctx =>
      match vfRekeyGetDecryptKey ctx (buf offKeyId) with
      | none => none
      | some key =>
        if res - hlen < 40 then none
        else A.unlock key (fun i => buf (hlen + i)) [] (buf.read (hlen + 24) (res - hlen - 40))
          fun i => buf (hlen + 24 + (res - hlen - 40) + i)

theorem toOption_vfDecrypt (A : Aead) (key : Block 32) (m : Mem) (packet packetLen out : Nat) :
    (vfDecrypt A key m packet packetLen out).toOption =
      if packetLen < 40 then none
      else (A.unlock key (fun i => m (packet + i)) [] (m.read (packet + 24) (packetLen - 40))
        fun i => m (packet + 24 + (packetLen - 40) + i)).map fun p =>
          (m.write out p, p.length) := by
  unfold vfDecrypt
  simp only [cryptoNonceSize, cryptoTagSize, Nat.reduceAdd, Nat.sub_sub]
  split
  · rfl
  · cases h : A.unlock key (fun i => m (packet + i)) [] (m.read (packet + 24) (packetLen - 40))
        fun i => m (packet + 24 + (packetLen - 40) + i) with
    | none => rfl
    | some p =>
      have hl := A.length_unlock _ _ _ _ _ _ h
      simp [Except.toOption, hl]

/-- **`vf_unpack`** accepts a packet whose body stands for a text that is not shorter than
its padding. -/
theorem vfUnpack_bodyText (A : Aead) (sec : Option SecCtx) (buf : Mem) (res : Nat) :
    vfUnpack A sec buf res =
      match bodyText A sec buf res with
      | none => (buf, none)
      | some text => finishUnpack (buf.write hlen text) text.length := by
  unfold vfUnpack bodyText
  split
  · rfl
  by_cases hb : bypassesAead (buf offMsgType) = true
  · simp [hb]
  simp only [hb, Bool.false_eq_true, if_false]
  cases sec with
  | none => rfl
  | some ctx =>
    dsimp only
    cases vfRekeyGetDecryptKey ctx (buf offKeyId) with
    | none => rfl
    | some key =>
      simp only [toOption_vfDecrypt]
      by_cases hl : res - hlen < 40
      · simp only [hl, if_true]
      · simp only [hl, if_false]
        cases A.unlock key (fun i => buf (hlen + i)) [] (buf.read (hlen + 24) (res - hlen - 40))
          fun i => buf (hlen + 24 + (res - hlen - 40) + i) <;> rfl

/-- The bytes start with an IPv4 header, and the packet that it announces is all there. -/
def Ipv4Packet (bytes : List UInt8) : Prop :=
  let ihl := (bytes.getD 0 0).toNat % 16
  let total := (bytes.getD 2 0).toNat * 256 + (bytes.getD 3 0).toNat
  (bytes.getD 0 0).toNat / 16 = 4 ∧ 5 ≤ ihl ∧ 4 * ihl ≤ total ∧ total ≤ bytes.length

/-- What the documentation of `vf_unpack` promises of an accepted packet. -/
def AcceptsWellFormed (A : Aead) (sec : Option SecCtx) (buf : Mem) (res : Nat) : Prop :=
  ∀ buf' plen, vfUnpack A sec buf res = (buf', some plen) →
    Identifies buf' res ∧ (buf' offMsgType = MsgType.data.code → Ipv4Packet (buf'.read hlen plen))

/-- One of the checks that `vf_unpack` makes fails: length, key, tag or padding. -/
def Refused (A : Aead) (sec : Option SecCtx) (buf : Mem) (res : Nat) : Prop :=
  ∀ text, bodyText A sec buf res = some text → strippedLen buf text.length = none

/-- The bytes of the received header that nothing looks at: `"VF"`, version 1, and the
length, high byte first. -/
structure Stamped (buf : Mem) (res : Nat) : Prop where
  magic : buf 0 = 0x56 ∧ buf 1 = 0x46
  version : buf 2 = 0x01
  length : (buf 4).toNat * 256 + (buf 5).toNat = res

/-- The received header is stamped, and a DATA packet carries an IPv4 packet. -/
def Genuine (A : Aead) (sec : Option SecCtx) (buf : Mem) (res : Nat) : Prop :=
  Stamped buf res ∧ (buf offMsgType = MsgType.data.code →
    ∀ text n, bodyText A sec buf res = some text → strippedLen buf text.length = some n →
      Ipv4Packet (text.take n))

theorem identifies_iff {m : Mem} {len : Nat} : Identifies m len ↔ Stamped m len := by
  have hmagic : bswap16 (m.load16 offMagic) = vfMagic ↔ m 0 = 0x56 ∧ m 1 = 0x46 := by
    rw [← UInt16.toNat_inj, toNat_bswap16_load16]
    have h0 := (m 0).toNat_lt
    have h1 := (m 1).toNat_lt
    simp only [← UInt8.toNat_inj, offMagic, vfMagic, Nat.zero_add, UInt16.reduceToNat,
      UInt8.reduceToNat]
    omega
  have hlen : (bswap16 (m.load16 offTotalLen)).toNat = len ↔
      (m 4).toNat * 256 + (m 5).toNat = len := by
    rw [toNat_bswap16_load16]
    rfl
  constructor
  · intro h
    exact ⟨hmagic.mp h.magic, h.version, hlen.mp h.totalLen⟩
  · intro h
    exact ⟨hmagic.mpr h.magic, h.version, hlen.mpr h.length⟩

theorem Stamped.congr {m m' : Mem} {len : Nat} (h : Stamped m len)
    (he : ∀ i, i < 6 → m' i = m i) : Stamped m' len := by
  refine ⟨?_, ?_, ?_⟩
  · rw [he 0 (by omega), he 1 (by omega)]
    exact h.magic
  · rw [he 2 (by omega)]
    exact h.version
  · rw [he 4 (by omega), he 5 (by omega)]
    exact h.length

/-- An accepted packet: the payload is the text without its padding, and the first header
bytes are as received. -/
theorem vfUnpack_accepted {A : Aead} {sec : Option SecCtx} {buf buf' : Mem} {res plen : Nat}
    (h : vfUnpack A sec buf res = (buf', some plen)) :
    ∃ text, bodyText A sec buf res = some text ∧ strippedLen buf text.length = some plen ∧
      buf'.read hlen plen = text.take plen ∧ ∀ i, i < 7 → buf' i = buf i := by
  have hf : ∀ i, i < 7 → buf' i = buf i := by
    intro i hi
    have hfr := vfUnpack_frame A sec buf res i (by simp [hlen]; omega) (by simp [offFlags]; omega)
    rwa [h] at hfr
  rw [vfUnpack_bodyText] at h
  cases ht : bodyText A sec buf res with
  | none =>
    rw [ht] at h
    cases h
  | some text =>
    rw [ht] at h
    obtain ⟨hs, hr⟩ := finishUnpack_some h
    exact ⟨text, rfl, hs, hr, hf⟩

/-- **Only well-formed packets are accepted** exactly when the packet is refused by a check
that `vf_unpack` makes, or happens to be well formed. -/
theorem accepts_well_formed_iff (A : Aead) (sec : Option SecCtx) (buf : Mem) (res : Nat) :
    AcceptsWellFormed A sec buf res ↔ Refused A sec buf res ∨ Genuine A sec buf res := by
  constructor
  · intro h
    by_cases hr : Refused A sec buf res
    · exact Or.inl hr
    right
    -- the packet is accepted, so the promise says what it looks like
    obtain ⟨text, hnot⟩ := not_forall.mp hr
    obtain ⟨ht, hs⟩ := Classical.not_imp.mp hnot
    obtain ⟨plen, hp⟩ := Option.ne_none_iff_exists'.mp hs
    have h2 : (vfUnpack A sec buf res).2 = some plen := by
      rw [vfUnpack_bodyText, ht]
      exact (finishUnpack_spec buf text).1.trans hp
    have hu : vfUnpack A sec buf res = ((vfUnpack A sec buf res).1, some plen) := Prod.ext rfl h2
    obtain ⟨text', ht', _, hread, hf⟩ := vfUnpack_accepted hu
    obtain ⟨hid, hip⟩ := h _ _ hu
    refine ⟨(identifies_iff.mp hid).congr fun i hi => (hf i (by omega)).symm, ?_⟩
    intro hty text'' n ht'' hn
    rw [ht] at ht' ht''
    cases ht'
    cases ht''
    rw [hp] at hn
    cases hn
    rw [← hread]
    exact hip (by rw [hf _ (by decide)]; exact hty)
  · rintro h buf' plen hu
    obtain ⟨text, ht, hs, hread, hf⟩ := vfUnpack_accepted hu
    rcases h with hr | ⟨hid, hip⟩
    · rw [hr text ht] at hs
      cases hs
    · refine ⟨identifies_iff.mpr (hid.congr fun i hi => hf i (by omega)), fun hty => ?_⟩
      rw [hread]
      exact hip (by rw [← hf _ (by decide)]; exact hty) text plen ht hs

/-- Acceptance does not depend on magic, version and total length. -/
theorem acceptance_ignores_identity (A : Aead) (sec : Option SecCtx) {buf buf' : Mem} {res : Nat}
    (h : ∀ i, i = offMsgType ∨ offKeyId ≤ i → buf' i = buf i) :
    (vfUnpack A sec buf' res).2 = (vfUnpack A sec buf res).2 := by
  have hread : ∀ off n, hlen ≤ off → buf'.read off n = buf.read off n := by
    intro off n ho
    exact read_congr _ _ _ _ fun i _ => h _ (Or.inr (by simp only [hlen, offKeyId] at *; omega))
  have hn : (fun i : Fin 24 => buf' (hlen + i)) = fun i : Fin 24 => buf (hlen + i) :=
    funext fun i => h _ (Or.inr (by simp [hlen, offKeyId]; omega))
  have ht : (fun i : Fin 16 => buf' (hlen + 24 + (res - hlen - 40) + i)) =
      fun i : Fin 16 => buf (hlen + 24 + (res - hlen - 40) + i) :=
    funext fun i => h _ (Or.inr (by simp [hlen, offKeyId]; omega))
  have hb : bodyText A sec buf' res = bodyText A sec buf res := by
    unfold bodyText
    rw [h offMsgType (Or.inl rfl), h offKeyId (Or.inr (Nat.le_refl _)), hread _ _ (Nat.le_refl _),
      hread (hlen + 24) _ (by omega), hn, ht]
  rw [vfUnpack_bodyText, vfUnpack_bodyText, hb]
  cases bodyText A sec buf res with
  | none => rfl
  | some text =>
    dsimp only
    rw [(finishUnpack_spec buf' text).1, (finishUnpack_spec buf text).1]
    unfold strippedLen
    rw [h offFlags (Or.inr (by decide)), h offPaddingLen (Or.inr (by decide))]

def bareHello : Mem := fun i => if i = 3 then MsgType.hello.code else 0

theorem bareHello_accepted : ¬ AcceptsWellFormed markAead none bareHello 28 := by
  intro h
  have hu : vfUnpack markAead none bareHello 28 = (bareHello, some 8) :=
    vfUnpack_plain markAead none bareHello 8 (by decide) (by decide)
  exact absurd (h _ _ hu).1.version (by decide)

end Vfast.Framing
