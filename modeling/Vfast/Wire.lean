import Vfast.Protocol

/-! The wire image of a packet: which bytes `vf_pack` leaves in the buffer, what
masking changes, and what `vf_unpack` makes of a received buffer. Callers use
`vfPack_result`, `vfPack_unmasked` and `vfUnpack_plain` / `vfUnpack_sealed`
instead of the definitions. -/

namespace Vfast.Wire

open Bytes Key Crypto Protocol

/-! ## The header -/

def headerBytes (totalSz : Nat) (type : UInt8) (sid kid : UInt32) : List UInt8 :=
  le16 (bswap16 vfMagic) ++ ([vpnVersion] ++ ([type] ++ (le16 (bswap16 (UInt16.ofNat totalSz)) ++
    ([lowByte kid] ++ ([0] ++ le32 (bswap32 sid))))))

@[simp] theorem length_headerBytes (totalSz : Nat) (type : UInt8) (sid kid : UInt32) :
    (headerBytes totalSz type sid kid).length = 12 := by
  simp [headerBytes]

theorem vfFillHeader_eq (buf : Mem) (totalSz : Nat) (type : UInt8) (sid kid : UInt32)
    (h : totalSz ≤ bufSize) :
    vfFillHeader buf totalSz type sid kid = buf.write 0 (headerBytes totalSz type sid kid) := by
  unfold vfFillHeader
  rw [if_neg (by omega)]
  simp only [headerBytes, write_append, length_le16, List.length_singleton]
  rfl

/-- A buffer whose header was filled in and whose body starts behind the header. -/
structure HasHeader (m : Mem) (totalSz : Nat) (type : UInt8) (sid kid : UInt32) : Prop where
  bytes : m.read 0 12 = headerBytes totalSz type sid kid

section HasHeader

variable {m : Mem} {totalSz : Nat} {type : UInt8} {sid kid : UInt32}

theorem HasHeader.msgType (h : HasHeader m totalSz type sid kid) : m offMsgType = type := by
  have := read_apply_of_eq h.bytes 3 (by omega)
  simpa [headerBytes, le16, leBytes, offMsgType] using this

theorem HasHeader.magic (h : HasHeader m totalSz type sid kid) :
    bswap16 (m.load16 offMagic) = vfMagic := by
  have hb : m.read 0 12 = le16 (bswap16 vfMagic) ++ _ := h.bytes
  have hr := read_left hb
  rw [length_le16] at hr
  rw [offMagic, load16_of_read m 0 _ hr, bswap16_bswap16]

theorem HasHeader.version (h : HasHeader m totalSz type sid kid) : m offVersion = vpnVersion := by
  have := read_apply_of_eq h.bytes 2 (by omega)
  simpa [headerBytes, le16, leBytes, offVersion] using this

theorem HasHeader.totalLen (h : HasHeader m totalSz type sid kid) :
    bswap16 (m.load16 offTotalLen) = UInt16.ofNat totalSz := by
  have hb : m.read 0 12 = (le16 (bswap16 vfMagic) ++ ([vpnVersion] ++ [type])) ++
      (le16 (bswap16 (UInt16.ofNat totalSz)) ++
        ([lowByte kid] ++ ([0] ++ le32 (bswap32 sid)))) := by
    simp [h.bytes, headerBytes]
  have hr := read_left (read_right hb)
  simp only [List.length_append, length_le16, List.length_singleton, Nat.zero_add] at hr
  rw [offTotalLen, load16_of_read m 4 _ hr, bswap16_bswap16]

theorem HasHeader.keyId (h : HasHeader m totalSz type sid kid) : m offKeyId = lowByte kid := by
  have := read_apply_of_eq h.bytes 6 (by omega)
  simpa [headerBytes, le16, leBytes, offKeyId] using this

theorem HasHeader.flags (h : HasHeader m totalSz type sid kid) : m offFlags = 0 := by
  have := read_apply_of_eq h.bytes 7 (by omega)
  simpa [headerBytes, le16, leBytes, offFlags] using this

theorem HasHeader.sessionId (h : HasHeader m totalSz type sid kid) :
    bswap32 (m.load32 offSessionId) = sid := by
  have hr : m.read 8 4 = le32 (bswap32 sid) := by
    have h8 : m.read 0 (8 + 4) = headerBytes totalSz type sid kid := h.bytes
    rw [read_add] at h8
    have hl : headerBytes totalSz type sid kid =
        (le16 (bswap16 vfMagic) ++ ([vpnVersion] ++ ([type] ++
          (le16 (bswap16 (UInt16.ofNat totalSz)) ++ ([lowByte kid] ++ [0]))))) ++
            le32 (bswap32 sid) := by
      simp [headerBytes]
    rw [hl] at h8
    simpa using (List.append_inj h8 (by simp)).2
  rw [offSessionId, load32_of_read m 8 _ hr, bswap32_bswap32]

theorem HasHeader.congr (h : HasHeader m totalSz type sid kid) {m' : Mem}
    (he : ∀ i, i < 12 → m' i = m i) : HasHeader m' totalSz type sid kid := by
  constructor
  rw [← h.bytes]
  exact read_congr _ _ _ _ fun i hi => by simpa using he i hi

end HasHeader

/-! ## Masking -/

/-- Both directions of the mask: the first word and the session id are xored. -/
def maskHeader (key : UInt32) (m : Mem) : Mem :=
  (m.write 0 (le32 (m.load32 0 ^^^ headMask key))).write offSessionId
    (le32 (m.load32 offSessionId ^^^ key))

theorem vfRemoveHeaderObfs_eq (m : Mem) (wireLen : Nat) (h : hlen ≤ wireLen) :
    vfRemoveHeaderObfs m wireLen = maskHeader (obfsKey m) m := by
  unfold vfRemoveHeaderObfs maskHeader
  rw [if_neg (by omega)]
  dsimp only
  rw [load32_write_disjoint _ 0 offSessionId _ (Or.inr (by simp [offSessionId]))]

theorem vfApplyHeaderObfs_eq (m : Mem) (wireLen : Nat) (h : hlen ≤ wireLen) :
    vfApplyHeaderObfs m wireLen = maskHeader (obfsKey m) m := by
  unfold vfApplyHeaderObfs maskHeader
  rw [if_neg (by omega)]
  dsimp only
  rw [load32_write_disjoint _ offSessionId 0 _ (Or.inl (by simp [offSessionId]))]
  exact write_comm _ _ _ _ _ (Or.inr (by simp [offSessionId]))

/-- Masking changes bytes 0–3 and 8–11 only. -/
theorem maskHeader_frame (key : UInt32) (m : Mem) (i : Nat) (h : 12 ≤ i ∨ (4 ≤ i ∧ i < 8)) :
    maskHeader key m i = m i := by
  unfold maskHeader
  rw [write_of_not_mem _ _ _ _ (by simp [offSessionId]; omega),
    write_of_not_mem _ _ _ _ (by simp; omega)]

@[simp] theorem obfsKey_maskHeader (key : UInt32) (m : Mem) :
    obfsKey (maskHeader key m) = obfsKey m := by
  unfold obfsKey
  rw [load32_congr _ m offSeqNum fun i _ =>
    maskHeader_frame key m _ (by simp [offSeqNum])]

/-- Masking twice with one key is the identity. -/
theorem maskHeader_maskHeader (key : UInt32) (m : Mem) :
    maskHeader key (maskHeader key m) = m := by
  have h8 : (maskHeader key m).load32 offSessionId = m.load32 offSessionId ^^^ key := by
    simp [maskHeader]
  have h0 : (maskHeader key m).load32 0 = m.load32 0 ^^^ headMask key := by
    unfold maskHeader
    rw [load32_write_disjoint _ _ _ _ (Or.inl (by simp [offSessionId]))]
    simp
  have hx : ∀ a b : UInt32, a ^^^ b ^^^ b = a := by
    intro a b
    rw [UInt32.xor_assoc, UInt32.xor_self, UInt32.xor_zero]
  unfold maskHeader at h8 h0 ⊢
  rw [h8, h0, hx, hx, write_comm _ offSessionId 0 _ _ (Or.inr (by simp [offSessionId])),
    write_write _ 0 _ _ (by simp), write_write _ offSessionId _ _ (by simp),
    le32_load32, le32_load32, write_read_self, write_read_self]

/-- A sequence number that makes the key zero switches the mask off. -/
theorem maskHeader_zero (m : Mem) : maskHeader 0 m = m := by
  have h0 : headMask 0 = 0 := rfl
  unfold maskHeader
  rw [h0, UInt32.xor_zero, UInt32.xor_zero, le32_load32, le32_load32, write_read_self,
    write_read_self]

/-- **Unmasking undoes masking.** -/
theorem vfRemoveHeaderObfs_apply (m : Mem) (wireLen : Nat) :
    vfRemoveHeaderObfs (vfApplyHeaderObfs m wireLen) wireLen = m := by
  by_cases h : wireLen < hlen
  · simp [vfRemoveHeaderObfs, vfApplyHeaderObfs, h]
  · rw [vfApplyHeaderObfs_eq m wireLen (by omega), vfRemoveHeaderObfs_eq _ wireLen (by omega),
      obfsKey_maskHeader, maskHeader_maskHeader]

/-- Unmasking a received copy of a packet: only the header decides, and a copy
stays a copy. -/
theorem vfRemoveHeaderObfs_congr (m m' : Mem) (n : Nat) (hn : hlen ≤ n)
    (h : ∀ i, i < n → m i = m' i) :
    ∀ i, i < n → vfRemoveHeaderObfs m n i = vfRemoveHeaderObfs m' n i := by
  have hl : ∀ off, off + 4 ≤ n → m.load32 off = m'.load32 off := by
    intro off hoff
    exact load32_congr _ _ _ fun i hi => h _ (by omega)
  have hk : obfsKey m = obfsKey m' := by
    unfold obfsKey
    rw [hl offSeqNum (by simp [offSeqNum, hlen] at *; omega)]
  intro i hi
  rw [vfRemoveHeaderObfs_eq m n hn, vfRemoveHeaderObfs_eq m' n hn, hk]
  unfold maskHeader
  rw [hl 0 (by simp [hlen] at *; omega), hl offSessionId (by simp [offSessionId, hlen] at *; omega)]
  simp only [write_apply, h i hi]

/-! ## What `vf_pack` sends -/

section Pack

variable (A : Aead) (st : Statics) (rd : Urandom) (sec : Option SecCtx) (buf : Mem)
  (plen maxSize : Nat) (type : MsgType) (sid : UInt32)

def padded : List UInt8 := buf.read hlen plen ++ padTail st.localSeed plen 32

def sealedBody (ctx : SecCtx) (text : List UInt8) : List UInt8 :=
  (nextNonce st.nonceGen rd).toList ++
    ((A.lock (vfRekeyGetKey ctx) (nextNonce st.nonceGen rd) [] text).1 ++
      (A.lock (vfRekeyGetKey ctx) (nextNonce st.nonceGen rd) [] text).2.toList)

def packBody : List UInt8 :=
  match packSec sec type with
  | none => padded st buf plen
  | some ctx => sealedBody A st rd ctx (padded st buf plen)

def packKid : UInt32 :=
  match packSec sec type with
  | none => 0
  | some ctx => vfRekeyGetKeyid ctx

theorem length_padded : (padded st buf plen).length = plen + padLen st.localSeed plen 32 := by
  simp [padded]

theorem length_sealedBody (ctx : SecCtx) (text : List UInt8) :
    (sealedBody A st rd ctx text).length = text.length + 40 := by
  simp only [sealedBody, List.length_append, Block.length_toList, A.length_lock]
  omega

theorem vfPack_finish : ∃ m, (vfPack A st rd sec buf plen maxSize type sid).2 =
      finishPack m (packBody A st rd sec buf plen type).length maxSize type sid
        (packKid sec type) ∧
    m.read hlen (packBody A st rd sec buf plen type).length =
      packBody A st rd sec buf plen type := by
  have hr := vfApplyPadding_read st.localSeed buf plen 32
  have hl := vfApplyPadding_len st.localSeed buf plen 32
  unfold vfPack packBody packKid
  cases packSec sec type with
  | none =>
    refine ⟨(vfApplyPadding st.localSeed buf plen 32).2.1, ?_, ?_⟩
    · simp only [length_padded, ← hl]
    · simp only [length_padded, ← hl]
      exact hr
  | some ctx =>
    have hm := vfEncrypt_inplace A st.nonceGen rd (vfRekeyGetKey ctx)
      (vfApplyPadding st.localSeed buf plen 32).2.1
      (vfApplyPadding st.localSeed buf plen 32).2.2 hlen
    rw [hr] at hm
    refine ⟨(vfEncrypt A st.nonceGen rd (vfRekeyGetKey ctx)
        (vfApplyPadding st.localSeed buf plen 32).2.1 hlen
        (vfApplyPadding st.localSeed buf plen 32).2.2 hlen).2.1, ?_, ?_⟩
    · simp only [vfEncrypt_len, length_sealedBody, length_padded, hl]
    · rw [hm]
      exact read_write _ _ _

/-- **Length**: `vf_pack` fails exactly when header and body exceed the buffer. -/
theorem vfPack_result : (vfPack A st rd sec buf plen maxSize type sid).2.2 =
    if hlen + (packBody A st rd sec buf plen type).length > maxSize then none
    else some (hlen + (packBody A st rd sec buf plen type).length) := by
  obtain ⟨m, h, _⟩ := vfPack_finish A st rd sec buf plen maxSize type sid
  rw [h]
  dsimp only [finishPack]
  split <;> rfl

/-- **Content**: once the mask is off, a sent packet has the header and the body
that were packed. -/
theorem vfPack_unmasked {tlen : Nat} (hmax : maxSize ≤ bufSize)
    (h : (vfPack A st rd sec buf plen maxSize type sid).2.2 = some tlen) :
    tlen = hlen + (packBody A st rd sec buf plen type).length ∧ tlen ≤ maxSize ∧
    HasHeader (vfRemoveHeaderObfs (vfPack A st rd sec buf plen maxSize type sid).2.1 tlen)
      tlen type.code sid (packKid sec type) ∧
    (vfRemoveHeaderObfs (vfPack A st rd sec buf plen maxSize type sid).2.1 tlen).read hlen
      (packBody A st rd sec buf plen type).length = packBody A st rd sec buf plen type := by
  obtain ⟨m, hf, hr⟩ := vfPack_finish A st rd sec buf plen maxSize type sid
  rw [hf] at h ⊢
  generalize packBody A st rd sec buf plen type = body at hr h ⊢
  unfold finishPack at h ⊢
  by_cases hgt : hlen + body.length > maxSize
  · simp [hgt] at h
  · simp only [hgt, if_false, Option.some.injEq] at h ⊢
    subst h
    rw [vfRemoveHeaderObfs_apply, vfFillHeader_eq _ _ _ _ _ (by omega)]
    refine ⟨rfl, by omega, ⟨read_write_len _ _ _ _ (by simp)⟩, ?_⟩
    rw [read_write_disjoint _ _ _ _ _ (Or.inr (by simp [hlen]))]
    exact hr

end Pack

/-! ## What `vf_unpack` accepts -/

theorem finishUnpack_clear (m : Mem) (n : Nat) (h : m offFlags = 0) :
    finishUnpack m n = (m, some n) := by
  have hrm : vfRemovePadding m (n + hlen) = some (m, n + hlen) := by simp [vfRemovePadding, h]
  simp [finishUnpack, hrm]

/-- A handshake packet with the padding flag clear is returned whole. -/
theorem vfUnpack_plain (A : Aead) (sec : Option SecCtx) (m : Mem) (n : Nat)
    (hty : bypassesAead (m offMsgType) = true) (hfl : m offFlags = 0) :
    vfUnpack A sec m (hlen + n) = (m, some n) := by
  simp [vfUnpack, hty, finishUnpack_clear m n hfl]

/-- The sealed branch on a buffer that holds nonce, ciphertext and tag. -/
theorem vfUnpack_sealed (A : Aead) (ctx : SecCtx) (m : Mem) (nonce : Block 24)
    (c : List UInt8) (t : Block 16) (hty : bypassesAead (m offMsgType) = false)
    (hb : m.read hlen (24 + (c.length + 16)) = nonce.toList ++ (c ++ t.toList)) :
    vfUnpack A (some ctx) m (hlen + (c.length + 40)) =
      match vfRekeyGetDecryptKey ctx (m offKeyId) with
      | none => (m, none)
      | some key =>
        match A.unlock key nonce [] c t with
        | none => (m, none)
        | some p => finishUnpack (m.write hlen p) c.length := by
  have hdec := fun key => vfDecrypt_of_layout A key m hlen hlen nonce c t hb
  unfold vfUnpack
  rw [if_neg (by omega)]
  simp only [hty, Nat.add_sub_cancel_left, Bool.false_eq_true, if_false]
  cases vfRekeyGetDecryptKey ctx (m offKeyId) with
  | none => rfl
  | some key =>
    simp only [hdec]
    cases A.unlock key nonce [] c t <;> rfl

theorem vfRemovePadding_frame {m m' : Mem} {n k : Nat} (h : vfRemovePadding m n = some (m', k))
    (i : Nat) (hi : i ≠ offFlags) : m' i = m i := by
  unfold vfRemovePadding at h
  split at h
  · cases h
  split at h
  · dsimp only at h
    split at h
    · cases h
      exact write_of_not_mem _ _ _ _ (by simp; omega)
    · cases h
  · cases h
    rfl

theorem vfDecrypt_frame {A : Aead} {key : Block 32} {m m' : Mem} {packet n out k : Nat}
    (h : vfDecrypt A key m packet n out = .ok (m', k)) (i : Nat) (hi : i < out) : m' i = m i := by
  unfold vfDecrypt at h
  split at h
  · cases h
  dsimp only at h
  split at h
  · cases h
  · cases h
    exact write_of_lt _ _ _ _ hi

/-- Of the header `vf_unpack` changes the flags only. -/
theorem vfUnpack_frame (A : Aead) (sec : Option SecCtx) (m : Mem) (res i : Nat) (hi : i < hlen)
    (hf : i ≠ offFlags) : (vfUnpack A sec m res).1 i = m i := by
  have hpad : ∀ (m' : Mem) (dlen : Nat), m' i = m i → (finishUnpack m' dlen).1 i = m i := by
    intro m' dlen he
    unfold finishUnpack
    cases hr : vfRemovePadding m' (dlen + hlen) with
    | none => exact he
    | some r => exact (vfRemovePadding_frame hr i hf).trans he
  unfold vfUnpack
  split
  · rfl
  split
  · exact hpad m (res - hlen) rfl
  cases sec with
  | none => rfl
  | some ctx =>
    dsimp only
    cases vfRekeyGetDecryptKey ctx (m offKeyId) with
    | none => rfl
    | some key =>
      dsimp only
      cases hv : vfDecrypt A key m hlen (res - hlen) hlen with
      | error e => rfl
      | ok r => exact hpad r.1 r.2 (vfDecrypt_frame hv i hi)

/-- The handshake types are accepted or not whatever the context. -/
theorem vfUnpack_bypass (A : Aead) (sec : Option SecCtx) {m : Mem} {res : Nat}
    (h : bypassesAead (m offMsgType) = true) : vfUnpack A sec m res = vfUnpack A none m res := by
  simp [vfUnpack, h]

end Vfast.Wire
