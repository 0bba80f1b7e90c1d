import Vfast.Lib.Writes
import Vfast.Wire

/-! Which bytes `vf_pack` writes, write by write in the order of the source. The logs
replay to the buffers of the model, so a bound on a log is a bound on the code. -/

namespace Vfast.PackWrites

open Bytes Key Crypto Protocol Wire Writes

/-! ## Logs of the parts -/

def noiseWrites (pPtr : Nat) : (n i : Nat) → (noise seed : UInt32) → List Write
  | 0, _, _, _ => []
  | n + 1, i, noise, seed =>
    let seed' := if i % 4 = 0 then vpnFastRand seed else seed
    let noise' := if i % 4 = 0 then vpnFastRand seed else noise
    let byte := (noise' >>> UInt32.ofNat (i % 4 * 8)).toUInt8
    ⟨pPtr + i, [byte]⟩ :: noiseWrites pPtr n (i + 1) noise' seed'

theorem replay_noiseWrites (pPtr n i : Nat) (noise seed : UInt32) (m : Mem) :
    replay m (noiseWrites pPtr n i noise seed) = (noiseLoop pPtr n i noise seed m).2 := by
  induction n generalizing i noise seed m with
  | zero => rfl
  | succ n ih =>
    simp only [noiseWrites, noiseLoop, replay_cons]
    exact ih ..

theorem covers_noiseWrites {pPtr n i a : Nat} {noise seed : UInt32}
    (h : Covers (noiseWrites pPtr n i noise seed) a) : pPtr + i ≤ a ∧ a < pPtr + i + n := by
  induction n generalizing i noise seed with
  | zero => exact absurd h (covers_nil a)
  | succ n ih =>
    rcases covers_cons.mp h with h | h
    · dsimp only [List.length_singleton] at h
      omega
    · have hrest := ih h
      omega

theorem noiseWrites_within {k : Nat} (pPtr n i : Nat) (noise seed : UInt32)
    (h : pPtr + i + n ≤ k) : Within k (noiseWrites pPtr n i noise seed) := fun _ ha =>
  Nat.lt_of_lt_of_le (covers_noiseWrites ha).2 h

def paddingWrites (seed : UInt32) (buf : Mem) (rawLen : Nat) (maxPad : UInt8) : List Write :=
  if rawLen = 0 then []
  else
    let consumed := hlen + rawLen
    if spareRoom rawLen ≤ 0 then [⟨offPaddingLen, [0]⟩]
    else
      let draw := vpnFastRand seed
      let pLen := UInt8.ofNat (draw.toNat % padBound rawLen maxPad)
      if pLen = 0 then [⟨offPaddingLen, [0]⟩]
      else
        let log := noiseWrites consumed pLen.toNat 0 0 draw ++ [⟨offPaddingLen, [pLen]⟩]
        log ++ [⟨offFlags, [replay buf log offFlags ||| flagPadding]⟩]

theorem replay_paddingWrites (seed : UInt32) (buf : Mem) (rawLen : Nat) (maxPad : UInt8) :
    replay buf (paddingWrites seed buf rawLen maxPad) =
      (vfApplyPadding seed buf rawLen maxPad).2.1 := by
  unfold paddingWrites vfApplyPadding
  split
  · rfl
  dsimp only
  split
  · rfl
  split
  · rfl
  · simp only [replay_append, replay_cons, replay_nil, replay_noiseWrites]

/-- The writes of `vf_encrypt`: the move of the plaintext when it works in place, then
ciphertext, tag and nonce. -/
def encryptWrites (A : Aead) (g : NonceGen) (rd : Urandom) (key : Block 32) (m : Mem)
    (plain len out : Nat) : List Write :=
  let localNonce := (getFastNonce g rd).2
  let cipherPtr := out + cryptoNonceSize
  let tagPtr := cipherPtr + len
  let moved := if plain = out then [⟨cipherPtr, m.read plain len⟩] else []
  let src := if plain = out then cipherPtr else plain
  let ct := A.lock key localNonce [] ((replay m moved).read src len)
  moved ++ [⟨cipherPtr, ct.1⟩, ⟨tagPtr, ct.2.toList⟩, ⟨out, localNonce.toList⟩]

theorem replay_encryptWrites (A : Aead) (g : NonceGen) (rd : Urandom) (key : Block 32) (m : Mem)
    (plain len out : Nat) :
    replay m (encryptWrites A g rd key m plain len out) =
      (vfEncrypt A g rd key m plain len out).2.1 := by
  unfold encryptWrites vfEncrypt
  by_cases h : plain = out
  · simp only [h, if_true, replay_append, replay_cons, replay_nil]
  · simp only [h, if_false, replay_append, replay_cons, replay_nil]

def headerWrites (totalSz : Nat) (type : UInt8) (sid kid : UInt32) : List Write :=
  if totalSz > bufSize then []
  else
    [⟨offMagic, le16 (bswap16 vfMagic)⟩, ⟨offVersion, [vpnVersion]⟩, ⟨offMsgType, [type]⟩,
      ⟨offTotalLen, le16 (bswap16 (UInt16.ofNat totalSz))⟩, ⟨offKeyId, [lowByte kid]⟩,
      ⟨offFlags, [0]⟩, ⟨offSessionId, le32 (bswap32 sid)⟩]

theorem replay_headerWrites (m : Mem) (totalSz : Nat) (type : UInt8) (sid kid : UInt32) :
    replay m (headerWrites totalSz type sid kid) = vfFillHeader m totalSz type sid kid := by
  unfold headerWrites vfFillHeader
  split <;> rfl

def obfsWrites (buf : Mem) (wireLen : Nat) : List Write :=
  if wireLen < hlen then []
  else
    let key := obfsKey buf
    let masked : Write := ⟨offSessionId, le32 (buf.load32 offSessionId ^^^ key)⟩
    [masked, ⟨0, le32 ((replay buf [masked]).load32 0 ^^^ headMask key)⟩]

theorem replay_obfsWrites (m : Mem) (wireLen : Nat) :
    replay m (obfsWrites m wireLen) = vfApplyHeaderObfs m wireLen := by
  unfold obfsWrites vfApplyHeaderObfs
  split <;> rfl

/-- Header and masking stay in the first 20 bytes. -/
theorem headerWrites_within (totalSz : Nat) (type : UInt8) (sid kid : UInt32) :
    Within hlen (headerWrites totalSz type sid kid) := by
  unfold headerWrites
  split
  · exact within_nil _
  · simp [within_cons, within_nil, offMagic, offVersion, offMsgType, offTotalLen, offKeyId,
      offFlags, offSessionId, hlen]

theorem obfsWrites_within (buf : Mem) (wireLen : Nat) : Within hlen (obfsWrites buf wireLen) := by
  unfold obfsWrites
  split
  · exact within_nil _
  · simp [within_cons, within_nil, offSessionId, hlen]

/-! ## The log of `vf_pack` -/

/-- Steps 3 and 4 of `vf_pack`. -/
def finishWrites (buf : Mem) (outLen maxSize : Nat) (type : MsgType) (sid kid : UInt32) :
    List Write :=
  let tlen := hlen + outLen
  let header := headerWrites tlen type.code sid kid
  if tlen > maxSize then header else header ++ obfsWrites (replay buf header) tlen

theorem replay_finishWrites (m : Mem) (outLen maxSize : Nat) (type : MsgType) (sid kid : UInt32) :
    replay m (finishWrites m outLen maxSize type sid kid) =
      (finishPack m outLen maxSize type sid kid).1 := by
  unfold finishWrites finishPack
  dsimp only
  split
  · exact replay_headerWrites ..
  · rw [replay_append, replay_obfsWrites, replay_headerWrites]

theorem finishWrites_within (buf : Mem) (outLen maxSize : Nat) (type : MsgType)
    (sid kid : UInt32) : Within hlen (finishWrites buf outLen maxSize type sid kid) := by
  unfold finishWrites
  dsimp only
  split
  · exact headerWrites_within _ _ _ _
  · exact within_append.mpr ⟨headerWrites_within _ _ _ _, obfsWrites_within _ _⟩

section

variable (A : Aead) (st : Statics) (rd : Urandom) (sec : Option SecCtx) (buf : Mem)
  (plen maxSize : Nat) (type : MsgType) (sid : UInt32)

/-- Every write of `vf_pack`, also when it returns -1. -/
def packWrites : List Write :=
  let padding := paddingWrites st.localSeed buf plen 32
  let iPlen := (vfApplyPadding st.localSeed buf plen 32).2.2
  match packSec sec type with
  | none => padding ++ finishWrites (replay buf padding) iPlen maxSize type sid 0
  | some ctx =>
    let enc :=
      encryptWrites A st.nonceGen rd (vfRekeyGetKey ctx) (replay buf padding) hlen iPlen hlen
    padding ++ (enc ++ finishWrites (replay (replay buf padding) enc) (cryptoNonceSize + iPlen +
      cryptoTagSize) maxSize type sid (vfRekeyGetKeyid ctx))

/-- **The log is the code's**: replayed, it gives the buffer that `vf_pack` leaves. -/
theorem replay_packWrites :
    replay buf (packWrites A st rd sec buf plen maxSize type sid) =
      (vfPack A st rd sec buf plen maxSize type sid).2.1 := by
  unfold packWrites vfPack
  cases packSec sec type with
  | none =>
    simp only [replay_append, replay_finishWrites, replay_paddingWrites]
  | some ctx =>
    simp only [replay_append, replay_finishWrites, replay_paddingWrites, replay_encryptWrites]
    rfl

end

/-! ## Bounds -/

theorem byte_within {n off : Nat} (b : UInt8) (h : off < n) : Within n [⟨off, [b]⟩] :=
  within_singleton.mpr (Or.inr h)

/-- Padding stays in the buffer: it is drawn below the room that is left. -/
theorem paddingWrites_within (seed : UInt32) (buf : Mem) (rawLen : Nat) {maxPad : UInt8}
    (hm : 0 < maxPad.toNat) : Within bufSize (paddingWrites seed buf rawLen maxPad) := by
  have hoff : offPaddingLen < bufSize := by decide
  unfold paddingWrites
  split
  · exact within_nil _
  dsimp only
  split
  · exact byte_within 0 hoff
  rename_i hs
  split
  · exact byte_within 0 hoff
  refine within_append.mpr ⟨within_append.mpr ⟨noiseWrites_within _ _ _ _ _ ?_, byte_within _ hoff⟩,
    byte_within _ (by decide)⟩
  generalize (vpnFastRand seed).toNat = draw
  have hroom : 0 < padBound rawLen maxPad ∧ padBound rawLen maxPad ≤ (spareRoom rawLen).toNat := by
    unfold padBound
    split <;> omega
  have hlt := Nat.mod_lt draw hroom.1
  have hb : (UInt8.ofNat (draw % padBound rawLen maxPad)).toNat ≤
      draw % padBound rawLen maxPad := by
    rw [UInt8.toNat_ofNat']
    exact Nat.mod_le _ _
  have hfree : (hlen + rawLen) + (spareRoom rawLen).toNat ≤ bufSize := by
    unfold spareRoom at hs ⊢
    omega
  omega

/-- **In-place encryption** needs 40 bytes behind the plaintext. -/
theorem encryptWrites_within (A : Aead) (g : NonceGen) (rd : Urandom) (key : Block 32) (m : Mem)
    (len out n : Nat) :
    Within n (encryptWrites A g rd key m out len out) ↔ out + len + 40 ≤ n := by
  unfold encryptWrites
  simp only [if_true, within_append, within_cons, within_nil, length_read, A.length_lock,
    Block.length_toList, cryptoNonceSize]
  constructor
  · rintro ⟨_, _, htag | htag, _⟩
    · have := congrArg List.length htag
      simp at this
    · omega
  · intro h
    refine ⟨⟨Or.inr (by omega), trivial⟩, Or.inr (by omega), Or.inr (by omega), Or.inr (by omega),
      trivial⟩

/-- The padding drawn for the payload leaves room for nonce and tag. -/
def Fits (seed : UInt32) (plen : Nat) : Prop :=
  plen ≤ 1988 ∧ (vpnFastRand seed).toNat % min 32 (1996 - plen) ≤ 1988 - plen

instance (seed : UInt32) (plen : Nat) : Decidable (Fits seed plen) := by
  unfold Fits
  infer_instance

theorem fits_iff (seed : UInt32) (plen : Nat) :
    Fits seed plen ↔ hlen + (plen + padLen seed plen 32) + 40 ≤ bufSize := by
  unfold Fits
  simp only [hlen, bufSize]
  by_cases h0 : plen = 0
  · subst h0
    have hdraw := Nat.mod_lt (vpnFastRand seed).toNat (show 0 < min 32 (1996 - 0) by decide)
    rw [padLen, if_pos (.inl rfl)]
    omega
  by_cases h1 : 1996 ≤ plen
  · rw [padLen_full seed h1]
    omega
  · rw [padLen_drawn seed (by omega) (by omega)]
    omega

section

variable (A : Aead) (st : Statics) (rd : Urandom) (sec : Option SecCtx) (buf : Mem)
  (plen : Nat) (type : MsgType) (sid : UInt32)

/-- In the clear `vf_pack` writes padding and header only. -/
theorem packWrites_clear (h : packSec sec type = none) :
    Within bufSize (packWrites A st rd sec buf plen bufSize type sid) := by
  unfold packWrites
  rw [h]
  exact within_append.mpr ⟨paddingWrites_within _ _ _ (by decide),
    (finishWrites_within _ _ _ _ _ _).mono (by decide)⟩

theorem packWrites_sealed {ctx : SecCtx} (h : packSec sec type = some ctx) :
    Within bufSize (packWrites A st rd sec buf plen bufSize type sid) ↔ Fits st.localSeed plen := by
  have hpad : Within bufSize (paddingWrites st.localSeed buf plen 32) :=
    paddingWrites_within _ _ _ (by decide)
  have hfin : ∀ m n kid, Within bufSize (finishWrites m n bufSize type sid kid) := fun m n kid =>
    (finishWrites_within _ _ _ _ _ _).mono (by decide)
  unfold packWrites
  rw [h]
  simp only [within_append, hpad, hfin, true_and, and_true, encryptWrites_within,
    vfApplyPadding_len]
  exact (fits_iff _ _).symm

/-- **`vf_pack` stays inside its buffer** exactly when it does not encrypt or the payload
leaves room for padding, nonce and tag. -/
theorem pack_within_iff :
    Within bufSize (packWrites A st rd sec buf plen bufSize type sid) ↔
      sec = none ∨ bypassesAead type.code = true ∨ Fits st.localSeed plen := by
  by_cases hb : bypassesAead type.code = true
  · have h : packSec sec type = none := if_pos hb
    simp [hb, packWrites_clear A st rd sec buf plen type sid h]
  cases sec with
  | none => simp [packWrites_clear A st rd none buf plen type sid (by simp [packSec])]
  | some ctx =>
    have h : packSec (some ctx) type = some ctx := if_neg hb
    simp [hb, packWrites_sealed A st rd _ buf plen type sid h]

/-- What lies behind the task buffer is then as before. -/
theorem vfPack_beyond (h : Within bufSize (packWrites A st rd sec buf plen bufSize type sid))
    {i : Nat} (hi : bufSize ≤ i) :
    (vfPack A st rd sec buf plen bufSize type sid).2.1 i = buf i := by
  rw [← replay_packWrites]
  exact h.replay_beyond hi

end

/-- The longest packet that `server_on_tun` takes is sealed 40 bytes past the end. -/
theorem full_packet_overflows :
    (20 ≤ 2028 ∧ 2028 ≤ bufSize - hlen) ∧
      ¬ Within bufSize (packWrites markAead ⟨0x5EED5EED, .init⟩ none
        (some (vfRekeyInit 10 (some fun _ => 5) 0)) (fun _ => 0) 2028 bufSize .data 10) := by
  refine ⟨by decide, ?_⟩
  rw [packWrites_sealed _ _ _ _ _ _ _ _ rfl]
  decide

end Vfast.PackWrites
