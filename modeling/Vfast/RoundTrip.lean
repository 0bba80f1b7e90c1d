import Vfast.Wire

/-! Packing followed by unpacking. `vfUnpack_packed` says what a receiver gets
from a packet it has the key for: the payload together with its padding,
because `vf_fill_header` clears the flag that `vf_apply_padding` set. -/

namespace Vfast.RoundTrip

open Bytes Key Crypto Protocol Wire

/-- The receiver can open what `vf_pack` made with `sec`: plain packets always,
sealed ones when the key id in the header selects the sender's key. -/
structure CanOpen (sec rsec : Option SecCtx) (type : MsgType) : Prop where
  plain : packSec sec type = none → bypassesAead type.code = true
  key : ∀ ctx, packSec sec type = some ctx → ∃ rctx, rsec = some rctx ∧
    vfRekeyGetDecryptKey rctx (lowByte (vfRekeyGetKeyid ctx)) = some (vfRekeyGetKey ctx)

theorem packSec_some {sec : Option SecCtx} {type : MsgType} {ctx : SecCtx}
    (h : packSec sec type = some ctx) : bypassesAead type.code = false ∧ sec = some ctx := by
  unfold packSec at h
  split at h
  · cases h
  · rename_i hb
    exact ⟨by simpa using hb, h⟩

theorem canOpen_self (ctx : SecCtx) (type : MsgType) : CanOpen (some ctx) (some ctx) type := by
  constructor
  · intro h
    unfold packSec at h
    split at h
    · assumption
    · cases h
  · intro c hc
    obtain rfl : ctx = c := Option.some.inj (packSec_some hc).2
    exact ⟨ctx, rfl, getDecryptKey_active ctx⟩

/-- **Unpacking a packed buffer** returns the padded payload and keeps the header. -/
theorem vfUnpack_packed {A : Aead} (hA : A.Inverts) {st : Statics} {rd : Urandom}
    {sec rsec : Option SecCtx} {buf m : Mem} {plen total : Nat} {type : MsgType} {sid : UInt32}
    (ho : CanOpen sec rsec type) (hh : HasHeader m total type.code sid (packKid sec type))
    (hb : m.read hlen (packBody A st rd sec buf plen type).length =
      packBody A st rd sec buf plen type) :
    ∃ m', vfUnpack A rsec m (hlen + (packBody A st rd sec buf plen type).length) =
        (m', some (padded st buf plen).length) ∧
      m'.read hlen (padded st buf plen).length = padded st buf plen ∧
      ∀ i, i < hlen → m' i = m i := by
  unfold packBody at hb ⊢
  cases hs : packSec sec type with
  | none =>
    simp only [hs] at hb ⊢
    have hty : bypassesAead (m offMsgType) = true := by rw [hh.msgType]; exact ho.plain hs
    exact ⟨m, vfUnpack_plain A rsec m _ hty hh.flags, hb, fun _ _ => rfl⟩
  | some ctx =>
    simp only [hs] at hb ⊢
    obtain ⟨rctx, rfl, hkey⟩ := ho.key ctx hs
    have hty : bypassesAead (m offMsgType) = false := by
      rw [hh.msgType]
      exact (packSec_some hs).1
    have hkid : packKid sec type = vfRekeyGetKeyid ctx := by simp [packKid, hs]
    generalize hc : A.lock (vfRekeyGetKey ctx) (nextNonce st.nonceGen rd) []
      (padded st buf plen) = c at *
    have hcl : c.1.length = (padded st buf plen).length := by rw [← hc, A.length_lock]
    have hinv := hA (vfRekeyGetKey ctx) (nextNonce st.nonceGen rd) [] (padded st buf plen)
    rw [hc] at hinv
    have hb' : m.read hlen (24 + (c.1.length + 16)) =
        (nextNonce st.nonceGen rd).toList ++ (c.1 ++ c.2.toList) := by
      have hl := length_sealedBody A st rd ctx (padded st buf plen)
      rw [hl] at hb
      rw [show 24 + (c.1.length + 16) = (padded st buf plen).length + 40 by omega, hb, ← hc]
      rfl
    have hun := vfUnpack_sealed A rctx m _ c.1 c.2 hty hb'
    rw [hh.keyId, hkid, hkey] at hun
    simp only [hinv] at hun
    have hfl : (m.write hlen (padded st buf plen)) offFlags = 0 := by
      rw [write_of_lt _ _ _ _ (by simp [offFlags, hlen])]
      exact hh.flags
    rw [finishUnpack_clear _ _ hfl] at hun
    refine ⟨m.write hlen (padded st buf plen), ?_, read_write _ _ _, fun i hi =>
      write_of_lt _ _ _ _ hi⟩
    rw [length_sealedBody, ← hcl]
    simpa using hun

def Received (sent rbuf : Mem) (tlen : Nat) : Prop := ∀ i, i < tlen → rbuf i = sent i

theorem received_of_read {sent rbuf : Mem} {len tlen : Nat}
    (h : rbuf.read 0 len = sent.read 0 tlen) : len = tlen ∧ Received sent rbuf tlen := by
  have hl : len = tlen := by simpa using congrArg List.length h
  subst hl
  exact ⟨rfl, fun i hi => by simpa using apply_eq_of_read h i hi⟩

/-- The header and the body of a copy, once the mask is off. -/
theorem Received.content {A : Aead} {st : Statics} {rd : Urandom} {sec : Option SecCtx}
    {buf rbuf : Mem} {plen tlen maxSize : Nat} {type : MsgType} {sid : UInt32}
    (hr : Received (vfPack A st rd sec buf plen maxSize type sid).2.1 rbuf tlen)
    (hmax : maxSize ≤ bufSize)
    (hp : (vfPack A st rd sec buf plen maxSize type sid).2.2 = some tlen) :
    tlen = hlen + (packBody A st rd sec buf plen type).length ∧
      HasHeader (vfRemoveHeaderObfs rbuf tlen) tlen type.code sid (packKid sec type) ∧
      (vfRemoveHeaderObfs rbuf tlen).read hlen (packBody A st rd sec buf plen type).length =
        packBody A st rd sec buf plen type := by
  obtain ⟨htl, _, hh, hb⟩ := vfPack_unmasked A st rd sec buf plen maxSize type sid hmax hp
  have hcopy := vfRemoveHeaderObfs_congr rbuf _ tlen (by omega) hr
  refine ⟨htl, hh.congr fun i hi => hcopy i (by simp [hlen] at htl; omega), ?_⟩
  exact (read_congr _ _ _ _ fun i hi => hcopy _ (by omega)).trans hb

/-- **Delivery**: the receiver unmasks and unpacks a copy of a packet it can open. -/
theorem delivered {A : Aead} (hA : A.Inverts) {st : Statics} {rd : Urandom}
    {sec rsec : Option SecCtx} {buf rbuf : Mem} {plen tlen maxSize : Nat} {type : MsgType}
    {sid : UInt32} (hmax : maxSize ≤ bufSize) (ho : CanOpen sec rsec type)
    (hp : (vfPack A st rd sec buf plen maxSize type sid).2.2 = some tlen)
    (hr : Received (vfPack A st rd sec buf plen maxSize type sid).2.1 rbuf tlen) :
    HasHeader (vfRemoveHeaderObfs rbuf tlen) tlen type.code sid (packKid sec type) ∧
    ∃ m', vfUnpack A rsec (vfRemoveHeaderObfs rbuf tlen) tlen =
        (m', some (padded st buf plen).length) ∧
      m'.read hlen (padded st buf plen).length = padded st buf plen ∧
      ∀ i, i < hlen → m' i = vfRemoveHeaderObfs rbuf tlen i := by
  obtain ⟨htl, hh, hb⟩ := hr.content hmax hp
  refine ⟨hh, ?_⟩
  have := vfUnpack_packed hA ho hh hb
  rwa [← htl] at this

/-- A packet of the types that are never sealed is delivered whatever context the receiver
has, and whatever the AEAD does. -/
theorem delivered_plain {A : Aead} {st : Statics} {rd : Urandom} {sec : Option SecCtx}
    {buf rbuf : Mem} {plen tlen : Nat} {type : MsgType} {sid : UInt32}
    (hty : bypassesAead type.code = true)
    (hp : (vfPack A st rd sec buf plen bufSize type sid).2.2 = some tlen)
    (hr : Received (vfPack A st rd sec buf plen bufSize type sid).2.1 rbuf tlen)
    (rsec : Option SecCtx) :
    hlen ≤ tlen ∧ HasHeader (vfRemoveHeaderObfs rbuf tlen) tlen type.code sid (packKid sec type) ∧
    vfUnpack A rsec (vfRemoveHeaderObfs rbuf tlen) tlen =
      (vfRemoveHeaderObfs rbuf tlen, some (plen + padLen st.localSeed plen 32)) ∧
    (vfRemoveHeaderObfs rbuf tlen).read hlen plen = buf.read hlen plen := by
  obtain ⟨htl, hh, hb⟩ := hr.content (Nat.le_refl _) hp
  have hbody : packBody A st rd sec buf plen type = padded st buf plen := by
    simp [packBody, packSec, hty]
  rw [hbody, length_padded] at htl
  rw [hbody] at hb
  have hplain := vfUnpack_plain A rsec _ (plen + padLen st.localSeed plen 32)
    (by rw [hh.msgType]; exact hty) hh.flags
  refine ⟨by omega, hh, by rw [← htl] at hplain; exact hplain, ?_⟩
  have := read_left hb
  rwa [length_read] at this

/-! ## When the payload comes back as it was -/

def PayloadRestored (A : Aead) (ctx : SecCtx) (buf rbuf : Mem) (n tlen : Nat) : Prop :=
  (vfUnpack A (some ctx) (vfRemoveHeaderObfs rbuf tlen) tlen).2 = some n ∧
    (vfUnpack A (some ctx) (vfRemoveHeaderObfs rbuf tlen) tlen).1.read hlen n = buf.read hlen n

/-- No padding is drawn: the buffer is too full for it, or the draw is a multiple of
the bound. -/
def NoPadding (seed : UInt32) (n : Nat) : Prop :=
  1996 ≤ n ∨ (vpnFastRand seed).toNat % min 32 (1996 - n) = 0

instance (seed : UInt32) (n : Nat) : Decidable (NoPadding seed n) :=
  inferInstanceAs (Decidable (_ ∨ _))

theorem padLen_eq_zero_iff (seed : UInt32) (n : Nat) (hn : 1 ≤ n) :
    padLen seed n 32 = 0 ↔ NoPadding seed n := by
  unfold NoPadding
  by_cases h : 1996 ≤ n
  · simp [padLen_full seed h, h]
  · rw [padLen_drawn seed hn (by omega)]
    simp [h]

section Restored

variable (A : Aead) (st : Statics) (rd : Urandom) (ctx : SecCtx) (buf rbuf : Mem) (n tlen : Nat)
  (type : MsgType) (sid : UInt32)

/-- The receiver's length counts the padding. -/
theorem payload_restored_iff_padLen (hA : A.Inverts)
    (hp : (vfPack A st rd (some ctx) buf n bufSize type sid).2.2 = some tlen)
    (hr : Received (vfPack A st rd (some ctx) buf n bufSize type sid).2.1 rbuf tlen) :
    PayloadRestored A ctx buf rbuf n tlen ↔ padLen st.localSeed n 32 = 0 := by
  obtain ⟨_, m', hun, hrd, _⟩ := delivered hA (Nat.le_refl _) (canOpen_self ctx type) hp hr
  unfold PayloadRestored
  rw [hun, length_padded] at *
  constructor
  · rintro ⟨h, _⟩
    have := Option.some.inj h
    omega
  · intro h0
    rw [h0, Nat.add_zero] at hrd ⊢
    refine ⟨rfl, ?_⟩
    have ht : padTail st.localSeed n 32 = [] := List.eq_nil_of_length_eq_zero (by simpa using h0)
    rw [hrd, padded, ht, List.append_nil]

/-- **Packet round trip.** The payload comes back as it was exactly when
`vf_apply_padding` draws no padding: the padding that was added is never removed. -/
theorem payload_restored_iff (hA : A.Inverts) (hn : 1 ≤ n)
    (hp : (vfPack A st rd (some ctx) buf n bufSize type sid).2.2 = some tlen)
    (hr : Received (vfPack A st rd (some ctx) buf n bufSize type sid).2.1 rbuf tlen) :
    PayloadRestored A ctx buf rbuf n tlen ↔ NoPadding st.localSeed n := by
  rw [payload_restored_iff_padLen A st rd ctx buf rbuf n tlen type sid hA hp hr]
  exact padLen_eq_zero_iff st.localSeed n hn

end Restored

/-- An eight-byte DATA packet from the initial seed. -/
def firstData : Statics × Mem × Option Nat :=
  vfPack markAead ⟨0x5EED5EED, .init⟩ none (some (vfRekeyInit 7 (some fun _ => 1) 0)) (fun _ => 0) 8
    bufSize .data 7

theorem firstData_len : firstData.2.2 = some 89 := by
  rw [firstData, vfPack_result]
  decide

theorem firstData_round_trip :
    PayloadRestored markAead (vfRekeyInit 7 (some fun _ => 1) 0) (fun _ => 0) firstData.2.1 8 89 ↔
      NoPadding 0x5EED5EED 8 :=
  payload_restored_iff markAead ⟨0x5EED5EED, .init⟩ none _ _ _ 8 89 .data 7 markAead_inverts
    (by decide) firstData_len fun _ _ => rfl

/-- The padding of the first packet, 21 bytes, reaches the receiver as payload. -/
theorem firstData_padding_kept : firstData.2.2 = some 89 ∧
    ¬ PayloadRestored markAead (vfRekeyInit 7 (some fun _ => 1) 0) (fun _ => 0) firstData.2.1
      8 89 := by
  refine ⟨firstData_len, fun h => ?_⟩
  have h0 := (payload_restored_iff_padLen markAead ⟨0x5EED5EED, .init⟩ none _ _ _ 8 89 .data 7
    markAead_inverts firstData_len fun _ _ => rfl).mp h
  exact absurd h0 (by decide)

end Vfast.RoundTrip
