import Vfast.Key
import Vfast.Crypto

/-! The tunnel packet (`protocol.c`, `protocol.h`): header fields, random
padding, header masking, and the two pipelines `vf_pack` and `vf_unpack`. All
of them work in place on the task buffer, seen as memory from its base. -/

namespace Vfast.Protocol

open Bytes Key Crypto

def bufSize : Nat := 2048

/-- `VPN_TNL_HLEN`, the size of the packed `vf_hdr_t`. -/
def hlen : Nat := 20

def offMagic : Nat := 0
def offVersion : Nat := 2
def offMsgType : Nat := 3
def offTotalLen : Nat := 4
def offKeyId : Nat := 6
def offFlags : Nat := 7
def offSessionId : Nat := 8
def offSeqNum : Nat := 12
def offPaddingLen : Nat := 16

def vpnVersion : UInt8 := 1
def vfMagic : UInt16 := 0x5646
def flagPadding : UInt8 := 0x01

/-- `vf_msg_t`. -/
inductive MsgType where
  | data
  | hello
  | keepalive
  | disconnect
  | dpdRequest
  | dpdResponse
  | rekeyReq
  | rekeyAck
  | authReq
  | authAck
  | logout
  deriving DecidableEq, Repr

def MsgType.code : MsgType → UInt8
  | .data => 0x01
  | .hello => 0x02
  | .keepalive => 0x03
  | .disconnect => 0x04
  | .dpdRequest => 0x05
  | .dpdResponse => 0x06
  | .rekeyReq => 0x07
  | .rekeyAck => 0x08
  | .authReq => 0x09
  | .authAck => 0x0A
  | .logout => 0x0B

theorem MsgType.code_inj {a b : MsgType} (h : a.code = b.code) : a = b := by
  cases a <;> cases b <;> first | rfl | exact absurd h (by decide)

def MsgType.ofCode (c : UInt8) : Option MsgType :=
  [.data, .hello, .keepalive, .disconnect, .dpdRequest, .dpdResponse, .rekeyReq, .rekeyAck,
    .authReq, .authAck, .logout].find? fun t => t.code = c

@[simp] theorem MsgType.ofCode_code (t : MsgType) : MsgType.ofCode t.code = some t := by
  cases t <;> rfl

theorem MsgType.code_of_ofCode {c : UInt8} {t : MsgType} (h : MsgType.ofCode c = some t) :
    t.code = c := by
  simpa using List.find?_some h

/-- The handshake types that bypass the AEAD, tested alike in `vf_pack` (on the
type) and in `vf_unpack` (on the header byte). -/
def bypassesAead (ty : UInt8) : Bool :=
  ty == MsgType.hello.code || ty == MsgType.keepalive.code || ty == MsgType.authReq.code ||
    ty == MsgType.authAck.code

/-! ## Padding -/

/-- One xorshift step; the result is also the new seed. -/
def vpnFastRand (seed : UInt32) : UInt32 :=
  let x := seed ^^^ (seed <<< 13)
  let x := x ^^^ (x >>> 17)
  x ^^^ (x <<< 5)

/-- The noise loop of `vf_apply_padding`, from iteration `i` with `n` bytes left. -/
def noiseLoop (pPtr : Nat) : (n i : Nat) → (noise seed : UInt32) → Mem → UInt32 × Mem
  | 0, _, _, seed, m => (seed, m)
  | n + 1, i, noise, seed, m =>
    let seed' := if i % 4 = 0 then vpnFastRand seed else seed
    let noise' := if i % 4 = 0 then vpnFastRand seed else noise
    let byte := (noise' >>> UInt32.ofNat (i % 4 * 8)).toUInt8
    noiseLoop pPtr n (i + 1) noise' seed' (m.write (pPtr + i) [byte])

def spareRoom (rawLen : Nat) : Int := (bufSize : Int) - ((hlen + rawLen : Nat) : Int) - 32

def padBound (rawLen : Nat) (maxPad : UInt8) : Nat :=
  if spareRoom rawLen > maxPad.toNat then maxPad.toNat else (spareRoom rawLen).toNat

/-- `vf_apply_padding`: the new seed, the buffer and the padded length. -/
def vfApplyPadding (seed : UInt32) (buf : Mem) (rawLen : Nat) (maxPad : UInt8) :
    UInt32 × Mem × Nat :=
  if rawLen = 0 then (seed, buf, rawLen)
  else
    let consumed := hlen + rawLen
    if spareRoom rawLen ≤ 0 then (seed, buf.write offPaddingLen [0], rawLen)
    else
      let draw := vpnFastRand seed
      let pLen := UInt8.ofNat (draw.toNat % padBound rawLen maxPad)
      if pLen = 0 then (draw, buf.write offPaddingLen [0], rawLen)
      else
        let (seed', buf) := noiseLoop consumed pLen.toNat 0 0 draw buf
        let buf := buf.write offPaddingLen [pLen]
        let buf := buf.write offFlags [buf offFlags ||| flagPadding]
        (seed', buf, rawLen + pLen.toNat)

/-- `vf_remove_padding`: the buffer and the new length, or `none` for -1. -/
def vfRemovePadding (buf : Mem) (pLen : Nat) : Option (Mem × Nat) :=
  if pLen < hlen then none
  else if buf offFlags &&& flagPadding ≠ 0 then
    let paddingVal := (buf offPaddingLen).toNat
    if pLen ≥ paddingVal + hlen then
      some (buf.write offFlags [buf offFlags &&& ~~~flagPadding], pLen - paddingVal)
    else none
  else some (buf, pLen)

/-! ## Header -/

/-- `vf_fill_header`. The sequence number, the padding length and the reserved
bytes keep what the buffer held before. -/
def vfFillHeader (buf : Mem) (totalSz : Nat) (type : UInt8) (sid kid : UInt32) : Mem :=
  if totalSz > bufSize then buf
  else
    let buf := buf.write offMagic (le16 (bswap16 vfMagic))
    let buf := buf.write offVersion [vpnVersion]
    let buf := buf.write offMsgType [type]
    let buf := buf.write offTotalLen (le16 (bswap16 (UInt16.ofNat totalSz)))
    let buf := buf.write offKeyId [lowByte kid]
    let buf := buf.write offFlags [0]
    buf.write offSessionId (le32 (bswap32 sid))

def obfsKey (buf : Mem) : UInt32 := buf.load32 offSeqNum ^^^ 0xDEADBEEF

/-- The mask of the first header word, the key rotated by one byte. -/
def headMask (key : UInt32) : UInt32 := (key <<< 8) ||| (key >>> 24)

def vfApplyHeaderObfs (buf : Mem) (wireLen : Nat) : Mem :=
  if wireLen < hlen then buf
  else
    let key := obfsKey buf
    let buf := buf.write offSessionId (le32 (buf.load32 offSessionId ^^^ key))
    buf.write 0 (le32 (buf.load32 0 ^^^ headMask key))

def vfRemoveHeaderObfs (buf : Mem) (wireLen : Nat) : Mem :=
  if wireLen < hlen then buf
  else
    let key := obfsKey buf
    let buf := buf.write 0 (le32 (buf.load32 0 ^^^ headMask key))
    buf.write offSessionId (le32 (buf.load32 offSessionId ^^^ key))

/-! ## The pipelines -/

/-- The static variables `vf_pack` reads and advances: the padding seed of its
thread and the nonce generator. -/
structure Statics where
  localSeed : UInt32
  nonceGen : NonceGen

/-- Steps 3 and 4 of `vf_pack`: header, boundary check, masking. -/
def finishPack (buf : Mem) (outLen maxSize : Nat) (type : MsgType) (sid kid : UInt32) :
    Mem × Option Nat :=
  let tlen := hlen + outLen
  let buf := vfFillHeader buf tlen type.code sid kid
  if tlen > maxSize then (buf, none) else (vfApplyHeaderObfs buf tlen, some tlen)

/-- The branch of `vf_pack`: the context it encrypts with, `none` when the packet
goes out in the clear. -/
def packSec (sec : Option SecCtx) (type : MsgType) : Option SecCtx :=
  if bypassesAead type.code then none else sec

/-- `vf_pack`; `none` is the return value -1. -/
def vfPack (A : Aead) (st : Statics) (rd : Urandom) (sec : Option SecCtx) (buf : Mem)
    (plen maxSize : Nat) (type : MsgType) (sid : UInt32) : Statics × Mem × Option Nat :=
  let (seed, buf, iPlen) := vfApplyPadding st.localSeed buf plen 32
  match packSec sec type with
  | none => ({ st with localSeed := seed }, finishPack buf iPlen maxSize type sid 0)
  | some ctx =>
    let (g, buf, outLen) := vfEncrypt A st.nonceGen rd (vfRekeyGetKey ctx) buf hlen iPlen hlen
    (⟨seed, g⟩, finishPack buf outLen maxSize type sid (vfRekeyGetKeyid ctx))

/-- The last step of `vf_unpack`: strip the padding of `dlen` bytes of payload. -/
def finishUnpack (buf : Mem) (dlen : Nat) : Mem × Option Nat :=
  match vfRemovePadding buf (dlen + hlen) with
  | none => (buf, none)
  | some (buf, tlen) => (buf, some (tlen - hlen))

/-- `vf_unpack` on a buffer whose header is already unmasked: the buffer
afterwards, and the payload length (the payload starts at `hlen`) or `none` for
`NULL`. -/
def vfUnpack (A : Aead) (sec : Option SecCtx) (buf : Mem) (res : Nat) : Mem × Option Nat :=
  if res < hlen then (buf, none)
  else
    let rlen := res - hlen
    let decrypted : Option (Mem × Nat) :=
      if bypassesAead (buf offMsgType) then some (buf, rlen)
      else
        match sec with
        | none => none
        | some ctx =>
          match vfRekeyGetDecryptKey ctx (buf offKeyId) with
          | none => none
          | some key => (vfDecrypt A key buf hlen rlen hlen).toOption
    match decrypted with
    | none => (buf, none)
    | some (buf, dlen) => finishUnpack buf dlen

/-! ## What padding does -/

def noiseBytes : (n i : Nat) → (noise seed : UInt32) → List UInt8
  | 0, _, _, _ => []
  | n + 1, i, noise, seed =>
    let seed' := if i % 4 = 0 then vpnFastRand seed else seed
    let noise' := if i % 4 = 0 then vpnFastRand seed else noise
    (noise' >>> UInt32.ofNat (i % 4 * 8)).toUInt8 :: noiseBytes n (i + 1) noise' seed'

@[simp] theorem length_noiseBytes (n i : Nat) (noise seed : UInt32) :
    (noiseBytes n i noise seed).length = n := by
  induction n generalizing i noise seed with
  | zero => rfl
  | succ n ih => simp [noiseBytes, ih]

theorem noiseLoop_mem (pPtr n i : Nat) (noise seed : UInt32) (m : Mem) :
    (noiseLoop pPtr n i noise seed m).2 = m.write (pPtr + i) (noiseBytes n i noise seed) := by
  induction n generalizing i noise seed m with
  | zero => simp [noiseLoop, noiseBytes]
  | succ n ih =>
    rw [noiseLoop, ih, noiseBytes]
    exact (write_append m (pPtr + i) [_] _).symm

def padLen (seed : UInt32) (rawLen : Nat) (maxPad : UInt8) : Nat :=
  if rawLen = 0 ∨ spareRoom rawLen ≤ 0 then 0
  else (UInt8.ofNat ((vpnFastRand seed).toNat % padBound rawLen maxPad)).toNat

/-- A payload that leaves no room for nonce and tag is not padded. -/
theorem padLen_full (seed : UInt32) {rawLen : Nat} {maxPad : UInt8} (h : 1996 ≤ rawLen) :
    padLen seed rawLen maxPad = 0 := by
  have hs : spareRoom rawLen ≤ 0 := by
    simp only [spareRoom, bufSize, hlen]
    omega
  rw [padLen, if_pos (.inr hs)]

/-- **The draw of `vf_pack`**, which asks for at most 32 bytes. -/
theorem padLen_drawn (seed : UInt32) {rawLen : Nat} (h1 : 1 ≤ rawLen) (h : rawLen < 1996) :
    padLen seed rawLen 32 = (vpnFastRand seed).toNat % min 32 (1996 - rawLen) := by
  have hs : spareRoom rawLen = 1996 - (rawLen : Int) := by
    simp only [spareRoom, bufSize, hlen]
    omega
  have hb : padBound rawLen 32 = min 32 (1996 - rawLen) := by
    unfold padBound
    rw [hs]
    simp only [UInt8.reduceToNat]
    split <;> omega
  have hlt := Nat.mod_lt (vpnFastRand seed).toNat (show 0 < min 32 (1996 - rawLen) by omega)
  rw [padLen, if_neg (by rw [hs]; omega), hb, UInt8.toNat_ofNat']
  exact Nat.mod_eq_of_lt (by omega)

def padTail (seed : UInt32) (rawLen : Nat) (maxPad : UInt8) : List UInt8 :=
  noiseBytes (padLen seed rawLen maxPad) 0 0 (vpnFastRand seed)

@[simp] theorem length_padTail (seed : UInt32) (rawLen : Nat) (maxPad : UInt8) :
    (padTail seed rawLen maxPad).length = padLen seed rawLen maxPad := length_noiseBytes ..

/-- The three ways `vf_apply_padding` leaves the buffer: untouched, with a zero
padding length, or padded. -/
theorem vfApplyPadding_cases (seed : UInt32) (buf : Mem) (rawLen : Nat) (maxPad : UInt8) :
    (padLen seed rawLen maxPad = 0 ∧
      ∃ s, vfApplyPadding seed buf rawLen maxPad = (s, buf, rawLen)) ∨
    (padLen seed rawLen maxPad = 0 ∧
      ∃ s, vfApplyPadding seed buf rawLen maxPad = (s, buf.write offPaddingLen [0], rawLen)) ∨
    ∃ s v f, vfApplyPadding seed buf rawLen maxPad =
      (s, ((buf.write (hlen + rawLen) (padTail seed rawLen maxPad)).write offPaddingLen [v]).write
        offFlags [f], rawLen + padLen seed rawLen maxPad) := by
  by_cases h0 : rawLen = 0
  · exact Or.inl ⟨by simp [padLen, h0], seed, by simp [vfApplyPadding, h0]⟩
  by_cases hs : spareRoom rawLen ≤ 0
  · exact Or.inr (Or.inl ⟨by simp [padLen, hs], seed, by simp [vfApplyPadding, h0, hs]⟩)
  have hl : padLen seed rawLen maxPad =
      (UInt8.ofNat ((vpnFastRand seed).toNat % padBound rawLen maxPad)).toNat := by
    simp [padLen, h0, hs]
  by_cases hp : UInt8.ofNat ((vpnFastRand seed).toNat % padBound rawLen maxPad) = 0
  · refine Or.inr (Or.inl ⟨by rw [hl, hp]; rfl, vpnFastRand seed, ?_⟩)
    simp only [vfApplyPadding, h0, hs, hp, if_true, if_false]
  · have e := vfApplyPadding.eq_1 seed buf rawLen maxPad
    simp only [h0, hs, hp, if_false, noiseLoop_mem, Nat.add_zero, ← hl] at e
    exact Or.inr (Or.inr ⟨_, _, _, e⟩)

/-- Padding keeps the payload and appends the noise. -/
theorem vfApplyPadding_read (seed : UInt32) (buf : Mem) (rawLen : Nat) (maxPad : UInt8) :
    (vfApplyPadding seed buf rawLen maxPad).2.1.read hlen
        (vfApplyPadding seed buf rawLen maxPad).2.2 =
      buf.read hlen rawLen ++ padTail seed rawLen maxPad := by
  have hnil : padLen seed rawLen maxPad = 0 → padTail seed rawLen maxPad = [] := by
    intro h
    exact List.eq_nil_of_length_eq_zero (by simpa using h)
  rcases vfApplyPadding_cases seed buf rawLen maxPad with ⟨h0, s, h⟩ | ⟨h0, s, h⟩ | ⟨s, v, f, h⟩
  · rw [h, hnil h0, List.append_nil]
  · rw [h, hnil h0, List.append_nil]
    exact read_write_disjoint _ _ _ _ _ (Or.inr (by simp [offPaddingLen, hlen]))
  · rw [h]
    change (((buf.write (hlen + rawLen) _).write offPaddingLen [v]).write offFlags [f]).read hlen
      (rawLen + padLen seed rawLen maxPad) = _
    rw [read_write_disjoint _ _ _ _ _ (Or.inr (by simp [offFlags, hlen])),
      read_write_disjoint _ _ _ _ _ (Or.inr (by simp [offPaddingLen, hlen])), read_add,
      read_write_disjoint _ _ _ _ _ (Or.inl (Nat.le_refl _)),
      read_write_len _ _ _ _ (length_padTail ..)]

theorem vfApplyPadding_len (seed : UInt32) (buf : Mem) (rawLen : Nat) (maxPad : UInt8) :
    (vfApplyPadding seed buf rawLen maxPad).2.2 = rawLen + padLen seed rawLen maxPad := by
  have h := congrArg List.length (vfApplyPadding_read seed buf rawLen maxPad)
  simpa using h

theorem padBound_le (rawLen : Nat) (maxPad : UInt8) : padBound rawLen maxPad ≤ maxPad.toNat := by
  unfold padBound
  split <;> omega

theorem padLen_lt (seed : UInt32) (rawLen : Nat) (maxPad : UInt8) (h : 0 < maxPad.toNat) :
    padLen seed rawLen maxPad < maxPad.toNat := by
  unfold padLen
  split
  · exact h
  · rename_i hs
    have hb : 0 < padBound rawLen maxPad := by
      unfold padBound
      split <;> omega
    have hle := padBound_le rawLen maxPad
    have hm := Nat.mod_lt (vpnFastRand seed).toNat hb
    have := maxPad.toNat_lt
    rw [UInt8.toNat_ofNat', Nat.mod_eq_of_lt (by omega)]
    omega

end Vfast.Protocol
