import Vfast.Lib.Bytes

/-! Packet encryption (`crypto.c`). The vendored AEAD (`monocypher.c`) is a
parameter: a pair of functions of which only the lengths are fixed. What a
result relies on beyond that is one of the named properties `Aead.Inverts` and
`Aead.IdealFor`. -/

namespace Vfast.Crypto

open Bytes

def cryptoNonceSize : Nat := 24
def cryptoTagSize : Nat := 16

/-- `crypto_aead_lock` and `crypto_aead_unlock`: key, nonce, associated data,
text. The ciphertext is as long as the plaintext. -/
structure Aead where
  lock : Block 32 → Block 24 → List UInt8 → List UInt8 → List UInt8 × Block 16
  unlock : Block 32 → Block 24 → List UInt8 → List UInt8 → Block 16 → Option (List UInt8)
  length_lock : ∀ k n ad p, (lock k n ad p).1.length = p.length
  length_unlock : ∀ k n ad c t p, unlock k n ad c t = some p → p.length = c.length

def Aead.Inverts (A : Aead) : Prop :=
  ∀ k n ad p, A.unlock k n ad (A.lock k n ad p).1 (A.lock k n ad p).2 = some p

/-- The simplest instance of the interface: the text in the clear, tagged with the
first half of the key. -/
def markAead : Aead where
  lock k _ _ p := (p, fun i => k (i.castLE (by omega)))
  unlock k _ _ c t :=
    if t.toList = Block.toList fun i : Fin 16 => k (i.castLE (by omega)) then some c else none
  length_lock := by intros; rfl
  length_unlock := by
    intro k n ad c t p h
    split at h
    · rw [Option.some.inj h]
    · cases h

theorem markAead_inverts : markAead.Inverts := by
  intro k n ad p
  simp [markAead]

structure LockCall where
  key : Block 32
  nonce : Block 24
  ad : List UInt8
  plain : List UInt8

def LockCall.out (A : Aead) (call : LockCall) : List UInt8 × Block 16 :=
  A.lock call.key call.nonce call.ad call.plain

/-- The ideal AEAD after the calls `calls`: what a call produced unlocks, unlocking
succeeds only on what some call produced, and no nonce, ciphertext and tag come
from two calls. -/
structure Aead.IdealFor (A : Aead) (calls : LockCall → Prop) : Prop where
  unlock_call : ∀ call, calls call →
    A.unlock call.key call.nonce call.ad (call.out A).1 (call.out A).2 = some call.plain
  only_calls : ∀ k n ad c t p, A.unlock k n ad c t = some p →
    calls ⟨k, n, ad, p⟩ ∧ A.lock k n ad p = (c, t)
  origin : ∀ a b, calls a → calls b → a.nonce = b.nonce → a.out A = b.out A → a = b

/-- An ideal AEAD after a single call: nothing unlocks but what that call produced. -/
def onceAead (call : LockCall) : Aead where
  lock _ _ _ p := (p, fun _ => 0)
  unlock k n ad c t :=
    if k.toList = call.key.toList ∧ n.toList = call.nonce.toList ∧ ad = call.ad ∧
        c = call.plain ∧ t.toList = Block.toList fun _ : Fin 16 => 0 then some c
    else none
  length_lock := by intros; rfl
  length_unlock := by
    intro k n ad c t p h
    split at h
    · rw [Option.some.inj h]
    · cases h

theorem onceAead_ideal (call : LockCall) : (onceAead call).IdealFor (· = call) := by
  constructor
  · rintro _ rfl
    simp [onceAead, LockCall.out]
  · intro k n ad c t p h
    simp only [onceAead] at h ⊢
    split at h
    · rename_i hc
      obtain ⟨hk, hn, rfl, rfl, ht⟩ := hc
      cases h
      rw [Block.toList_inj hk, Block.toList_inj hn, Block.toList_inj ht]
      exact ⟨rfl, rfl⟩
    · cases h
  · rintro a b rfl rfl _ _
    rfl

/-! ## Nonces -/

/-- The static variables of `get_fast_nonce`. -/
structure NonceGen where
  counter : UInt64
  noncePrefix : Block 16
  initialized : Bool

def NonceGen.init : NonceGen := ⟨0, fun _ => 0, false⟩

/-- The read of `/dev/urandom`: `none` when it could not be opened or read, else
the bytes delivered, fewer than 16 on a short read. -/
abbrev Urandom := Option (List UInt8)

/-- The lazy initialisation: a short read overwrites part of the salt and leaves
the flag clear. -/
def NonceGen.prepare (g : NonceGen) (rd : Urandom) : NonceGen :=
  if g.initialized then g
  else
    match rd with
    | none => g
    | some bs =>
      { g with
        noncePrefix := fun i => (bs.take 16).getD i (g.noncePrefix i)
        initialized := decide ((bs.take 16).length = 16) }

def getFastNonce (g : NonceGen) (rd : Urandom) : NonceGen × Block 24 :=
  let g := g.prepare rd
  ({ g with counter := g.counter + 1 }, Block.ofList 24 (g.noncePrefix.toList ++ le64 g.counter))

/-! ## Encryption and decryption -/

/-- `vf_encrypt` on one memory; `plain` and `out` are offsets. Returns the
packet length; the function cannot fail. -/
def vfEncrypt (A : Aead) (g : NonceGen) (rd : Urandom) (key : Block 32) (m : Mem)
    (plain len out : Nat) : NonceGen × Mem × Nat :=
  let (g, localNonce) := getFastNonce g rd
  let cipherPtr := out + cryptoNonceSize
  let tagPtr := cipherPtr + len
  -- in place: the plaintext is first moved behind the room for the nonce
  let (m, src) :=
    if plain = out then (m.write cipherPtr (m.read plain len), cipherPtr) else (m, plain)
  let ct := A.lock key localNonce [] (m.read src len)
  let m := (m.write cipherPtr ct.1).write tagPtr ct.2.toList
  (g, m.write out localNonce.toList, cryptoNonceSize + len + cryptoTagSize)

/-- The failures of `vf_decrypt`: return codes -1 and -2. -/
inductive DecryptError where
  | badLength
  | authFailure
  deriving DecidableEq, Repr

/-- `vf_decrypt`; on failure the memory is not written and `out_len` is 0. -/
def vfDecrypt (A : Aead) (key : Block 32) (m : Mem) (packet packetLen out : Nat) :
    Except DecryptError (Mem × Nat) :=
  if packetLen < cryptoNonceSize + cryptoTagSize then .error .badLength
  else
    let nonce : Block 24 := fun i => m (packet + i)
    let cipher := packet + cryptoNonceSize
    let plainLen := packetLen - cryptoNonceSize - cryptoTagSize
    let tag : Block 16 := fun i => m (cipher + plainLen + i)
    match A.unlock key nonce [] (m.read cipher plainLen) tag with
    | none => .error .authFailure
    | some p => .ok (m.write out p, plainLen)

def nextNonce (g : NonceGen) (rd : Urandom) : Block 24 := (getFastNonce g rd).2

theorem vfEncrypt_len (A : Aead) (g : NonceGen) (rd : Urandom) (key : Block 32) (m : Mem)
    (plain len out : Nat) : (vfEncrypt A g rd key m plain len out).2.2 = len + 40 := by
  simp only [vfEncrypt, cryptoNonceSize, cryptoTagSize]
  omega

/-- **In-place encryption** leaves nonce, ciphertext and tag behind each other and
writes nothing else. -/
theorem vfEncrypt_inplace (A : Aead) (g : NonceGen) (rd : Urandom) (key : Block 32) (m : Mem)
    (len out : Nat) :
    (vfEncrypt A g rd key m out len out).2.1 =
      m.write out ((nextNonce g rd).toList ++
        ((A.lock key (nextNonce g rd) [] (m.read out len)).1 ++
          (A.lock key (nextNonce g rd) [] (m.read out len)).2.toList)) := by
  have hsrc : (m.write (out + 24) (m.read out len)).read (out + 24) len = m.read out len :=
    read_write_len _ _ _ _ (by simp)
  have hl : (A.lock key (nextNonce g rd) [] (m.read out len)).1.length = len := by
    rw [A.length_lock, length_read]
  rw [write_append, write_append, Block.length_toList, hl]
  simp only [vfEncrypt, cryptoNonceSize, if_true, hsrc]
  change (((m.write (out + 24) (m.read out len)).write (out + 24)
    (A.lock key (nextNonce g rd) [] (m.read out len)).1).write (out + 24 + len)
    (A.lock key (nextNonce g rd) [] (m.read out len)).2.toList).write out
    (nextNonce g rd).toList = _
  rw [write_write _ _ _ _ (by rw [hl, length_read]),
    write_comm _ (out + 24 + len) out _ _ (by simp only [Block.length_toList]; omega),
    write_comm _ (out + 24) out _ _ (by simp)]

theorem vfDecrypt_of_layout (A : Aead) (key : Block 32) (m : Mem) (packet out : Nat)
    (nonce : Block 24) (c : List UInt8) (t : Block 16)
    (h : m.read packet (24 + (c.length + 16)) = nonce.toList ++ (c ++ t.toList)) :
    vfDecrypt A key m packet (c.length + 40) out =
      match A.unlock key nonce [] c t with
      | none => .error .authFailure
      | some p => .ok (m.write out p, c.length) := by
  rw [read_add, read_add] at h
  obtain ⟨hn, h⟩ := List.append_inj h (by simp)
  obtain ⟨hc, ht⟩ := List.append_inj h (by simp)
  have hn' : (fun i : Fin 24 => m (packet + i)) = nonce := by
    funext i
    rw [read_apply_of_eq hn i i.isLt]
    exact congrFun (Block.ofList_toList nonce) i
  have ht' : (fun i : Fin 16 => m (packet + 24 + c.length + i)) = t := by
    funext i
    rw [read_apply_of_eq ht i i.isLt]
    exact congrFun (Block.ofList_toList t) i
  have hp : c.length + 40 - 24 - 16 = c.length := by omega
  simp only [vfDecrypt, cryptoNonceSize, cryptoTagSize, hp, hn', ht', hc]
  rw [if_neg (by omega)]

end Vfast.Crypto
