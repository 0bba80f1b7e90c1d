import Vfast.Crypto
import Vfast.Monocypher

/-! `vf_encrypt` and `vf_decrypt` on overlapping buffers. Here the AEAD works on memory as
`monocypher.c` does: a cipher that goes through the text from left to right, each word read
before it is written, and a tag over the ciphertext that is compared before the first write.
On separate buffers it is an `Aead`, and the word-by-word functions compute what the
functions of `Vfast.Crypto` do with that one. -/

namespace Vfast.InPlace

open Bytes Streams Crypto Monocypher

/-! ## The AEAD on memory -/

/-- The two ciphers with their common start state, the sizes of the words that a text of
`n` bytes is processed in, and the tag of a ciphertext. -/
structure StreamAead where
  σ : Type
  start : Block 32 → Block 24 → σ
  enc : Piecewise σ
  dec : Piecewise σ
  sizes : Nat → List Nat
  sum_sizes : ∀ n, (sizes n).sum = n
  mac : Block 32 → Block 24 → List UInt8 → List UInt8 → Block 16

namespace StreamAead

variable (S : StreamAead)

/-- `crypto_aead_lock`: encrypt, then authenticate what was written. -/
def lock (m : Mem) (cipherText mac : Nat) (key : Block 32) (nonce : Block 24) (ad : List UInt8)
    (plainText textSize : Nat) : Mem :=
  let m := S.enc.onMem (S.start key nonce) (S.sizes textSize) plainText cipherText m
  m.write mac (S.mac key nonce ad (m.read cipherText textSize)).toList

/-- `crypto_aead_unlock`; `none` is a mismatch, found before anything is written. -/
def unlock (m : Mem) (plainText mac : Nat) (key : Block 32) (nonce : Block 24) (ad : List UInt8)
    (cipherText textSize : Nat) : Option Mem :=
  if m.read mac 16 = (S.mac key nonce ad (m.read cipherText textSize)).toList then
    some (S.dec.onMem (S.start key nonce) (S.sizes textSize) cipherText plainText m)
  else none

def aead : Aead where
  lock k n ad p :=
    let c := S.enc.onBytes (S.start k n) (S.sizes p.length) p
    (c, S.mac k n ad c)
  unlock k n ad c t :=
    if t.toList = (S.mac k n ad c).toList then
      some (S.dec.onBytes (S.start k n) (S.sizes c.length) c)
    else none
  length_lock k n ad p := S.enc.length_onBytes _ (S.sum_sizes _)
  length_unlock k n ad c t p h := by
    split at h
    · rw [← Option.some.inj h]
      exact S.dec.length_onBytes _ (S.sum_sizes _)
    · cases h

/-- With the ciphertext at or before the plaintext, or behind it, locking is one on byte
strings. -/
theorem lock_eq (m : Mem) {cipherText : Nat} (mac : Nat) (key : Block 32) (nonce : Block 24)
    (ad : List UInt8) {plainText textSize : Nat}
    (h : cipherText ≤ plainText ∨ plainText + textSize ≤ cipherText) :
    S.lock m cipherText mac key nonce ad plainText textSize =
      (m.write cipherText (S.aead.lock key nonce ad (m.read plainText textSize)).1).write mac
        (S.aead.lock key nonce ad (m.read plainText textSize)).2.toList := by
  have hsum := S.sum_sizes textSize
  have hlen : (S.enc.onBytes (S.start key nonce) (S.sizes textSize)
      (m.read plainText textSize)).length = textSize := by
    rw [S.enc.length_onBytes _ (by rw [hsum, length_read]), length_read]
  unfold lock aead
  simp only [length_read]
  rw [S.enc.onMem_eq _ _ m (by rwa [hsum]), hsum, read_write_len _ _ _ _ hlen]

theorem unlock_eq (m : Mem) {plainText : Nat} (mac : Nat) (key : Block 32) (nonce : Block 24)
    (ad : List UInt8) {cipherText textSize : Nat}
    (h : plainText ≤ cipherText ∨ cipherText + textSize ≤ plainText) :
    S.unlock m plainText mac key nonce ad cipherText textSize =
      (S.aead.unlock key nonce ad (m.read cipherText textSize) fun i => m (mac + i)).map
        (m.write plainText) := by
  have hsum := S.sum_sizes textSize
  unfold unlock aead
  simp only [length_read, toList_read]
  split
  · rw [S.dec.onMem_eq _ _ m (by rwa [hsum]), hsum]
    rfl
  · rfl

end StreamAead

def Apart (a la b lb : Nat) : Prop := a + la ≤ b ∨ b + lb ≤ a

/-- **The assumption on the AEAD**: on separate buffers, unlocking what was locked gives the
plaintext back. -/
def StreamAead.InverseOnSeparate (S : StreamAead) : Prop :=
  ∀ (m : Mem) (key : Block 32) (nonce : Block 24) (ad : List UInt8)
    (len plain cipher mac out : Nat),
    Apart plain len cipher len → Apart cipher len mac 16 → Apart out len cipher len →
    ∃ m', S.unlock (S.lock m cipher mac key nonce ad plain len) out mac key nonce ad cipher len =
      some m' ∧ m'.read out len = m.read plain len

/-- Unlocking the memory that locking left. -/
theorem unlock_lock (S : StreamAead) (m : Mem) (key : Block 32) (nonce : Block 24) (ad : List UInt8)
    {len plain cipher mac out : Nat} (hp : Apart plain len cipher len)
    (ht : Apart cipher len mac 16) (ho : Apart out len cipher len) :
    S.unlock (S.lock m cipher mac key nonce ad plain len) out mac key nonce ad cipher len =
      (S.aead.unlock key nonce ad (S.aead.lock key nonce ad (m.read plain len)).1
        (S.aead.lock key nonce ad (m.read plain len)).2).map
          ((S.lock m cipher mac key nonce ad plain len).write out) := by
  unfold Apart at hp ht ho
  have hl : (S.aead.lock key nonce ad (m.read plain len)).1.length = len := by
    rw [S.aead.length_lock, length_read]
  have hm := S.lock_eq m mac key nonce ad (by omega : cipher ≤ plain ∨ plain + len ≤ cipher)
  have hc : (S.lock m cipher mac key nonce ad plain len).read cipher len =
      (S.aead.lock key nonce ad (m.read plain len)).1 := by
    rw [hm, read_write_disjoint _ _ _ _ _ (by simpa [hl] using ht), read_write_len _ _ _ _ hl]
  have hmac : (fun i : Fin 16 => S.lock m cipher mac key nonce ad plain len (mac + i)) =
      (S.aead.lock key nonce ad (m.read plain len)).2 := by
    apply Block.toList_inj
    rw [toList_read, hm, read_write_len _ _ _ _ (by simp)]
  rw [S.unlock_eq _ _ _ _ _ (by omega), hc, hmac]

/-- The assumption says that the `Aead` inverts. -/
theorem inverseOnSeparate_iff (S : StreamAead) : S.InverseOnSeparate ↔ S.aead.Inverts := by
  constructor
  · intro h k n ad p
    have hread : (Mem.write (fun _ => 0) 0 p).read 0 p.length = p := read_write _ _ _
    have hp : Apart 0 p.length p.length p.length := Or.inl (by omega)
    have ht : Apart p.length p.length (2 * p.length) 16 := Or.inl (by omega)
    have ho : Apart (2 * p.length + 16) p.length p.length p.length := Or.inr (by omega)
    obtain ⟨m', hu, hr⟩ := h (Mem.write (fun _ => 0) 0 p) k n ad p.length 0 p.length
      (2 * p.length) (2 * p.length + 16) hp ht ho
    rw [unlock_lock S _ _ _ _ hp ht ho, hread] at hu
    obtain ⟨q, hq, rfl⟩ := Option.map_eq_some_iff.mp hu
    have hql : q.length = p.length := by
      rw [S.aead.length_unlock _ _ _ _ _ _ hq, S.aead.length_lock]
    rw [read_write_len _ _ _ _ hql, hread] at hr
    rw [hq, hr]
  · intro h m key nonce ad len plain cipher mac out hp ht ho
    rw [unlock_lock S _ _ _ _ hp ht ho, h]
    exact ⟨_, rfl, read_write_len _ _ _ _ (length_read _ _ _)⟩

/-! ## The two functions, word by word -/

section

variable (S : StreamAead)

/-- `vf_encrypt`. -/
def vfEncryptWords (g : NonceGen) (rd : Urandom) (key : Block 32) (m : Mem) (plain len out : Nat) :
    NonceGen × Mem × Nat :=
  let (g, localNonce) := getFastNonce g rd
  let cipherPtr := out + cryptoNonceSize
  let tagPtr := cipherPtr + len
  let m :=
    if plain = out then
      let m := m.write cipherPtr (m.read plain len)
      S.lock m cipherPtr tagPtr key localNonce [] cipherPtr len
    else S.lock m cipherPtr tagPtr key localNonce [] plain len
  (g, m.write out localNonce.toList, cryptoNonceSize + len + cryptoTagSize)

/-- `vf_decrypt`: the return code, `*out_len` and the memory. -/
def vfDecryptWords (key : Block 32) (m : Mem) (packet packetLen out : Nat) : Int × Nat × Mem :=
  if packetLen < cryptoNonceSize + cryptoTagSize then (-1, 0, m)
  else
    let nonce : Block 24 := fun i => m (packet + i)
    let cipher := packet + cryptoNonceSize
    let plainLen := packetLen - cryptoNonceSize - cryptoTagSize
    let tag := cipher + plainLen
    match S.unlock m out tag key nonce [] cipher plainLen with
    | none => (-2, 0, m)
    | some m => (0, plainLen, m)

/-- **Refinement**: in place, or with plaintext and packet apart, it is `vfEncrypt`. -/
theorem vfEncryptWords_eq (g : NonceGen) (rd : Urandom) (key : Block 32) (m : Mem)
    {plain len out : Nat} (h : plain = out ∨ Apart plain len out (len + 40)) :
    vfEncryptWords S g rd key m plain len out = vfEncrypt S.aead g rd key m plain len out := by
  unfold vfEncryptWords vfEncrypt
  by_cases e : plain = out
  · simp only [e, if_true]
    rw [S.lock_eq _ _ _ _ _ (Or.inl (Nat.le_refl _))]
  · have hd : out + cryptoNonceSize ≤ plain ∨ plain + len ≤ out + cryptoNonceSize := by
      unfold Apart at h
      simp only [cryptoNonceSize]
      omega
    simp only [e, if_false]
    rw [S.lock_eq _ _ _ _ _ hd]

/-- The results of the model of `vf_decrypt` as the code returns them. -/
def decryptResult (m : Mem) : Except DecryptError (Mem × Nat) → Int × Nat × Mem
  | .error .badLength => (-1, 0, m)
  | .error .authFailure => (-2, 0, m)
  | .ok (m, n) => (0, n, m)

/-- **Refinement**: with the output at most 24 bytes behind the packet's start, or behind the
ciphertext, it is `vfDecrypt`. -/
theorem vfDecryptWords_eq (key : Block 32) (m : Mem) {packet packetLen out : Nat}
    (h : out ≤ packet + 24 ∨ packet + packetLen ≤ out) :
    vfDecryptWords S key m packet packetLen out =
      decryptResult m (vfDecrypt S.aead key m packet packetLen out) := by
  unfold vfDecryptWords vfDecrypt
  split
  · rfl
  · rename_i hl
    simp only [cryptoNonceSize, cryptoTagSize] at hl ⊢
    rw [S.unlock_eq _ _ _ _ _ (by omega)]
    cases S.aead.unlock key (fun i => m (packet + i)) []
        (m.read (packet + 24) (packetLen - 24 - 16))
        (fun i => m (packet + 24 + (packetLen - 24 - 16) + i)) <;> rfl

end

/-! ## Agreement -/

def packetOf (A : Aead) (key : Block 32) (nonce : Block 24) (text : List UInt8) : List UInt8 :=
  nonce.toList ++ ((A.lock key nonce [] text).1 ++ (A.lock key nonce [] text).2.toList)

theorem length_packetOf (A : Aead) (key : Block 32) (nonce : Block 24) (text : List UInt8) :
    (packetOf A key nonce text).length = text.length + 40 := by
  simp only [packetOf, List.length_append, Block.length_toList, A.length_lock]
  omega

/-- Wherever the plaintext is, `vf_encrypt` leaves its packet. -/
theorem vfEncrypt_packet (A : Aead) (g : NonceGen) (rd : Urandom) (key : Block 32) (m : Mem)
    (plain len out : Nat) :
    (vfEncrypt A g rd key m plain len out).2.1.read out (len + 40) =
      packetOf A key (nextNonce g rd) (m.read plain len) := by
  have hpl : (packetOf A key (nextNonce g rd) (m.read plain len)).length = len + 40 := by
    rw [length_packetOf, length_read]
  by_cases e : plain = out
  · subst e
    rw [vfEncrypt_inplace]
    exact read_write_len _ _ _ _ hpl
  · have hl : (A.lock key (nextNonce g rd) [] (m.read plain len)).1.length = len := by
      rw [A.length_lock, length_read]
    have hm : (vfEncrypt A g rd key m plain len out).2.1 =
        m.write out (packetOf A key (nextNonce g rd) (m.read plain len)) := by
      rw [packetOf, write_append, write_append, Block.length_toList, hl]
      simp only [vfEncrypt, e, if_false, cryptoNonceSize]
      change ((m.write (out + 24) (A.lock key (nextNonce g rd) [] (m.read plain len)).1).write
        (out + 24 + len) (A.lock key (nextNonce g rd) [] (m.read plain len)).2.toList).write out
        (nextNonce g rd).toList = _
      rw [write_comm _ (out + 24 + len) out _ _ (by simp only [Block.length_toList]; omega),
        write_comm _ (out + 24) out _ _ (by simp)]
    rw [hm]
    exact read_write_len _ _ _ _ hpl

theorem vfDecrypt_packet {A : Aead} (hA : A.Inverts) (key : Block 32) (nonce : Block 24)
    (text : List UInt8) {m : Mem} {packet : Nat} (out : Nat)
    (h : m.read packet (text.length + 40) = packetOf A key nonce text) :
    vfDecrypt A key m packet (text.length + 40) out = .ok (m.write out text, text.length) := by
  have hl := A.length_lock key nonce [] text
  have hlay := vfDecrypt_of_layout A key m packet out nonce (A.lock key nonce [] text).1
    (A.lock key nonce [] text).2 (by
      rw [hl, show 24 + (text.length + 16) = text.length + 40 by omega]
      exact h)
  rw [hl, hA] at hlay
  exact hlay

def Verifies (S : StreamAead) (key : Block 32) (m : Mem) (packet packetLen : Nat) : Prop :=
  m.read (packet + 24 + (packetLen - 40)) 16 =
    (S.mac key (fun i => m (packet + i)) [] (m.read (packet + 24) (packetLen - 40))).toList

/-- A packet that is too short or does not verify is refused, and nothing is written. -/
theorem vfDecryptWords_refused (S : StreamAead) (key : Block 32) (m : Mem)
    {packet packetLen : Nat} (out : Nat)
    (h : packetLen < 40 ∨ ¬ Verifies S key m packet packetLen) :
    ∃ code : Int, code < 0 ∧ vfDecryptWords S key m packet packetLen out = (code, 0, m) := by
  unfold vfDecryptWords
  by_cases hl : packetLen < 40
  · exact ⟨-1, by decide, if_pos hl⟩
  · have hv := h.resolve_left hl
    have hsub : packetLen - 24 - 16 = packetLen - 40 := by omega
    refine ⟨-2, by decide, ?_⟩
    unfold Verifies at hv
    simp only [cryptoNonceSize, cryptoTagSize, hsub, StreamAead.unlock, if_neg hv]
    exact if_neg hl

/-- Decryption with the output in place or apart from the packet gives the plaintext. -/
theorem vfDecryptWords_packet {S : StreamAead} (hS : S.InverseOnSeparate) (key : Block 32)
    (nonce : Block 24) (text : List UInt8) {m : Mem} {packet out : Nat}
    (h : m.read packet (text.length + 40) = packetOf S.aead key nonce text)
    (ho : out = packet ∨ Apart out text.length packet (text.length + 40)) :
    ∃ m', vfDecryptWords S key m packet (text.length + 40) out = (0, text.length, m') ∧
      m'.read out text.length = text := by
  have hd : out ≤ packet + 24 ∨ packet + (text.length + 40) ≤ out := by
    unfold Apart at ho
    omega
  rw [vfDecryptWords_eq S key m hd,
    vfDecrypt_packet ((inverseOnSeparate_iff S).mp hS) key nonce text out h]
  exact ⟨_, rfl, read_write _ _ _⟩

/-- **In-place and out-of-place encryption agree, and decryption inverts both.** -/
theorem in_place_agrees {S : StreamAead} (hS : S.InverseOnSeparate) (g : NonceGen) (rd : Urandom)
    (key : Block 32) (text : List UInt8) {m m' : Mem} {buf plain out : Nat}
    (hm : m.read buf text.length = text) (hm' : m'.read plain text.length = text)
    (hd : Apart plain text.length out (text.length + 40)) :
    (vfEncryptWords S g rd key m buf text.length buf).2.2 = text.length + 40 ∧
    (vfEncryptWords S g rd key m buf text.length buf).2.1.read buf (text.length + 40) =
      (vfEncryptWords S g rd key m' plain text.length out).2.1.read out (text.length + 40) ∧
    (∀ (r : Mem) (packet dst : Nat),
      r.read packet (text.length + 40) =
        (vfEncryptWords S g rd key m buf text.length buf).2.1.read buf (text.length + 40) →
      (dst = packet ∨ Apart dst text.length packet (text.length + 40)) →
      ∃ r', vfDecryptWords S key r packet (text.length + 40) dst = (0, text.length, r') ∧
        r'.read dst text.length = text) ∧
    ∀ (key : Block 32) (r : Mem) (packet packetLen dst : Nat),
      (packetLen < 40 ∨ ¬ Verifies S key r packet packetLen) →
      ∃ code : Int, code < 0 ∧ vfDecryptWords S key r packet packetLen dst = (code, 0, r) := by
  have hin := vfEncrypt_packet S.aead g rd key m buf text.length buf
  have hout := vfEncrypt_packet S.aead g rd key m' plain text.length out
  rw [vfEncryptWords_eq S g rd key m (Or.inl rfl), vfEncryptWords_eq S g rd key m' (Or.inr hd), hin,
    hout, hm, hm']
  refine ⟨vfEncrypt_len .., rfl, ?_, ?_⟩
  · intro r packet dst hr hdst
    exact vfDecryptWords_packet hS key _ text hr hdst
  · intro key r packet packetLen dst h
    exact vfDecryptWords_refused S key r dst h

/-! ## The AEAD of the repository -/

/-- XChaCha20 with Poly1305 as `monocypher.c` computes them. -/
def monocypher : StreamAead where
  σ := (Nat → UInt8) × Nat
  start key nonce := (textStream key nonce, 0)
  enc := chacha20
  dec := chacha20
  sizes := wordSizes
  sum_sizes := sum_wordSizes
  mac := textTag

/-- It meets the assumption: the cipher is its own inverse, and the tag is recomputed. -/
theorem monocypher_inverse : monocypher.InverseOnSeparate := by
  rw [inverseOnSeparate_iff]
  intro k n ad p
  have hl := monocypher.aead.length_lock k n ad p
  simp only [StreamAead.aead, if_true, Option.some.injEq] at hl ⊢
  rw [hl]
  simp only [monocypher, chacha20_eq]
  exact xorStream_twice _ (sum_wordSizes _)

/-- Seventy bytes, a whole block and six more, in place at 20 and from 100 to 200; the packet
at 20 is then decrypted in place. -/
theorem monocypher_in_place :
    let sealed := (vfEncryptWords monocypher .init none (fun _ => 1) (fun _ => 7) 20 70 20).2.1
    sealed.read 20 110 =
      (vfEncryptWords monocypher .init none (fun _ => 1) (fun _ => 7) 100 70 200).2.1.read 200 110 ∧
    ∃ opened, vfDecryptWords monocypher (fun _ => 1) sealed 20 110 20 = (0, 70, opened) ∧
      opened.read 20 70 = List.replicate 70 7 := by
  have hm : Mem.read (fun _ => 7) 20 (List.replicate 70 (7 : UInt8)).length =
      List.replicate 70 7 := by
    decide
  have hm' : Mem.read (fun _ => 7) 100 (List.replicate 70 (7 : UInt8)).length =
      List.replicate 70 7 := by
    decide
  have h := in_place_agrees monocypher_inverse .init none (fun _ => 1) (List.replicate 70 7) hm hm'
    (Or.inl (by decide) : Apart 100 _ 200 _)
  exact ⟨h.2.1, h.2.2.1 _ 20 20 rfl (Or.inl rfl)⟩

end Vfast.InPlace
