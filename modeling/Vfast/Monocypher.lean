import Vfast.Lib.Streams

/-! The parts of `monocypher.c` behind `crypto_aead_lock` and `crypto_aead_unlock`: ChaCha20
with its key derivation for 24-byte nonces, and Poly1305 on 32-bit limbs. -/

namespace Vfast.Monocypher

open Bytes Streams

/-- `load32_le` of word `i` of a byte string. -/
def load32Le (bs : List UInt8) (i : Nat) : UInt32 :=
  UInt32.ofNat (leVal ((bs.drop (4 * i)).take 4))

def load32LeBuf (bs : List UInt8) (size : Nat) : List UInt32 := (List.range size).map (load32Le bs)

def rotl32 (x n : UInt32) : UInt32 := (x <<< n) ^^^ (x >>> (32 - n))

/-! ## ChaCha20 -/

structure Words where
  t0 : UInt32
  t1 : UInt32
  t2 : UInt32
  t3 : UInt32
  t4 : UInt32
  t5 : UInt32
  t6 : UInt32
  t7 : UInt32
  t8 : UInt32
  t9 : UInt32
  t10 : UInt32
  t11 : UInt32
  t12 : UInt32
  t13 : UInt32
  t14 : UInt32
  t15 : UInt32

def Words.toList (w : Words) : List UInt32 :=
  [w.t0, w.t1, w.t2, w.t3, w.t4, w.t5, w.t6, w.t7, w.t8, w.t9, w.t10, w.t11, w.t12, w.t13, w.t14,
    w.t15]

def Words.ofList (ws : List UInt32) : Words :=
  let w := fun i => ws.getD i 0
  ⟨w 0, w 1, w 2, w 3, w 4, w 5, w 6, w 7, w 8, w 9, w 10, w 11, w 12, w 13, w 14, w 15⟩

def quarterround (a b c d : UInt32) : UInt32 × UInt32 × UInt32 × UInt32 :=
  let a := a + b
  let d := rotl32 (d ^^^ a) 16
  let c := c + d
  let b := rotl32 (b ^^^ c) 12
  let a := a + b
  let d := rotl32 (d ^^^ a) 8
  let c := c + d
  let b := rotl32 (b ^^^ c) 7
  (a, b, c, d)

def doubleRound (w : Words) : Words :=
  let (t0, t4, t8, t12) := quarterround w.t0 w.t4 w.t8 w.t12
  let (t1, t5, t9, t13) := quarterround w.t1 w.t5 w.t9 w.t13
  let (t2, t6, t10, t14) := quarterround w.t2 w.t6 w.t10 w.t14
  let (t3, t7, t11, t15) := quarterround w.t3 w.t7 w.t11 w.t15
  let (t0, t5, t10, t15) := quarterround t0 t5 t10 t15
  let (t1, t6, t11, t12) := quarterround t1 t6 t11 t12
  let (t2, t7, t8, t13) := quarterround t2 t7 t8 t13
  let (t3, t4, t9, t14) := quarterround t3 t4 t9 t14
  ⟨t0, t1, t2, t3, t4, t5, t6, t7, t8, t9, t10, t11, t12, t13, t14, t15⟩

def chacha20Rounds (w : Words) : Words := Nat.repeat doubleRound 10 w

def chacha20Constant : List UInt8 :=
  [0x65, 0x78, 0x70, 0x61, 0x6E, 0x64, 0x20, 0x33, 0x32, 0x2D, 0x62, 0x79, 0x74, 0x65, 0x20, 0x6B]

/-- `crypto_chacha20_h`, the derived key. -/
def cryptoChacha20H (key input : List UInt8) : List UInt8 :=
  let block := chacha20Rounds (.ofList (load32LeBuf chacha20Constant 4 ++ load32LeBuf key 8 ++
    load32LeBuf input 4))
  (block.toList.take 4 ++ block.toList.drop 12).flatMap le32

def chacha20Block (key nonce : List UInt8) (ctr : UInt64) : List UInt8 :=
  let input := load32LeBuf chacha20Constant 4 ++ load32LeBuf key 8 ++
    [ctr.toUInt32, (ctr >>> 32).toUInt32] ++ load32LeBuf nonce 2
  (List.zipWith (· + ·) (chacha20Rounds (.ofList input)).toList input).flatMap le32

/-- Byte `i` of the key stream that starts at block `ctr`. -/
def keyStream (key nonce : List UInt8) (ctr : UInt64) (i : Nat) : UInt8 :=
  (chacha20Block key nonce (ctr + UInt64.ofNat (i / 64))).getD (i % 64) 0

/-- `crypto_chacha20_djb` on one piece of the text at position `i`: a word in a whole block,
else a byte. -/
def chacha20Piece (ks : Nat → UInt8) (i : Nat) (piece : List UInt8) : List UInt8 :=
  if piece.length = 4 then
    le32 (UInt32.ofNat (leVal [ks i, ks (i + 1), ks (i + 2), ks (i + 3)]) ^^^
      UInt32.ofNat (leVal piece))
  else piece.mapIdx fun j b => ks (i + j) ^^^ b

/-- Either way the bytes are xored. -/
theorem chacha20Piece_eq (ks : Nat → UInt8) (i : Nat) (piece : List UInt8) :
    chacha20Piece ks i piece = piece.mapIdx fun j b => ks (i + j) ^^^ b := by
  unfold chacha20Piece
  split
  · rename_i h
    obtain ⟨a, b, c, d, rfl⟩ : ∃ a b c d, piece = [a, b, c, d] := by
      match piece, h with
      | [a, b, c, d], _ => exact ⟨a, b, c, d, rfl⟩
    rw [le32_xor, le32_ofNat_leVal rfl, le32_ofNat_leVal rfl]
    rfl
  · rfl

/-- The cipher; its state is the key stream and the position. -/
def chacha20 : Piecewise ((Nat → UInt8) × Nat) where
  step s piece := ((s.1, s.2 + piece.length), chacha20Piece s.1 s.2 piece)
  length_step := by simp [chacha20Piece_eq]

theorem chacha20_eq : chacha20 = xorStream := by
  simp only [chacha20, xorStream, chacha20Piece_eq]

/-- The words in which `crypto_chacha20_djb` goes through a text: four bytes at a time in
whole blocks, then single bytes. -/
def wordSizes (textSize : Nat) : List Nat :=
  List.replicate (16 * (textSize / 64)) 4 ++ List.replicate (textSize % 64) 1

theorem sum_wordSizes (n : Nat) : (wordSizes n).sum = n := by
  simp only [wordSizes, List.sum_append, List.sum_replicate_nat]
  omega

/-! ## Poly1305 -/

/-- `crypto_poly1305_ctx` between blocks. -/
structure Poly1305 where
  r0 : UInt32
  r1 : UInt32
  r2 : UInt32
  r3 : UInt32
  pad : List UInt32
  h0 : UInt32
  h1 : UInt32
  h2 : UInt32
  h3 : UInt32
  h4 : UInt32

def cryptoPoly1305Init (key : List UInt8) : Poly1305 where
  r0 := load32Le key 0 &&& 0x0FFFFFFF
  r1 := load32Le key 1 &&& 0x0FFFFFFC
  r2 := load32Le key 2 &&& 0x0FFFFFFC
  r3 := load32Le key 3 &&& 0x0FFFFFFC
  pad := load32LeBuf (key.drop 16) 4
  h0 := 0
  h1 := 0
  h2 := 0
  h3 := 0
  h4 := 0

/-- `h + c` in one iteration of `poly_blocks`, without carry propagation. -/
structure Sums where
  s0 : UInt64
  s1 : UInt64
  s2 : UInt64
  s3 : UInt64
  s4 : UInt32

/-- `fin` is `end`. -/
def sums (fin : UInt32) (ctx : Poly1305) (block : List UInt8) : Sums where
  s0 := ctx.h0.toUInt64 + (load32Le block 0).toUInt64
  s1 := ctx.h1.toUInt64 + (load32Le block 1).toUInt64
  s2 := ctx.h2.toUInt64 + (load32Le block 2).toUInt64
  s3 := ctx.h3.toUInt64 + (load32Le block 3).toUInt64
  s4 := ctx.h4 + fin

/-- `(h + c) * r`, without carry propagation. -/
structure Products where
  x0 : UInt64
  x1 : UInt64
  x2 : UInt64
  x3 : UInt64
  x4 : UInt32

def products (ctx : Poly1305) (s : Sums) : Products :=
  let rr0 := (ctx.r0 >>> 2) * 5
  let rr1 := (ctx.r1 >>> 2) + ctx.r1
  let rr2 := (ctx.r2 >>> 2) + ctx.r2
  let rr3 := (ctx.r3 >>> 2) + ctx.r3
  let rr4 := ctx.r0 &&& 3
  { x0 := s.s0 * ctx.r0.toUInt64 + s.s1 * rr3.toUInt64 + s.s2 * rr2.toUInt64 +
      s.s3 * rr1.toUInt64 + (s.s4 * rr0).toUInt64
    x1 := s.s0 * ctx.r1.toUInt64 + s.s1 * ctx.r0.toUInt64 + s.s2 * rr3.toUInt64 +
      s.s3 * rr2.toUInt64 + (s.s4 * rr1).toUInt64
    x2 := s.s0 * ctx.r2.toUInt64 + s.s1 * ctx.r1.toUInt64 + s.s2 * ctx.r0.toUInt64 +
      s.s3 * rr3.toUInt64 + (s.s4 * rr2).toUInt64
    x3 := s.s0 * ctx.r3.toUInt64 + s.s1 * ctx.r2.toUInt64 + s.s2 * ctx.r1.toUInt64 +
      s.s3 * ctx.r0.toUInt64 + (s.s4 * rr3).toUInt64
    x4 := s.s4 * rr4 }

/-- The partial reduction modulo 2^130 - 5. -/
structure Reduced where
  u5 : UInt32
  u0 : UInt64
  u1 : UInt64
  u2 : UInt64
  u3 : UInt64
  u4 : UInt32

def partialReduction (x : Products) : Reduced :=
  let u5 := (x.x3 >>> 32).toUInt32 + x.x4
  let u0 : UInt64 := ((u5 >>> 2) * 5).toUInt64 + (x.x0 &&& (0xFFFFFFFF : UInt64))
  let u1 : UInt64 :=
    (u0 >>> 32).toUInt32.toUInt64 + (x.x1 &&& (0xFFFFFFFF : UInt64)) + (x.x0 >>> 32)
  let u2 : UInt64 :=
    (u1 >>> 32).toUInt32.toUInt64 + (x.x2 &&& (0xFFFFFFFF : UInt64)) + (x.x1 >>> 32)
  let u3 : UInt64 :=
    (u2 >>> 32).toUInt32.toUInt64 + (x.x3 &&& (0xFFFFFFFF : UInt64)) + (x.x2 >>> 32)
  let u4 := (u3 >>> 32).toUInt32 + (u5 &&& 3)
  ⟨u5, u0, u1, u2, u3, u4⟩

/-- One iteration of `poly_blocks`. -/
def polyStep (fin : UInt32) (ctx : Poly1305) (block : List UInt8) : Poly1305 :=
  let u := partialReduction (products ctx (sums fin ctx block))
  { ctx with
    h0 := u.u0.toUInt32
    h1 := u.u1.toUInt32
    h2 := u.u2.toUInt32
    h3 := u.u3.toUInt32
    h4 := u.u4 }

def polyBlock (ctx : Poly1305) (block : List UInt8) : Poly1305 := polyStep 1 ctx block

def polyBlocks (ctx : Poly1305) (message : List UInt8) : Poly1305 :=
  (List.range (message.length / 16)).foldl
    (fun ctx i => polyBlock ctx ((message.drop (16 * i)).take 16)) ctx

/-- The carry that `crypto_poly1305_final` starts from: 5 when 2^130 - 5 is to be subtracted. -/
def finalCarry (ctx : Poly1305) : UInt64 :=
  let c : UInt64 := [ctx.h0, ctx.h1, ctx.h2, ctx.h3].foldl
    (fun (c : UInt64) h => (c + h.toUInt64) >>> (32 : UInt64)) 5
  ((c + ctx.h4.toUInt64) >>> 2) * 5

/-- `crypto_poly1305_final` without a pending block. -/
def cryptoPoly1305Final (ctx : Poly1305) : List UInt8 :=
  ((List.zip [ctx.h0, ctx.h1, ctx.h2, ctx.h3] ctx.pad).foldl
    (fun (acc : UInt64 × List UInt8) hp =>
      let c := acc.1 + (hp.1.toUInt64 + hp.2.toUInt64)
      (c >>> 32, acc.2 ++ le32 c.toUInt32)) (finalCarry ctx, [])).2

/-- A text filled up with zeros to whole blocks, `gap(text_size, 16)`. -/
def padded16 (text : List UInt8) : List UInt8 :=
  text ++ List.replicate ((16 - text.length % 16) % 16) 0

/-- `lock_auth`. Its updates run on as one message; each part is padded, so no block is
pending at the end. -/
def lockAuth (authKey ad cipherText : List UInt8) : Block 16 :=
  let message := padded16 ad ++ (padded16 cipherText ++
    (le64 (UInt64.ofNat ad.length) ++ le64 (UInt64.ofNat cipherText.length)))
  Block.ofList 16 (cryptoPoly1305Final (polyBlocks (cryptoPoly1305Init authKey) message))

/-! ## The AEAD -/

def subKey (key : Block 32) (nonce : Block 24) : List UInt8 :=
  cryptoChacha20H key.toList (nonce.toList.take 16)

/-- The key stream of a text; block 0 is kept for the tag. -/
def textStream (key : Block 32) (nonce : Block 24) : Nat → UInt8 :=
  keyStream (subKey key nonce) (nonce.toList.drop 16) 1

/-- The tag of a ciphertext, under the first half of block 0. -/
def textTag (key : Block 32) (nonce : Block 24) (ad cipherText : List UInt8) : Block 16 :=
  lockAuth ((chacha20Block (subKey key nonce) (nonce.toList.drop 16) 0).take 32) ad cipherText

/-- The first block under the key 80, 81, … and the nonce 40, 41, … -/
example : (chacha20Block (subKey (fun i => UInt8.ofNat (0x80 + i)) fun i => UInt8.ofNat (0x40 + i))
    [0x50, 0x51, 0x52, 0x53, 0x54, 0x55, 0x56, 0x57] 0).take 4 = [0x7B, 0x19, 0x1F, 0x80] := by
  decide +kernel

end Vfast.Monocypher
