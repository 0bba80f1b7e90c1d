import Mathlib.Data.Nat.ModEq
import Mathlib.Tactic.Ring
import Vfast.Lib.Blocks
import Vfast.Lib.Limbs
import Vfast.Monocypher

/-! Poly1305 as `monocypher.c` computes it: a message arrives in updates of any sizes, blocks are
multiplied in 32-bit limbs with 64-bit products, and the sum is reduced modulo 2^130 - 5 only in
part until the tag is taken.

Main results: an update leaves the context as if the message had come in one piece
(`update_fed`); one block neither overflows a word nor leaves the bounds (`Ready.noOverflow`), and
is the block of the polynomial modulo 2^130 - 5 (`Ready.step`); so a tag is that of the polynomial
(`crypto_poly1305_parts`), and `lock_auth` tags one padded message (`lock_auth_polynomial`). -/

namespace Vfast.PolyMac

open Bytes Blocks Limbs Monocypher

/-! ## The functions -/

def polyBlocks (ctx : Poly1305) (input : List UInt8) (nbBlocks : Nat) (fin : UInt32) : Poly1305 :=
  (List.range nbBlocks).foldl (fun ctx i => polyStep fin ctx ((input.drop (16 * i)).take 16)) ctx

/-- `crypto_poly1305_ctx` with its chunk; `c` holds old bytes from `cIdx` on. -/
structure Ctx where
  core : Poly1305
  c : Block 16
  cIdx : Nat

/-- `ctx->c[ctx->c_idx] = b; ctx->c_idx++`. -/
def Ctx.push (ctx : Ctx) (b : UInt8) : Ctx :=
  { ctx with c := fun i => if i.val = ctx.cIdx then b else ctx.c i, cIdx := ctx.cIdx + 1 }

/-- `gap`: what is missing to a multiple of `pow2`. -/
def gap (x pow2 : Nat) : Nat := ((~~~UInt64.ofNat x + 1) &&& (UInt64.ofNat pow2 - 1)).toNat

/-- `crypto_poly1305_init`; the chunk is not cleared. -/
def cryptoPoly1305Init (key : List UInt8) (c : Block 16) : Ctx where
  core := Monocypher.cryptoPoly1305Init key
  c := c
  cIdx := 0

def cryptoPoly1305Update (ctx : Ctx) (message : List UInt8) : Ctx :=
  if message.length = 0 then ctx
  else
    let aligned := min (gap ctx.cIdx 16) message.length
    let ctx := (message.take aligned).foldl Ctx.push ctx
    let message := message.drop aligned
    let ctx :=
      if ctx.cIdx = 16 then { ctx with core := polyBlocks ctx.core ctx.c.toList 1 1, cIdx := 0 }
      else ctx
    let nbBlocks := message.length / 16
    let ctx := { ctx with core := polyBlocks ctx.core message nbBlocks 1 }
    (message.drop (16 * nbBlocks)).foldl Ctx.push ctx

/-- The last block of `crypto_poly1305_final`: zeros after the chunk, and the final 1. -/
def lastBlock (ctx : Ctx) : Block 16 :=
  fun i => if i.val = ctx.cIdx then 1 else if ctx.cIdx < i.val then 0 else ctx.c i

def cryptoPoly1305Final (ctx : Ctx) : List UInt8 :=
  Monocypher.cryptoPoly1305Final
    (if ctx.cIdx ≠ 0 then polyBlocks ctx.core (lastBlock ctx).toList 1 0 else ctx.core)

/-- `lock_auth`, update by update. -/
def lockAuth (authKey ad cipherText : List UInt8) (c : Block 16) : List UInt8 :=
  let sizes := le64 (UInt64.ofNat ad.length) ++ le64 (UInt64.ofNat cipherText.length)
  let ctx := cryptoPoly1305Init authKey c
  let ctx := cryptoPoly1305Update ctx ad
  let ctx := cryptoPoly1305Update ctx (List.replicate (gap ad.length 16) 0)
  let ctx := cryptoPoly1305Update ctx cipherText
  let ctx := cryptoPoly1305Update ctx (List.replicate (gap cipherText.length 16) 0)
  let ctx := cryptoPoly1305Update ctx sizes
  cryptoPoly1305Final ctx

/-! ## Updates -/

theorem gap_eq (x : Nat) : gap x 16 = (16 - x % 16) % 16 := by
  have h15 : (UInt64.ofNat 16 - 1).toNat = 2 ^ 4 - 1 := by decide
  have hx : (UInt64.ofNat x).toNat = x % 2 ^ 64 := UInt64.toNat_ofNat'
  rw [gap, UInt64.toNat_and, h15, Nat.and_two_pow_sub_one_eq_mod, UInt64.toNat_add,
    UInt64.toNat_not, hx]
  have h1 : (1 : UInt64).toNat = 1 := rfl
  have hs : UInt64.size = 2 ^ 64 := rfl
  omega

/-- The bytes pushed stand after those already there. -/
theorem push_foldl (bytes : List UInt8) (ctx : Ctx) (h : ctx.cIdx + bytes.length ≤ 16) :
    (bytes.foldl Ctx.push ctx).core = ctx.core ∧
    (bytes.foldl Ctx.push ctx).cIdx = ctx.cIdx + bytes.length ∧
    (bytes.foldl Ctx.push ctx).c.toList.take (ctx.cIdx + bytes.length) =
      ctx.c.toList.take ctx.cIdx ++ bytes := by
  induction bytes generalizing ctx with
  | nil => simp
  | cons b bytes ih =>
    simp only [List.length_cons] at h
    obtain ⟨hcore, hidx, htake⟩ := ih (ctx.push b) (by simp only [Ctx.push]; omega)
    have hpush : (ctx.push b).c.toList.take (ctx.cIdx + 1) = ctx.c.toList.take ctx.cIdx ++ [b] := by
      apply List.ext_getElem
      · simp only [List.length_take, Block.length_toList, List.length_append, List.length_singleton]
        omega
      · intro i h1 h2
        simp only [List.length_take, Block.length_toList] at h1
        rw [List.getElem_append]
        split
        · rename_i hlt
          simp only [List.length_take, Block.length_toList] at hlt
          have hne : i ≠ ctx.cIdx := by omega
          simp only [List.getElem_take, Block.toList, List.getElem_ofFn, Ctx.push, if_neg hne]
        · rename_i hge
          simp only [List.length_take, Block.length_toList] at hge
          have he : i = ctx.cIdx := by omega
          simp only [List.getElem_take, Block.toList, List.getElem_ofFn, Ctx.push, if_pos he,
            List.getElem_singleton]
    refine ⟨hcore, ?_, ?_⟩
    · rw [List.foldl_cons, hidx, List.length_cons]
      simp only [Ctx.push]
      omega
    · have hk : ctx.cIdx + (b :: bytes).length = (ctx.push b).cIdx + bytes.length := by
        simp only [Ctx.push, List.length_cons]
        omega
      have hb : b :: bytes = [b] ++ bytes := rfl
      rw [List.foldl_cons, hk, htake, hb, ← List.append_assoc, ← hpush]
      rfl

/-- The context after the message `message` came in: whole blocks are folded in, the rest
waits in the chunk. -/
structure Fed (start : Poly1305) (message : List UInt8) (ctx : Ctx) : Prop where
  core : ctx.core = foldBlocks 16 polyBlock start message
  pending : ctx.c.toList.take ctx.cIdx = leftover 16 message
  cIdx_lt : ctx.cIdx < 16

theorem Fed.length_pending {start : Poly1305} {message : List UInt8} {ctx : Ctx}
    (h : Fed start message ctx) : (leftover 16 message).length = ctx.cIdx := by
  have := h.cIdx_lt
  rw [← h.pending, List.length_take, Block.length_toList]
  omega

theorem init_fed (key : List UInt8) (c : Block 16) :
    Fed (Monocypher.cryptoPoly1305Init key) [] (cryptoPoly1305Init key c) where
  core := rfl
  pending := rfl
  cIdx_lt := Nat.zero_lt_succ 15

/-- The part of an update after the chunk is empty. -/
theorem blocks_fed (core : Poly1305) (c : Block 16) (message : List UInt8) :
    Fed core message ((message.drop (16 * (message.length / 16))).foldl Ctx.push
      ⟨polyBlocks core message (message.length / 16) 1, c, 0⟩) := by
  have hlt : (message.drop (16 * (message.length / 16))).length < 16 :=
    length_leftover (by decide) message
  obtain ⟨hcore, hidx, htake⟩ := push_foldl (message.drop (16 * (message.length / 16)))
    ⟨polyBlocks core message (message.length / 16) 1, c, 0⟩ (by simp only; omega)
  exact ⟨hcore, by rw [hidx, htake]; rfl, by rw [hidx]; simpa using hlt⟩

theorem Fed.shift {start : Poly1305} {message block rest : List UInt8} {ctx : Ctx}
    (h : Fed (polyBlock (foldBlocks 16 polyBlock start message) block) rest ctx)
    {part : List UInt8} (hb : block.length = 16)
    (he : leftover 16 message ++ part = block ++ rest) : Fed start (message ++ part) ctx where
  core := by
    rw [h.core, ← foldBlocks_resume (by decide) polyBlock start, he,
      foldBlocks_block (by decide) polyBlock _ hb]
  pending := by
    rw [h.pending, ← leftover_resume (by decide), he, leftover_block (by decide) hb]
  cIdx_lt := h.cIdx_lt

/-- A chunk that is filled up becomes a block. -/
theorem Fed.fill {start : Poly1305} {message : List UInt8} {ctx : Ctx} (h : Fed start message ctx)
    (bytes : List UInt8) (hfull : ctx.cIdx + bytes.length = 16) :
    (bytes.foldl Ctx.push ctx).cIdx = 16 ∧
    polyBlocks (bytes.foldl Ctx.push ctx).core (bytes.foldl Ctx.push ctx).c.toList 1 1 =
      polyBlock (foldBlocks 16 polyBlock start message) (leftover 16 message ++ bytes) := by
  obtain ⟨hcore, hidx, htake⟩ := push_foldl bytes ctx (Nat.le_of_eq hfull)
  have hc : (bytes.foldl Ctx.push ctx).c.toList = leftover 16 message ++ bytes := by
    rw [← h.pending, ← htake, hfull]
    exact (List.take_of_length_le (Nat.le_of_eq (Block.length_toList _))).symm
  refine ⟨hidx.trans hfull, ?_⟩
  rw [hcore, h.core]
  simp only [polyBlocks, polyBlock, List.range_one, List.foldl_cons, List.foldl_nil, Nat.mul_zero,
    List.drop_zero]
  rw [List.take_of_length_le (by rw [Block.length_toList]), hc]

/-- **An update.** Whatever came before, the context is that of the longer message. -/
theorem update_fed {start : Poly1305} {message : List UInt8} {ctx : Ctx}
    (h : Fed start message ctx) (part : List UInt8) :
    Fed start (message ++ part) (cryptoPoly1305Update ctx part) := by
  have hlt := h.cIdx_lt
  have hlen := h.length_pending
  unfold cryptoPoly1305Update
  by_cases h0 : part.length = 0
  · rw [if_pos h0, List.eq_nil_of_length_eq_zero h0, List.append_nil]
    exact h
  rw [if_neg h0]
  dsimp only
  by_cases hidx : ctx.cIdx = 0
  · -- no chunk waits: the whole blocks are taken from the message itself
    have hgap : gap ctx.cIdx 16 = 0 := by rw [hidx, gap_eq]
    have hnil : leftover 16 message = [] := List.eq_nil_of_length_eq_zero (by rw [hlen, hidx])
    have hctx : ctx = ⟨foldBlocks 16 polyBlock start message, ctx.c, 0⟩ := by
      rw [← h.core, ← hidx]
    rw [hgap, Nat.zero_min, List.take_zero, List.foldl_nil, List.drop_zero, if_neg (by omega), hctx]
    have hb := blocks_fed (foldBlocks 16 polyBlock start message) ctx.c part
    refine ⟨?_, ?_, hb.cIdx_lt⟩
    · rw [hb.core, ← foldBlocks_resume (by decide) polyBlock start message, hnil]
      rfl
    · rw [hb.pending, ← leftover_resume (by decide) message, hnil]
      rfl
  · have hgap : gap ctx.cIdx 16 = 16 - ctx.cIdx := by
      rw [gap_eq]
      omega
    rw [hgap]
    by_cases hfull : 16 - ctx.cIdx ≤ part.length
    · -- the chunk is filled and becomes a block
      rw [Nat.min_eq_left hfull]
      have htl : (part.take (16 - ctx.cIdx)).length = 16 - ctx.cIdx := by
        rw [List.length_take, Nat.min_eq_left hfull]
      obtain ⟨h16, hblock⟩ := h.fill (part.take (16 - ctx.cIdx)) (by omega)
      rw [if_pos h16, hblock]
      refine (blocks_fed _ _ (part.drop (16 - ctx.cIdx))).shift
        (by rw [List.length_append, hlen, htl]; omega) ?_
      rw [List.append_assoc, List.take_append_drop]
    · -- the chunk stays short and the message is used up
      rw [Nat.min_eq_right (by omega), List.take_length, List.drop_length]
      obtain ⟨hcore, hi, htake⟩ := push_foldl part ctx (by omega)
      rw [if_neg (by omega)]
      have hshort : (leftover 16 message ++ part).length < 16 := by
        rw [List.length_append, hlen]
        omega
      refine ⟨?_, ?_, by simp only [List.length_nil, Nat.zero_div, Nat.mul_zero, List.drop_nil,
        List.foldl_nil]; omega⟩
      · rw [← foldBlocks_resume (by decide) polyBlock start message, foldBlocks_short _ _ hshort,
          ← h.core, ← hcore]
        rfl
      · rw [← leftover_resume (by decide) message, leftover_short hshort, ← h.pending, ← htake,
          ← hi]
        rfl

theorem updates_fed {start : Poly1305} (parts : List (List UInt8)) {message : List UInt8}
    {ctx : Ctx} (h : Fed start message ctx) :
    Fed start (message ++ parts.flatten) (parts.foldl cryptoPoly1305Update ctx) := by
  induction parts generalizing message ctx with
  | nil => simpa using h
  | cons part parts ih =>
    rw [List.flatten_cons, ← List.append_assoc, List.foldl_cons]
    exact ih (update_fed h part)

/-! ## One block -/

def prime : Nat := 0x3FFFFFFFFFFFFFFFFFFFFFFFFFFFFFFFB

/-- The key `r` and the hash `h` of a context, as numbers. -/
def rVal (ctx : Poly1305) : Nat := limbVal [ctx.r0, ctx.r1, ctx.r2, ctx.r3]

def hVal (ctx : Poly1305) : Nat := limbVal [ctx.h0, ctx.h1, ctx.h2, ctx.h3, ctx.h4]

/-- The preconditions of `poly_blocks`: a clamped key, and a hash below 5 * 2^128. -/
structure Ready (ctx : Poly1305) : Prop where
  r0 : ctx.r0.toNat < 0x10000000
  r1 : ctx.r1.toNat < 0x10000000 ∧ ctx.r1.toNat % 4 = 0
  r2 : ctx.r2.toNat < 0x10000000 ∧ ctx.r2.toNat % 4 = 0
  r3 : ctx.r3.toNat < 0x10000000 ∧ ctx.r3.toNat % 4 = 0
  h4 : ctx.h4.toNat ≤ 4

theorem toNat_shiftRight_2 (r : UInt32) : (r >>> 2).toNat = r.toNat / 4 := by
  rw [UInt32.toNat_shiftRight, Nat.shiftRight_eq_div_pow]
  rfl

theorem toNat_and_3 (r : UInt32) : (r &&& 3).toNat = r.toNat % 4 := by
  rw [UInt32.toNat_and]
  exact Nat.and_two_pow_sub_one_eq_mod r.toNat 2

theorem toNat_low (x : UInt64) : (x &&& (0xFFFFFFFF : UInt64)).toNat = x.toNat % 0x100000000 := by
  rw [UInt64.toNat_and]
  exact Nat.and_two_pow_sub_one_eq_mod x.toNat 32

theorem toNat_high (x : UInt64) : (x >>> 32).toUInt32.toNat = x.toNat / 0x100000000 := by
  have := x.toNat_lt
  rw [UInt64.toNat_toUInt32, toNat_shiftRight_32, Nat.mod_eq_of_lt (by omega)]

theorem toNat_times5 {r : UInt32} (h : r.toNat < 0xC0000000) :
    ((r >>> 2) * 5).toNat = r.toNat / 4 * 5 := by
  have h5 : (5 : UInt32).toNat = 5 := rfl
  rw [UInt32.toNat_mul, toNat_shiftRight_2, h5]
  omega

theorem toNat_rr {r : UInt32} (h : r.toNat < 0x10000000) :
    ((r >>> 2) + r).toNat = r.toNat / 4 + r.toNat := by
  rw [UInt32.toNat_add, toNat_shiftRight_2]
  omega

/-- A sum of products stays below 2^64. -/
theorem toNat_dot {s0 s1 s2 s3 : UInt64} (a0 a1 a2 a3 e : UInt32)
    (hs : s0.toNat < 0x200000000 ∧ s1.toNat < 0x200000000 ∧ s2.toNat < 0x200000000 ∧
      s3.toNat < 0x200000000)
    (ha : a0.toNat ≤ 0x14000000 ∧ a1.toNat ≤ 0x14000000 ∧ a2.toNat ≤ 0x14000000 ∧
      a3.toNat ≤ 0x14000000) :
    (s0 * a0.toUInt64 + s1 * a1.toUInt64 + s2 * a2.toUInt64 + s3 * a3.toUInt64 +
        e.toUInt64).toNat =
      s0.toNat * a0.toNat + s1.toNat * a1.toNat + s2.toNat * a2.toNat + s3.toNat * a3.toNat +
        e.toNat ∧
    (s0 * a0.toUInt64 + s1 * a1.toUInt64 + s2 * a2.toUInt64 + s3 * a3.toUInt64 +
        e.toUInt64).toNat < 0xA000000100000000 := by
  have he := e.toNat_lt
  have bound : ∀ {s a : Nat}, s < 0x200000000 → a ≤ 0x14000000 → s * a ≤ 0x2800000000000000 := by
    intro s a h1 h2
    exact Nat.le_trans (Nat.mul_le_mul (Nat.le_of_lt h1) h2) (by decide)
  have b0 := bound hs.1 ha.1
  have b1 := bound hs.2.1 ha.2.1
  have b2 := bound hs.2.2.1 ha.2.2.1
  have b3 := bound hs.2.2.2 ha.2.2.2
  have hval : (s0 * a0.toUInt64 + s1 * a1.toUInt64 + s2 * a2.toUInt64 + s3 * a3.toUInt64 +
      e.toUInt64).toNat = s0.toNat * a0.toNat + s1.toNat * a1.toNat + s2.toNat * a2.toNat +
        s3.toNat * a3.toNat + e.toNat := by
    simp only [UInt64.toNat_add, UInt64.toNat_mul, UInt32.toNat_toUInt64]
    omega
  exact ⟨hval, by omega⟩

/-- Multiplication by a clamped key, modulo the prime: a limb `4 * q` times 2^128 is `5 * q`. -/
theorem limbs_mul (s0 s1 s2 s3 s4 q0 q1 q2 q3 t : Nat) :
    ∃ k, (s0 + 0x100000000 * s1 + 0x10000000000000000 * s2 + 0x1000000000000000000000000 * s3 +
        0x100000000000000000000000000000000 * s4) *
      (4 * q0 + t + 0x100000000 * (4 * q1) + 0x10000000000000000 * (4 * q2) +
        0x1000000000000000000000000 * (4 * q3)) =
      (s0 * (4 * q0 + t) + s1 * (5 * q3) + s2 * (5 * q2) + s3 * (5 * q1) + s4 * (5 * q0)) +
      0x100000000 * (s0 * (4 * q1) + s1 * (4 * q0 + t) + s2 * (5 * q3) + s3 * (5 * q2) +
        s4 * (5 * q1)) +
      0x10000000000000000 * (s0 * (4 * q2) + s1 * (4 * q1) + s2 * (4 * q0 + t) + s3 * (5 * q3) +
        s4 * (5 * q2)) +
      0x1000000000000000000000000 * (s0 * (4 * q3) + s1 * (4 * q2) + s2 * (4 * q1) +
        s3 * (4 * q0 + t) + s4 * (5 * q3)) +
      0x100000000000000000000000000000000 * (s4 * t) + prime * k := by
  refine ⟨s1 * q3 + s2 * q2 + s3 * q1 + s4 * q0 + 0x100000000 * (s2 * q3 + s3 * q2 + s4 * q1) +
    0x10000000000000000 * (s3 * q3 + s4 * q2) + 0x1000000000000000000000000 * (s4 * q3), ?_⟩
  simp only [prime]
  ring

structure SumsExact (fin : UInt32) (ctx : Poly1305) (block : List UInt8) (s : Sums) : Prop where
  s0 : s.s0.toNat = ctx.h0.toNat + (load32Le block 0).toNat
  s1 : s.s1.toNat = ctx.h1.toNat + (load32Le block 1).toNat
  s2 : s.s2.toNat = ctx.h2.toNat + (load32Le block 2).toNat
  s3 : s.s3.toNat = ctx.h3.toNat + (load32Le block 3).toNat
  s4 : s.s4.toNat = ctx.h4.toNat + fin.toNat

/-- `rr1`, `rr2` and `rr3` as numbers. -/
def rrVal (r : UInt32) : Nat := r.toNat / 4 + r.toNat

/-- The accumulators hold the sums of products themselves. -/
structure ProductsExact (ctx : Poly1305) (s : Sums) (x : Products) : Prop where
  x0 : x.x0.toNat = s.s0.toNat * ctx.r0.toNat + s.s1.toNat * rrVal ctx.r3 +
    s.s2.toNat * rrVal ctx.r2 + s.s3.toNat * rrVal ctx.r1 + s.s4.toNat * (ctx.r0.toNat / 4 * 5)
  x1 : x.x1.toNat = s.s0.toNat * ctx.r1.toNat + s.s1.toNat * ctx.r0.toNat +
    s.s2.toNat * rrVal ctx.r3 + s.s3.toNat * rrVal ctx.r2 + s.s4.toNat * rrVal ctx.r1
  x2 : x.x2.toNat = s.s0.toNat * ctx.r2.toNat + s.s1.toNat * ctx.r1.toNat +
    s.s2.toNat * ctx.r0.toNat + s.s3.toNat * rrVal ctx.r3 + s.s4.toNat * rrVal ctx.r2
  x3 : x.x3.toNat = s.s0.toNat * ctx.r3.toNat + s.s1.toNat * ctx.r2.toNat +
    s.s2.toNat * ctx.r1.toNat + s.s3.toNat * ctx.r0.toNat + s.s4.toNat * rrVal ctx.r3
  x4 : x.x4.toNat = s.s4.toNat * (ctx.r0.toNat % 4)

structure ReducedExact (x : Products) (u : Reduced) : Prop where
  u5 : u.u5.toNat = x.x3.toNat / 0x100000000 + x.x4.toNat
  u0 : u.u0.toNat = u.u5.toNat / 4 * 5 + x.x0.toNat % 0x100000000
  u1 : u.u1.toNat =
    u.u0.toNat / 0x100000000 + x.x1.toNat % 0x100000000 + x.x0.toNat / 0x100000000
  u2 : u.u2.toNat =
    u.u1.toNat / 0x100000000 + x.x2.toNat % 0x100000000 + x.x1.toNat / 0x100000000
  u3 : u.u3.toNat =
    u.u2.toNat / 0x100000000 + x.x3.toNat % 0x100000000 + x.x2.toNat / 0x100000000
  u4 : u.u4.toNat = u.u3.toNat / 0x100000000 + u.u5.toNat % 4

/-- **No word overflows in an iteration**: every sum, accumulator and carry is computed exactly. -/
structure NoOverflow (fin : UInt32) (ctx : Poly1305) (block : List UInt8) : Prop where
  sums : SumsExact fin ctx block (sums fin ctx block)
  products : ProductsExact ctx (Monocypher.sums fin ctx block)
    (products ctx (Monocypher.sums fin ctx block))
  reduced : ReducedExact (Monocypher.products ctx (Monocypher.sums fin ctx block))
    (partialReduction (Monocypher.products ctx (Monocypher.sums fin ctx block)))

theorem toNat_limb_add (h w : UInt32) :
    (h.toUInt64 + w.toUInt64).toNat = h.toNat + w.toNat := by
  have hlt := h.toNat_lt
  rw [toNat_add_word w (by rw [UInt32.toNat_toUInt64]; omega), UInt32.toNat_toUInt64]

/-- The bounds on sums that the products rely on. -/
structure Sums.Small (s : Sums) : Prop where
  s0 : s.s0.toNat < 0x200000000
  s1 : s.s1.toNat < 0x200000000
  s2 : s.s2.toNat < 0x200000000
  s3 : s.s3.toNat < 0x200000000
  s4 : s.s4.toNat ≤ 5

theorem Ready.sums {ctx : Poly1305} (h : Ready ctx) {fin : UInt32} (hf : fin.toNat ≤ 1)
    (block : List UInt8) :
    SumsExact fin ctx block (Monocypher.sums fin ctx block) ∧
      Sums.Small (Monocypher.sums fin ctx block) := by
  have hh4 := h.h4
  have bound : ∀ i j : UInt32, (i.toUInt64 + j.toUInt64).toNat < 0x200000000 := by
    intro i j
    have hi := i.toNat_lt
    have hj := j.toNat_lt
    rw [toNat_limb_add]
    omega
  have es4 : (ctx.h4 + fin).toNat = ctx.h4.toNat + fin.toNat := by
    rw [UInt32.toNat_add]
    omega
  refine ⟨⟨toNat_limb_add _ _, toNat_limb_add _ _, toNat_limb_add _ _, toNat_limb_add _ _, es4⟩,
    ⟨bound _ _, bound _ _, bound _ _, bound _ _, ?_⟩⟩
  show (ctx.h4 + fin).toNat ≤ 5
  omega

/-- The bounds on products that the reduction relies on. -/
structure Products.Small (x : Products) : Prop where
  x2 : x.x2.toNat < 0xA000000100000000
  x3 : x.x3.toNat < 0xA000000100000000
  x4 : x.x4.toNat ≤ 15

theorem toNat_top_mul {s r : UInt32} (hs : s.toNat ≤ 5) (hr : r.toNat ≤ 0x14000000) :
    (s * r).toNat = s.toNat * r.toNat := by
  have hm : s.toNat * r.toNat ≤ 5 * 0x14000000 := Nat.mul_le_mul hs hr
  rw [UInt32.toNat_mul, Nat.mod_eq_of_lt (by omega)]

/-- The accumulators do not overflow. -/
theorem Ready.products {ctx : Poly1305} (h : Ready ctx) {s : Sums} (hs : Sums.Small s) :
    ProductsExact ctx s (Monocypher.products ctx s) ∧
      Products.Small (Monocypher.products ctx s) := by
  have hr0 := h.r0
  obtain ⟨hr1, -⟩ := h.r1
  obtain ⟨hr2, -⟩ := h.r2
  obtain ⟨hr3, -⟩ := h.r3
  have hs4 := hs.s4
  have hlow : s.s0.toNat < 0x200000000 ∧ s.s1.toNat < 0x200000000 ∧ s.s2.toNat < 0x200000000 ∧
      s.s3.toNat < 0x200000000 := ⟨hs.s0, hs.s1, hs.s2, hs.s3⟩
  have err0 : ((ctx.r0 >>> 2) * 5).toNat = ctx.r0.toNat / 4 * 5 := toNat_times5 (by omega)
  have err1 : ((ctx.r1 >>> 2) + ctx.r1).toNat = rrVal ctx.r1 := toNat_rr hr1
  have err2 : ((ctx.r2 >>> 2) + ctx.r2).toNat = rrVal ctx.r2 := toNat_rr hr2
  have err3 : ((ctx.r3 >>> 2) + ctx.r3).toNat = rrVal ctx.r3 := toNat_rr hr3
  have err4 := toNat_and_3 ctx.r0
  have brr0 : ((ctx.r0 >>> 2) * 5).toNat ≤ 0x14000000 := by omega
  have brr1 : ((ctx.r1 >>> 2) + ctx.r1).toNat ≤ 0x14000000 := by rw [err1, rrVal]; omega
  have brr2 : ((ctx.r2 >>> 2) + ctx.r2).toNat ≤ 0x14000000 := by rw [err2, rrVal]; omega
  have brr3 : ((ctx.r3 >>> 2) + ctx.r3).toNat ≤ 0x14000000 := by rw [err3, rrVal]; omega
  have ex4 : (s.s4 * (ctx.r0 &&& 3)).toNat = s.s4.toNat * (ctx.r0.toNat % 4) := by
    rw [toNat_top_mul hs4 (by omega), err4]
  have hx4 : (s.s4 * (ctx.r0 &&& 3)).toNat ≤ 15 := by
    rw [ex4]
    exact Nat.mul_le_mul hs4 (by omega : ctx.r0.toNat % 4 ≤ 3)
  obtain ⟨ex0, -⟩ := toNat_dot ctx.r0 ((ctx.r3 >>> 2) + ctx.r3) ((ctx.r2 >>> 2) + ctx.r2)
    ((ctx.r1 >>> 2) + ctx.r1) (s.s4 * ((ctx.r0 >>> 2) * 5)) hlow (by omega)
  obtain ⟨ex1, -⟩ := toNat_dot ctx.r1 ctx.r0 ((ctx.r3 >>> 2) + ctx.r3) ((ctx.r2 >>> 2) + ctx.r2)
    (s.s4 * ((ctx.r1 >>> 2) + ctx.r1)) hlow (by omega)
  obtain ⟨ex2, hx2⟩ := toNat_dot ctx.r2 ctx.r1 ctx.r0 ((ctx.r3 >>> 2) + ctx.r3)
    (s.s4 * ((ctx.r2 >>> 2) + ctx.r2)) hlow (by omega)
  obtain ⟨ex3, hx3⟩ := toNat_dot ctx.r3 ctx.r2 ctx.r1 ctx.r0 (s.s4 * ((ctx.r3 >>> 2) + ctx.r3))
    hlow (by omega)
  rw [toNat_top_mul hs4 brr0, err0, err1, err2, err3] at ex0
  rw [toNat_top_mul hs4 brr1, err1, err2, err3] at ex1
  rw [toNat_top_mul hs4 brr2, err2, err3] at ex2
  rw [toNat_top_mul hs4 brr3, err3] at ex3
  exact ⟨⟨ex0, ex1, ex2, ex3, ex4⟩, ⟨hx2, hx3, hx4⟩⟩

theorem toNat_carry (u x y : UInt64) :
    ((u >>> 32).toUInt32.toUInt64 + (x &&& (0xFFFFFFFF : UInt64)) + (y >>> 32)).toNat =
      u.toNat / 0x100000000 + x.toNat % 0x100000000 + y.toNat / 0x100000000 := by
  have hu := u.toNat_lt
  have hy := y.toNat_lt
  rw [UInt64.toNat_add, UInt64.toNat_add, UInt32.toNat_toUInt64, toNat_high, toNat_low,
    toNat_shiftRight_32]
  omega

/-- The carries do not overflow, and the top limb is at most 4. -/
theorem Products.Small.reduced {x : Products} (h : Products.Small x) :
    ReducedExact x (partialReduction x) ∧ (partialReduction x).u4.toNat ≤ 4 := by
  obtain ⟨x0, x1, x2, x3, x4⟩ := x
  obtain ⟨hx2, hx3, hx4⟩ := h
  simp only at hx2 hx3 hx4
  have hx0 := x0.toNat_lt
  have hx1 := x1.toNat_lt
  set u5 := (x3 >>> 32).toUInt32 + x4 with hu5
  have e5 : u5.toNat = x3.toNat / 0x100000000 + x4.toNat := by
    rw [hu5, UInt32.toNat_add, toNat_high]
    omega
  set u0 := ((u5 >>> 2) * 5).toUInt64 + (x0 &&& (0xFFFFFFFF : UInt64)) with hu0
  have e0 : u0.toNat = u5.toNat / 4 * 5 + x0.toNat % 0x100000000 := by
    rw [hu0, UInt64.toNat_add, UInt32.toNat_toUInt64, toNat_times5 (by omega), toNat_low]
    omega
  set u1 := (u0 >>> 32).toUInt32.toUInt64 + (x1 &&& (0xFFFFFFFF : UInt64)) + (x0 >>> 32)
  set u2 := (u1 >>> 32).toUInt32.toUInt64 + (x2 &&& (0xFFFFFFFF : UInt64)) + (x1 >>> 32)
  set u3 := (u2 >>> 32).toUInt32.toUInt64 + (x3 &&& (0xFFFFFFFF : UInt64)) + (x2 >>> 32)
  have e1 : u1.toNat = _ := toNat_carry u0 x1 x0
  have e2 : u2.toNat = _ := toNat_carry u1 x2 x1
  have e3 : u3.toNat = _ := toNat_carry u2 x3 x2
  have e4 : ((u3 >>> 32).toUInt32 + (u5 &&& 3)).toNat = u3.toNat / 0x100000000 + u5.toNat % 4 := by
    rw [UInt32.toNat_add, toNat_high, toNat_and_3]
    omega
  refine ⟨⟨e5, e0, e1, e2, e3, e4⟩, ?_⟩
  show ((u3 >>> 32).toUInt32 + (u5 &&& 3)).toNat ≤ 4
  omega

/-- An iteration from a context within the bounds. -/
theorem Ready.noOverflow {ctx : Poly1305} (h : Ready ctx) {fin : UInt32} (hf : fin.toNat ≤ 1)
    (block : List UInt8) :
    NoOverflow fin ctx block ∧ Ready (polyStep fin ctx block) := by
  obtain ⟨hsums, hs⟩ := h.sums hf block
  obtain ⟨hproducts, hx⟩ := h.products hs
  obtain ⟨hreduced, htop⟩ := hx.reduced
  exact ⟨⟨hsums, hproducts, hreduced⟩, ⟨h.r0, h.r1, h.r2, h.r3, htop⟩⟩

def Products.val (x : Products) : Nat :=
  x.x0.toNat + 0x100000000 * x.x1.toNat + 0x10000000000000000 * x.x2.toNat +
    0x1000000000000000000000000 * x.x3.toNat + 0x100000000000000000000000000000000 * x.x4.toNat

/-- The reduction takes away `u5 / 4` times the prime. -/
theorem ReducedExact.mod {x : Products} {u : Reduced} (h : ReducedExact x u) :
    limbVal [u.u0.toUInt32, u.u1.toUInt32, u.u2.toUInt32, u.u3.toUInt32, u.u4] ≡
      Products.val x [MOD prime] := by
  obtain ⟨e5, e0, e1, e2, e3, e4⟩ := h
  have hval : limbVal [u.u0.toUInt32, u.u1.toUInt32, u.u2.toUInt32, u.u3.toUInt32, u.u4] +
      prime * (u.u5.toNat / 4) = Products.val x := by
    simp only [limbVal, e4, UInt64.toNat_toUInt32, prime, Products.val]
    omega
  rw [← hval]
  simp [Nat.ModEq]

/-- A limb of a clamped key is a multiple of 4. -/
theorem rrVal_eq {r : UInt32} (h : r.toNat % 4 = 0) : rrVal r = 5 * (r.toNat / 4) := by
  rw [rrVal]
  omega

/-- The products are the product modulo the prime. -/
theorem ProductsExact.mod {ctx : Poly1305} (h : Ready ctx) {s : Sums} {x : Products}
    (hx : ProductsExact ctx s x) :
    Products.val x ≡
      (s.s0.toNat + 0x100000000 * s.s1.toNat + 0x10000000000000000 * s.s2.toNat +
        0x1000000000000000000000000 * s.s3.toNat +
        0x100000000000000000000000000000000 * s.s4.toNat) * rVal ctx [MOD prime] := by
  obtain ⟨-, hm1⟩ := h.r1
  obtain ⟨-, hm2⟩ := h.r2
  obtain ⟨-, hm3⟩ := h.r3
  -- with `r1`, `r2` and `r3` as multiples of 4 this is the identity of `limbs_mul`
  obtain ⟨k, hk⟩ := limbs_mul s.s0.toNat s.s1.toNat s.s2.toNat s.s3.toNat s.s4.toNat
    (ctx.r0.toNat / 4) (ctx.r1.toNat / 4) (ctx.r2.toNat / 4) (ctx.r3.toNat / 4) (ctx.r0.toNat % 4)
  rw [Nat.div_add_mod, Nat.mul_div_cancel' (Nat.dvd_of_mod_eq_zero hm1),
    Nat.mul_div_cancel' (Nat.dvd_of_mod_eq_zero hm2),
    Nat.mul_div_cancel' (Nat.dvd_of_mod_eq_zero hm3)] at hk
  have hr : rVal ctx = ctx.r0.toNat + 0x100000000 * ctx.r1.toNat +
      0x10000000000000000 * ctx.r2.toNat + 0x1000000000000000000000000 * ctx.r3.toNat := by
    simp only [rVal, limbVal]
    ring
  have hval : Products.val x + prime * k =
      (s.s0.toNat + 0x100000000 * s.s1.toNat + 0x10000000000000000 * s.s2.toNat +
        0x1000000000000000000000000 * s.s3.toNat +
        0x100000000000000000000000000000000 * s.s4.toNat) * rVal ctx := by
    rw [hr, hk]
    simp only [Products.val, hx.x0, hx.x1, hx.x2, hx.x3, hx.x4, rrVal_eq hm1, rrVal_eq hm2,
      rrVal_eq hm3, Nat.mul_comm _ 5]
  rw [← hval]
  simp [Nat.ModEq]

theorem limbVal_block (block : List UInt8) :
    limbVal [load32Le block 0, load32Le block 1, load32Le block 2, load32Le block 3] =
      leVal (block.take 16) :=
  limbVal_loads block 4

/-- **One block.** The bounds hold again, and the hash is multiplied by the key modulo the
prime. -/
theorem Ready.step {ctx : Poly1305} (h : Ready ctx) {fin : UInt32} (hf : fin.toNat ≤ 1)
    (block : List UInt8) :
    Ready (polyStep fin ctx block) ∧
    hVal (polyStep fin ctx block) ≡
      (hVal ctx + leVal (block.take 16) + 0x100000000000000000000000000000000 * fin.toNat) *
        rVal ctx [MOD prime] := by
  obtain ⟨⟨hsums, hproducts, hreduced⟩, hready⟩ := h.noOverflow hf block
  refine ⟨hready, ?_⟩
  have hprod := hproducts.mod h
  rw [hsums.s0, hsums.s1, hsums.s2, hsums.s3, hsums.s4] at hprod
  have hsum : ctx.h0.toNat + (load32Le block 0).toNat +
        0x100000000 * (ctx.h1.toNat + (load32Le block 1).toNat) +
        0x10000000000000000 * (ctx.h2.toNat + (load32Le block 2).toNat) +
        0x1000000000000000000000000 * (ctx.h3.toNat + (load32Le block 3).toNat) +
        0x100000000000000000000000000000000 * (ctx.h4.toNat + fin.toNat) =
      hVal ctx + leVal (block.take 16) + 0x100000000000000000000000000000000 * fin.toNat := by
    rw [← limbVal_block]
    simp only [hVal, limbVal]
    ring
  rw [hsum] at hprod
  exact hreduced.mod.trans hprod

/-- A call of `poly_blocks`; `last` is the block of `crypto_poly1305_final`, with `end` 0. -/
structure PolyCall where
  input : List UInt8
  nbBlocks : Nat
  last : Bool

def PolyCall.fin (call : PolyCall) : UInt32 := if call.last then 0 else 1

def PolyCall.run (ctx : Poly1305) (call : PolyCall) : Poly1305 :=
  polyBlocks ctx call.input call.nbBlocks call.fin

theorem PolyCall.fin_le (call : PolyCall) : call.fin.toNat ≤ 1 := by
  rw [PolyCall.fin]
  split <;> decide

theorem Ready.blocks {ctx : Poly1305} (h : Ready ctx) (input : List UInt8) (nbBlocks : Nat)
    {fin : UInt32} (hf : fin.toNat ≤ 1) : Ready (polyBlocks ctx input nbBlocks fin) := by
  rw [polyBlocks]
  generalize List.range nbBlocks = is
  induction is generalizing ctx with
  | nil => exact h
  | cons i is ih => exact ih (h.noOverflow hf _).2

theorem Ready.calls {ctx : Poly1305} (h : Ready ctx) (calls : List PolyCall) :
    Ready (calls.foldl PolyCall.run ctx) := by
  induction calls generalizing ctx with
  | nil => exact h
  | cons call calls ih => exact ih (h.blocks call.input call.nbBlocks call.fin_le)

/-! ## The tag -/

/-- The carry of the last reduction: 5 for each time the prime is to be taken away. -/
theorem toNat_finalCarry {ctx : Poly1305} (h : Ready ctx) :
    (finalCarry ctx).toNat = 5 * ((hVal ctx + 5) / 0x400000000000000000000000000000000) := by
  have hh4 := h.h4
  have h0 := ctx.h0.toNat_lt
  have h1 := ctx.h1.toNat_lt
  have h2 := ctx.h2.toNat_lt
  have h3 := ctx.h3.toNat_lt
  have hc := toNat_carryThrough [ctx.h0, ctx.h1, ctx.h2, ctx.h3] 5 (by decide)
  have h5 : (5 : UInt64).toNat = 5 := rfl
  have hp : 0x100000000 ^ [ctx.h0, ctx.h1, ctx.h2, ctx.h3].length =
      0x100000000000000000000000000000000 := by norm_num
  rw [h5, hp] at hc
  have hfin : finalCarry ctx =
      ((carryThrough 5 [ctx.h0, ctx.h1, ctx.h2, ctx.h3] + ctx.h4.toUInt64) >>> 2) * 5 := rfl
  simp only [limbVal] at hc
  have hsum : (carryThrough 5 [ctx.h0, ctx.h1, ctx.h2, ctx.h3] + ctx.h4.toUInt64).toNat =
      (hVal ctx + 5) / 0x100000000000000000000000000000000 := by
    rw [toNat_add_word _ (by omega), hc]
    simp only [hVal, limbVal]
    omega
  have hlt : hVal ctx < 0x500000000000000000000000000000000 := by
    simp only [hVal, limbVal]
    omega
  rw [hfin, UInt64.toNat_mul, UInt64.toNat_shiftRight, hsum, Nat.shiftRight_eq_div_pow, h5]
  have h22 : 2 ^ ((2 : UInt64).toNat % 64) = 4 := rfl
  rw [h22, Nat.div_div_eq_div_mul, Nat.mod_eq_of_lt (by omega), Nat.mul_comm]

/-- Below 5 * 2^128 the prime is taken away at most once. -/
theorem mod_prime {h : Nat} (hlt : h < 0x500000000000000000000000000000000) :
    h % prime + prime * ((h + 5) / 0x400000000000000000000000000000000) = h := by
  simp only [prime]
  by_cases hp : h < 0x3FFFFFFFFFFFFFFFFFFFFFFFFFFFFFFFB
  · rw [Nat.mod_eq_of_lt hp, Nat.div_eq_of_lt (by omega)]
    rfl
  · have h1 : (h + 5) / 0x400000000000000000000000000000000 = 1 :=
      Nat.div_eq_of_lt_le (by omega) (by omega)
    rw [Nat.mod_eq_sub_mod (by omega), Nat.mod_eq_of_lt (by omega), h1]
    omega

/-- **The last reduction.** The tag is the hash modulo the prime plus the pad. -/
theorem final_eq {ctx : Poly1305} (h : Ready ctx) (hp : ctx.pad.length = 4) :
    Monocypher.cryptoPoly1305Final ctx = leBytes 16 (hVal ctx % prime + limbVal ctx.pad) := by
  have hc := toNat_finalCarry h
  have hh4 := h.h4
  have h0 := ctx.h0.toNat_lt
  have h1 := ctx.h1.toNat_lt
  have h2 := ctx.h2.toNat_lt
  have h3 := ctx.h3.toNat_lt
  have hval : hVal ctx = limbVal [ctx.h0, ctx.h1, ctx.h2, ctx.h3] +
      0x100000000000000000000000000000000 * ctx.h4.toNat := by
    simp only [hVal, limbVal]
    ring
  have hlow : limbVal [ctx.h0, ctx.h1, ctx.h2, ctx.h3] < 0x100000000000000000000000000000000 := by
    simp only [limbVal]
    omega
  have hzip : (List.zip [ctx.h0, ctx.h1, ctx.h2, ctx.h3] ctx.pad).length = 4 := by
    rw [List.length_zip, hp]
    rfl
  have hfst : (List.zip [ctx.h0, ctx.h1, ctx.h2, ctx.h3] ctx.pad).map Prod.fst =
      [ctx.h0, ctx.h1, ctx.h2, ctx.h3] := List.map_fst_zip (by rw [hp]; rfl)
  have hsnd : (List.zip [ctx.h0, ctx.h1, ctx.h2, ctx.h3] ctx.pad).map Prod.snd = ctx.pad :=
    List.map_snd_zip (by rw [hp]; rfl)
  have hout := addThrough_eq (List.zip [ctx.h0, ctx.h1, ctx.h2, ctx.h3] ctx.pad) (finalCarry ctx) []
    (by omega)
  rw [hzip, hfst, hsnd, List.nil_append] at hout
  have hfinal : Monocypher.cryptoPoly1305Final ctx = (addThrough (finalCarry ctx)
    (List.zip [ctx.h0, ctx.h1, ctx.h2, ctx.h3] ctx.pad) []).2 := rfl
  rw [hfinal, hout, ← leBytes_mod 16, ← leBytes_mod 16 (hVal ctx % prime + limbVal ctx.pad)]
  -- both sums agree modulo 2^128, as 5 is 2^130 minus the prime
  congr 1
  have hmod := mod_prime (by omega : hVal ctx < 0x500000000000000000000000000000000)
  simp only [prime] at hmod ⊢
  omega

def clamp : Nat := 0x0FFFFFFC0FFFFFFC0FFFFFFC0FFFFFFF

/-- The polynomial of a message at `r`: each piece is a number with a 1 after its last byte. -/
def polynomial (r : Nat) (message : List UInt8) : Nat :=
  (pieces 16 message).foldl (fun a b => (a + (leVal b + 256 ^ b.length)) * r % prime) 0

theorem polynomial_lt (r : Nat) (message : List UInt8) : polynomial r message < prime := by
  have hpos : 0 < prime := by decide
  have hfold : ∀ (bs : List (List UInt8)) (a : Nat), a < prime →
      bs.foldl (fun a b => (a + (leVal b + 256 ^ b.length)) * r % prime) a < prime := by
    intro bs
    induction bs with
    | nil => exact fun a h => h
    | cons b bs ih => exact fun a _ => ih _ (Nat.mod_lt _ hpos)
  exact hfold _ 0 hpos

/-- Poly1305: the polynomial at the first half of the key, plus the second half, cut to 16
bytes. -/
def poly1305 (key message : List UInt8) : List UInt8 :=
  leBytes 16 (polynomial (leVal (key.take 16) &&& clamp) message + leVal ((key.drop 16).take 16))

/-- The hash of a context stands for the number `a`, under the key `r` and the pad `s`. -/
structure Stands (r s : Nat) (ctx : Poly1305) (a : Nat) : Prop where
  ready : Ready ctx
  rVal_eq : rVal ctx = r
  pad_len : ctx.pad.length = 4
  pad_eq : limbVal ctx.pad = s
  hVal_mod : hVal ctx ≡ a [MOD prime]

theorem Stands.step {r s : Nat} {ctx : Poly1305} {a : Nat} (h : Stands r s ctx a) {fin : UInt32}
    (hf : fin.toNat ≤ 1) {block : List UInt8} {n : Nat}
    (hn : leVal (block.take 16) + 0x100000000000000000000000000000000 * fin.toNat = n) :
    Stands r s (polyStep fin ctx block) ((a + n) * r % prime) := by
  obtain ⟨hready, hmod⟩ := h.ready.step hf block
  refine ⟨hready, h.rVal_eq, h.pad_len, h.pad_eq, ?_⟩
  rw [Nat.add_assoc, hn, h.rVal_eq] at hmod
  refine (hmod.trans ((h.hVal_mod.add_right n).mul_right r)).trans ?_
  exact (Nat.mod_modEq _ _).symm

theorem toNat_clamped (w : UInt32) :
    (w &&& 0x0FFFFFFC).toNat < 0x10000000 ∧ (w &&& 0x0FFFFFFC).toNat % 4 = 0 := by
  have hm : (0x0FFFFFFC : UInt32).toNat = 0x0FFFFFFC := rfl
  rw [UInt32.toNat_and, hm]
  constructor
  · exact Nat.lt_of_le_of_lt Nat.and_le_right (by decide)
  · exact (Nat.and_mod_two_pow (n := 2)).trans (by simp)

/-- The key is clamped limb by limb. -/
theorem init_stands (key : List UInt8) :
    Stands (leVal (key.take 16) &&& clamp) (leVal ((key.drop 16).take 16))
      (Monocypher.cryptoPoly1305Init key) 0 where
  ready := by
    refine ⟨?_, toNat_clamped _, toNat_clamped _, toNat_clamped _,
      by simp [Monocypher.cryptoPoly1305Init]⟩
    have hm : (0x0FFFFFFF : UInt32).toNat = 0x0FFFFFFF := rfl
    simp only [Monocypher.cryptoPoly1305Init, UInt32.toNat_and, hm]
    exact Nat.lt_of_le_of_lt Nat.and_le_right (by decide)
  rVal_eq := by
    have hmask : limbVal [0x0FFFFFFF, 0x0FFFFFFC, 0x0FFFFFFC, 0x0FFFFFFC] = clamp := by decide
    rw [← limbVal_block, ← hmask, ← limbVal_and]
    rfl
  pad_len := rfl
  pad_eq := limbVal_loads (key.drop 16) 4
  hVal_mod := rfl

theorem leVal_replicate (n : Nat) : leVal (List.replicate n 0) = 0 := by
  induction n with
  | zero => rfl
  | succ n ih => simp [List.replicate_succ, leVal, ih]

theorem toList_lastBlock {ctx : Ctx} (h : ctx.cIdx < 16) :
    (lastBlock ctx).toList =
      ctx.c.toList.take ctx.cIdx ++ (1 :: List.replicate (15 - ctx.cIdx) 0) := by
  have hl : (ctx.c.toList.take ctx.cIdx).length = ctx.cIdx := by
    rw [List.length_take, Block.length_toList, Nat.min_eq_left (Nat.le_of_lt h)]
  apply List.ext_getElem
  · rw [Block.length_toList, List.length_append, hl, List.length_cons, List.length_replicate]
    omega
  · intro i h1 h2
    rw [List.getElem_append]
    split
    · rename_i hlt
      rw [hl] at hlt
      simp only [List.getElem_take, Block.toList, List.getElem_ofFn, lastBlock,
        if_neg (by omega : ¬ i = ctx.cIdx), if_neg (by omega : ¬ ctx.cIdx < i)]
    · rename_i hge
      rw [hl] at hge
      simp only [hl]
      simp only [Block.toList, List.getElem_ofFn, lastBlock]
      by_cases he : i = ctx.cIdx
      · simp [he]
      · obtain ⟨j, hj⟩ : ∃ j, i - ctx.cIdx = j + 1 := ⟨i - ctx.cIdx - 1, by omega⟩
        simp only [he, if_false, if_pos (by omega : ctx.cIdx < i), hj, List.getElem_cons_succ,
          List.getElem_replicate]

/-- The last block is the chunk as a number, with a 1 after it. -/
theorem leVal_lastBlock {ctx : Ctx} (h : ctx.cIdx < 16) :
    leVal ((lastBlock ctx).toList.take 16) =
      leVal (ctx.c.toList.take ctx.cIdx) + 256 ^ ctx.cIdx := by
  have hl : (ctx.c.toList.take ctx.cIdx).length = ctx.cIdx := by
    rw [List.length_take, Block.length_toList, Nat.min_eq_left (Nat.le_of_lt h)]
  rw [List.take_of_length_le (by rw [Block.length_toList]), toList_lastBlock h, leVal_append, leVal,
    leVal_replicate, hl]
  simp

/-- The tag of a context that was fed a message. -/
theorem Fed.final {r s : Nat} {start : Poly1305} (hs : Stands r s start 0) {message : List UInt8}
    {ctx : Ctx} (h : Fed start message ctx) :
    cryptoPoly1305Final ctx = leBytes 16 (polynomial r message + s) := by
  have hblocks : Stands r s ctx.core
      (foldBlocks 16 (fun a b => (a + (leVal b + 256 ^ b.length)) * r % prime) 0 message) := by
    rw [h.core]
    refine foldBlocks_rel (by decide) ?_ hs message
    intro ctx a b hb hst
    refine hst.step (by decide) ?_
    rw [List.take_of_length_le (by omega), hb]
    rfl
  have hstands : Stands r s
      (if ctx.cIdx ≠ 0 then polyBlocks ctx.core (lastBlock ctx).toList 1 0 else ctx.core)
      (polynomial r message) := by
    have hlen := h.length_pending
    rw [polynomial, foldl_pieces (by decide)]
    by_cases h0 : ctx.cIdx = 0
    · rw [if_neg (not_not.mpr h0), if_pos (List.eq_nil_of_length_eq_zero (by rw [hlen, h0]))]
      exact hblocks
    · have hne : leftover 16 message ≠ [] := by
        intro hnil
        rw [hnil] at hlen
        exact h0 hlen.symm
      rw [if_pos h0, if_neg hne]
      refine hblocks.step (by decide : (0 : UInt32).toNat ≤ 1) ?_
      rw [List.drop_zero, List.take_take, Nat.min_self, leVal_lastBlock h.cIdx_lt, h.pending, hlen]
      rfl
  rw [cryptoPoly1305Final, final_eq hstands.ready hstands.pad_len, hstands.pad_eq,
    hstands.hVal_mod, Nat.mod_eq_of_lt (polynomial_lt r message)]

/-- **Poly1305.** However a message is cut into updates, and whatever the chunk held before, the
tag is that of the whole message. No word overflows on the way: not in any iteration `i` of any
call of `poly_blocks`, whatever calls led from the initial context to it. -/
theorem crypto_poly1305_parts (key : List UInt8) (c : Block 16) (parts : List (List UInt8)) :
    cryptoPoly1305Final (parts.foldl cryptoPoly1305Update (cryptoPoly1305Init key c)) =
      poly1305 key parts.flatten ∧
    ∀ (before : List PolyCall) (call : PolyCall) (i : Nat), NoOverflow call.fin
      (polyBlocks (before.foldl PolyCall.run (Monocypher.cryptoPoly1305Init key)) call.input i
        call.fin) ((call.input.drop (16 * i)).take 16) := by
  refine ⟨(updates_fed parts (init_fed key c)).final (init_stands key), fun before call i => ?_⟩
  have hready := (init_stands key).ready.calls before
  exact ((hready.blocks call.input i call.fin_le).noOverflow call.fin_le _).1

/-- The key and the text of the standard's example. -/
example : poly1305
    [0x85, 0xd6, 0xbe, 0x78, 0x57, 0x55, 0x6d, 0x33, 0x7f, 0x44, 0x52, 0xfe, 0x42, 0xd5, 0x06,
      0xa8, 0x01, 0x03, 0x80, 0x8a, 0xfb, 0x0d, 0xb2, 0xfd, 0x4a, 0xbf, 0xf6, 0xaf, 0x41, 0x49,
      0xf5, 0x1b]
    ("Cryptographic Forum Research Group".toList.map fun ch => UInt8.ofNat ch.toNat) =
    [0xa8, 0x06, 0x1d, 0xc1, 0x30, 0x51, 0x36, 0xc6, 0xc2, 0x2b, 0x8b, 0xaf, 0x0c, 0x01, 0x27,
      0xa9] := by
  decide +kernel

/-! ## `lock_auth` -/

/-- The one message that `lock_auth` tags. -/
def lockMessage (ad cipherText : List UInt8) : List UInt8 :=
  padded16 ad ++ (padded16 cipherText ++
    (le64 (UInt64.ofNat ad.length) ++ le64 (UInt64.ofNat cipherText.length)))

theorem length_lockMessage (ad cipherText : List UInt8) :
    (lockMessage ad cipherText).length % 16 = 0 := by
  simp only [lockMessage, padded16, List.length_append, List.length_replicate, length_le64]
  omega

theorem lockAuth_fed (authKey ad cipherText : List UInt8) (c : Block 16) :
    ∃ ctx, lockAuth authKey ad cipherText c = cryptoPoly1305Final ctx ∧
      Fed (Monocypher.cryptoPoly1305Init authKey) (lockMessage ad cipherText) ctx := by
  have h := update_fed (update_fed (update_fed (update_fed (update_fed (init_fed authKey c) ad)
    (List.replicate (gap ad.length 16) 0)) cipherText)
    (List.replicate (gap cipherText.length 16) 0))
    (le64 (UInt64.ofNat ad.length) ++ le64 (UInt64.ofNat cipherText.length))
  refine ⟨_, rfl, ?_⟩
  simp only [gap_eq, List.nil_append, List.append_assoc] at h
  simpa only [lockMessage, padded16, gap_eq, List.append_assoc] using h

/-- `lock_auth` is the tag of the padded texts and their sizes. -/
theorem lockAuth_eq (authKey ad cipherText : List UInt8) (c : Block 16) :
    lockAuth authKey ad cipherText c = poly1305 authKey (lockMessage ad cipherText) := by
  obtain ⟨ctx, hctx, hfed⟩ := lockAuth_fed authKey ad cipherText c
  rw [hctx, hfed.final (init_stands authKey)]
  rfl

/-- With whole blocks only, no block is pending at the end. -/
theorem toList_lockAuth (authKey ad cipherText : List UInt8) (c : Block 16) :
    (Monocypher.lockAuth authKey ad cipherText).toList = lockAuth authKey ad cipherText c := by
  obtain ⟨ctx, hctx, hfed⟩ := lockAuth_fed authKey ad cipherText c
  have hnil : leftover 16 (lockMessage ad cipherText) = [] := by
    have hm := length_lockMessage ad cipherText
    exact List.drop_of_length_le (by omega)
  have hidx : ctx.cIdx = 0 := by rw [← hfed.length_pending, hnil]; rfl
  have hcore : lockAuth authKey ad cipherText c = Monocypher.cryptoPoly1305Final
      (Monocypher.polyBlocks (Monocypher.cryptoPoly1305Init authKey)
        (lockMessage ad cipherText)) := by
    rw [hctx, cryptoPoly1305Final, if_neg (not_not.mpr hidx), hfed.core]
    rfl
  have hlen : (lockAuth authKey ad cipherText c).length = 16 := by
    rw [lockAuth_eq, poly1305, length_leBytes]
  rw [hcore] at hlen ⊢
  exact Block.toList_ofList hlen

end Vfast.PolyMac
