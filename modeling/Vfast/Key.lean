import Vfast.Lib.Bytes

/-! Session keys and their generations (`key.c`, `key.h`). A security context
holds the active key, the previous key for packets still under way, and the
key staged for the next generation. -/

namespace Vfast.Key

open Bytes

@[ext] structure VKey where
  raw : Block 32
  id : UInt32
  bytesProcessed : UInt64
  createdAt : Int

@[ext] structure SecCtx where
  activeKey : VKey
  previousKey : VKey
  nextKey : VKey
  sid : UInt32
  rekeyPending : Bool

/-- A key with its generation, without the bookkeeping. -/
abbrev KeyMat := Block 32 × UInt32

def VKey.mat (k : VKey) : KeyMat := (k.raw, k.id)

/-- A key slot after `memset(…, 0, sizeof(vfast_key_t))`. -/
def VKey.zero : VKey := ⟨fun _ => 0, 0, 0, 0⟩

/-- A context after `memset(ctx, 0, sizeof(vfast_sec_ctx_t))`. -/
def SecCtx.zero : SecCtx := ⟨.zero, .zero, .zero, 0, false⟩

def rekeyTimeoutSec : Int := 300
def rekeyDataThreshold : UInt64 := (1 : UInt64) <<< 30

/-- `draw` is the outcome of `vfast_crypto_fill_random`; on failure the active
key stays zero with id 0. -/
def vfRekeyInit (sid : UInt32) (draw : Option (Block 32)) (now : Int) : SecCtx :=
  match draw with
  | some raw => { SecCtx.zero with sid := sid, activeKey := ⟨raw, 1, 0, now⟩ }
  | none => { SecCtx.zero with sid := sid }

def vfRekeyNeeded (ctx : SecCtx) (now : Int) : Bool :=
  if ctx.rekeyPending then false
  else if now - ctx.activeKey.createdAt ≥ rekeyTimeoutSec then true
  else ctx.activeKey.bytesProcessed ≥ rekeyDataThreshold

/-- Stage a fresh key. The flag is `true` when the function returns 0; when the
draw fails the slot has already been cleared. -/
def vfRekeyPrepareNext (ctx : SecCtx) (draw : Option (Block 32)) (now : Int) : SecCtx × Bool :=
  match draw with
  | some raw =>
    ({ ctx with nextKey := ⟨raw, ctx.activeKey.id + 1, 0, now⟩, rekeyPending := true }, true)
  | none => ({ ctx with nextKey := .zero }, false)

/-- Active becomes previous, next becomes active, next is cleared. -/
def vfRekeyCommit (ctx : SecCtx) : SecCtx :=
  { ctx with
    previousKey := ctx.activeKey
    activeKey := ctx.nextKey
    nextKey := .zero
    rekeyPending := false }

/-- `atomic_fetch_add(&ctx->active_key.bytes_processed, len)`. -/
def SecCtx.countBytes (ctx : SecCtx) (len : Nat) : SecCtx :=
  { ctx with
    activeKey := { ctx.activeKey with
      bytesProcessed := ctx.activeKey.bytesProcessed + UInt64.ofNat len } }

def vfRekeyGetKey (ctx : SecCtx) : Block 32 := ctx.activeKey.raw

def vfRekeyGetKeyid (ctx : SecCtx) : UInt32 := ctx.activeKey.id

def lowByte (id : UInt32) : UInt8 := (id &&& 0xFF).toUInt8

def vfRekeyGetDecryptKey (ctx : SecCtx) (wireKid : UInt8) : Option (Block 32) :=
  if wireKid = lowByte ctx.activeKey.id then some ctx.activeKey.raw
  else if ctx.previousKey.id ≠ 0 ∧ wireKid = lowByte ctx.previousKey.id then
    some ctx.previousKey.raw
  else none

theorem lowByte_toNat (id : UInt32) : (lowByte id).toNat = id.toNat % 256 := by
  have h : (id &&& 0xFF).toNat = id.toNat % 256 := by
    rw [UInt32.toNat_and]
    exact Nat.and_two_pow_sub_one_eq_mod id.toNat 8
  rw [lowByte, UInt32.toNat_toUInt8, h]
  omega

theorem lowByte_succ_ne (id : UInt32) : lowByte (id + 1) ≠ lowByte id := by
  intro h
  have h' := congrArg UInt8.toNat h
  rw [lowByte_toNat, lowByte_toNat, UInt32.toNat_add] at h'
  simp only [UInt32.reduceToNat] at h'
  omega

/-- What a context encrypts with, it decrypts. -/
@[simp] theorem getDecryptKey_active (ctx : SecCtx) :
    vfRekeyGetDecryptKey ctx (lowByte (vfRekeyGetKeyid ctx)) = some (vfRekeyGetKey ctx) := by
  simp [vfRekeyGetDecryptKey, vfRekeyGetKeyid, vfRekeyGetKey]

/-- A packet is only ever decrypted with the active or the previous key. -/
theorem getDecryptKey_cases {ctx : SecCtx} {wireKid : UInt8} {key : Block 32}
    (h : vfRekeyGetDecryptKey ctx wireKid = some key) :
    key = ctx.activeKey.raw ∨ key = ctx.previousKey.raw := by
  unfold vfRekeyGetDecryptKey at h
  split at h
  · cases h
    exact Or.inl rfl
  · split at h
    · cases h
      exact Or.inr rfl
    · cases h

/-- The previous generation is decrypted as long as its id precedes the active one. -/
theorem getDecryptKey_previous (ctx : SecCtx) (h0 : ctx.previousKey.id ≠ 0)
    (hs : ctx.activeKey.id = ctx.previousKey.id + 1) :
    vfRekeyGetDecryptKey ctx (lowByte ctx.previousKey.id) = some ctx.previousKey.raw := by
  have hne : lowByte ctx.previousKey.id ≠ lowByte ctx.activeKey.id := by
    rw [hs]
    exact (lowByte_succ_ne _).symm
  simp [vfRekeyGetDecryptKey, hne, h0]

end Vfast.Key
