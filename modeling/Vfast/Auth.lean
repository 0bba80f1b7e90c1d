import Vfast.Lib.Bytes

/-! The auth record codec (`auth.c`). The three functions disagree: the packer stores the
timestamp in network order and the parser does not turn it back, and packer and verifier
handle twelve of the sixteen token bytes. -/

namespace Vfast.Auth

open Bytes

def vfastMagic : UInt32 := 0x56465354

/-- `vpn_auth_t`; the integers are what a little-endian host loads from the fields. -/
structure VpnAuth where
  magic : UInt32
  vip : UInt32
  token : Block 16
  ts : UInt64
  keyId : UInt32
  initKey : Block 32

/-- `memcpy(dst, src, n)` into a zeroed array. -/
def copied {k : Nat} (n : Nat) (src : Block k) : Block k := fun i => if i < n then src i else 0

/-- `vf_auth_pack`; `now` is `time(NULL)`. -/
def vfAuthPack (vip : UInt32) (token : Option (Block 16)) (keyId : UInt32)
    (initKey : Option (Block 32)) (ts now : UInt64) : VpnAuth where
  magic := bswap32 vfastMagic
  vip := vip
  token := (token.map (copied 12)).getD fun _ => 0
  ts := bswap64 (if ts ≠ 0 then ts else now)
  keyId := bswap32 keyId
  initKey := (initKey.map (copied 32)).getD fun _ => 0

def vfAuthVerify (auth : Option VpnAuth) (expectedToken : Option (Block 16)) : Int :=
  match auth with
  | none => -1
  | some auth =>
    if bswap32 auth.magic ≠ vfastMagic then -2
    else
      match expectedToken with
      | none => 0
      | some t => if auth.token.toList.take 12 ≠ t.toList.take 12 then -3 else 0

/-- `vf_auth_parse`: the address and the timestamp. -/
def vfAuthParse (auth : VpnAuth) : UInt32 × UInt64 := (auth.vip, auth.ts)

/-! ## The round trip -/

theorem take_toList {k : Nat} (n : Nat) (a b : Block k) :
    a.toList.take n = b.toList.take n ↔ ∀ i : Fin k, i < n → a i = b i := by
  constructor
  · intro h i hi
    have hget := congrArg (fun l => l[(i : Nat)]?) h
    simpa [Block.toList, hi] using hget
  · intro h
    apply List.ext_getElem (by simp)
    intro i h1 h2
    simp only [List.length_take, Block.length_toList] at h1
    simpa [Block.toList] using h ⟨i, by omega⟩ (by dsimp only; omega)

/-- The verifier reads as many token bytes as the packer copies. -/
theorem vfAuthVerify_packed (vip : UInt32) (token expected : Block 16) (keyId : UInt32)
    (initKey : Option (Block 32)) (ts now : UInt64) :
    vfAuthVerify (some (vfAuthPack vip (some token) keyId initKey ts now)) (some expected) = 0 ↔
      ∀ i : Fin 16, i < 12 → expected i = token i := by
  have hcopy : (copied 12 token).toList.take 12 = expected.toList.take 12 ↔
      ∀ i : Fin 16, i < 12 → expected i = token i := by
    rw [take_toList]
    refine forall_congr' fun i => forall_congr' fun hi => ?_
    have hi' : (i : Nat) < 12 := hi
    simp [copied, hi', eq_comm]
  rw [← hcopy]
  simp [vfAuthVerify, vfAuthPack]

/-- **The record round-trips** for an expected token: address and timestamp come back, and the
token is accepted exactly if it is the packed one. -/
def RoundTrips (vip : UInt32) (token : Block 16) (keyId : UInt32) (initKey : Block 32)
    (ts now : UInt64) (expected : Block 16) : Prop :=
  let auth := vfAuthPack vip (some token) keyId (some initKey) ts now
  vfAuthParse auth = (vip, ts) ∧ (vfAuthVerify (some auth) (some expected) = 0 ↔ expected = token)

/-- **The codec round-trips exactly for timestamps that read the same in both byte orders**, and
for expected tokens that do not differ from the packed one in their last four bytes only. -/
theorem auth_round_trips_iff (vip : UInt32) (token : Block 16) (keyId : UInt32)
    (initKey : Block 32) {ts : UInt64} (hts : ts ≠ 0) (now : UInt64) (expected : Block 16) :
    RoundTrips vip token keyId initKey ts now expected ↔
      bswap64 ts = ts ∧ (expected = token ∨ ∃ i : Fin 16, i < 12 ∧ expected i ≠ token i) := by
  have hparse : vfAuthParse (vfAuthPack vip (some token) keyId (some initKey) ts now) = (vip, ts) ↔
      bswap64 ts = ts := by
    simp [vfAuthParse, vfAuthPack, hts]
  unfold RoundTrips
  dsimp only
  rw [hparse, vfAuthVerify_packed]
  refine and_congr_right fun _ => ?_
  constructor
  · intro h
    by_cases he : ∃ i : Fin 16, i < 12 ∧ expected i ≠ token i
    · exact Or.inr he
    · left
      apply h.mp
      intro i hi
      by_contra hne
      exact he ⟨i, hi, hne⟩
  · rintro (rfl | ⟨i, hi, hne⟩)
    · exact ⟨fun _ => rfl, fun _ _ _ => rfl⟩
    · exact ⟨fun h => absurd (h i hi) hne, fun h => absurd (congrFun h i) hne⟩

/-- A timestamp of eight equal bytes, and a token that is wrong in its first byte. -/
theorem auth_round_trip_palindrome :
    RoundTrips 0x0200000A (fun _ => 7) 1 (fun _ => 9) 0x0101010101010101 0
      fun i => if i = 0 then 8 else 7 :=
  (auth_round_trips_iff 0x0200000A (fun _ => 7) 1 (fun _ => 9) (by decide) 0 _).mpr
    ⟨by decide, Or.inr ⟨0, by decide, by decide⟩⟩

/-- **A timestamp comes back with its bytes reversed**, and a token with another last byte is
accepted. -/
theorem auth_timestamp_reversed :
    ¬ RoundTrips 0x0200000A (fun _ => 7) 1 (fun _ => 9) 0x69CF0300 0 (fun _ => 7) ∧
      vfAuthParse (vfAuthPack 0x0200000A (some fun _ => 7) 1 (some fun _ => 9) 0x69CF0300 0) =
        (0x0200000A, 0x0003CF6900000000) ∧
      vfAuthVerify (some (vfAuthPack 0x0200000A (some fun _ => 7) 1 (some fun _ => 9) 0x69CF0300 0))
        (some fun i => if i = 15 then 8 else 7) = 0 := by
  refine ⟨fun h => absurd h.1 ?_, ?_⟩ <;> decide

end Vfast.Auth
