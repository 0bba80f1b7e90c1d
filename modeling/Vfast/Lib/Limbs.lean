import Mathlib.Tactic.Ring
import Vfast.Lib.Bytes

/-! Numbers in 32-bit limbs, least significant first, and loops that carry through them in a
64-bit accumulator. The value of a loop is given by one lemma (`toNat_carryThrough`,
`addThrough_eq`), proved by induction on the limbs. -/

namespace Vfast.Limbs

open Bytes

def limbVal : List UInt32 → Nat
  | [] => 0
  | w :: ws => w.toNat + 0x100000000 * limbVal ws

/-! ## Limbs and bytes -/

theorem leVal_append (as bs : List UInt8) :
    leVal (as ++ bs) = leVal as + 256 ^ as.length * leVal bs := by
  induction as with
  | nil => simp [leVal]
  | cons a as ih =>
    simp only [List.cons_append, leVal, ih, List.length_cons, Nat.pow_succ]
    ring

/-- The bytes up to `m + n`; past the end of the list they count as zero. -/
theorem leVal_take_add (bs : List UInt8) (m n : Nat) :
    leVal (bs.take (m + n)) = leVal (bs.take m) + 256 ^ m * leVal ((bs.drop m).take n) := by
  rw [List.take_add, leVal_append]
  by_cases h : m ≤ bs.length
  · rw [List.length_take, Nat.min_eq_left h]
  · have hd : bs.drop m = [] := List.drop_of_length_le (by omega)
    simp [hd, leVal]

theorem leVal_take_lt (bs : List UInt8) (n : Nat) : leVal (bs.take n) < 256 ^ n :=
  Nat.lt_of_lt_of_le (leVal_lt _)
    (Nat.pow_le_pow_right (by decide) (by rw [List.length_take]; exact Nat.min_le_left _ _))

/-- Words loaded one after the other are the limbs of the bytes. -/
theorem limbVal_loads (bs : List UInt8) (n : Nat) :
    limbVal ((List.range n).map fun i => UInt32.ofNat (leVal ((bs.drop (4 * i)).take 4))) =
      leVal (bs.take (4 * n)) := by
  induction n generalizing bs with
  | zero => simp [limbVal, leVal]
  | succ n ih =>
    have hshift : (List.range n).map
          ((fun i => UInt32.ofNat (leVal ((bs.drop (4 * i)).take 4))) ∘ Nat.succ) =
        (List.range n).map fun i => UInt32.ofNat (leVal (((bs.drop 4).drop (4 * i)).take 4)) := by
      apply List.map_congr_left
      intro i _
      simp only [Function.comp_apply, List.drop_drop, Nat.succ_eq_add_one]
      rw [show 4 + 4 * i = 4 * (i + 1) by omega]
    have hlt : leVal (bs.take 4) < 0x100000000 := leVal_take_lt bs 4
    rw [List.range_succ_eq_map, List.map_cons, List.map_map, hshift, limbVal, ih,
      show 4 * (n + 1) = 4 + 4 * n by omega, leVal_take_add, Nat.mul_zero, List.drop_zero,
      UInt32.toNat_ofNat_of_lt' hlt]
    rfl

theorem leBytes_mod (n v : Nat) : leBytes n (v % 256 ^ n) = leBytes n v := by
  rw [← leVal_leBytes, leBytes_leVal_len n _ (length_leBytes n v)]

theorem leBytes_add (m n v : Nat) : leBytes (m + n) v = leBytes m v ++ leBytes n (v / 256 ^ m) := by
  induction m generalizing v with
  | zero => simp [leBytes]
  | succ m ih =>
    rw [show m + 1 + n = m + n + 1 by omega, leBytes, leBytes, ih, Nat.div_div_eq_div_mul,
      List.cons_append, Nat.pow_succ, Nat.mul_comm]

theorem le32_toUInt32 (c : UInt64) : le32 c.toUInt32 = leBytes 4 c.toNat := by
  rw [le32, UInt64.toNat_toUInt32]
  exact leBytes_mod 4 _

/-! ## Masks -/

theorem land_limb {a b : Nat} (ha : a < 0x100000000) (hb : b < 0x100000000) (x y : Nat) :
    (a + 0x100000000 * x) &&& (b + 0x100000000 * y) = (a &&& b) + 0x100000000 * (x &&& y) := by
  have hpow : (0x100000000 : Nat) = 2 ^ 32 := by norm_num
  rw [hpow] at ha hb ⊢
  have hab : a &&& b < 2 ^ 32 := Nat.lt_of_le_of_lt Nat.and_le_left ha
  apply Nat.eq_of_testBit_eq
  intro i
  rw [Nat.testBit_and, Nat.add_comm a, Nat.add_comm b, Nat.add_comm (a &&& b),
    Nat.testBit_two_pow_mul_add x ha, Nat.testBit_two_pow_mul_add y hb,
    Nat.testBit_two_pow_mul_add (x &&& y) hab]
  split <;> rw [Nat.testBit_and]

/-- Masking limb by limb masks the number. -/
theorem limbVal_and (as bs : List UInt32) :
    limbVal (List.zipWith (· &&& ·) as bs) = limbVal as &&& limbVal bs := by
  induction as generalizing bs with
  | nil => simp [limbVal]
  | cons a as ih =>
    cases bs with
    | nil => simp [limbVal]
    | cons b bs =>
      rw [List.zipWith_cons_cons, limbVal, limbVal, limbVal, land_limb a.toNat_lt b.toNat_lt, ih,
        UInt32.toNat_and]

/-! ## Carrying -/

theorem toNat_shiftRight_32 (c : UInt64) : (c >>> 32).toNat = c.toNat / 0x100000000 := by
  rw [UInt64.toNat_shiftRight, Nat.shiftRight_eq_div_pow]
  rfl

theorem toNat_add_word {c : UInt64} (w : UInt32) (hc : c.toNat < 0x200000000) :
    (c + w.toUInt64).toNat = c.toNat + w.toNat := by
  have := w.toNat_lt
  rw [UInt64.toNat_add, UInt32.toNat_toUInt64, Nat.mod_eq_of_lt (by omega)]

/-- Each limb is added to the carry, and the high word goes on. -/
def carryThrough (c : UInt64) (ws : List UInt32) : UInt64 :=
  ws.foldl (fun (c : UInt64) w => (c + w.toUInt64) >>> (32 : UInt64)) c

/-- The carry out of adding `c` at the lowest limb. -/
theorem toNat_carryThrough (ws : List UInt32) (c : UInt64) (hc : c.toNat < 0x200000000) :
    (carryThrough c ws).toNat = (c.toNat + limbVal ws) / 0x100000000 ^ ws.length := by
  induction ws generalizing c with
  | nil => simp [carryThrough, limbVal]
  | cons w ws ih =>
    have hw := w.toNat_lt
    have hstep : ((c + w.toUInt64) >>> 32).toNat = (c.toNat + w.toNat) / 0x100000000 := by
      rw [toNat_shiftRight_32, toNat_add_word w hc]
    have hdiv : (c.toNat + (w.toNat + 0x100000000 * limbVal ws)) / 0x100000000 =
        (c.toNat + w.toNat) / 0x100000000 + limbVal ws := by omega
    have h := ih ((c + w.toUInt64) >>> 32) (by omega)
    rw [hstep] at h
    rw [limbVal, List.length_cons, Nat.pow_succ, Nat.mul_comm (0x100000000 ^ _),
      ← Nat.div_div_eq_div_mul, hdiv, ← h]
    rfl

/-- Two numbers added limb by limb from a carry, the low words stored. -/
def addThrough (c : UInt64) (ps : List (UInt32 × UInt32)) (out : List UInt8) :
    UInt64 × List UInt8 :=
  ps.foldl
    (fun (acc : UInt64 × List UInt8) hp =>
      let c := acc.1 + (hp.1.toUInt64 + hp.2.toUInt64)
      (c >>> 32, acc.2 ++ le32 c.toUInt32)) (c, out)

/-- What is stored is the sum, cut to the width of the limbs. -/
theorem addThrough_eq (ps : List (UInt32 × UInt32)) (c : UInt64) (out : List UInt8)
    (hc : c.toNat < 0x200000000) :
    (addThrough c ps out).2 = out ++ leBytes (4 * ps.length)
      (c.toNat + limbVal (ps.map Prod.fst) + limbVal (ps.map Prod.snd)) := by
  induction ps generalizing c out with
  | nil => simp [addThrough, leBytes]
  | cons p ps ih =>
    obtain ⟨a, b⟩ := p
    have ha := a.toNat_lt
    have hb := b.toNat_lt
    have hsum : (c + (a.toUInt64 + b.toUInt64)).toNat = c.toNat + a.toNat + b.toNat := by
      rw [UInt64.toNat_add, UInt64.toNat_add, UInt32.toNat_toUInt64, UInt32.toNat_toUInt64]
      omega
    have hnext : ((c + (a.toUInt64 + b.toUInt64)) >>> 32).toNat =
        (c.toNat + a.toNat + b.toNat) / 0x100000000 := by
      rw [toNat_shiftRight_32, hsum]
    have h := ih ((c + (a.toUInt64 + b.toUInt64)) >>> 32)
      (out ++ le32 (c + (a.toUInt64 + b.toUInt64)).toUInt32) (by omega)
    rw [hnext, le32_toUInt32, hsum] at h
    simp only [List.map_cons, limbVal, List.length_cons]
    rw [show 4 * (ps.length + 1) = 4 + 4 * ps.length by omega, leBytes_add, ← leBytes_mod 4,
      ← List.append_assoc]
    have hlow : (c.toNat + (a.toNat + 0x100000000 * limbVal (ps.map Prod.fst)) +
        (b.toNat + 0x100000000 * limbVal (ps.map Prod.snd))) % 256 ^ 4 =
        (c.toNat + a.toNat + b.toNat) % 256 ^ 4 := by omega
    have hhigh : (c.toNat + (a.toNat + 0x100000000 * limbVal (ps.map Prod.fst)) +
        (b.toNat + 0x100000000 * limbVal (ps.map Prod.snd))) / 256 ^ 4 =
        (c.toNat + a.toNat + b.toNat) / 0x100000000 + limbVal (ps.map Prod.fst) +
          limbVal (ps.map Prod.snd) := by omega
    rw [hlow, leBytes_mod, hhigh, ← h]
    change (addThrough ((c + (a.toUInt64 + b.toUInt64)) >>> 32) ps
      (out ++ le32 (c + (a.toUInt64 + b.toUInt64)).toUInt32)).2 = _
    rw [le32_toUInt32, hsum]

end Vfast.Limbs
