import Mathlib.Data.Set.Card
import Mathlib.Tactic.NormNum.Prime
import Mathlib.Tactic.ReduceModChar
import Vfast.Lib.PolyHash
import Vfast.PolyMac

/-! How far a tag of `lock_auth` binds: over the field of order 2^130 - 5 the tag is a polynomial
in the key, and two different pairs of texts have different polynomials. So whatever tags an
attacker picks for a pair of texts, few keys `r` give them. -/

namespace Vfast.Forgery

open Bytes Blocks PolyMac

/-! ## The field -/

theorem prime_4024685905107147541 : Nat.Prime 4024685905107147541 := by
  refine PolyHash.prime_of_factors 2 [2, 2, 5, 3, 3, 13, 43, 4889, 37003, 221101] ?_ ?_ ?_ ?_
  · norm_num
  · norm_num
  · norm_num
    reduce_mod_char
  · norm_num
    refine ⟨?_, ?_, ?_, ?_, ?_, ?_, ?_, ?_⟩ <;> reduce_mod_char <;> decide

theorem prime_897064739519922787230182993783 : Nat.Prime 897064739519922787230182993783 := by
  refine PolyHash.prime_of_factors 5 [2, 73, 487, 3134801, 4024685905107147541] ?_ ?_ ?_ ?_
  · simp only [List.forall_mem_cons, List.not_mem_nil, false_implies, implies_true, and_true]
    exact ⟨by norm_num, by norm_num, by norm_num, by norm_num, prime_4024685905107147541⟩
  · norm_num
  · norm_num
    reduce_mod_char
  · norm_num
    refine ⟨?_, ?_, ?_, ?_, ?_⟩ <;> reduce_mod_char <;> decide

theorem prime_prime : Nat.Prime prime := by
  rw [prime]
  refine PolyHash.prime_of_factors 2 [2, 23, 32985101, 897064739519922787230182993783] ?_ ?_ ?_ ?_
  · simp only [List.forall_mem_cons, List.not_mem_nil, false_implies, implies_true, and_true]
    exact ⟨by norm_num, by norm_num, by norm_num, prime_897064739519922787230182993783⟩
  · norm_num
  · norm_num
    reduce_mod_char
  · norm_num
    refine ⟨?_, ?_, ?_, ?_⟩ <;> reduce_mod_char <;> decide

instance : Fact (Nat.Prime prime) := ⟨prime_prime⟩

/-! ## Messages as lists of field elements -/

/-- The number of a piece, with the 1 after its last byte. -/
def pieceVal (b : List UInt8) : Nat := leVal b + 256 ^ b.length

theorem flatten_pieces {α : Type*} {n : Nat} (hn : 0 < n) (xs : List α) :
    (pieces n xs).flatten = xs := by
  induction xs using blockInduction hn with
  | short xs h =>
    by_cases hx : xs = []
    · rw [hx, pieces_nil hn]
      rfl
    · rw [pieces_short h hx, List.flatten_singleton]
  | block b xs hb ih => rw [pieces_block hn hb, List.flatten_cons, ih]

theorem length_of_mem_pieces {α : Type*} {n : Nat} {xs b : List α} (h : b ∈ pieces n xs) :
    b.length ≤ n := by
  obtain ⟨i, -, rfl⟩ := List.mem_map.mp h
  rw [List.length_take]
  exact Nat.min_le_left _ _

/-- The length is in the number: it lies between `256 ^ n` and twice that. -/
theorem pieceVal_inj {a b : List UInt8} (h : pieceVal a = pieceVal b) : a = b := by
  have hlen : ∀ {a b : List UInt8}, pieceVal a = pieceVal b → a.length ≤ b.length := by
    intro a b h
    by_contra hlt
    have ha := Nat.pow_le_pow_right (by decide : 0 < 256) (by omega : b.length + 1 ≤ a.length)
    have hb := leVal_lt b
    rw [Nat.pow_succ] at ha
    simp only [pieceVal] at h
    omega
  have hl : a.length = b.length := Nat.le_antisymm (hlen h) (hlen h.symm)
  have hv : leVal a = leVal b := by
    simp only [pieceVal, hl] at h
    omega
  rw [← leBytes_leVal a, ← leBytes_leVal b, hl, hv]

theorem pieceVal_lt {b : List UInt8} (h : b.length ≤ 16) : 0 < pieceVal b ∧ pieceVal b < prime := by
  have hv := leVal_lt b
  have hp : 256 ^ b.length ≤ 256 ^ 16 := Nat.pow_le_pow_right (by decide) h
  have hpos : 0 < 256 ^ b.length := Nat.pow_pos (by decide)
  have h16 : 2 * 256 ^ 16 < prime := by decide
  simp only [pieceVal]
  omega

theorem map_inj_on {α β : Type*} {f : α → β} {as bs : List α}
    (hf : ∀ a ∈ as, ∀ b ∈ bs, f a = f b → a = b) (h : as.map f = bs.map f) : as = bs := by
  induction as generalizing bs with
  | nil => exact (List.map_eq_nil_iff.mp h.symm).symm
  | cons a as ih =>
    cases bs with
    | nil => simp at h
    | cons b bs =>
      simp only [List.map_cons, List.cons.injEq] at h
      rw [hf a (by simp) b (by simp) h.1,
        ih (fun x hx y hy => hf x (by simp [hx]) y (by simp [hy])) h.2]

def fieldBlocks (message : List UInt8) : List (ZMod prime) :=
  (pieces 16 message).map fun b => (pieceVal b : ZMod prime)

theorem fieldBlocks_ne_zero {message : List UInt8} {x : ZMod prime} (h : x ∈ fieldBlocks message) :
    x ≠ 0 := by
  obtain ⟨b, hb, rfl⟩ := List.mem_map.mp h
  obtain ⟨hpos, hlt⟩ := pieceVal_lt (length_of_mem_pieces hb)
  rw [Ne, ZMod.natCast_eq_zero_iff]
  exact Nat.not_dvd_of_pos_of_lt hpos hlt

theorem fieldBlocks_inj {m m' : List UInt8} (h : fieldBlocks m = fieldBlocks m') : m = m' := by
  have hpieces : pieces 16 m = pieces 16 m' := by
    refine map_inj_on ?_ h
    intro a ha b hb hab
    have hlta := (pieceVal_lt (length_of_mem_pieces ha)).2
    have hltb := (pieceVal_lt (length_of_mem_pieces hb)).2
    rw [ZMod.natCast_eq_natCast_iff', Nat.mod_eq_of_lt hlta, Nat.mod_eq_of_lt hltb] at hab
    exact pieceVal_inj hab
  rw [← flatten_pieces (by decide : 0 < 16) m, hpieces, flatten_pieces (by decide)]

theorem cast_polynomial (r : Nat) (message : List UInt8) :
    (polynomial r message : ZMod prime) = PolyHash.hash (r : ZMod prime) (fieldBlocks message) := by
  have hfold : ∀ (bs : List (List UInt8)) (a : Nat),
      ((bs.foldl (fun a b => (a + (leVal b + 256 ^ b.length)) * r % prime) a : Nat) : ZMod prime) =
        (bs.map fun b => (pieceVal b : ZMod prime)).foldl
          (fun a b => (a + b) * (r : ZMod prime)) a := by
    intro bs
    induction bs with
    | nil => intro a; rfl
    | cons b bs ih =>
      intro a
      rw [List.foldl_cons, ih, List.map_cons, List.foldl_cons]
      congr 1
      rw [ZMod.natCast_mod]
      push_cast [pieceVal]
      rfl
  have h := hfold (pieces 16 message) 0
  rw [Nat.cast_zero] at h
  exact h

/-! ## Tags -/

/-- The sizes at the end tell where the texts end. -/
theorem lockMessage_inj {ad ct ad' ct' : List UInt8}
    (hlen : ad.length < 2 ^ 64 ∧ ct.length < 2 ^ 64)
    (hlen' : ad'.length < 2 ^ 64 ∧ ct'.length < 2 ^ 64)
    (h : lockMessage ad ct = lockMessage ad' ct') : ad = ad' ∧ ct = ct' := by
  have hsize : ∀ {n n' : Nat}, n < 2 ^ 64 → n' < 2 ^ 64 →
      le64 (UInt64.ofNat n) = le64 (UInt64.ofNat n') → n = n' := by
    intro n n' hn hn' he
    have hv := congrArg leVal he
    rwa [le64, le64, UInt64.toNat_ofNat_of_lt' hn, UInt64.toNat_ofNat_of_lt' hn',
      leVal_leBytes_of_lt hn, leVal_leBytes_of_lt hn'] at hv
  simp only [lockMessage, ← List.append_assoc] at h
  obtain ⟨htexts, hct⟩ := List.append_inj' h (by simp)
  obtain ⟨htexts, had⟩ := List.append_inj' htexts (by simp)
  have hadlen := hsize hlen.1 hlen'.1 had
  have hctlen := hsize hlen.2 hlen'.2 hct
  simp only [Monocypher.padded16, hadlen, hctlen] at htexts
  obtain ⟨hl, hr⟩ := List.append_inj htexts (by simp [hadlen])
  exact ⟨List.append_cancel_right hl, List.append_cancel_right hr⟩

theorem length_fieldBlocks (message : List UInt8) :
    (fieldBlocks message).length = (message.length + 15) / 16 := by
  rw [fieldBlocks, List.length_map, pieces, List.length_map, List.length_range]
  rfl

/-- Where two tags differ by `t - t'`, the polynomials differ by one of eight numbers. -/
theorem difference_mem {a b s : Nat} {t t' : List UInt8} (ha : a < prime) (hb : b < prime)
    (ht : leBytes 16 (a + s) = t) (ht' : leBytes 16 (b + s) = t') :
    ∃ k < 8, a + 4 * 2 ^ 128 = b + ((leVal t + 2 ^ 128 - leVal t') % 2 ^ 128 + 2 ^ 128 * k) := by
  have hv : leVal t = (a + s) % 2 ^ 128 := by
    rw [← ht, leVal_leBytes]
    norm_num
  have hv' : leVal t' = (b + s) % 2 ^ 128 := by
    rw [← ht', leVal_leBytes]
    norm_num
  simp only [prime] at ha hb
  refine ⟨(a + 4 * 2 ^ 128 - b) / 2 ^ 128, by omega, ?_⟩
  rw [hv, hv']
  omega

/-- **Forgeries.** Given two different pairs of texts and any two tags, at most eight keys `r`
for each block of the longer message give both tags under a common second half of the key. -/
theorem forged_tags (ad ct ad' ct' : List UInt8) (hlen : ad.length < 2 ^ 64 ∧ ct.length < 2 ^ 64)
    (hlen' : ad'.length < 2 ^ 64 ∧ ct'.length < 2 ^ 64) (hne : ¬ (ad = ad' ∧ ct = ct'))
    (t t' : List UInt8) (c c' : Block 16) :
    {r : Nat | ∃ key : List UInt8, leVal (key.take 16) &&& clamp = r ∧
      lockAuth key ad ct c = t ∧ lockAuth key ad' ct' c' = t'}.encard ≤
    8 * max (((lockMessage ad ct).length + 15) / 16)
      (((lockMessage ad' ct').length + 15) / 16) := by
  classical
  set e := (leVal t + 2 ^ 128 - leVal t') % 2 ^ 128
  let ds : Finset (ZMod prime) := (Finset.range 8).image fun k =>
    ((e + 2 ^ 128 * k : Nat) : ZMod prime) - ((4 * 2 ^ 128 : Nat) : ZMod prime)
  have hblocks : fieldBlocks (lockMessage ad ct) ≠ fieldBlocks (lockMessage ad' ct') :=
    fun h => hne (lockMessage_inj hlen hlen' (fieldBlocks_inj h))
  obtain ⟨keys, hcard, hkeys⟩ := PolyHash.exists_keys (fun _ h => fieldBlocks_ne_zero h)
    (fun _ h => fieldBlocks_ne_zero h) hblocks ds
  have hds : ds.card ≤ 8 := Finset.card_image_le.trans (by rw [Finset.card_range])
  -- a key of the set has its difference among the eight
  have hmaps : Set.MapsTo (fun r : Nat => (r : ZMod prime))
      {r : Nat | ∃ key : List UInt8, leVal (key.take 16) &&& clamp = r ∧
        lockAuth key ad ct c = t ∧ lockAuth key ad' ct' c' = t'} keys := by
    rintro r ⟨key, hr, ht, ht'⟩
    rw [lockAuth_eq, poly1305, hr] at ht ht'
    obtain ⟨k, hk, heq⟩ := difference_mem (polynomial_lt r _) (polynomial_lt r _) ht ht'
    refine hkeys _ (Finset.mem_image.mpr ⟨k, Finset.mem_range.mpr hk, ?_⟩)
    rw [← cast_polynomial, ← cast_polynomial, sub_eq_sub_iff_add_eq_add, ← Nat.cast_add,
      ← Nat.cast_add, heq, Nat.add_comm]
  have hinj : Set.InjOn (fun r : Nat => (r : ZMod prime))
      {r : Nat | ∃ key : List UInt8, leVal (key.take 16) &&& clamp = r ∧
        lockAuth key ad ct c = t ∧ lockAuth key ad' ct' c' = t'} := by
    have hlt : ∀ x, x &&& clamp < prime := fun x =>
      Nat.lt_of_le_of_lt Nat.and_le_right (by decide)
    rintro r ⟨key, rfl, -⟩ r' ⟨key', rfl, -⟩ heq
    simp only [ZMod.natCast_eq_natCast_iff', Nat.mod_eq_of_lt (hlt _)] at heq
    exact heq
  refine (Set.encard_le_encard_of_injOn hmaps hinj).trans ?_
  rw [Set.encard_coe_eq_coe_finsetCard, ← length_fieldBlocks, ← length_fieldBlocks]
  exact_mod_cast hcard.trans (Nat.mul_le_mul_right _ hds)

/-- One byte in the clear against another, each tagged with sixteen zeros. -/
theorem forged_byte :
    {r : Nat | ∃ key : List UInt8, leVal (key.take 16) &&& clamp = r ∧
      lockAuth key [] [1] (fun _ => 0) = List.replicate 16 0 ∧
      lockAuth key [] [2] (fun _ => 0) = List.replicate 16 0}.encard ≤ 16 := by
  exact forged_tags [] [1] [] [2] (by decide) (by decide) (by decide) (List.replicate 16 0)
    (List.replicate 16 0) (fun _ => 0) (fun _ => 0)

end Vfast.Forgery
