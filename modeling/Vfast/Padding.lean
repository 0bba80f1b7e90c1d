import Vfast.Lib.Run
import Vfast.Lib.Xorshift
import Vfast.PackWrites

/-! Padding taken apart from the packets: `vf_remove_padding` undoes `vf_apply_padding` over any
stale header, and the generator behind the padding never comes to rest. -/

namespace Vfast.Padding

open Bytes Protocol PackWrites Writes Run Xorshift

/-! ## Removing padding -/

/-- `vf_remove_padding` with what a failure leaves: the return value, the buffer and `*p_len`. -/
def removePadding (buf : Mem) (pLen : Nat) : Int × Mem × Nat :=
  if pLen < hlen then (-1, buf, pLen)
  else if buf offFlags &&& flagPadding ≠ 0 then
    let paddingVal := (buf offPaddingLen).toNat
    if pLen ≥ paddingVal + hlen then
      (0, buf.write offFlags [buf offFlags &&& ~~~flagPadding], pLen - paddingVal)
    else (-1, buf, pLen)
  else (0, buf, pLen)

/-- `vfRemovePadding` is its success. -/
theorem vfRemovePadding_eq (buf : Mem) (pLen : Nat) : vfRemovePadding buf pLen =
    if (removePadding buf pLen).1 = 0 then some (removePadding buf pLen).2 else none := by
  unfold vfRemovePadding removePadding
  dsimp only
  split
  · rfl
  split
  · split <;> rfl
  · rfl

section

variable {buf : Mem} {pLen : Nat}

theorem removePadding_clear (h : hlen ≤ pLen) (hf : buf offFlags &&& flagPadding = 0) :
    removePadding buf pLen = (0, buf, pLen) := by
  rw [removePadding, if_neg (Nat.not_lt.mpr h), if_neg (not_not_intro hf)]

theorem removePadding_set (hf : buf offFlags &&& flagPadding ≠ 0)
    (h : (buf offPaddingLen).toNat + hlen ≤ pLen) :
    removePadding buf pLen = (0, buf.write offFlags [buf offFlags &&& ~~~flagPadding],
      pLen - (buf offPaddingLen).toNat) := by
  have hlong : ¬ pLen < hlen := by omega
  rw [removePadding, if_neg hlong, if_pos hf]
  exact if_pos h

/-- **What unpadding does**: it fails and changes nothing, finds no padding, or strips it. -/
theorem removePadding_cases (buf : Mem) (pLen : Nat) :
    removePadding buf pLen = (-1, buf, pLen) ∨
    (hlen ≤ pLen ∧ buf offFlags &&& flagPadding = 0) ∨
    (buf offFlags &&& flagPadding ≠ 0 ∧ (buf offPaddingLen).toNat + hlen ≤ pLen) := by
  unfold removePadding
  by_cases hshort : pLen < hlen
  · exact .inl (if_pos hshort)
  by_cases hf : buf offFlags &&& flagPadding = 0
  · exact .inr (.inl ⟨Nat.not_lt.mp hshort, hf⟩)
  by_cases hfit : (buf offPaddingLen).toNat + hlen ≤ pLen
  · exact .inr (.inr ⟨hf, hfit⟩)
  · left
    rw [if_neg hshort, if_pos hf]
    exact if_neg hfit

theorem cleared_flag (b : UInt8) : (b &&& ~~~flagPadding) &&& flagPadding = 0 := by
  rw [UInt8.and_assoc]
  have hmask : ~~~flagPadding &&& flagPadding = 0 := by decide
  rw [hmask, UInt8.and_zero]

theorem set_flag (b : UInt8) : (b ||| flagPadding) &&& flagPadding ≠ 0 := by
  intro h
  have hbit := congrArg (fun x : UInt8 => x.toBitVec.getLsbD 0) h
  simp [flagPadding] at hbit

end

/-! ## Unpadding undoes padding -/

/-- The header byte can hold the length. -/
theorem padLen_lt_256 (seed : UInt32) (rawLen : Nat) (maxPad : UInt8) :
    padLen seed rawLen maxPad < 256 := by
  unfold padLen
  split
  · decide
  · exact UInt8.toNat_lt _

section

variable (seed : UInt32) (buf : Mem) {rawLen : Nat} (maxPad : UInt8)

/-- **The header that padding leaves**: the length of the padding, and the flag over the stale ones
if there is any. -/
theorem vfApplyPadding_header (h : rawLen ≠ 0) :
    (vfApplyPadding seed buf rawLen maxPad).2.1 offPaddingLen =
        UInt8.ofNat (padLen seed rawLen maxPad) ∧
      (vfApplyPadding seed buf rawLen maxPad).2.1 offFlags =
        if padLen seed rawLen maxPad = 0 then buf offFlags else buf offFlags ||| flagPadding := by
  have hzero : ∀ m : Mem, m.write offPaddingLen [0] offPaddingLen = UInt8.ofNat 0 ∧
      m.write offPaddingLen [0] offFlags = m offFlags := fun m =>
    ⟨write_of_mem m offPaddingLen [0] 0 (by decide), write_of_lt m _ _ _ (by decide)⟩
  unfold vfApplyPadding padLen
  by_cases hs : spareRoom rawLen ≤ 0
  · simpa [h, hs] using hzero buf
  by_cases hp : UInt8.ofNat ((vpnFastRand seed).toNat % padBound rawLen maxPad) = 0
  · simpa [h, hs, hp] using hzero buf
  · have hp' : (UInt8.ofNat ((vpnFastRand seed).toNat % padBound rawLen maxPad)).toNat ≠ 0 := by
      intro h0
      exact hp (UInt8.toNat_inj.mp h0)
    simp only [h, hs, hp, hp', or_self, if_false, noiseLoop_mem, UInt8.ofNat_toNat]
    constructor
    · rw [write_of_ge _ _ _ _ (by simp [offFlags, offPaddingLen])]
      exact write_of_mem _ offPaddingLen [_] 0 (by simp)
    · refine (write_of_mem _ offFlags [_] 0 (by simp)).trans ?_
      rw [List.getElem_cons_zero, write_of_lt _ _ _ _ (by decide), write_of_lt]
      simp [offFlags, hlen]
      omega

/-- **Where padding writes**: the two header bytes, and behind the payload as far as the new
length goes. -/
theorem covers_padding {a : Nat} (h : Covers (paddingWrites seed buf rawLen maxPad) a) :
    a = offFlags ∨ a = offPaddingLen ∨
      hlen + rawLen ≤ a ∧ a < hlen + (vfApplyPadding seed buf rawLen maxPad).2.2 := by
  have hbyte : ∀ {off : Nat} {b : UInt8}, off ≤ a ∧ a < off + [b].length → a = off := by
    intro off b hb
    rw [List.length_singleton] at hb
    omega
  rw [vfApplyPadding_len]
  unfold paddingWrites at h
  unfold padLen
  by_cases h0 : rawLen = 0
  · rw [if_pos h0] at h
    exact absurd h (covers_nil a)
  rw [if_neg h0] at h
  by_cases hs : spareRoom rawLen ≤ 0
  · simp only [if_pos hs, covers_cons, covers_nil, or_false] at h
    exact .inr (.inl (hbyte h))
  simp only [if_neg hs] at h
  split at h
  · simp only [covers_cons, covers_nil, or_false] at h
    exact .inr (.inl (hbyte h))
  · simp only [covers_append, covers_cons, covers_nil, or_false] at h
    rcases h with (h | h) | h
    · have hnoise := covers_noiseWrites h
      rw [if_neg (by simp [h0, hs])]
      omega
    · exact .inr (.inl (hbyte h))
    · exact .inl (hbyte h)

/-- **Unpadding a padded buffer** gives the length back, whatever the header was before. -/
theorem removePadding_padded (h : rawLen ≠ 0) :
    ∃ m, removePadding (vfApplyPadding seed buf rawLen maxPad).2.1
      (hlen + (vfApplyPadding seed buf rawLen maxPad).2.2) = (0, m, hlen + rawLen) := by
  obtain ⟨hlenByte, hflags⟩ := vfApplyPadding_header seed buf maxPad h
  have hval : ((vfApplyPadding seed buf rawLen maxPad).2.1 offPaddingLen).toNat =
      padLen seed rawLen maxPad := by
    rw [hlenByte, UInt8.toNat_ofNat', Nat.mod_eq_of_lt (padLen_lt_256 seed rawLen maxPad)]
  rw [vfApplyPadding_len, ← Nat.add_assoc]
  by_cases hset : (vfApplyPadding seed buf rawLen maxPad).2.1 offFlags &&& flagPadding = 0
  · -- without the flag there is no padding: a drawn length would have set it
    have hnone : padLen seed rawLen maxPad = 0 := by
      by_contra hsome
      rw [hflags, if_neg hsome] at hset
      exact set_flag _ hset
    exact ⟨_, by rw [hnone, Nat.add_zero, removePadding_clear (Nat.le_add_right _ _) hset]⟩
  · have hfit : ((vfApplyPadding seed buf rawLen maxPad).2.1 offPaddingLen).toNat + hlen ≤
        hlen + rawLen + padLen seed rawLen maxPad := by omega
    have hrun := removePadding_set hset hfit
    rw [hval, Nat.add_sub_cancel] at hrun
    exact ⟨_, hrun⟩

end

theorem removePadding_idem (buf : Mem) (pLen : Nat) :
    removePadding (removePadding buf pLen).2.1 (removePadding buf pLen).2.2 =
      removePadding buf pLen := by
  rcases removePadding_cases buf pLen with h | ⟨h, hf⟩ | ⟨hf, h⟩
  · rw [h]
    exact h
  · rw [removePadding_clear h hf]
    exact removePadding_clear h hf
  · rw [removePadding_set hf h]
    apply removePadding_clear
    · dsimp only
      omega
    · dsimp only
      rw [show buf.write offFlags [buf offFlags &&& ~~~flagPadding] offFlags =
        buf offFlags &&& ~~~flagPadding from write_of_mem buf offFlags [_] 0 (by simp)]
      exact cleared_flag _

/-- **Padding and unpadding are inverse.** -/
theorem padding_inverse :
    (∀ (seed : UInt32) (buf : Mem) (rawLen : Nat) (maxPad : UInt8), 1 ≤ rawLen →
      hlen + rawLen ≤ bufSize → 1 ≤ maxPad →
      (∀ a, Covers (paddingWrites seed buf rawLen maxPad) a → a < bufSize ∧
        (a = offFlags ∨ a = offPaddingLen ∨
          hlen + rawLen ≤ a ∧ a < hlen + (vfApplyPadding seed buf rawLen maxPad).2.2)) ∧
      ∃ m, removePadding (vfApplyPadding seed buf rawLen maxPad).2.1
        (hlen + (vfApplyPadding seed buf rawLen maxPad).2.2) = (0, m, hlen + rawLen)) ∧
    ∀ (buf : Mem) (pLen : Nat),
      (removePadding buf pLen = (-1, buf, pLen) ∨
        (removePadding buf pLen).1 = 0 ∧ hlen ≤ (removePadding buf pLen).2.2 ∧
          (removePadding buf pLen).2.2 ≤ pLen) ∧
      removePadding (removePadding buf pLen).2.1 (removePadding buf pLen).2.2 =
        removePadding buf pLen := by
  constructor
  · intro seed buf rawLen maxPad h1 _ hm
    have hpos : 0 < maxPad.toNat := UInt8.le_iff_toNat_le.mp hm
    refine ⟨fun a ha => ⟨?_, covers_padding seed buf maxPad ha⟩, ?_⟩
    · exact paddingWrites_within seed buf rawLen hpos a ha
    · exact removePadding_padded seed buf maxPad (by omega)
  · intro buf pLen
    refine ⟨?_, removePadding_idem buf pLen⟩
    rcases removePadding_cases buf pLen with h | ⟨h, hf⟩ | ⟨hf, h⟩
    · exact .inl h
    · rw [removePadding_clear h hf]
      exact .inr ⟨rfl, h, Nat.le_refl _⟩
    · rw [removePadding_set hf h]
      exact .inr ⟨rfl, by dsimp only; omega, Nat.sub_le _ _⟩

theorem stale_header_unpads :
    (∀ a, Covers (paddingWrites 0x5EED5EED (fun _ => 0xFF) 60 32) a → a < bufSize ∧
      (a = offFlags ∨ a = offPaddingLen ∨ hlen + 60 ≤ a ∧
        a < hlen + (vfApplyPadding 0x5EED5EED (fun _ => 0xFF) 60 32).2.2)) ∧
    ∃ m, removePadding (vfApplyPadding 0x5EED5EED (fun _ => 0xFF) 60 32).2.1
      (hlen + (vfApplyPadding 0x5EED5EED (fun _ => 0xFF) 60 32).2.2) = (0, m, hlen + 60) :=
  padding_inverse.1 0x5EED5EED (fun _ => 0xFF) 60 32 (by decide) (by decide) (by decide)

/-! ## The generator -/

theorem vpnFastRand_injective : Function.Injective vpnFastRand := by
  have hfirst : Function.Injective fun x : UInt32 => x ^^^ (x <<< 13) := fun x y h =>
    UInt32.toBitVec_inj.mp
      (shiftLeft_step_injective (k := 13) (by decide) (congrArg UInt32.toBitVec h))
  have hsecond : Function.Injective fun x : UInt32 => x ^^^ (x >>> 17) := fun x y h =>
    UInt32.toBitVec_inj.mp
      (shiftRight_step_injective (k := 17) (by decide) (congrArg UInt32.toBitVec h))
  have hthird : Function.Injective fun x : UInt32 => x ^^^ (x <<< 5) := fun x y h =>
    UInt32.toBitVec_inj.mp
      (shiftLeft_step_injective (k := 5) (by decide) (congrArg UInt32.toBitVec h))
  exact hthird.comp (hsecond.comp hfirst)

/-- The calls of `vpn_fast_rand` in one call of `vf_apply_padding`: one for the length, and one
for every four bytes of noise. -/
def draws (seed : UInt32) (rawLen : Nat) (maxPad : UInt8) : Nat :=
  if rawLen = 0 ∨ spareRoom rawLen ≤ 0 then 0 else (padLen seed rawLen maxPad + 3) / 4 + 1

theorem noiseLoop_seed (pPtr n i : Nat) (noise seed : UInt32) (m : Mem) :
    (noiseLoop pPtr n i noise seed m).1 = vpnFastRand^[(i + n + 3) / 4 - (i + 3) / 4] seed := by
  induction n generalizing i noise seed m with
  | zero => simp [noiseLoop]
  | succ n ih =>
    rw [noiseLoop]
    by_cases hi : i % 4 = 0
    · have hcount : (i + (n + 1) + 3) / 4 - (i + 3) / 4 =
          (i + 1 + n + 3) / 4 - (i + 1 + 3) / 4 + 1 := by omega
      rw [ih, if_pos hi, hcount, Function.iterate_succ_apply]
    · have hcount : (i + (n + 1) + 3) / 4 - (i + 3) / 4 =
          (i + 1 + n + 3) / 4 - (i + 1 + 3) / 4 := by omega
      rw [ih, if_neg hi, hcount]

/-- **The seed moves only by draws.** -/
theorem vfApplyPadding_seed (seed : UInt32) (buf : Mem) (rawLen : Nat) (maxPad : UInt8) :
    (vfApplyPadding seed buf rawLen maxPad).1 = vpnFastRand^[draws seed rawLen maxPad] seed := by
  unfold vfApplyPadding draws padLen
  by_cases h0 : rawLen = 0
  · simp [h0]
  by_cases hs : spareRoom rawLen ≤ 0
  · simp [h0, hs]
  by_cases hp : UInt8.ofNat ((vpnFastRand seed).toNat % padBound rawLen maxPad) = 0
  · simp [h0, hs, hp]
  · simp only [h0, hs, hp, or_self, if_false, noiseLoop_seed, Function.iterate_succ_apply]
    simp

/-- From the seed 0 on no packet would be padded. -/
theorem zero_seed_rests (buf : Mem) (rawLen : Nat) (maxPad : UInt8) :
    (vfApplyPadding 0 buf rawLen maxPad).1 = 0 ∧
      (vfApplyPadding 0 buf rawLen maxPad).2.2 = rawLen := by
  have hfixed : vpnFastRand 0 = 0 := rfl
  have hnone : padLen 0 rawLen maxPad = 0 := by
    unfold padLen
    simp [hfixed]
  refine ⟨?_, by rw [vfApplyPadding_len, hnone, Nat.add_zero]⟩
  rw [vfApplyPadding_seed]
  exact Function.iterate_fixed hfixed _

/-- `local_seed` of a thread over any calls of `vf_apply_padding`. -/
def paddingRuns : System UInt32 (Mem × Nat × UInt8) where
  init s := s = 0x5EED5EED
  step s l s' := s' = (vfApplyPadding s l.1 l.2.1 l.2.2).1

theorem reachable_draws {s : UInt32} (h : Reachable paddingRuns s) :
    ∃ n, s = vpnFastRand^[n] 0x5EED5EED := by
  apply h.invariant fun s => ∃ n, s = vpnFastRand^[n] 0x5EED5EED
  · rintro s rfl
    exact ⟨0, rfl⟩
  · rintro s ⟨buf, rawLen, maxPad⟩ s' ⟨n, hn⟩ - rfl
    refine ⟨draws s rawLen maxPad + n, ?_⟩
    rw [Function.iterate_add_apply, ← hn]
    exact vfApplyPadding_seed s buf rawLen maxPad

/-- **The padding generator never degenerates**: it is injective, every call of `vf_apply_padding`
moves the seed by a number of draws, and no number of draws leads to 0. -/
theorem padding_seed_never_zero :
    Function.Injective vpnFastRand ∧
    ∀ s, Reachable paddingRuns s →
      (∀ n, vpnFastRand^[n] s ≠ 0) ∧
      ∀ buf rawLen maxPad, (vfApplyPadding s buf rawLen maxPad).1 =
        vpnFastRand^[draws s rawLen maxPad] s := by
  refine ⟨vpnFastRand_injective, fun s h => ⟨fun n => ?_, vfApplyPadding_seed s⟩⟩
  obtain ⟨k, rfl⟩ := reachable_draws h
  rw [← Function.iterate_add_apply]
  exact iterate_ne_of_fixed vpnFastRand_injective rfl (by decide) (n + k)

theorem first_padding_seed :
    ∀ n, vpnFastRand^[n] (vfApplyPadding 0x5EED5EED (fun _ => 0) 60 32).1 ≠ 0 := by
  have h0 : Reachable paddingRuns 0x5EED5EED := .init rfl
  exact (padding_seed_never_zero.2 _ (h0.next (l := (fun _ => 0, 60, 32)) rfl)).1

end Vfast.Padding
