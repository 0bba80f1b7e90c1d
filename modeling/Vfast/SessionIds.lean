import Mathlib.Data.Set.Card
import Vfast.Session

/-! The ids that `vf_ss_generate_sid` can build. Its draw decides 28 bits of an id and the shard of
the address the other four, so an address has every id of its shard and no other. -/

namespace Vfast.SessionIds

open Sessions

/-! ## Upper bits -/

theorem shiftRight_getLsbD (x : UInt32) (i : Nat) :
    (x >>> 4).toBitVec.getLsbD i = x.toBitVec.getLsbD (4 + i) := by
  simp

theorem upper_eq_iff {x y : UInt32} : upper x = upper y ↔ x >>> 4 = y >>> 4 := by
  constructor
  · intro h
    apply UInt32.toBitVec_inj.mp
    apply BitVec.eq_of_getLsbD_eq
    intro i _
    rw [shiftRight_getLsbD, shiftRight_getLsbD]
    by_cases hi : 4 + i < 32
    · have hb := congrArg (fun u => u.toBitVec.getLsbD (4 + i)) h
      simpa only [upper_getLsbD _ hi, Nat.le_add_right, decide_true, Bool.and_true] using hb
    · rw [BitVec.getLsbD_of_ge _ _ (Nat.not_lt.mp hi), BitVec.getLsbD_of_ge _ _ (Nat.not_lt.mp hi)]
  · intro h
    apply UInt32.toBitVec_inj.mp
    apply BitVec.eq_of_getLsbD_eq
    intro i hi
    rw [upper_getLsbD _ hi, upper_getLsbD _ hi]
    by_cases h4 : 4 ≤ i
    · have hb := congrArg (fun u => u.toBitVec.getLsbD (i - 4)) h
      simp only [shiftRight_getLsbD, Nat.add_sub_cancel' h4] at hb
      rw [hb]
    · simp [h4]

def drawOf (i : Fin (2 ^ 28)) : UInt32 := UInt32.ofNat (16 * i)

theorem drawOf_shiftRight (i : Fin (2 ^ 28)) : (drawOf i >>> 4).toNat = i := by
  have hi := i.isLt
  rw [UInt32.toNat_shiftRight, drawOf, UInt32.toNat_ofNat', Nat.mod_eq_of_lt (by omega)]
  change (16 * (i : Nat)) >>> 4 = i
  rw [Nat.shiftRight_eq_div_pow]
  omega

theorem exists_drawOf (r : UInt32) : ∃ i, drawOf i >>> 4 = r >>> 4 := by
  have hr := r.toNat_lt
  have hshift : (r >>> 4).toNat = r.toNat / 16 := by
    rw [UInt32.toNat_shiftRight]
    change r.toNat >>> 4 = _
    rw [Nat.shiftRight_eq_div_pow]
  refine ⟨⟨r.toNat / 16, by omega⟩, UInt32.toNat_inj.mp ?_⟩
  rw [drawOf_shiftRight, hshift]

/-! ## The ids of an address -/

variable {vip : UInt32}

theorem generateSid_inj_iff {r r' : UInt32} :
    vfSsGenerateSid vip r = vfSsGenerateSid vip r' ↔ r >>> 4 = r' >>> 4 := by
  rw [generateSid_eq_iff (shardOf_generateSid vip r'), upper_generateSid, upper_eq_iff]
  exact eq_comm

theorem generateSid_self {sid : UInt32} (h : vpnGetShardIdx sid = vpnGetShardIdx vip) :
    vfSsGenerateSid vip sid = sid := by
  have hs : shardOf sid = shardOf vip := by
    unfold shardOf
    simp only [h]
  exact (generateSid_eq_iff hs).mpr rfl

theorem range_generateSid (vip : UInt32) :
    Set.range (vfSsGenerateSid vip) = {sid | vpnGetShardIdx sid = vpnGetShardIdx vip} := by
  ext sid
  constructor
  · rintro ⟨r, rfl⟩
    exact shardIdx_generateSid vip r
  · intro h
    exact ⟨sid, generateSid_self h⟩

theorem ncard_range_generateSid (vip : UInt32) :
    (Set.range (vfSsGenerateSid vip)).ncard = 2 ^ 28 := by
  have hdraws : Set.range (vfSsGenerateSid vip) =
      Set.range fun i => vfSsGenerateSid vip (drawOf i) := by
    ext sid
    constructor
    · rintro ⟨r, rfl⟩
      obtain ⟨i, hi⟩ := exists_drawOf r
      exact ⟨i, generateSid_inj_iff.mpr hi⟩
    · rintro ⟨i, rfl⟩
      exact ⟨drawOf i, rfl⟩
  have hinj : Function.Injective fun i => vfSsGenerateSid vip (drawOf i) := by
    intro i j h
    have hbits := congrArg UInt32.toNat (generateSid_inj_iff.mp h)
    rw [drawOf_shiftRight, drawOf_shiftRight] at hbits
    exact Fin.ext hbits
  rw [hdraws, Set.ncard_range_of_injective hinj, Nat.card_fin]

/-- **The ids of an address**: they lie in its shard, two draws give the same one exactly if their
upper 28 bits agree, and they are all the `2 ^ 28` ids of the shard. -/
theorem sids_fill_shard (vip : UInt32) :
    (∀ r, vpnGetShardIdx (vfSsGenerateSid vip r) = vpnGetShardIdx vip) ∧
    (∀ r r', vfSsGenerateSid vip r = vfSsGenerateSid vip r' ↔ r >>> 4 = r' >>> 4) ∧
    Set.range (vfSsGenerateSid vip) = {sid | vpnGetShardIdx sid = vpnGetShardIdx vip} ∧
    {sid | vpnGetShardIdx sid = vpnGetShardIdx vip}.ncard = 2 ^ 28 := by
  refine ⟨shardIdx_generateSid vip, fun r r' => generateSid_inj_iff, range_generateSid vip, ?_⟩
  rw [← range_generateSid]
  exact ncard_range_generateSid vip

/-- When the kernel has no entropy the draw is `rand()`, which has 31 bits: then half of the shard's
ids are never built. -/
theorem fallback_sids (vip : UInt32) :
    Set.image (vfSsGenerateSid vip) {r | r.toBitVec.getLsbD 31 = false} =
      {sid | vpnGetShardIdx sid = vpnGetShardIdx vip ∧ sid.toBitVec.getLsbD 31 = false} := by
  have htop : ∀ r, (vfSsGenerateSid vip r).toBitVec.getLsbD 31 = r.toBitVec.getLsbD 31 := by
    intro r
    rw [generateSid_getLsbD vip r (by decide), if_pos (by decide)]
  ext sid
  constructor
  · rintro ⟨r, hr, rfl⟩
    exact ⟨shardIdx_generateSid vip r, (htop r).trans hr⟩
  · rintro ⟨hs, h31⟩
    exact ⟨sid, h31, generateSid_self hs⟩

end Vfast.SessionIds
