import Mathlib.Data.Set.Card
import Vfast.Lib.Run
import Vfast.Session

/-! The session table against its purpose: one flat map from virtual addresses
to (session id, endpoint, last activity). Sixteen shards with two indexes each
refine it over every sequence of table calls. -/

namespace Vfast.SessionRefine

open Bytes Keyed Key Ippool Sessions Run

/-! ## The flat map -/

structure Entry where
  sid : UInt32
  addr : SockAddr
  lastSeen : Int
  deriving DecidableEq

abbrev Flat := UInt32 → Option Entry

def Flat.empty : Flat := fun _ => none

def Flat.update (m : Flat) (vip sid : UInt32) (addr : SockAddr) (now : Int) : Flat :=
  Function.update m vip (some ⟨sid, addr, now⟩)

def Flat.updateBySid (m : Flat) (sid : UInt32) (addr : SockAddr) (now : Int) : Flat := fun v =>
  (m v).map fun e => if e.sid = sid then { e with addr := addr, lastSeen := now } else e

def Flat.delete (m : Flat) (vip : UInt32) : Flat := Function.update m vip none

def Flat.cleanTimeout (m : Flat) (timeoutSec now : Int) : Flat := fun v =>
  (m v).filter fun e => ¬ now - e.lastSeen > timeoutSec

open Classical in
noncomputable def Flat.lookupBySid (m : Flat) (sid : UInt32) : Option (UInt32 × Entry) :=
  if h : ∃ x : UInt32 × Entry, m x.1 = some x.2 ∧ x.2.sid = sid then some h.choose else none

noncomputable def Flat.size (m : Flat) : Nat := Set.ncard {v | (m v).isSome}

/-! ## Refinement -/

def entryOf (s : Session) : Entry := ⟨s.sid, s.remoteAddr, s.lastSeen⟩

/-- `st` is a well-formed table with unique ids whose sessions are the entries of `m`. -/
structure Refines (st : Store) (m : Flat) : Prop where
  wf : st.WF
  sids : SidsDistinct st
  sound : ∀ p, Live st p → m (st.heap p).vip = some (entryOf (st.heap p))
  complete : ∀ v e, m v = some e → ∃ p, Live st p ∧ (st.heap p).vip = v

theorem refines_empty (heap : Ptr → Session) : Refines (Store.empty heap) Flat.empty where
  wf := Store.wf_empty heap
  sids p _ hp := absurd hp (not_live_empty heap p)
  sound p hp := absurd hp (not_live_empty heap p)
  complete _ _ h := nomatch h

/-- Linking a new object whose address and id are free adds its entry. -/
theorem Refines.create {st : Store} {m : Flat} (h : Refines st m) {s : Session}
    (hs : shardOf s.sid = shardOf s.vip) (hvip : ∀ p, Live st p → (st.heap p).vip ≠ s.vip)
    (hsid : ∀ p, Live st p → (st.heap p).sid ≠ s.sid) :
    Refines (st.create (shardOf s.vip) s) (Function.update m s.vip (some (entryOf s))) := by
  have hold : ∀ p, Live st p → (st.create (shardOf s.vip) s).heap p = st.heap p :=
    fun p hp => create_heap_live h.wf hp
  have hnew : (st.create (shardOf s.vip) s).heap st.brk = s := by rw [create_heap, if_pos rfl]
  refine ⟨h.wf.create rfl hs hvip, ?_, ?_, ?_⟩
  · intro p q hp hq
    rcases live_create.mp hp with rfl | hp <;> rcases live_create.mp hq with rfl | hq
    · exact fun _ => rfl
    · rw [hnew, hold q hq]
      exact fun e => absurd e.symm (hsid q hq)
    · rw [hnew, hold p hp]
      exact fun e => absurd e (hsid p hp)
    · rw [hold p hp, hold q hq]
      exact h.sids p q hp hq
  · intro p hp
    rcases live_create.mp hp with rfl | hp
    · rw [hnew, Function.update_self]
    · rw [hold p hp, Function.update_of_ne (hvip p hp)]
      exact h.sound p hp
  · intro v e hv
    rcases eq_or_ne v s.vip with rfl | hne
    · exact ⟨st.brk, live_create.mpr (.inl rfl), by rw [hnew]⟩
    · rw [Function.update_of_ne hne] at hv
      obtain ⟨p, hp, hpv⟩ := h.complete v e hv
      exact ⟨p, live_create.mpr (.inr hp), by rw [hold p hp, hpv]⟩

/-- Overwriting a live object without moving its address replaces its entry. -/
theorem Refines.overwrite {st st' : Store} {m : Flat} (h : Refines st m) (hwf : st'.WF) {p : Ptr}
    {s : Session} (hp : Live st p) (hv : s.vip = (st.heap p).vip)
    (hlive : ∀ q, Live st' q ↔ Live st q)
    (hheap : ∀ q, st'.heap q = if q = p then s else st.heap q)
    (hsid : ∀ q, Live st q → q ≠ p → (st.heap q).sid ≠ s.sid) :
    Refines st' (Function.update m s.vip (some (entryOf s))) := by
  have hself : st'.heap p = s := by rw [hheap, if_pos rfl]
  have hother : ∀ q, q ≠ p → st'.heap q = st.heap q := fun q hq => by rw [hheap, if_neg hq]
  have hvip : ∀ q, Live st q → q ≠ p → (st.heap q).vip ≠ s.vip := fun q hq hne e =>
    hne (h.wf.vip_inj hq hp (e.trans hv))
  refine ⟨hwf, ?_, ?_, ?_⟩
  · intro a b ha hb
    have ha := (hlive a).mp ha
    have hb := (hlive b).mp hb
    by_cases hap : a = p <;> by_cases hbp : b = p
    · exact fun _ => hap.trans hbp.symm
    · rw [hap, hself, hother b hbp]
      exact fun e => absurd e.symm (hsid b hb hbp)
    · rw [hbp, hself, hother a hap]
      exact fun e => absurd e (hsid a ha hap)
    · rw [hother a hap, hother b hbp]
      exact h.sids a b ha hb
  · intro q hq
    have hq := (hlive q).mp hq
    rcases eq_or_ne q p with rfl | hqp
    · rw [hself, Function.update_self]
    · rw [hother q hqp, Function.update_of_ne (hvip q hq hqp)]
      exact h.sound q hq
  · intro v e hve
    rcases eq_or_ne v s.vip with rfl | hne
    · exact ⟨p, (hlive p).mpr hp, by rw [hself]⟩
    · rw [Function.update_of_ne hne] at hve
      obtain ⟨q, hq, rfl⟩ := h.complete v e hve
      refine ⟨q, (hlive q).mpr hq, ?_⟩
      rw [hother q]
      rintro rfl
      exact hne hv.symm

/-- Unlinking the sessions that fail `keep` filters the entries. -/
theorem Refines.restrict {st st' : Store} {m m' : Flat} (h : Refines st m) (hwf : st'.WF)
    {keep : Ptr → Prop} (hheap : st'.heap = st.heap)
    (hlive : ∀ q, Live st' q ↔ Live st q ∧ keep q)
    (hkeep : ∀ q, Live st q → keep q → m' (st.heap q).vip = m (st.heap q).vip)
    (hdrop : ∀ v e, m' v = some e → ∃ q, Live st q ∧ keep q ∧ (st.heap q).vip = v) :
    Refines st' m' := by
  refine ⟨hwf, ?_, ?_, ?_⟩
  · intro a b ha hb
    rw [hheap]
    exact h.sids a b ((hlive a).mp ha).1 ((hlive b).mp hb).1
  · intro q hq
    obtain ⟨hq, hk⟩ := (hlive q).mp hq
    rw [hheap, hkeep q hq hk]
    exact h.sound q hq
  · intro v e hv
    obtain ⟨q, hq, hk, hqv⟩ := hdrop v e hv
    exact ⟨q, (hlive q).mpr ⟨hq, hk⟩, by rw [hheap, hqv]⟩

/-! ## The table calls -/

theorem Refines.update {st : Store} {m : Flat} (h : Refines st m) {vip sid : UInt32}
    (addr : SockAddr) (draw : Option (Block 32)) (now : Int) (hs : shardOf sid = shardOf vip)
    (hfree : ∀ p, Live st p → (st.heap p).vip ≠ vip → (st.heap p).sid ≠ sid) :
    Refines (vfSsUpdate st vip sid addr draw now) (m.update vip sid addr now) := by
  cases e : vfSsLookupByIp st vip with
  | none =>
    have hn := (lookupByIp_eq_none h.wf).mp e
    rw [vfSsUpdate_new h.wf sid addr draw now hn]
    exact h.create (s := ⟨sid, vip, addr, vfRekeyInit sid draw now, now⟩) hs hn
      fun p hp => hfree p hp (hn p hp)
  | some p =>
    obtain ⟨hp, rfl⟩ := (lookupByIp_eq_some h.wf).mp e
    obtain ⟨hlive, hheap⟩ := vfSsUpdate_old h.wf sid addr draw now hp rfl
    have hwf := h.wf.update addr draw now hs
    refine h.overwrite (s := { st.heap p with sid := sid, remoteAddr := addr, lastSeen := now })
      hwf hp rfl hlive hheap ?_
    intro q hq hne
    exact hfree q hq fun ev => hne (h.wf.vip_inj hq hp ev)

theorem Refines.updateBySid {st : Store} {m : Flat} (h : Refines st m) (sid : UInt32)
    (addr : SockAddr) (now : Int) :
    Refines (vfSsUpdateBySid st sid addr now) (m.updateBySid sid addr now) := by
  rw [vfSsUpdateBySid_eq]
  cases e : vfSsLookupBySid st sid with
  | none =>
    -- no entry has this id
    have hm : m.updateBySid sid addr now = m := by
      funext v
      cases hv : m v with
      | none => simp [Flat.updateBySid, hv]
      | some x =>
        obtain ⟨p, hp, rfl⟩ := h.complete v x hv
        have hx := (h.sound p hp).symm.trans hv
        have hne := (lookupBySid_eq_none h.wf).mp e p hp
        simp only [Option.some.injEq] at hx
        subst hx
        simp [Flat.updateBySid, hv, entryOf, hne]
    rw [hm]
    exact h
  | some p =>
    obtain ⟨hp, rfl⟩ := lookupBySid_some h.wf e
    have hwf := h.wf.modify p (f := fun s => { s with remoteAddr := addr, lastSeen := now })
      (fun _ => rfl) (fun _ => rfl)
    have hm : m.updateBySid (st.heap p).sid addr now =
        Function.update m (st.heap p).vip (some ⟨(st.heap p).sid, addr, now⟩) := by
      funext v
      rcases eq_or_ne v (st.heap p).vip with rfl | hne
      · simp [Flat.updateBySid, h.sound p hp, entryOf]
      · rw [Function.update_of_ne hne]
        cases hv : m v with
        | none => simp [Flat.updateBySid, hv]
        | some x =>
          obtain ⟨q, hq, rfl⟩ := h.complete v x hv
          have hx := (h.sound q hq).symm.trans hv
          have hne' : (st.heap q).sid ≠ (st.heap p).sid := fun es =>
            hne (by rw [h.sids q p hq hp es])
          simp only [Option.some.injEq] at hx
          subst hx
          simp [Flat.updateBySid, hv, entryOf, hne']
    rw [hm]
    exact h.overwrite (s := { st.heap p with remoteAddr := addr, lastSeen := now }) hwf hp rfl
      (fun q => live_modify) (fun q => modify_heap ..) fun q hq hne es => hne (h.sids q p hq hp es)

theorem Refines.delete {st : Store} {m : Flat} (h : Refines st m) (vip : UInt32) :
    Refines (vfSsDelete st vip) (m.delete vip) := by
  refine h.restrict h.wf.delete (vfSsDelete_heap st vip) (fun q => live_delete h.wf) ?_ ?_
  · intro q _ hne
    exact Function.update_of_ne hne ..
  · intro v e hv
    rcases eq_or_ne v vip with rfl | hne
    · simp [Flat.delete] at hv
    · rw [Flat.delete, Function.update_of_ne hne] at hv
      obtain ⟨q, hq, rfl⟩ := h.complete v e hv
      exact ⟨q, hq, hne, rfl⟩

theorem Refines.cleanTimeout {st : Store} {m : Flat} (h : Refines st m) (ipp : Option IpPool)
    (timeoutSec now : Int) :
    Refines (vfSsCleanTimeout st ipp timeoutSec now).1 (m.cleanTimeout timeoutSec now) := by
  have hr := vfSsCleanTimeout_reaped h.wf ipp timeoutSec now
  refine h.restrict hr.wf hr.heap hr.live ?_ ?_
  · intro q hq hs
    have hs : ¬ now - (st.heap q).lastSeen > timeoutSec := fun hst => hs ⟨trivial, hst⟩
    simp only [Flat.cleanTimeout, h.sound q hq]
    simp [Option.filter, entryOf, hs]
  · intro v e hv
    obtain ⟨hm, hf⟩ := Option.filter_eq_some_iff.mp hv
    obtain ⟨q, hq, rfl⟩ := h.complete v e hm
    refine ⟨q, hq, ?_, rfl⟩
    rintro ⟨_, hst⟩
    have he := Option.some.inj ((h.sound q hq).symm.trans hm)
    subst he
    simp only [decide_eq_true_eq] at hf
    exact hf hst

/-! ## What the table answers -/

theorem Refines.lookupByIp {st : Store} {m : Flat} (h : Refines st m) (vip : UInt32) :
    (vfSsLookupByIp st vip).map (fun p => entryOf (st.heap p)) = m vip := by
  cases e : vfSsLookupByIp st vip with
  | none =>
    cases hm : m vip with
    | none => rfl
    | some x =>
      obtain ⟨p, hp, hv⟩ := h.complete vip x hm
      exact absurd hv ((lookupByIp_eq_none h.wf).mp e p hp)
  | some p =>
    obtain ⟨hp, rfl⟩ := (lookupByIp_eq_some h.wf).mp e
    exact (h.sound p hp).symm

theorem Refines.lookupBySid {st : Store} {m : Flat} (h : Refines st m) (sid : UInt32) :
    (vfSsLookupBySid st sid).map (fun p => ((st.heap p).vip, entryOf (st.heap p))) =
      m.lookupBySid sid := by
  unfold Flat.lookupBySid
  split
  · rename_i hx
    -- whichever entry is chosen, its session is the one found
    obtain ⟨hm, hs⟩ := hx.choose_spec
    obtain ⟨p, hp, hv⟩ := h.complete _ _ hm
    have he := h.sound p hp
    rw [hv, hm, Option.some.injEq] at he
    have hsid : (st.heap p).sid = sid := by
      rw [he] at hs
      exact hs
    rw [(lookupBySid_eq_some h.wf h.sids).mpr ⟨hp, hsid⟩, Option.map_some, hv, ← he]
  · rename_i hx
    rw [(lookupBySid_eq_none h.wf).mpr, Option.map_none]
    rintro p hp rfl
    exact hx ⟨(_, _), h.sound p hp, rfl⟩

def allSessions (st : Store) : List Ptr :=
  (List.finRange 16).flatMap fun i => (st.shards i).ipTable

theorem mem_allSessions {st : Store} {p : Ptr} : p ∈ allSessions st ↔ Live st p := by
  simp [allSessions, Live, List.mem_flatMap, List.mem_finRange]

theorem nodup_allSessions {st : Store} (h : st.WF) : (allSessions st).Nodup := by
  refine List.nodup_flatMap.mpr ⟨fun i _ => h.ip_nodup i, ?_⟩
  refine (List.nodup_finRange 16).imp ?_
  intro i j hij p hi hj
  exact hij ((h.vip_shard i p hi).symm.trans (h.vip_shard j p hj))

theorem Refines.size_eq {st : Store} {m : Flat} (h : Refines st m) :
    m.size = (allSessions st).length := by
  have hkeys : {v | (m v).isSome} =
      ↑((allSessions st).map fun p => (st.heap p).vip).toFinset := by
    ext v
    simp only [Set.mem_ofPred_eq, List.coe_toFinset, List.mem_map, mem_allSessions]
    constructor
    · intro hv
      obtain ⟨e, he⟩ := Option.isSome_iff_exists.mp hv
      exact h.complete v e he
    · rintro ⟨p, hp, rfl⟩
      rw [h.sound p hp]
      rfl
  have hnodup : ((allSessions st).map fun p => (st.heap p).vip).Nodup := by
    refine (nodup_allSessions h.wf).map_on ?_
    intro p hp q hq
    exact h.wf.vip_inj (mem_allSessions.mp hp) (mem_allSessions.mp hq)
  rw [Flat.size, hkeys, Set.ncard_coe_finset, List.toFinset_card_of_nodup hnodup, List.length_map]

/-- The counting loop adds up table lengths modulo `2 ^ 32`. -/
theorem count_foldl (st : Store) (is : List (Fin 16)) (n : Nat) :
    is.foldl (fun n i => n + UInt32.ofNat (hashCnt (st.shards i).ipTable)) (UInt32.ofNat n) =
      UInt32.ofNat (n + (is.flatMap fun i => (st.shards i).ipTable).length) := by
  induction is generalizing n with
  | nil => rfl
  | cons i is ih =>
    rw [List.foldl_cons, ← UInt32.ofNat_add, ih]
    simp only [hashCnt, List.flatMap_cons, List.length_append, Nat.add_assoc]

theorem Refines.totalCount {st : Store} {m : Flat} (h : Refines st m) :
    vfSsGetTotalCount st = UInt32.ofNat m.size := by
  rw [h.size_eq]
  have hc := count_foldl st (List.finRange 16) 0
  rw [Nat.zero_add] at hc
  exact hc

/-! ## Runs of table calls -/

inductive Call
  | update (vip sid : UInt32) (addr : SockAddr) (draw : Option (Block 32)) (now : Int)
  | updateBySid (sid : UInt32) (addr : SockAddr) (now : Int)
  | delete (vip : UInt32)
  | cleanTimeout (ipp : Option IpPool) (timeoutSec now : Int)

def Call.run (st : Store) : Call → Store
  | .update vip sid addr draw now => vfSsUpdate st vip sid addr draw now
  | .updateBySid sid addr now => vfSsUpdateBySid st sid addr now
  | .delete vip => vfSsDelete st vip
  | .cleanTimeout ipp timeoutSec now => (vfSsCleanTimeout st ipp timeoutSec now).1

def Call.runFlat (m : Flat) : Call → Flat
  | .update vip sid addr _ now => m.update vip sid addr now
  | .updateBySid sid addr now => m.updateBySid sid addr now
  | .delete vip => m.delete vip
  | .cleanTimeout _ timeoutSec now => m.cleanTimeout timeoutSec now

/-- Updates come with an id of the address's shard that no other session holds. -/
def Call.Aligned (st : Store) : Call → Prop
  | .update vip sid .. => shardOf sid = shardOf vip ∧
      ∀ p, Live st p → (st.heap p).vip ≠ vip → (st.heap p).sid ≠ sid
  | _ => True

instance (st : Store) : ∀ c : Call, Decidable (c.Aligned st)
  | .update vip sid .. => decidable_of_iff (shardOf sid = shardOf vip ∧
      ∀ i, ∀ p ∈ (st.shards i).ipTable, (st.heap p).vip ≠ vip → (st.heap p).sid ≠ sid)
      (and_congr_right fun _ => forall_live)
  | .updateBySid .. => .isTrue trivial
  | .delete _ => .isTrue trivial
  | .cleanTimeout .. => .isTrue trivial

/-- A table and a flat map driven by the same calls. -/
def tables : System (Store × Flat) Call where
  init s := ∃ heap, s = (Store.empty heap, Flat.empty)
  step s c s' := s' = (c.run s.1, c.runFlat s.2)

theorem Refines.call {st : Store} {m : Flat} (h : Refines st m) (c : Call) (hc : c.Aligned st) :
    Refines (c.run st) (c.runFlat m) := by
  cases c with
  | update vip sid addr draw now => exact h.update addr draw now hc.1 hc.2
  | updateBySid sid addr now => exact h.updateBySid sid addr now
  | delete vip => exact h.delete vip
  | cleanTimeout ipp timeoutSec now => exact h.cleanTimeout ipp timeoutSec now

theorem tables_refines {s : Store × Flat} (hr : ReachableBy tables (fun s c => c.Aligned s.1) s) :
    Refines s.1 s.2 := by
  refine hr.invariant (fun s => Refines s.1 s.2) ?_ ?_
  · rintro _ ⟨heap, rfl⟩
    exact refines_empty heap
  · rintro s c _ h hc rfl
    exact h.call c hc

/-- **The sharded table refines the flat map.** The counter is the size of the map
as a 32-bit number. -/
theorem session_table_refines_flat {s : Store × Flat}
    (hr : ReachableBy tables (fun s c => c.Aligned s.1) s) :
    (∀ i, (s.1.shards i).ipTable.Perm (s.1.shards i).sidTable) ∧
    (∀ vip, (vfSsLookupByIp s.1 vip).map (fun p => entryOf (s.1.heap p)) = s.2 vip) ∧
    (∀ sid, (vfSsLookupBySid s.1 sid).map
      (fun p => ((s.1.heap p).vip, entryOf (s.1.heap p))) = s.2.lookupBySid sid) ∧
    vfSsGetTotalCount s.1 = UInt32.ofNat s.2.size ∧
    (s.2.size < 2 ^ 32 → (vfSsGetTotalCount s.1).toNat = s.2.size) := by
  have h := tables_refines hr
  refine ⟨?_, h.lookupByIp, h.lookupBySid, h.totalCount, ?_⟩
  · intro i
    refine (List.perm_ext_iff_of_nodup (h.wf.ip_nodup i) (h.wf.sid_nodup i)).mpr ?_
    exact fun p => (h.wf.same i p).symm
  · intro hlt
    rw [h.totalCount]
    exact UInt32.toNat_ofNat_of_lt' hlt

/-- Sessions of 10.0.0.2 and 10.0.0.3; the first then comes back from another endpoint with
another id. -/
def returning : List Call :=
  [.update 0x0200000A 0x0200000A ⟨1, 1⟩ none 7, .update 0x0300000A 0x0300000A ⟨2, 2⟩ none 8,
    .update 0x0200000A 0x56780022 ⟨3, 3⟩ none 9]

def returned : Store × Flat :=
  returning.foldl (fun s c => (c.run s.1, c.runFlat s.2))
    (Store.empty fun _ => blankSession, Flat.empty)

theorem returned_lookup :
    returned.2 0x0200000A = some ⟨0x56780022, ⟨3, 3⟩, 9⟩ ∧
      returned.2 0x0300000A = some ⟨0x0300000A, ⟨2, 2⟩, 8⟩ ∧
      returned.2.lookupBySid 0x56780022 = some (0x0200000A, ⟨0x56780022, ⟨3, 3⟩, 9⟩) ∧
      returned.2.lookupBySid 0x0200000A = none ∧
      UInt32.ofNat returned.2.size = 2 := by
  have h0 : tables.init (Store.empty fun _ => blankSession, Flat.empty) := ⟨_, rfl⟩
  have hr : ReachableBy tables (fun s c => c.Aligned s.1) returned :=
    (ReachableBy.init h0).along (fun _ _ _ => rfl) (by decide +kernel)
  obtain ⟨_, hip, hsid, hcount, _⟩ := session_table_refines_flat hr
  rw [← hip, ← hip, ← hsid, ← hsid, ← hcount]
  decide +kernel

/-- The map in which the first `n` addresses have a session, each with its address
as its id. -/
def filled (n : Nat) : Flat := fun v => if v.toNat < n then some ⟨v, ⟨0, 0⟩, 0⟩ else none

theorem filled_succ {n : Nat} (hn : n < 2 ^ 32) :
    filled (n + 1) = (filled n).update (UInt32.ofNat n) (UInt32.ofNat n) ⟨0, 0⟩ 0 := by
  funext v
  have hv : (UInt32.ofNat n).toNat = n := UInt32.toNat_ofNat_of_lt' hn
  rcases eq_or_ne v (UInt32.ofNat n) with rfl | hne
  · rw [Flat.update, Function.update_self]
    simp [filled, hv]
  · rw [Flat.update, Function.update_of_ne hne]
    have hvn : v.toNat ≠ n := by
      rintro e
      exact hne (UInt32.toNat_inj.mp (e.trans hv.symm))
    have hlt : v.toNat < n + 1 ↔ v.toNat < n := by omega
    simp only [filled, hlt]

theorem filled_size {n : Nat} (hn : n ≤ 2 ^ 32) : (filled n).size = n := by
  have hkeys : {v | (filled n v).isSome} = ↑((Finset.range n).image UInt32.ofNat) := by
    ext v
    simp only [Set.mem_ofPred_eq, Finset.coe_image, Set.mem_image, Finset.coe_range, Set.mem_Iio]
    constructor
    · intro hv
      refine ⟨v.toNat, ?_, UInt32.ofNat_toNat⟩
      by_contra hlt
      simp [filled, hlt] at hv
    · rintro ⟨k, hk, rfl⟩
      have hkv : (UInt32.ofNat k).toNat = k := UInt32.toNat_ofNat_of_lt' (lt_of_lt_of_le hk hn)
      simp [filled, hkv, hk]
  rw [Flat.size, hkeys, Set.ncard_coe_finset, Finset.card_image_of_injOn, Finset.card_range]
  intro a ha b hb e
  have ha : a < n := Finset.mem_range.mp ha
  have hb : b < n := Finset.mem_range.mp hb
  have e := congrArg UInt32.toNat e
  rwa [UInt32.toNat_ofNat_of_lt' (lt_of_lt_of_le ha hn),
    UInt32.toNat_ofNat_of_lt' (lt_of_lt_of_le hb hn)] at e

theorem filled_reachable (n : Nat) (hn : n ≤ 2 ^ 32) :
    ∃ st, ReachableBy tables (fun s c => c.Aligned s.1) (st, filled n) := by
  induction n with
  | zero => exact ⟨_, .init ⟨fun _ => blankSession, rfl⟩⟩
  | succ n ih =>
    obtain ⟨st, hr⟩ := ih (by omega)
    refine ⟨_, .step hr (l := .update (UInt32.ofNat n) (UInt32.ofNat n) ⟨0, 0⟩ none 0) ?_
      (congrArg (Prod.mk _) (filled_succ (by omega)))⟩
    refine ⟨rfl, ?_⟩
    intro p hp hne
    -- in a filled map every session's id is its address
    have hs := (tables_refines hr).sound p hp
    simp only [filled] at hs
    split at hs
    · rw [Option.some.injEq] at hs
      rwa [← show (st.heap p).vip = (st.heap p).sid from congrArg Entry.sid hs]
    · exact nomatch hs

/-- With a session for every 32-bit address the counter has wrapped to zero. -/
theorem total_count_wraps :
    ∃ s, ReachableBy tables (fun s c => c.Aligned s.1) s ∧ s.2.size = 2 ^ 32 ∧
      (vfSsGetTotalCount s.1).toNat ≠ s.2.size := by
  obtain ⟨st, hr⟩ := filled_reachable (2 ^ 32) le_rfl
  have hsize := filled_size (n := 2 ^ 32) le_rfl
  refine ⟨(st, filled (2 ^ 32)), hr, hsize, ?_⟩
  have hlt := (vfSsGetTotalCount st).toNat_lt
  show (vfSsGetTotalCount st).toNat ≠ (filled (2 ^ 32)).size
  omega

end Vfast.SessionRefine
