import Vfast.Reaper
import Vfast.SessionRefine

/-! One tick of `vfast_server_maintenance`: which sessions leave the table, and which
addresses go back to the pool with them. The expiry scan hands over at most 64 sessions that
were idle for 15 seconds; those of them that were idle for 30 are deleted, the others are
only probed. -/

namespace Vfast.Maintenance

open Bitmap Crypto Ippool Sessions Server ServerInv SessionRefine Ingress Addresses Run

/-! ## The pool in a tick -/

section

variable (A : Aead)

/-- A dead node's address is released, a probe leaves the pool alone. -/
theorem maintainNode_pool (env : Env) {acc : VfastServer × List Out × Nat} {node : ExpiredNode}
    {pos : UInt32} (hw : NoWrap acc.1.ipPool) (hu : Usable acc.1.ipPool pos)
    (hv : node.vip = addrOf acc.1.ipPool pos) :
    (maintainNode A env acc node).1.ipPool =
      if node.isDead then acc.1.ipPool.release pos else acc.1.ipPool := by
  obtain ⟨srv, outs, borrowed⟩ := acc
  unfold maintainNode
  cases hd : node.isDead with
  | true =>
    simp only [if_true, hv]
    exact vfIpPoolFree_of_noWrap _ hw pos hu.1 hu.addr_ne_zero
  | false =>
    simp only [Bool.false_eq_true, if_false]
    split
    · rfl
    · split
      · rfl
      · rfl

/-- What differs between a pool and the same pool with the addresses `gone` released. -/
structure Released (gone : UInt32 → Prop) (pool pool' : IpPool) : Prop where
  start : pool'.startIp = pool.startIp
  size : pool'.poolSize = pool.poolSize
  hint : pool'.nextHint = pool.nextHint
  bits : ∀ pos : UInt32, testBit pool'.bitmap pos.toNat = true ↔
    testBit pool.bitmap pos.toNat = true ∧ ¬ gone (addrOf pool pos)

theorem maintainNode_released (env : Env) {acc : VfastServer × List Out × Nat} {node : ExpiredNode}
    {pos : UInt32} (hw : NoWrap acc.1.ipPool) (hu : Usable acc.1.ipPool pos)
    (hv : node.vip = addrOf acc.1.ipPool pos) :
    Released (fun vip => node.isDead = true ∧ node.vip = vip) acc.1.ipPool
      (maintainNode A env acc node).1.ipPool := by
  rw [maintainNode_pool A env hw hu hv]
  cases hd : node.isDead with
  | true =>
    refine ⟨rfl, rfl, rfl, fun q => ?_⟩
    have hq : q.toNat = pos.toNat ↔ addrOf acc.1.ipPool pos = addrOf acc.1.ipPool q :=
      ⟨fun e => by rw [UInt32.toNat_inj.mp e], fun e => by rw [addrOf_inj e]⟩
    simp only [if_true, IpPool.release, testBit_clearBit, hv, ← hq, true_and]
    simp [and_comm]
  | false => exact ⟨rfl, rfl, rfl, fun q => by simp⟩

theorem maintain_released (env : Env) (nodes : List ExpiredNode)
    (acc : VfastServer × List Out × Nat) (hw : NoWrap acc.1.ipPool)
    (hn : ∀ node ∈ nodes, ∃ pos, Usable acc.1.ipPool pos ∧ node.vip = addrOf acc.1.ipPool pos) :
    Released (fun vip => ∃ node ∈ nodes, node.isDead = true ∧ node.vip = vip) acc.1.ipPool
      (nodes.foldl (maintainNode A env) acc).1.ipPool := by
  induction nodes generalizing acc with
  | nil => exact ⟨rfl, rfl, rfl, by simp⟩
  | cons node nodes ih =>
    obtain ⟨pos, hu, hv⟩ := hn node List.mem_cons_self
    have h1 := maintainNode_released A env hw hu hv
    have h2 := ih (maintainNode A env acc node) (NoWrap.congr hw ⟨h1.start, h1.size⟩) (by
      intro node' hm
      obtain ⟨q, hq, hqv⟩ := hn node' (List.mem_cons_of_mem node hm)
      exact ⟨q, hq.congr ⟨h1.start, h1.size⟩, by rw [addrOf_congr h1.start, hqv]⟩)
    refine ⟨h2.start.trans h1.start, h2.size.trans h1.size, h2.hint.trans h1.hint, fun q => ?_⟩
    rw [List.foldl_cons, h2.bits, h1.bits, addrOf_congr h1.start, and_assoc]
    simp [not_or]

/-! ## The sessions in a tick -/

def Removed (srv srv' : VfastServer) (p : Ptr) : Prop :=
  Live srv.sessions p ∧ ¬ Live srv'.sessions p

/-- **A tick reaps only dead sessions**: the others stay as they were, and the addresses of
the sessions that were removed, and no others, are given back. -/
structure ReapsDead (srv srv' : VfastServer) (now : Int) : Prop where
  wf : srv'.sessions.WF
  kept : ∀ p, Live srv'.sessions p → Live srv.sessions p
  unchanged : srv'.sessions.heap = srv.sessions.heap
  dead : ∀ p, Removed srv srv' p → 30 ≤ now - (srv.sessions.heap p).lastSeen
  freed : Released (fun vip => ∃ p, Removed srv srv' p ∧ (srv.sessions.heap p).vip = vip)
    srv.ipPool srv'.ipPool

def idleSessions (srv : VfastServer) (now : Int) : List Ptr :=
  (allSessions srv.sessions).filter fun p => 15 ≤ now - (srv.sessions.heap p).lastSeen

/-- A batch that holds all idle sessions has a node for each. -/
theorem idle_listed {srv : VfastServer} {now : Int} (h : (idleSessions srv now).length ≤ 64)
    {p : Ptr} (hl : Live srv.sessions p) (hidle : 15 ≤ now - (srv.sessions.heap p).lastSeen) :
    expiredNode (srv.sessions.heap p) 30 now ∈ vfSsGetExpired srv.sessions 64 15 30 now := by
  have hperm : (scanOrder srv.sessions).Perm (allSessions srv.sessions) :=
    List.Perm.flatMap_left _ fun i _ => List.reverse_perm _
  have hlen : (idleNodes srv.sessions 15 30 now (scanOrder srv.sessions)).length ≤ 64 := by
    rw [idleNodes, List.length_map, (hperm.filter _).length_eq]
    exact h
  rw [vfSsGetExpired_eq (by decide), List.take_of_length_le hlen]
  exact List.mem_map_of_mem (List.mem_filter.mpr ⟨mem_scanOrder.mpr hl, by simpa using hidle⟩)

variable {srv : VfastServer}

/-- A session is removed exactly if one of the dead nodes is its own. -/
theorem removed_iff (hw : srv.sessions.WF) (env : Env) (p : Ptr) :
    Removed srv (vfastServerMaintenance A srv env).1 p ↔ Live srv.sessions p ∧
      ∃ node ∈ vfSsGetExpired srv.sessions 64 15 30 env.now,
        node.isDead = true ∧ node.vip = (srv.sessions.heap p).vip := by
  obtain ⟨-, -, hlive⟩ := tick_sessions A hw env
  refine and_congr_right fun hl => ?_
  constructor
  · intro h
    by_contra hno
    exact h ((hlive p).mpr ⟨hl, fun node hm hd he => hno ⟨node, hm, hd, he.symm⟩⟩)
  · rintro ⟨node, hm, hd, he⟩ h
    exact ((hlive p).mp h).2 node hm hd he.symm

/-- The addresses of the removed sessions are the ones that are released. -/
theorem tick_released (hw : srv.sessions.WF)
    (hheld : ∀ p, Live srv.sessions p → Held srv.ipPool (srv.sessions.heap p).vip)
    (hn : NoWrap srv.ipPool) (env : Env) :
    Released (fun vip => ∃ p, Removed srv (vfastServerMaintenance A srv env).1 p ∧
      (srv.sessions.heap p).vip = vip) srv.ipPool (vfastServerMaintenance A srv env).1.ipPool := by
  have hrel := maintain_released A env (vfSsGetExpired srv.sessions 64 15 30 env.now)
    (srv, [], 0) hn (by
      intro node hm
      obtain ⟨p, hl, -, rfl⟩ := mem_getExpired (by decide) hm
      obtain ⟨pos, hu, hv, -⟩ := hheld p hl
      exact ⟨pos, hu, hv⟩)
  refine ⟨hrel.start, hrel.size, hrel.hint, fun pos => ?_⟩
  refine (hrel.bits pos).trans (and_congr_right fun _ => not_congr ?_)
  constructor
  · rintro ⟨node, hm, hd, hv⟩
    obtain ⟨p, hl, -, rfl⟩ := mem_getExpired (by decide) hm
    exact ⟨p, (removed_iff A hw env p).mpr ⟨hl, _, hm, hd, rfl⟩, hv⟩
  · rintro ⟨p, hp, hv⟩
    obtain ⟨-, node, hm, hd, he⟩ := (removed_iff A hw env p).mp hp
    exact ⟨node, hm, hd, he.trans hv⟩

/-- **A maintenance tick reaps exactly the dead sessions** when at most 64 are idle, and only
dead ones otherwise. -/
theorem maintenance_reaps_dead (hw : srv.sessions.WF)
    (hheld : ∀ p, Live srv.sessions p → Held srv.ipPool (srv.sessions.heap p).vip)
    (hn : NoWrap srv.ipPool) (env : Env) :
    ReapsDead srv (vfastServerMaintenance A srv env).1 env.now ∧
    ((idleSessions srv env.now).length ≤ 64 →
      ∀ p, Live (vfastServerMaintenance A srv env).1.sessions p ↔
        Live srv.sessions p ∧ env.now - (srv.sessions.heap p).lastSeen < 30) := by
  obtain ⟨hwf, hheap, hlive⟩ := tick_sessions A hw env
  have hdead : ∀ p, Removed srv (vfastServerMaintenance A srv env).1 p →
      30 ≤ env.now - (srv.sessions.heap p).lastSeen := fun p hp =>
    Reaper.reaped_lastSeen A hw env hp.1 hp.2
  refine ⟨⟨hwf, fun p hp => ((hlive p).mp hp).1, hheap, hdead, tick_released A hw hheld hn env⟩, ?_⟩
  intro hfew p
  constructor
  · intro hp
    have hl := ((hlive p).mp hp).1
    refine ⟨hl, ?_⟩
    by_contra hold
    have hm := idle_listed hfew hl (by omega)
    exact ((removed_iff A hw env p).mpr ⟨hl, _, hm, decide_eq_true (by omega), rfl⟩).2 hp
  · rintro ⟨hl, hfresh⟩
    by_contra hp
    have := hdead p ⟨hl, hp⟩
    omega

end

/-- The session that was last heard of at time 5 is gone at time 35, and 10.0.0.2 is free. -/
theorem quiet_session_address_freed :
    let srv := Reaper.watchedOnce.srv
    let tick := (vfastServerMaintenance markAead srv (Reaper.envAt 35)).1
    (Live srv.sessions 0 ∧ testBit srv.ipPool.bitmap 2 = true) ∧
      ¬ Live tick.sessions 0 ∧ testBit tick.ipPool.bitmap 2 = false := by
  intro srv tick
  have hi : Isolated srv :=
    (Reaper.reachable_timely markAead zeroHmac Reaper.watchedOnce_reachable).isolated
  have hl : Live srv.sessions 0 := ⟨10, by decide⟩
  have hn : NoWrap srv.ipPool := by
    show (Bytes.bswap32 0x0000000A).toNat + (16 : UInt32).toNat < 2 ^ 32
    decide
  obtain ⟨hreaps, hexact⟩ := maintenance_reaps_dead markAead hi.wf hi.held hn (Reaper.envAt 35)
  have hreaps : ReapsDead srv tick (Reaper.envAt 35).now := hreaps
  have hgone : ¬ Live tick.sessions 0 := fun h =>
    absurd ((hexact (by decide) 0).mp h).2 (by decide)
  have hfreed : ¬ testBit tick.ipPool.bitmap 2 = true := fun h =>
    ((hreaps.freed.bits 2).mp h).2 ⟨0, ⟨hl, hgone⟩, by decide⟩
  exact ⟨⟨hl, by decide⟩, hgone, by simpa using hfreed⟩

end Vfast.Maintenance
