import Vfast.Ingress

/-! Packet accounting: which counters of `vfserver.stats` and of the console's
`reass_stats` one call of `server_on_udp` or `server_on_tun` moves, and the sum of the
counters over whole runs. -/

namespace Vfast.Accounting

open Bytes Key Crypto Protocol Sessions Server ServerInv Addresses Ingress Run

/-! ## The two sets of counters -/

/-- `cmd_reass_stats_add`: each argument is a flag, a counter moves by one. -/
def cmdReassStatsAdd (s : Stats) (rxPkts txPkts drops : Int) : Stats :=
  let s := if rxPkts ≠ 0 then s.rx else s
  let s := if txPkts ≠ 0 then s.tx else s
  if drops ≠ 0 then s.drop else s

inductive Fate where
  | received
  | transmitted
  | dropped

/-- The counter of `vfserver.stats` that a handler adds to. -/
def Fate.count (s : Stats) : Fate → Stats
  | .received => s.rx
  | .transmitted => s.tx
  | .dropped => s.drop

def Fate.report (s : Stats) : Fate → Stats
  | .received => cmdReassStatsAdd s 1 0 0
  | .transmitted => cmdReassStatsAdd s 0 1 0
  | .dropped => cmdReassStatsAdd s 0 0 1

theorem Fate.report_eq (s : Stats) (f : Fate) : f.report s = f.count s := by
  cases f <;> rfl

theorem Fate.count_inj {s s' : Stats} {f : Fate} (h : f.count s = f.count s') : s = s' := by
  cases f <;> simp only [Fate.count, Stats.rx, Stats.tx, Stats.drop, Stats.mk.injEq,
    UInt64.add_left_inj] at h <;> cases s <;> cases s' <;> simp_all

theorem Stats.drop_ne (s : Stats) : s.drop ≠ s := by
  intro h
  have hd := congrArg Stats.drops h
  simp only [Stats.drop] at hd
  have h1 : s.drops + 1 = s.drops + 0 := by rw [hd, UInt64.add_zero]
  exact absurd ((UInt64.add_right_inj _).mp h1) (by decide)

def SameCounts (srv srv' : VfastServer) : Prop :=
  srv'.stats = srv.stats ∧ srv'.reassStats = srv.reassStats

section

variable (A : Aead) (hmac : List UInt8 → List UInt8 → Block 32)

theorem authErr_sameCounts (srv : VfastServer) (vip : UInt32) :
    SameCounts srv (authErr srv vip) := by
  unfold authErr
  split <;> exact ⟨rfl, rfl⟩

theorem authAdmit_sameCounts (srv : VfastServer) (env : Env) (buf : Mem) (src : SockAddr)
    (vip : UInt32) (token : Block 16) :
    SameCounts srv (authAdmit A srv env buf src vip token).1 := by
  unfold authAdmit
  dsimp only
  split
  · exact authErr_sameCounts { srv with sessions := _ } vip
  · simp only [VfastServer.packSend]
    split
    · rename_i h
      obtain ⟨rfl, -⟩ := Prod.mk.inj h
      exact authErr_sameCounts { srv with sessions := _, statics := _ } vip
    · rename_i h
      obtain ⟨rfl, -⟩ := Prod.mk.inj h
      exact ⟨rfl, rfl⟩

theorem auth_sameCounts (srv : VfastServer) (env : Env) (buf : Mem) (plen : Nat)
    (src : SockAddr) : SameCounts srv (vfastHandleAuth A hmac srv env buf plen src).1 := by
  unfold vfastHandleAuth
  split
  · exact ⟨rfl, rfl⟩
  split
  · exact ⟨rfl, rfl⟩
  split
  · exact ⟨rfl, rfl⟩
  dsimp only
  split
  · exact authErr_sameCounts { srv with ipPool := _ } _
  split
  · exact ⟨rfl, rfl⟩
  · exact authAdmit_sameCounts A { srv with ipPool := _ } env buf src _ _

theorem echo_sameCounts (srv : VfastServer) (env : Env) (s : Option Ptr) (sid : UInt32) (buf : Mem)
    (plen : Nat) (src : SockAddr) :
    SameCounts srv (vfastHandleEcho A srv env s sid buf plen src).1 := by
  unfold vfastHandleEcho
  split
  · exact ⟨rfl, rfl⟩
  · cases s <;> exact ⟨rfl, rfl⟩

theorem rekeyReq_sameCounts (srv : VfastServer) (env : Env) (p : Ptr) (buf : Mem) (plen : Nat)
    (src : SockAddr) : SameCounts srv (vfastHandleRekeyReq A srv env p buf plen src).1 := by
  unfold vfastHandleRekeyReq
  split
  · exact ⟨rfl, rfl⟩
  · dsimp only
    split <;> exact ⟨rfl, rfl⟩

/-- The handlers do not count: `server_on_udp` does. -/
theorem dispatch_sameCounts (srv : VfastServer) (env : Env) (s : Option Ptr) (sid : UInt32)
    (buf : Mem) (plen : Nat) (src : SockAddr) :
    SameCounts srv (dispatch A hmac srv env s sid buf plen src).1 := by
  unfold dispatch
  cases MsgType.ofCode (buf offMsgType) with
  | none => exact ⟨rfl, rfl⟩
  | some ty =>
    cases ty with
    | hello =>
      show SameCounts srv (vfastHandleHello A hmac srv env buf plen src).1
      unfold vfastHandleHello
      split <;> exact ⟨rfl, rfl⟩
    | authReq => exact auth_sameCounts A hmac srv env buf plen src
    | keepalive => exact echo_sameCounts A srv env s sid buf plen src
    | rekeyAck =>
      cases s with
      | none => exact ⟨rfl, rfl⟩
      | some p =>
        show SameCounts srv (vfastHandleRekeyAck srv p)
        unfold vfastHandleRekeyAck
        dsimp only
        split <;> exact ⟨rfl, rfl⟩
    | rekeyReq =>
      cases s with
      | none => exact ⟨rfl, rfl⟩
      | some p => exact rekeyReq_sameCounts A srv env p buf plen src
    | _ => exact ⟨rfl, rfl⟩

/-- The header of the datagram names no session, or one of the table. -/
def NamesKnown (srv : VfastServer) (data : Mem) (len : Nat) : Prop :=
  hlen ≤ len → sidOf data len ≠ 0 → (vfSsLookupBySid srv.sessions (sidOf data len)).isSome = true

instance (srv : VfastServer) (data : Mem) (len : Nat) : Decidable (NamesKnown srv data len) := by
  unfold NamesKnown
  infer_instance

/-- The lookup counts a drop of its own, in one set only. -/
theorem findSession_counts (srv : VfastServer) (data : Mem) {len : Nat} (hl : hlen ≤ len) :
    (findSession srv (sidOf data len)).1 =
      { srv with stats := if NamesKnown srv data len then srv.stats else srv.stats.drop } := by
  unfold findSession
  by_cases h0 : sidOf data len = 0
  · have hk : NamesKnown srv data len := fun _ hn => absurd h0 hn
    rw [if_pos h0, if_pos hk]
  · rw [if_neg h0]
    cases hs : vfSsLookupBySid srv.sessions (sidOf data len) with
    | none =>
      have hk : ¬ NamesKnown srv data len := by
        intro h
        have := h hl h0
        rw [hs] at this
        cases this
      rw [if_neg hk]
    | some p =>
      have hk : NamesKnown srv data len := fun _ _ => by rw [hs]; rfl
      rw [if_pos hk]

/-- **`server_on_udp` counts** one fate in both sets, and a drop more in the first when the
header names an unknown session. -/
theorem udp_counts (srv : VfastServer) (env : Env) (data : Mem) (len : Nat) (src : SockAddr) :
    ∃ f : Fate, (serverOnUdp A hmac srv env data len src).1.stats =
        f.count (if NamesKnown srv data len then srv.stats else srv.stats.drop) ∧
      (serverOnUdp A hmac srv env data len src).1.reassStats = f.report srv.reassStats := by
  unfold serverOnUdp
  by_cases hl : len < hlen
  · have hk : NamesKnown srv data len := fun h => absurd h (by omega)
    rw [if_pos hl, if_pos hk]
    exact ⟨.dropped, rfl, rfl⟩
  rw [if_neg hl]
  have hf := findSession_counts srv data (Nat.le_of_not_lt hl)
  change (findSession srv (bswap32 ((vfRemoveHeaderObfs data len).load32 offSessionId))).1 = _ at hf
  dsimp only
  rw [hf]
  generalize (findSession srv (bswap32 ((vfRemoveHeaderObfs data len).load32 offSessionId))).2 = s
  generalize (if NamesKnown srv data len then srv.stats else srv.stats.drop) = stats
  split
  · exact ⟨.dropped, rfl, rfl⟩
  · rename_i buf plen _
    -- counting the bytes of the key is the session's affair
    have hc : SameCounts { srv with stats := stats }
        (VfastServer.countBytes { srv with stats := stats } s len) := by
      cases s <;> exact ⟨rfl, rfl⟩
    have hd := dispatch_sameCounts A hmac (VfastServer.countBytes { srv with stats := stats } s len)
      env s (bswap32 ((vfRemoveHeaderObfs data len).load32 offSessionId)) buf plen src
    refine ⟨.received, ?_, ?_⟩
    · exact congrArg Stats.rx (hd.1.trans hc.1)
    · exact congrArg Stats.rx (hd.2.trans hc.2)

/-- **`server_on_tun` counts** one fate in both sets. -/
theorem tun_counts (srv : VfastServer) (env : Env) (buf : Mem) (len : Nat) :
    ∃ f : Fate, (serverOnTun A srv env buf len).1.stats = f.count srv.stats ∧
      (serverOnTun A srv env buf len).1.reassStats = f.report srv.reassStats := by
  unfold serverOnTun
  split
  · exact ⟨.dropped, rfl, rfl⟩
  dsimp only
  split
  · exact ⟨.dropped, rfl, rfl⟩
  simp only [VfastServer.packSend]
  split
  · rename_i h
    obtain ⟨rfl, -⟩ := Prod.mk.inj h
    exact ⟨.dropped, rfl, rfl⟩
  · rename_i h
    obtain ⟨rfl, -⟩ := Prod.mk.inj h
    exact ⟨.transmitted, rfl, rfl⟩

theorem maintainNode_sameCounts (env : Env) (acc : VfastServer × List Out × Nat)
    (node : ExpiredNode) : SameCounts acc.1 (maintainNode A env acc node).1 := by
  unfold maintainNode
  dsimp only
  split
  · exact ⟨rfl, rfl⟩
  split
  · exact ⟨rfl, rfl⟩
  split <;> exact ⟨rfl, rfl⟩

theorem maintenance_sameCounts (srv : VfastServer) (env : Env) :
    SameCounts srv (vfastServerMaintenance A srv env).1 := by
  unfold vfastServerMaintenance
  have h : ∀ (nodes : List ExpiredNode) (acc : VfastServer × List Out × Nat),
      SameCounts acc.1 (nodes.foldl (maintainNode A env) acc).1 := by
    intro nodes
    induction nodes with
    | nil => exact fun _ => ⟨rfl, rfl⟩
    | cons node nodes ih =>
      intro acc
      have h1 := maintainNode_sameCounts A env acc node
      have h2 := ih (maintainNode A env acc node)
      exact ⟨h2.1.trans h1.1, h2.2.trans h1.2⟩
  exact h _ (srv, [], 0)

/-! ## Runs -/

def Event.calls : Event → Nat
  | .maintenance _ => 0
  | _ => 1

/-- The server with the number of packets that its handlers were called for. -/
def countedAfter (s : VfastServer × Nat) (ev : Event) : VfastServer × Nat :=
  ((ev.run A hmac s.1).1, s.2 + Event.calls ev)

def countedRuns : System (VfastServer × Nat) Event where
  init s := Started s.1 ∧ s.1.stats = ⟨0, 0, 0⟩ ∧ s.1.reassStats = ⟨0, 0, 0⟩ ∧ s.2 = 0
  step s ev s' := s' = countedAfter A hmac s ev

end

/-- Each packet is in one counter, and the console agrees; the counters have 64 bits. -/
def Conserved (s : VfastServer × Nat) : Prop :=
  (∃ rx tx drops : Nat, rx + tx + drops = s.2 ∧
    s.1.stats = ⟨.ofNat rx, .ofNat tx, .ofNat drops⟩) ∧ s.1.reassStats = s.1.stats

def Event.Known (srv : VfastServer) : Event → Prop
  | .udp _ data len _ => NamesKnown srv data len
  | _ => True

theorem Fate.count_conserved (f : Fate) (rx tx drops : Nat) :
    ∃ rx' tx' drops', rx' + tx' + drops' = rx + tx + drops + 1 ∧
      f.count ⟨.ofNat rx, .ofNat tx, .ofNat drops⟩ = ⟨.ofNat rx', .ofNat tx', .ofNat drops'⟩ := by
  cases f with
  | received => exact ⟨rx + 1, tx, drops, by omega, by simp [Fate.count, Stats.rx]⟩
  | transmitted => exact ⟨rx, tx + 1, drops, by omega, by simp [Fate.count, Stats.tx]⟩
  | dropped => exact ⟨rx, tx, drops + 1, by omega, by simp [Fate.count, Stats.drop]⟩

/-- Until 2^64 packets the sum of the counters is the number of packets. -/
theorem Conserved.sum_eq {s : VfastServer × Nat} (h : Conserved s) (hn : s.2 < 2 ^ 64) :
    s.1.stats.rxPkts.toNat + s.1.stats.txPkts.toNat + s.1.stats.drops.toNat = s.2 := by
  obtain ⟨⟨rx, tx, drops, hsum, hst⟩, _⟩ := h
  rw [hst]
  simp only [UInt64.toNat_ofNat']
  rw [Nat.mod_eq_of_lt (by omega), Nat.mod_eq_of_lt (by omega), Nat.mod_eq_of_lt (by omega), hsum]

/-- One fate counted in both sets. -/
theorem Conserved.fate {s : VfastServer × Nat} (h : Conserved s) {srv' : VfastServer} {f : Fate}
    (h1 : srv'.stats = f.count s.1.stats) (h2 : srv'.reassStats = f.report s.1.reassStats) :
    Conserved (srv', s.2 + 1) := by
  obtain ⟨⟨rx, tx, drops, hsum, hst⟩, hre⟩ := h
  obtain ⟨rx', tx', drops', hsum', hst'⟩ := f.count_conserved rx tx drops
  refine ⟨⟨rx', tx', drops', ?_, ?_⟩, ?_⟩
  · rw [hsum', hsum]
  · rw [h1, hst, hst']
  · show srv'.reassStats = srv'.stats
    rw [h2, Fate.report_eq, hre, h1]

/-- Counters that are conserved stay so exactly when the datagram names no unknown session. -/
theorem Conserved.after_iff (A : Aead) (hmac : List UInt8 → List UInt8 → Block 32)
    {s : VfastServer × Nat} (h : Conserved s) (ev : Event) :
    Conserved (countedAfter A hmac s ev) ↔ Event.Known s.1 ev := by
  cases ev with
  | maintenance env =>
    obtain ⟨h1, h2⟩ := maintenance_sameCounts A s.1 env
    obtain ⟨⟨rx, tx, drops, hsum, hst⟩, hre⟩ := h
    refine ⟨fun _ => trivial, fun _ => ⟨⟨rx, tx, drops, hsum, h1.trans hst⟩, ?_⟩⟩
    exact h2.trans (hre.trans h1.symm)
  | tun env buf len =>
    obtain ⟨f, h1, h2⟩ := tun_counts A s.1 env buf len
    exact ⟨fun _ => trivial, fun _ => h.fate h1 h2⟩
  | udp env data len src =>
    obtain ⟨f, h1, h2⟩ := udp_counts A hmac s.1 env data len src
    by_cases hk : NamesKnown s.1 data len
    · rw [if_pos hk] at h1
      exact ⟨fun _ => hk, fun _ => h.fate h1 h2⟩
    · rw [if_neg hk] at h1
      refine ⟨fun hc => ?_, fun h => absurd h hk⟩
      -- the extra drop is in one set only
      have he : f.count s.1.stats = f.count s.1.stats.drop := by
        rw [← h1, ← h.2, ← Fate.report_eq, ← h2]
        exact hc.2
      exact absurd (Fate.count_inj he).symm (Stats.drop_ne _)

/-- **Packet accounting** in runs whose datagrams name no unknown session. -/
theorem packets_counted_once (A : Aead) (hmac : List UInt8 → List UInt8 → Block 32)
    {s : VfastServer × Nat}
    (h : ReachableBy (countedRuns A hmac) (fun s ev => Event.Known s.1 ev) s) :
    Conserved s ∧
    (s.2 < 2 ^ 64 →
      s.1.stats.rxPkts.toNat + s.1.stats.txPkts.toNat + s.1.stats.drops.toNat = s.2) ∧
    ∀ ev, Conserved (countedAfter A hmac s ev) ↔ Event.Known s.1 ev := by
  have hc : Conserved s := by
    refine h.invariant Conserved ?_ ?_
    · rintro s ⟨_, hst, hre, hn⟩
      exact ⟨⟨0, 0, 0, hn.symm, hst⟩, hre.trans hst.symm⟩
    · rintro s ev _ hi hok rfl
      exact (hi.after_iff A hmac ev).mpr hok
  exact ⟨hc, hc.sum_eq, hc.after_iff A hmac⟩

theorem startedServer_counted {startIp : UInt32} (h : startIp ≠ Ippool.inaddrNone) :
    (countedRuns markAead zeroHmac).init (startedServer startIp, 0) :=
  ⟨startedServer_started h, rfl, rfl, rfl⟩

theorem auth_counted_once :
    Conserved (countedAfter markAead zeroHmac (startedServer 0x0000000A, 0)
      (.udp (authEnv (some fun _ => 1) 0) authDatagram 172 ⟨0, 0⟩)) := by
  refine (packets_counted_once markAead zeroHmac
    (.step (.init (startedServer_counted ?_)) ?_ rfl)).1
  · decide
  · exact fun _ h0 => absurd (by decide) h0

/-- A DATA packet of a session that the server does not know. -/
def strayCounted : VfastServer × Nat :=
  countedAfter markAead zeroHmac (startedServer 0x0000000A, 0)
    (.udp (authEnv none 0) dataDatagram 80 ⟨0, 0⟩)

/-- It is two drops, for the console one. -/
theorem stray_counted_twice :
    Reachable (countedRuns markAead zeroHmac) strayCounted ∧ strayCounted.2 = 1 ∧
      strayCounted.1.stats = ⟨0, 0, 2⟩ ∧ strayCounted.1.reassStats = ⟨0, 0, 1⟩ ∧
      ¬ Conserved strayCounted := by
  have hs : strayCounted.1.stats = ⟨0, 0, 2⟩ := by decide
  have hr : strayCounted.1.reassStats = ⟨0, 0, 1⟩ := by decide
  refine ⟨Reachable.next (.init (startedServer_counted (by decide))) rfl, rfl, hs, hr, ?_⟩
  rintro ⟨_, he⟩
  rw [hs, hr] at he
  exact absurd he (by decide)

end Vfast.Accounting
