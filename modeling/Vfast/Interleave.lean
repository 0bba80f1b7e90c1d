import Mathlib.Data.Fintype.Basic
import Vfast.ClientKeys

/-! The two threads of the client. `fsm_worker` and the handshake handlers of the I/O thread
each load `fsm.state`, act on what they saw, and store a new state without looking again.
Between a load and its store the other thread may run; a store is in order when it finds the
state that was loaded. -/

namespace Vfast.Interleave

open Bytes Key Crypto Protocol Sessions Server Client ClientKeys Run

instance : Fintype FsmState where
  elems := {.idle, .helloWait, .authSend, .authWait, .connected, .reconnecting}
  complete := by
    intro s
    cases s <;> decide

/-! ## Moves -/

/-- The transitions of the state machine. -/
def listed : FsmState → FsmState → Bool
  | .idle, .helloWait => true
  | .reconnecting, .helloWait => true
  | .helloWait, .authSend => true
  | .helloWait, .idle => true
  | .authSend, .authWait => true
  | .authWait, .connected => true
  | .authWait, .idle => true
  | .connected, .reconnecting => true
  | _, _ => false

/-- What the worker stores, by the state it loaded. -/
def workerMove : FsmState → FsmState → Bool
  | .idle, .helloWait => true
  | .reconnecting, .helloWait => true
  | .helloWait, .idle => true
  | .authSend, .authWait => true
  | .authWait, .idle => true
  | .connected, .reconnecting => true
  | _, _ => false

def handlerMove : FsmState → FsmState → Bool
  | .helloWait, .authSend => true
  | .helloWait, .idle => true
  | .authWait, .connected => true
  | .authWait, .idle => true
  | _, _ => false

/-! ## Loads and stores -/

/-- The state that an iteration of `fsm_worker` stores, if any. -/
def workerStore (c : VfastClient) (env : ClientEnv) (lastRx : Int) : FsmState → Option FsmState
  | .idle => some .helloWait
  | .reconnecting => some .helloWait
  | .helloWait => if env.now - c.fsm.lastTxHello ≥ 5 then some .idle else none
  | .authSend => some .authWait
  | .authWait => if env.now - c.fsm.lastTxAuth ≥ 5 then some .idle else none
  | .connected => if env.now - lastRx ≥ 30 then some .reconnecting else none

theorem workerStore_move {c : VfastClient} {env : ClientEnv} {lastRx : Int} {seen v : FsmState}
    (h : workerStore c env lastRx seen = some v) : workerMove seen v = true := by
  cases seen with
  | idle =>
    cases h
    rfl
  | reconnecting =>
    cases h
    rfl
  | authSend =>
    cases h
    rfl
  | helloWait =>
    rw [workerStore] at h
    split at h <;> cases h
    rfl
  | authWait =>
    rw [workerStore] at h
    split at h <;> cases h
    rfl
  | connected =>
    rw [workerStore] at h
    split at h <;> cases h
    rfl

/-- A handshake handler between its load and its store. -/
inductive Pending where
  | hello (seen : FsmState) (buf : Mem) (payload : Option Nat)
  | auth (seen : FsmState) (env : ClientEnv) (sid : UInt32) (buf : Mem) (payload : Option Nat)

def Pending.seen : Pending → FsmState
  | .hello seen _ _ => seen
  | .auth seen _ _ _ _ => seen

def Pending.act (c : VfastClient) : Pending → VfastClient
  | .hello seen buf payload => helloAfterLoad c seen buf payload
  | .auth seen env sid buf payload => (authAfterLoad c seen env sid buf payload).1

def Pending.store : Pending → Option FsmState
  | .hello seen buf (some plen) =>
    if seen = .helloWait ∧ ¬ plen < 32 then
      if bswap32 (buf.load32 (hlen + 8)) ≠ 0 then some .idle else some .authSend
    else none
  | .auth seen env _ buf (some plen) =>
    if seen = .authWait ∧ ¬ plen < 64 then
      if bswap32 (buf.load32 hlen) ≠ 0 then some .idle
      else if env.tunOk then some .connected else none
    else none
  | _ => none

theorem Pending.store_move {p : Pending} {v : FsmState} (h : p.store = some v) :
    handlerMove p.seen v = true := by
  unfold Pending.store at h
  split at h
  · split at h
    · rename_i hs
      obtain ⟨rfl, _⟩ := hs
      split at h <;> (cases h; rfl)
    · cases h
  · split at h
    · rename_i hs
      obtain ⟨rfl, _⟩ := hs
      split at h
      · cases h
        rfl
      · split at h <;> cases h
        rfl
    · cases h
  · cases h

theorem Pending.act_state (c : VfastClient) (p : Pending) :
    (p.act c).fsm.state = p.store.getD c.fsm.state := by
  cases p with
  | hello seen buf payload =>
    unfold Pending.act helloAfterLoad Pending.store
    by_cases hs : seen = .helloWait
    · cases payload with
      | none => simp [hs]
      | some plen =>
        by_cases hl : plen < 32
        · simp [hs, hl]
        · by_cases hst : bswap32 (buf.load32 (hlen + 8)) = 0
          · simp [hs, hl, hst]
          · simp [hs, hl, hst, VfastClient.setState]
    · cases payload <;> simp [hs]
  | auth seen env sid buf payload =>
    unfold Pending.act authAfterLoad Pending.store
    by_cases hs : seen = .authWait
    · cases payload with
      | none => simp [hs]
      | some plen =>
        by_cases hl : plen < 64
        · simp [hs, hl]
        · by_cases hst : bswap32 (buf.load32 hlen) = 0
          · cases ht : env.tunOk with
            | false => simp [hs, hl, hst, ht, VfastClient.setCtx]
            | true => simp [hs, hl, hst, ht, VfastClient.setState]
          · simp [hs, hl, hst, VfastClient.setState]
    · cases payload <;> simp [hs]

section

variable (A : Aead)

theorem fsmWorker_state (c : VfastClient) (env : ClientEnv) (seen : FsmState) (lastRx : Int) :
    (fsmWorker A c env seen lastRx).1.fsm.state =
      (workerStore c env lastRx seen).getD c.fsm.state := by
  cases seen with
  | idle => rfl
  | reconnecting => rfl
  | authSend => rfl
  | helloWait =>
    simp only [fsmWorker, workerStore]
    split <;> rfl
  | authWait =>
    simp only [fsmWorker, workerStore]
    split <;> rfl
  | connected =>
    simp only [fsmWorker, workerStore]
    split <;> split
    · rfl
    · rfl
    · exact fsmSendPkt_state A c env .keepalive
    · rfl

/-- `client_on_udp` up to the load of a handshake handler; a datagram for another branch is
processed to its end. -/
def recvLoad (c : VfastClient) (env : ClientEnv) (data : Mem) (len : Nat) (src : SockAddr) :
    VfastClient × Option Pending :=
  if len < hlen then (c, none)
  else
    let r := unpacked A c data len
    match MsgType.ofCode (vfRemoveHeaderObfs data len offMsgType) with
    | some .hello => (vfFsmUpdate c env.now, some (.hello c.fsm.state r.1 r.2))
    | some .authAck => (vfFsmUpdate c env.now, some (.auth c.fsm.state env
        (bswap32 ((vfRemoveHeaderObfs data len).load32 offSessionId)) r.1 r.2))
    | _ => ((clientOnUdp A c env data len src).1, none)

/-- **Without interruption** load and store together are `client_on_udp`. -/
theorem recvLoad_act (c : VfastClient) (env : ClientEnv) (data : Mem) (len : Nat)
    (src : SockAddr) :
    (match (recvLoad A c env data len src).2 with
      | none => (recvLoad A c env data len src).1
      | some p => p.act (recvLoad A c env data len src).1) =
      (clientOnUdp A c env data len src).1 := by
  unfold recvLoad
  by_cases hl : len < hlen
  · simp only [hl, if_true]
    rw [clientOnUdp, if_pos hl]
  · simp only [hl, if_false]
    rw [clientOnUdp_eq A (Nat.not_lt.mp hl)]
    cases MsgType.ofCode (vfRemoveHeaderObfs data len offMsgType) with
    | none => rfl
    | some ty => cases ty <;> rfl

/-! ## The two threads -/

/-- The client with what each thread has loaded: the worker the state and `last_rx_time`, the
I/O thread the state of a handshake handler. -/
structure Threads where
  c : VfastClient
  worker : Option (ClientEnv × FsmState × Int)
  handler : Option Pending

/-- The steps of the threads: each load and each store of `fsm.state` is one of its own. -/
inductive Step where
  | workerLoad (env : ClientEnv) (lastRx : Int)
  | workerStore
  | receive (env : ClientEnv) (data : Mem) (len : Nat) (src : SockAddr)
  | handlerStore
  | tun (env : ClientEnv) (buf : Mem) (len : Nat)
  | timer (env : ClientEnv)

/-- A step, `none` where the thread is not at it. -/
def Threads.next (t : Threads) : Step → Option Threads
  | .workerLoad env lastRx =>
    if t.worker.isSome then none
    else some { t with worker := some (env, t.c.fsm.state, lastRx) }
  | .workerStore =>
    t.worker.map fun (env, seen, lastRx) =>
      { t with c := (fsmWorker A t.c env seen lastRx).1, worker := none }
  | .receive env data len src =>
    if t.handler.isSome then none
    else
      let r := recvLoad A t.c env data len src
      some { t with c := r.1, handler := r.2 }
  | .handlerStore => t.handler.map fun p => { t with c := p.act t.c, handler := none }
  | .tun env buf len =>
    if t.handler.isSome then none else some { t with c := (clientOnTun A t.c env buf len).1 }
  | .timer env =>
    if t.handler.isSome then none else some { t with c := (vfastRekeyTimerHandler A t.c env).1 }

def threadRuns : System Threads Step where
  init t := (∃ draw now dst userName passWord statics workerSeed,
    t.c = vfastInitClient draw now dst userName passWord statics workerSeed) ∧
    t.worker = none ∧ t.handler = none
  step t l t' := t.next A l = some t'

def Threads.stores (t : Threads) : Step → Option (FsmState × FsmState)
  | .workerStore => t.worker.bind fun (env, seen, lastRx) =>
      (workerStore t.c env lastRx seen).map fun v => (seen, v)
  | .handlerStore => t.handler.bind fun p => p.store.map fun v => (p.seen, v)
  | _ => none

/-- What a store finds: the state its thread loaded, or already the one it stores, or
HELLO_WAIT where it stores IDLE. -/
def Undisturbed (t : Threads) (l : Step) : Prop :=
  ∀ seen v, t.stores l = some (seen, v) →
    t.c.fsm.state = seen ∨ t.c.fsm.state = v ∨ (t.c.fsm.state = .helloWait ∧ v = .idle)

instance (t : Threads) (l : Step) : Decidable (Undisturbed t l) :=
  inferInstanceAs (Decidable (∀ _ _, _))

/-- The state of the client changes by a transition of the state machine, or not at all. -/
def Conforms (t t' : Threads) : Prop :=
  t'.c.fsm.state = t.c.fsm.state ∨ listed t.c.fsm.state t'.c.fsm.state = true

def workerView (seen cur : FsmState) : Bool := cur = seen || handlerMove seen cur

def handlerView (seen cur : FsmState) : Bool :=
  match seen with
  | .helloWait => cur = .helloWait || cur = .idle
  | .authWait => cur = .authWait || cur = .idle || cur = .helloWait
  | _ => true

structure Views (t : Threads) : Prop where
  worker : ∀ env seen lastRx, t.worker = some (env, seen, lastRx) →
    workerView seen t.c.fsm.state = true
  handler : ∀ p, t.handler = some p → handlerView p.seen t.c.fsm.state = true

theorem recvLoad_state (c : VfastClient) (env : ClientEnv) (data : Mem) (len : Nat)
    (src : SockAddr) : (recvLoad A c env data len src).1.fsm.state = c.fsm.state := by
  unfold recvLoad
  by_cases hl : len < hlen
  · simp only [hl, if_true]
  · simp only [hl, if_false]
    rw [clientOnUdp_eq A (Nat.not_lt.mp hl)]
    cases MsgType.ofCode (vfRemoveHeaderObfs data len offMsgType) with
    | none => rfl
    | some ty => cases ty <;> rfl

/-- A handler is pending with the state it has just loaded. -/
theorem recvLoad_seen {c : VfastClient} {env : ClientEnv} {data : Mem} {len : Nat}
    {src : SockAddr} {p : Pending} (h : (recvLoad A c env data len src).2 = some p) :
    p.seen = c.fsm.state := by
  unfold recvLoad at h
  split at h
  · cases h
  · dsimp only at h
    split at h
    · cases h
      rfl
    · cases h
      rfl
    · cases h

/-- **A step changes the state by its store.** -/
theorem next_state {t t' : Threads} {l : Step} (h : t.next A l = some t') :
    t'.c.fsm.state = ((t.stores l).map Prod.snd).getD t.c.fsm.state := by
  cases l with
  | workerLoad env lastRx =>
    simp only [Threads.next] at h
    split at h <;> cases h
    rfl
  | workerStore =>
    obtain ⟨⟨env, seen, lastRx⟩, hw, rfl⟩ := Option.map_eq_some_iff.mp h
    rw [Threads.stores, hw]
    refine (fsmWorker_state A t.c env seen lastRx).trans ?_
    simp only [Option.bind_some, Option.map_map]
    cases workerStore t.c env lastRx seen <;> rfl
  | receive env data len src =>
    simp only [Threads.next] at h
    split at h <;> cases h
    exact recvLoad_state A t.c env data len src
  | handlerStore =>
    obtain ⟨p, hp, rfl⟩ := Option.map_eq_some_iff.mp h
    rw [Threads.stores, hp]
    refine (p.act_state t.c).trans ?_
    simp only [Option.bind_some, Option.map_map]
    cases p.store <;> rfl
  | tun env buf len =>
    simp only [Threads.next] at h
    split at h <;> cases h
    exact congrArg Prod.fst (tun_standing A t.c env buf len)
  | timer env =>
    simp only [Threads.next] at h
    split at h <;> cases h
    exact congrArg Prod.fst (timer_standing A t.c env)

theorem stores_cases {t : Threads} (hv : Views t) {l : Step} {seen v : FsmState}
    (h : t.stores l = some (seen, v)) :
    (l = .workerStore ∧ workerMove seen v = true ∧ workerView seen t.c.fsm.state = true) ∨
      (l = .handlerStore ∧ handlerMove seen v = true ∧ handlerView seen t.c.fsm.state = true) := by
  cases l with
  | workerStore =>
    obtain ⟨⟨env, seen', lastRx⟩, hw, h⟩ := Option.bind_eq_some_iff.mp h
    obtain ⟨v', hst, he⟩ := Option.map_eq_some_iff.mp h
    cases he
    exact Or.inl ⟨rfl, workerStore_move hst, hv.worker _ _ _ hw⟩
  | handlerStore =>
    obtain ⟨p, hp, h⟩ := Option.bind_eq_some_iff.mp h
    obtain ⟨v', hst, he⟩ := Option.map_eq_some_iff.mp h
    cases he
    exact Or.inr ⟨rfl, Pending.store_move hst, hv.handler p hp⟩
  | workerLoad env lastRx => cases h
  | receive env data len src => cases h
  | tun env buf len => cases h
  | timer env => cases h

/-- An undisturbed store of the worker is one of its moves from the present state. -/
theorem worker_undisturbed : ∀ seen cur v, workerMove seen v = true →
    (cur = seen ∨ cur = v ∨ (cur = .helloWait ∧ v = .idle)) →
    v = cur ∨ workerMove cur v = true := by
  decide

theorem handler_undisturbed : ∀ seen cur v, handlerMove seen v = true →
    (cur = seen ∨ cur = v ∨ (cur = .helloWait ∧ v = .idle)) →
    v = cur ∨ handlerMove cur v = true := by
  decide

theorem listed_eq : ∀ a b, listed a b = (workerMove a b || handlerMove a b) := by
  decide

/-- A store that fits the present state was not disturbed. -/
theorem worker_fits : ∀ seen cur v, workerMove seen v = true → workerView seen cur = true →
    (v = cur ∨ listed cur v = true) → cur = seen ∨ cur = v ∨ (cur = .helloWait ∧ v = .idle) := by
  decide

theorem handler_fits : ∀ seen cur v, handlerMove seen v = true → handlerView seen cur = true →
    (v = cur ∨ listed cur v = true) → cur = seen ∨ cur = v ∨ (cur = .helloWait ∧ v = .idle) := by
  decide

/-- The other thread's moves stay within what a thread may find. -/
theorem workerView_move : ∀ seen cur v, workerView seen cur = true → handlerMove cur v = true →
    workerView seen v = true := by
  decide

theorem handlerView_move : ∀ seen cur v, handlerView seen cur = true → workerMove cur v = true →
    handlerView seen v = true := by
  decide

theorem view_self : ∀ s, workerView s s = true ∧ handlerView s s = true := by
  decide

/-- **A step conforms exactly when its store was not disturbed.** -/
theorem conforms_iff {t t' : Threads} {l : Step} (hv : Views t) (h : t.next A l = some t') :
    Conforms t t' ↔ Undisturbed t l := by
  have hst := next_state A h
  unfold Conforms Undisturbed
  cases hs : t.stores l with
  | none =>
    rw [hs] at hst
    exact ⟨fun _ _ _ e => (by cases e), fun _ => Or.inl hst⟩
  | some sv =>
    obtain ⟨seen, v⟩ := sv
    rw [hs] at hst
    change t'.c.fsm.state = v at hst
    rw [hst]
    constructor
    · rintro hc _ _ ⟨⟩
      rcases stores_cases hv hs with ⟨_, hm, hview⟩ | ⟨_, hm, hview⟩
      · exact worker_fits seen _ v hm hview hc
      · exact handler_fits seen _ v hm hview hc
    · intro hu
      rw [listed_eq, Bool.or_eq_true]
      rcases stores_cases hv hs with ⟨_, hm, _⟩ | ⟨_, hm, _⟩
      · exact (worker_undisturbed seen _ v hm (hu seen v rfl)).imp id Or.inl
      · exact (handler_undisturbed seen _ v hm (hu seen v rfl)).imp id Or.inr

/-- What the threads may find depends on the state and on their loads. -/
theorem Views.congr {t t' : Threads} (hv : Views t) (hc : t'.c.fsm.state = t.c.fsm.state)
    (hw : t'.worker = t.worker) (hh : t'.handler = t.handler) : Views t' := by
  refine ⟨fun env seen lastRx h => ?_, fun p h => ?_⟩
  · rw [hc]
    exact hv.worker env seen lastRx (hw.symm.trans h)
  · rw [hc]
    exact hv.handler p (hh.symm.trans h)

/-- Undisturbed steps keep what the threads may find. -/
theorem views_step {t t' : Threads} {l : Step} (hv : Views t) (hu : Undisturbed t l)
    (h : t.next A l = some t') : Views t' := by
  have hst := next_state A h
  cases l with
  | workerLoad env lastRx =>
    simp only [Threads.next] at h
    split at h <;> cases h
    refine ⟨?_, hv.handler⟩
    rintro _ _ _ ⟨⟩
    exact (view_self _).1
  | workerStore =>
    obtain ⟨⟨env, seen, lastRx⟩, hw, rfl⟩ := Option.map_eq_some_iff.mp h
    refine ⟨fun _ _ _ e => (by cases e), fun p hp => ?_⟩
    have hp' := hv.handler p hp
    dsimp only at hst ⊢
    rw [hst]
    cases hs : t.stores .workerStore with
    | none => exact hp'
    | some sv =>
      obtain ⟨seen', v⟩ := sv
      rcases stores_cases hv hs with ⟨_, hm, _⟩ | ⟨e, _⟩
      · rcases worker_undisturbed seen' _ v hm (hu seen' v hs) with rfl | hmove
        · exact hp'
        · exact handlerView_move _ _ _ hp' hmove
      · cases e
  | receive env data len src =>
    simp only [Threads.next] at h
    split at h <;> cases h
    have hcur := recvLoad_state A t.c env data len src
    refine ⟨fun env' seen lastRx hw => ?_, fun p hp => ?_⟩
    · dsimp only
      rw [hcur]
      exact hv.worker env' seen lastRx hw
    · dsimp only at hp ⊢
      rw [hcur, recvLoad_seen A hp]
      exact (view_self _).2
  | handlerStore =>
    obtain ⟨p, hp, rfl⟩ := Option.map_eq_some_iff.mp h
    refine ⟨fun env seen lastRx hw => ?_, fun _ e => (by cases e)⟩
    have hw' := hv.worker env seen lastRx hw
    dsimp only at hst ⊢
    rw [hst]
    cases hs : t.stores .handlerStore with
    | none => exact hw'
    | some sv =>
      obtain ⟨seen', v⟩ := sv
      rcases stores_cases hv hs with ⟨e, _⟩ | ⟨_, hm, _⟩
      · cases e
      · rcases handler_undisturbed seen' _ v hm (hu seen' v hs) with rfl | hmove
        · exact hw'
        · exact workerView_move _ _ _ hw' hmove
  | tun env buf len =>
    simp only [Threads.next] at h
    split at h <;> cases h
    exact hv.congr hst rfl rfl
  | timer env =>
    simp only [Threads.next] at h
    split at h <;> cases h
    exact hv.congr hst rfl rfl

/-- **The state machine under interleaving.** In every run whose stores are undisturbed, each
step changes the state by a listed transition or not at all; and there a step does so exactly
when its store is undisturbed. -/
theorem state_changes_conform {t : Threads} (h : ReachableBy (threadRuns A) Undisturbed t)
    {l : Step} {t' : Threads} (hs : (threadRuns A).step t l t') :
    Conforms t t' ↔ Undisturbed t l := by
  have hv : Views t := by
    refine h.invariant Views ?_ fun _ _ _ hv hu hs => views_step A hv hu hs
    rintro t ⟨_, hw, hh⟩
    refine ⟨fun _ _ _ e => ?_, fun _ e => ?_⟩
    · rw [hw] at e
      cases e
    · rw [hh] at e
      cases e
  exact conforms_iff A hv hs

end

/-! ## A late timeout -/

def startThreads : Threads := ⟨idleClient, none, none⟩

theorem startThreads_init : (threadRuns markAead).init startThreads :=
  ⟨⟨some fun _ => 7, 0, ⟨0, 0⟩, [], [], ⟨0x5EED5EED, .init⟩, 0x5EED5EED, rfl⟩, rfl, rfl⟩

/-- The worker's cycles up to the one that finds AUTH_WAIT five seconds old. In the second the
HELLO is processed between load and store, in the last the AUTH_ACK `data`. -/
def timeoutAround (data : Mem) : List Step :=
  [.workerLoad idleEnv 0, .workerStore,
    .workerLoad idleEnv 0, .receive idleEnv helloDatagram 52 ⟨0, 0⟩, .handlerStore, .workerStore,
    .workerLoad idleEnv 0, .workerStore,
    .workerLoad (envAt 5 none) 0, .receive (envAt 5 none) data 84 ⟨0, 0⟩, .handlerStore]

def refusalDatagram : Mem := fun i => if i = hlen + 3 then 1 else authAckDatagram 5 i

def Threads.nextUndisturbed (A : Aead) (t : Threads) (l : Step) : Option Threads :=
  if Undisturbed t l then t.next A l else none

/-- The client has been refused between the worker's load of AUTH_WAIT and its store of IDLE: the
store finds the state that it stores. -/
theorem refusal_before_timeout_conforms :
    ∃ t t', (timeoutAround refusalDatagram).foldlM (Threads.nextUndisturbed markAead) startThreads =
        some t ∧ (threadRuns markAead).step t .workerStore t' ∧
      t.stores .workerStore = some (.authWait, .idle) ∧ t.c.fsm.state = .idle ∧ Conforms t t' := by
  have hc : ((timeoutAround refusalDatagram).foldlM (Threads.nextUndisturbed markAead)
      startThreads).map (fun t => (t.stores .workerStore, t.c.fsm.state,
        (t.next markAead .workerStore).isSome)) = some (some (.authWait, .idle), .idle, true) := by
    decide +kernel
  obtain ⟨t, ht, hst⟩ := Option.map_eq_some_iff.mp hc
  simp only [Prod.mk.injEq] at hst
  obtain ⟨hst, hcur, hnext⟩ := hst
  obtain ⟨t', ht'⟩ := Option.isSome_iff_exists.mp hnext
  have hr : ReachableBy (threadRuns markAead) Undisturbed t := by
    refine (ReachableBy.init startThreads_init).foldlM (fun s l s' h => ⟨l, ?_⟩) ht
    rw [Threads.nextUndisturbed] at h
    split at h
    · exact ⟨‹_›, h⟩
    · cases h
  refine ⟨t, t', ht, ht', hst, hcur, (state_changes_conform markAead hr ht').mpr ?_⟩
  intro seen v hs
  cases hst.symm.trans hs
  exact Or.inr (Or.inl hcur)

/-- The AUTH_ACK that accepts the client, processed there. -/
def lateTimeout : List Step := timeoutAround (authAckDatagram 5)

/-- The connection just established is overwritten with IDLE. -/
theorem timeout_overwrites_connected :
    ∃ t t', Reachable (threadRuns markAead) t ∧ (threadRuns markAead).step t .workerStore t' ∧
      t.c.fsm.state = .connected ∧ t'.c.fsm.state = .idle ∧ ¬ Conforms t t' := by
  have hc : (lateTimeout.foldlM (Threads.next markAead) startThreads).map (fun t => t.c.fsm.state) =
      some .connected := by decide
  obtain ⟨t, ht, hst⟩ := Option.map_eq_some_iff.mp hc
  have hn : (lateTimeout.foldlM (Threads.next markAead) startThreads).bind (fun t =>
      (t.next markAead .workerStore).map fun t' => t'.c.fsm.state) = some .idle := by decide
  rw [ht, Option.bind_some] at hn
  obtain ⟨t', ht', hst'⟩ := Option.map_eq_some_iff.mp hn
  refine ⟨t, t', ReachableBy.foldlM (fun _ l _ h => ⟨l, trivial, h⟩) (.init startThreads_init) ht,
    ht', hst, hst', ?_⟩
  unfold Conforms
  rw [hst, hst']
  decide

end Vfast.Interleave
