import Vfast.Ingress

/-! The reaper against the clock. `last_seen` of a session moves with two kinds of packets,
its signs of life: a KEEPALIVE with a whole echo and an authenticated DPD_RESPONSE. A session
that `vfast_server_maintenance` deletes has sent none of them for 30 seconds. -/

namespace Vfast.Reaper

open Bytes Key Crypto Protocol Sessions Server ServerInv Addresses Ingress Run

/-! ## Signs of life -/

/-- The unpacked packet refreshes `last_seen`. -/
def Refreshes (buf : Mem) (plen : Nat) : Prop :=
  (MsgType.ofCode (buf offMsgType) = some .keepalive ∧ 16 ≤ plen) ∨
    MsgType.ofCode (buf offMsgType) = some .dpdResponse

def SignOfLife (A : Aead) (srv : VfastServer) (p : Ptr) (data : Mem) (len : Nat) : Prop :=
  ∃ buf plen, Reaches A srv p data len buf plen ∧ Refreshes buf plen

theorem rekeyed_lastSeen (now : Int) (buf : Mem) (plen : Nat) (s : Session) :
    (rekeyed now buf plen s).lastSeen = s.lastSeen := by
  unfold rekeyed
  split
  · rfl
  · split <;> rfl

theorem dispatched_refreshes (env : Env) (src : SockAddr) {buf : Mem} {plen : Nat}
    (h : Refreshes buf plen) (s : Session) :
    (dispatched env src buf plen s).lastSeen = env.now := by
  rcases h with ⟨hty, h16⟩ | hty
  · rw [dispatched, hty]
    dsimp only
    rw [if_neg (Nat.not_lt.mpr h16)]
    rfl
  · rw [dispatched, hty]
    rfl

theorem dispatched_silent (env : Env) (src : SockAddr) {buf : Mem} {plen : Nat}
    (h : ¬ Refreshes buf plen) (s : Session) :
    (dispatched env src buf plen s).lastSeen = s.lastSeen := by
  unfold dispatched
  split
  · rename_i hty
    rw [if_pos (Nat.not_le.mp fun h16 => h (Or.inl ⟨hty, h16⟩))]
  · rename_i hty
    exact absurd (Or.inr hty) h
  · split <;> rfl
  · exact rekeyed_lastSeen _ _ _ _
  · rfl

section

variable (A : Aead) (hmac : List UInt8 → List UInt8 → Block 32)

/-- **`last_seen` moves with the signs of life and with nothing else.** -/
theorem udp_lastSeen {srv : VfastServer} (hi : Isolated srv) {p : Ptr} (hl : Live srv.sessions p)
    (env : Env) (data : Mem) (len : Nat) (src : SockAddr) :
    (SignOfLife A srv p data len →
      ((serverOnUdp A hmac srv env data len src).1.sessions.heap p).lastSeen = env.now) ∧
    (¬ SignOfLife A srv p data len →
      ((serverOnUdp A hmac srv env data len src).1.sessions.heap p).lastSeen =
        (srv.sessions.heap p).lastSeen) := by
  by_cases hr : ∃ buf plen, Reaches A srv p data len buf plen
  · obtain ⟨buf, plen, hr⟩ := hr
    rw [(udp_reached A hmac hi hl env src hr).2]
    constructor
    · rintro ⟨buf', plen', hr', hs⟩
      obtain ⟨rfl, rfl⟩ : buf' = buf ∧ plen' = plen := by
        simpa using hr'.unpack.symm.trans hr.unpack
      exact dispatched_refreshes env src hs _
    · intro hno
      exact dispatched_silent env src (fun hs => hno ⟨buf, plen, hr, hs⟩) _
  · rw [(udp_unreached A hmac hi hl env src fun buf plen h => hr ⟨buf, plen, h⟩).2]
    refine ⟨?_, fun _ => rfl⟩
    rintro ⟨buf, plen, hr', _⟩
    exact absurd ⟨buf, plen, hr'⟩ hr

/-! ## The server with its clock -/

def Event.env : Event → Env
  | .udp env _ _ _ => env
  | .tun env _ _ => env
  | .maintenance env => env

def Event.IsSign (srv : VfastServer) (p : Ptr) : Event → Prop
  | .udp _ data len _ => SignOfLife A srv p data len
  | _ => False

/-- The server, the time of the last event, and the times at which each session gave a sign
of life. -/
structure Watched where
  srv : VfastServer
  clock : Int
  heard : Ptr → Int → Prop

def Watched.after (w : Watched) (ev : Event) : Watched :=
  ⟨(ev.run A hmac w.srv).1, (Event.env ev).now,
    fun p t => w.heard p t ∨ (Event.IsSign A w.srv p ev ∧ t = (Event.env ev).now)⟩

def watchedRuns : System Watched Event where
  init w := Started w.srv ∧ ∀ p t, ¬ w.heard p t
  step w ev w' := w.clock ≤ (Event.env ev).now ∧ w' = w.after A hmac ev

/-- No sign of life is younger than `last_seen`, or than the clock. -/
structure Timely (w : Watched) : Prop where
  isolated : Isolated w.srv
  past : ∀ p t, w.heard p t → t ≤ w.clock
  seen : ∀ p, Live w.srv.sessions p → ∀ t, w.heard p t → t ≤ (w.srv.sessions.heap p).lastSeen

theorem timely_init {w : Watched} (h : (watchedRuns A hmac).init w) : Timely w := by
  obtain ⟨hs, hh⟩ := h
  exact ⟨isolated_started hs, fun p t ht => absurd ht (hh p t), fun p _ t ht => absurd ht (hh p t)⟩

/-- A session that lives after an event was refreshed at its time, or was there with the
same `last_seen` and gave no sign. -/
theorem event_lastSeen {srv : VfastServer} (hi : Isolated srv) (ev : Event) {p : Ptr}
    (hl : Live (ev.run A hmac srv).1.sessions p) :
    ((ev.run A hmac srv).1.sessions.heap p).lastSeen = (Event.env ev).now ∨
      (Live srv.sessions p ∧ ¬ Event.IsSign A srv p ev ∧
        ((ev.run A hmac srv).1.sessions.heap p).lastSeen = (srv.sessions.heap p).lastSeen) := by
  cases ev with
  | udp env data len src =>
    by_cases hold : Live srv.sessions p
    · obtain ⟨hsign, hsilent⟩ := udp_lastSeen A hmac hi hold env data len src
      by_cases hs : SignOfLife A srv p data len
      · exact Or.inl (hsign hs)
      · exact Or.inr ⟨hold, hs, hsilent hs⟩
    · rcases udp_session A hmac hi env data len src hl with
        ⟨h, _⟩ | ⟨h, _⟩ | ⟨_, vip, e⟩
      · exact absurd h hold
      · exact absurd h hold
      · exact Or.inl (congrArg Session.lastSeen e)
  | tun env buf len =>
    have hs : (Event.run A hmac srv (.tun env buf len)).1.sessions = srv.sessions :=
      tun_sessions A srv env buf len
    rw [hs] at hl ⊢
    exact Or.inr ⟨hl, id, rfl⟩
  | maintenance env =>
    obtain ⟨hh, hlive⟩ := maintenance_sessions A hi.wf env
    exact Or.inr ⟨hlive p hl, id, congrArg (fun h => (h p).lastSeen) hh⟩

theorem timely_step {w w' : Watched} {ev : Event} (hw : Timely w)
    (h : (watchedRuns A hmac).step w ev w') : Timely w' := by
  obtain ⟨hclock, rfl⟩ := h
  have hpast : ∀ p t, (w.heard p t ∨ (Event.IsSign A w.srv p ev ∧ t = (Event.env ev).now)) →
      t ≤ (Event.env ev).now := by
    rintro p t (ht | ⟨_, rfl⟩)
    · have := hw.past p t ht
      omega
    · exact Int.le_refl _
  refine ⟨(event_changes A hmac hw.isolated ev).isolated hw.isolated, hpast, ?_⟩
  intro p hl t ht
  change t ≤ ((ev.run A hmac w.srv).1.sessions.heap p).lastSeen
  rcases event_lastSeen A hmac hw.isolated ev hl with e | ⟨hold, hno, e⟩
  · rw [e]
    exact hpast p t ht
  · rw [e]
    rcases ht with ht | ⟨hs, _⟩
    · exact hw.seen p hold t ht
    · exact absurd hs hno

theorem reachable_timely {w : Watched} (h : Reachable (watchedRuns A hmac) w) : Timely w :=
  h.invariant Timely (fun _ => timely_init A hmac) fun _ _ _ hw _ hs => timely_step A hmac hw hs

/-- What maintenance deletes was last seen 30 seconds ago or earlier. -/
theorem reaped_lastSeen {srv : VfastServer} (hw : srv.sessions.WF) (env : Env) {p : Ptr}
    (hl : Live srv.sessions p) (hd : ¬ Live (vfastServerMaintenance A srv env).1.sessions p) :
    30 ≤ env.now - (srv.sessions.heap p).lastSeen := by
  obtain ⟨-, -, hlive⟩ := tick_sessions A hw env
  by_contra hfresh
  refine hd ((hlive p).mpr ⟨hl, ?_⟩)
  intro node hm hdead hvip
  obtain ⟨q, hq, _, rfl⟩ := mem_getExpired (by decide) hm
  have hpq : p = q := hw.vip_inj hl hq hvip
  subst hpq
  exact hfresh (of_decide_eq_true hdead)

/-- **No session is reaped that gave a sign of life.** A session that maintenance deletes has
sent no KEEPALIVE with a whole echo and no authenticated DPD_RESPONSE in the 30 seconds
before; the other packets, authenticated or not, do not count. -/
theorem reaped_sessions_silent {w : Watched} (h : Reachable (watchedRuns A hmac) w) {p : Ptr}
    (hl : Live w.srv.sessions p) :
    (∀ env : Env, ¬ Live (vfastServerMaintenance A w.srv env).1.sessions p →
      ∀ t, w.heard p t → 30 ≤ env.now - t) ∧
    (∀ (env : Env) (data : Mem) (len : Nat) (src : SockAddr), ¬ SignOfLife A w.srv p data len →
      ((serverOnUdp A hmac w.srv env data len src).1.sessions.heap p).lastSeen =
        (w.srv.sessions.heap p).lastSeen) := by
  have hw := reachable_timely A hmac h
  constructor
  · intro env hd t ht
    have hold := reaped_lastSeen A hw.isolated.wf env hl hd
    have hle := hw.seen p hl t ht
    omega
  · intro env data len src hs
    exact (udp_lastSeen A hmac hw.isolated hl env data len src).2 hs

end

def envAt (now : Int) : Env := { authEnv none 0 with now := now }

/-- The server after the first login, at time 0, and a KEEPALIVE of its session at time 5. -/
def watchedOnce : Watched :=
  ((⟨startedServer 0x0000000A, 0, fun _ _ => False⟩ : Watched).after markAead zeroHmac
    (.udp (authEnv (some fun _ => 1) 0) authDatagram 172 ⟨0, 0⟩)).after markAead zeroHmac
    (.udp (envAt 5) (strangerDatagram .keepalive) 36 ⟨0, 0⟩)

theorem watchedOnce_reachable : Reachable (watchedRuns markAead zeroHmac) watchedOnce := by
  refine Run.Reachable.next (Run.Reachable.next (.init ⟨?_, fun _ _ h => h⟩) ⟨?_, rfl⟩) ⟨?_, rfl⟩
  · exact startedServer_started (by decide)
  · decide
  · decide

theorem keepalive_heard : watchedOnce.heard 0 5 := by
  refine Or.inr ⟨⟨_, 16, ⟨by decide, by decide, Prod.ext rfl ?_⟩, Or.inl ⟨?_, by decide⟩⟩, rfl⟩
  · decide
  · decide

theorem quiet_session_reaped :
    ¬ Live (vfastServerMaintenance markAead watchedOnce.srv (envAt 35)).1.sessions 0 ∧
      (30 : Int) ≤ 35 - 5 := by
  have hl : Live watchedOnce.srv.sessions 0 := ⟨10, by decide⟩
  have hd : ¬ Live (vfastServerMaintenance markAead watchedOnce.srv (envAt 35)).1.sessions 0 := by
    rintro ⟨i, hm⟩
    revert i
    decide
  exact ⟨hd, (reaped_sessions_silent markAead zeroHmac watchedOnce_reachable hl).1 (envAt 35) hd 5
    keepalive_heard⟩

/-- A session that sends authenticated DATA is deleted 10 seconds later. -/
theorem busy_session_reaped :
    ∃ srv p env data len src env', Reachable (serverRuns markAead zeroHmac) srv ∧
      Live srv.sessions p ∧ Authenticated markAead srv p data len ∧
      typeOf data len = MsgType.data.code ∧ env.now ≤ env'.now ∧ env'.now - env.now < 30 ∧
      Live (serverOnUdp markAead zeroHmac srv env data len src).1.sessions p ∧
      ¬ Live (vfastServerMaintenance markAead
        (serverOnUdp markAead zeroHmac srv env data len src).1 env').1.sessions p := by
  refine ⟨servedOnce, 0, envAt 20, dataDatagram, 80, ⟨0, 0⟩, envAt 30, servedOnce_reachable,
    servedOnce_live, ⟨by decide, _, 20, by decide, by decide, Prod.ext rfl ?_⟩, by decide,
    by decide, by decide, ⟨10, by decide⟩, ?_⟩
  · decide
  · rintro ⟨i, hm⟩
    revert i
    decide

end Vfast.Reaper
