import Vfast.Ingress

/-! The key generations of a server session. Its three key slots move only when an accepted
REKEY_REQ carries a larger id than the active one, so the active id never decreases. -/

namespace Vfast.Generations

open Bytes Key Crypto Protocol Sessions Server ServerInv Addresses Authenticity Ingress Run

/-! ## Accepted requests -/

def carriedId (buf : Mem) : UInt32 := bswap32 (buf.load32 hlen)

def carriedKey (buf : Mem) : Block 32 := Block.ofList 32 (buf.read (hlen + 4) 32)

/-- The unpacked packet is a whole REKEY_REQ with a larger id than the active key of `s`. -/
structure Newer (s : Session) (buf : Mem) (plen : Nat) : Prop where
  type : MsgType.ofCode (buf offMsgType) = some .rekeyReq
  whole : 36 ≤ plen
  larger : s.secCtx.activeKey.id < carriedId buf

def RekeyAccepted (A : Aead) (srv : VfastServer) (p : Ptr) (data : Mem) (len : Nat) (buf : Mem) :
    Prop :=
  ∃ plen, Reaches A srv p data len buf plen ∧ Newer (srv.sessions.heap p) buf plen

/-- What the key slots of a server session satisfy. -/
structure Ordered (s : Session) : Prop where
  settled : s.secCtx.rekeyPending = false
  older : s.secCtx.previousKey.id = 0 ∨ s.secCtx.previousKey.id < s.secCtx.activeKey.id

structure SameKeys (s s' : Session) : Prop where
  active : s'.secCtx.activeKey.mat = s.secCtx.activeKey.mat
  previous : s'.secCtx.previousKey = s.secCtx.previousKey
  next : s'.secCtx.nextKey = s.secCtx.nextKey

/-- `s'` has the carried key as its active one, and the active key of `s` as the previous. -/
structure Advanced (s s' : Session) (buf : Mem) : Prop where
  active : s'.secCtx.activeKey.mat = (carriedKey buf, carriedId buf)
  previous : s'.secCtx.previousKey.mat = s.secCtx.activeKey.mat
  next : s'.secCtx.nextKey = .zero

theorem ordered_new (env : Env) (src : SockAddr) (vip : UInt32) :
    Ordered (newSession env src vip) := by
  unfold newSession vfRekeyInit
  cases env.keyDraw with
  | none => exact ⟨rfl, Or.inl rfl⟩
  | some raw => exact ⟨rfl, Or.inl rfl⟩

theorem rekeyed_newer (now : Int) (len : Nat) {buf : Mem} {plen : Nat} {s : Session}
    (h : Newer s buf plen) :
    Advanced s (rekeyed now buf plen (counted len s)) buf ∧
      Ordered (rekeyed now buf plen (counted len s)) := by
  have hst : ¬ carriedId buf ≤ s.secCtx.activeKey.id := UInt32.not_le.mpr h.larger
  have he : rekeyed now buf plen (counted len s) =
      { counted len s with secCtx := vfRekeyCommit { s.secCtx.countBytes len with
        nextKey := ⟨carriedKey buf, carriedId buf, 0, now⟩ } } := by
    have hstage : rekeyStage (counted len s).secCtx (bswap32 (buf.load32 hlen))
        (Block.ofList 32 (buf.read (hlen + 4) 32)) now = some { s.secCtx.countBytes len with
          nextKey := ⟨carriedKey buf, carriedId buf, 0, now⟩ } := if_neg hst
    rw [rekeyed, if_neg (Nat.not_lt.mpr h.whole), hstage]
  rw [he]
  exact ⟨⟨rfl, rfl, rfl⟩, ⟨rfl, Or.inr h.larger⟩⟩

/-- A packet that is no newer request leaves the keys of a settled session. -/
theorem dispatched_same (env : Env) (src : SockAddr) (len : Nat) {buf : Mem} {plen : Nat}
    {s : Session} (hs : s.secCtx.rekeyPending = false) (h : ¬ Newer s buf plen) :
    (dispatched env src buf plen (counted len s)).secCtx = s.secCtx.countBytes len := by
  unfold dispatched
  split
  · split <;> rfl
  · rfl
  · have hp : (counted len s).secCtx.rekeyPending = false := hs
    rw [hp]
    rfl
  · rename_i hty
    unfold rekeyed
    split
    · rfl
    · rename_i h36
      have hle : carriedId buf ≤ s.secCtx.activeKey.id :=
        UInt32.not_lt.mp fun hlt => h ⟨hty, Nat.not_lt.mp h36, hlt⟩
      have hst : rekeyStage (counted len s).secCtx (bswap32 (buf.load32 hlen))
          (Block.ofList 32 (buf.read (hlen + 4) 32)) env.now = none := if_pos hle
      rw [hst]
      rfl
  · rfl

theorem sameKeys_of_ctx {s s' : Session} {len : Nat} (h : s'.secCtx = s.secCtx.countBytes len) :
    SameKeys s s' := by
  constructor <;> (rw [h]; rfl)

theorem ordered_of_ctx {s s' : Session} {len : Nat} (hs : Ordered s)
    (h : s'.secCtx = s.secCtx.countBytes len) : Ordered s' := by
  constructor
  · rw [h]
    exact hs.settled
  · rw [h]
    exact hs.older

/-- **One packet, seen from the key slots.** -/
theorem dispatched_step (env : Env) (src : SockAddr) {s : Session} (hs : Ordered s) (buf : Mem)
    (len plen : Nat) :
    Ordered (dispatched env src buf plen (counted len s)) ∧
      (Newer s buf plen → Advanced s (dispatched env src buf plen (counted len s)) buf) ∧
      (¬ Newer s buf plen → SameKeys s (dispatched env src buf plen (counted len s))) := by
  by_cases h : Newer s buf plen
  · obtain ⟨hadv, hord⟩ := rekeyed_newer env.now len h
    have he : dispatched env src buf plen (counted len s) =
        rekeyed env.now buf plen (counted len s) := by
      rw [dispatched, h.type]
    rw [he]
    exact ⟨hord, fun _ => hadv, fun hn => absurd h hn⟩
  · have hctx := dispatched_same env src len hs.settled h
    exact ⟨ordered_of_ctx hs hctx, fun hn => absurd hn h, fun _ => sameKeys_of_ctx hctx⟩

theorem SameKeys.id_eq {s s' : Session} (h : SameKeys s s') :
    s'.secCtx.activeKey.id = s.secCtx.activeKey.id := congrArg Prod.snd h.active

theorem Advanced.id_eq {s s' : Session} {buf : Mem} (h : Advanced s s' buf) :
    s'.secCtx.activeKey.id = carriedId buf := congrArg Prod.snd h.active

/-! ## Runs -/

structure Datagram where
  env : Env
  data : Mem
  len : Nat
  src : SockAddr

section

variable (A : Aead) (hmac : List UInt8 → List UInt8 → Block 32)

def receive (srv : VfastServer) (d : Datagram) : VfastServer :=
  (serverOnUdp A hmac srv d.env d.data d.len d.src).1

theorem reachable_receive {srv : VfastServer} (h : Reachable (serverRuns A hmac) srv)
    (d : Datagram) : Reachable (serverRuns A hmac) (receive A hmac srv d) :=
  h.next (l := .udp d.env d.data d.len d.src) rfl

theorem reachable_ordered {srv : VfastServer} (h : Reachable (serverRuns A hmac) srv) {p : Ptr}
    (hl : Live srv.sessions p) : Ordered (srv.sessions.heap p) :=
  reachable_sessions A hmac ordered_new
    (fun env src buf len plen _ hs => (dispatched_step env src hs buf len plen).1) h hl

/-- **One datagram, seen from the key slots.** -/
theorem receive_keys {srv : VfastServer} (h : Reachable (serverRuns A hmac) srv) {p : Ptr}
    (hl : Live srv.sessions p) (d : Datagram) :
    Live (receive A hmac srv d).sessions p ∧
      (∀ buf, RekeyAccepted A srv p d.data d.len buf →
        Advanced (srv.sessions.heap p) ((receive A hmac srv d).sessions.heap p) buf) ∧
      ((∀ buf, ¬ RekeyAccepted A srv p d.data d.len buf) →
        SameKeys (srv.sessions.heap p) ((receive A hmac srv d).sessions.heap p)) := by
  have hi := reachable_isolated A hmac h
  have ho := reachable_ordered A hmac h hl
  by_cases hr : ∃ buf plen, Reaches A srv p d.data d.len buf plen
  · obtain ⟨buf, plen, hr⟩ := hr
    obtain ⟨hlive, hheap⟩ := udp_reached A hmac hi hl d.env d.src hr
    obtain ⟨_, hadv, hsame⟩ := dispatched_step d.env d.src ho buf d.len plen
    refine ⟨hlive, ?_, ?_⟩
    · rintro buf' ⟨plen', hr', hn⟩
      obtain ⟨rfl, rfl⟩ : buf' = buf ∧ plen' = plen := by
        simpa using hr'.unpack.symm.trans hr.unpack
      show Advanced _ ((serverOnUdp A hmac srv d.env d.data d.len d.src).1.sessions.heap p) _
      rw [hheap]
      exact hadv hn
    · intro hno
      show SameKeys _ ((serverOnUdp A hmac srv d.env d.data d.len d.src).1.sessions.heap p)
      rw [hheap]
      exact hsame fun hn => hno buf ⟨plen, hr, hn⟩
  · obtain ⟨hlive, hheap⟩ := udp_unreached A hmac hi hl d.env d.src
      fun buf plen h => hr ⟨buf, plen, h⟩
    refine ⟨hlive, ?_, ?_⟩
    · rintro buf ⟨plen, hr', _⟩
      exact absurd ⟨buf, plen, hr'⟩ hr
    · intro _
      show SameKeys _ ((serverOnUdp A hmac srv d.env d.data d.len d.src).1.sessions.heap p)
      rw [hheap]
      exact ⟨rfl, rfl, rfl⟩

/-- An accepted request carries a larger id than the active key. -/
theorem RekeyAccepted.larger {A : Aead} {srv : VfastServer} {p : Ptr} {data : Mem} {len : Nat}
    {buf : Mem} (h : RekeyAccepted A srv p data len buf) :
    (srv.sessions.heap p).secCtx.activeKey.id < carriedId buf := by
  obtain ⟨_, _, hn⟩ := h
  exact hn.larger

theorem receive_id_le {srv : VfastServer} (h : Reachable (serverRuns A hmac) srv) {p : Ptr}
    (hl : Live srv.sessions p) (d : Datagram) :
    (srv.sessions.heap p).secCtx.activeKey.id ≤
      ((receive A hmac srv d).sessions.heap p).secCtx.activeKey.id := by
  obtain ⟨_, hadv, hsame⟩ := receive_keys A hmac h hl d
  by_cases hacc : ∃ buf, RekeyAccepted A srv p d.data d.len buf
  · obtain ⟨buf, hacc⟩ := hacc
    rw [(hadv buf hacc).id_eq]
    exact UInt32.le_of_lt hacc.larger
  · rw [(hsame fun buf h => hacc ⟨buf, h⟩).id_eq]
    exact UInt32.le_refl _

/-- Any number of datagrams: the session lives on and its active id does not decrease. -/
theorem foldl_receive {srv : VfastServer} (h : Reachable (serverRuns A hmac) srv) {p : Ptr}
    (hl : Live srv.sessions p) (ds : List Datagram) :
    Live (ds.foldl (receive A hmac) srv).sessions p ∧
      (srv.sessions.heap p).secCtx.activeKey.id ≤
        ((ds.foldl (receive A hmac) srv).sessions.heap p).secCtx.activeKey.id := by
  induction ds generalizing srv with
  | nil => exact ⟨hl, UInt32.le_refl _⟩
  | cons d ds ih =>
    obtain ⟨hlive, hle⟩ := ih (reachable_receive A hmac h d) (receive_keys A hmac h hl d).1
    exact ⟨hlive, UInt32.le_trans (receive_id_le A hmac h hl d) hle⟩

/-- **Generations only move forward.** In every reachable state a session has no rekey
pending and its previous id is 0 or smaller than the active one. A datagram changes the
active id exactly when it is an accepted REKEY_REQ, which then moves the slots; any other
leaves the keys. Over any sequence of datagrams the active id never decreases. -/
theorem generations_move_forward {srv : VfastServer} (h : Reachable (serverRuns A hmac) srv)
    {p : Ptr} (hl : Live srv.sessions p) :
    Ordered (srv.sessions.heap p) ∧
    (∀ d : Datagram, Live (receive A hmac srv d).sessions p ∧
      (((receive A hmac srv d).sessions.heap p).secCtx.activeKey.id ≠
          (srv.sessions.heap p).secCtx.activeKey.id ↔
        ∃ buf, RekeyAccepted A srv p d.data d.len buf) ∧
      (∀ buf, RekeyAccepted A srv p d.data d.len buf →
        Advanced (srv.sessions.heap p) ((receive A hmac srv d).sessions.heap p) buf) ∧
      ((∀ buf, ¬ RekeyAccepted A srv p d.data d.len buf) →
        SameKeys (srv.sessions.heap p) ((receive A hmac srv d).sessions.heap p))) ∧
    (∀ ds : List Datagram, Live (ds.foldl (receive A hmac) srv).sessions p ∧
      Ordered ((ds.foldl (receive A hmac) srv).sessions.heap p) ∧
      (srv.sessions.heap p).secCtx.activeKey.id ≤
        ((ds.foldl (receive A hmac) srv).sessions.heap p).secCtx.activeKey.id) := by
  refine ⟨reachable_ordered A hmac h hl, ?_, ?_⟩
  · intro d
    obtain ⟨hlive, hadv, hsame⟩ := receive_keys A hmac h hl d
    refine ⟨hlive, ⟨?_, ?_⟩, hadv, hsame⟩
    · intro hne
      by_contra hno
      exact hne (hsame fun buf h => hno ⟨buf, h⟩).id_eq
    · rintro ⟨buf, hacc⟩
      rw [(hadv buf hacc).id_eq]
      exact (UInt32.ne_of_lt hacc.larger).symm
  · intro ds
    have hr : Reachable (serverRuns A hmac) (ds.foldl (receive A hmac) srv) :=
      Run.Reachable.foldl (fun _ d => ⟨.udp d.env d.data d.len d.src, rfl⟩) h ds
    obtain ⟨hlive, hle⟩ := foldl_receive A hmac h hl ds
    exact ⟨hlive, reachable_ordered A hmac hr hlive, hle⟩

end

/-- A REKEY_REQ of 96 bytes for session 10, sealed with its first key, that carries the id 2
and the zero key. -/
def rekeyDatagram : Datagram :=
  ⟨authEnv none 0, fun i => if i = 6 then 1 else if i = 47 then 2 else if 80 ≤ i then 7
    else strangerDatagram .rekeyReq i, 96, ⟨0, 0⟩⟩

theorem first_rekey_accepted :
    ((receive markAead zeroHmac servedOnce rekeyDatagram).sessions.heap 0).secCtx.activeKey.id = 2 ∧
      ∃ buf, RekeyAccepted markAead servedOnce 0 rekeyDatagram.data rekeyDatagram.len buf := by
  have hid : ((receive markAead zeroHmac servedOnce rekeyDatagram).sessions.heap
      0).secCtx.activeKey.id = 2 := by decide
  obtain ⟨_, hd, _⟩ := generations_move_forward markAead zeroHmac servedOnce_reachable
    servedOnce_live
  refine ⟨hid, (hd rekeyDatagram).2.1.mp ?_⟩
  rw [hid]
  decide

end Vfast.Generations
