import Vfast.Pmtud

/-! Path-MTU discovery from the error queue of the socket to the TUN device:
`vfast_check_icmp_errors`, its callback `vfast_path_mtu_updated` and `vf_tun_set_mtu_by_fd`, over
runs of `vf_io_run`. The callback returns at once if its argument is not NULL, and both ends
register it with the address of their I/O context: no report reaches the device. -/

namespace Vfast.PathMtu

open Pmtud (due checks)

/-! ## The error queue -/

/-- `struct sock_extended_err`, as far as it is read. -/
structure SockExtendedErr where
  errno : UInt32
  origin : UInt8
  type : UInt8
  code : UInt8
  info : UInt32

/-- A control message; `data` is what `CMSG_DATA` points to. -/
structure Cmsg where
  level : Int
  type : Int
  data : SockExtendedErr

def ipprotoIp : Int := 0

def ipprotoIpv6 : Int := 41

def ipRecverr : Int := 11

def ipv6Recverr : Int := 25

def soEeOriginLocal : UInt8 := 1

def soEeOriginIcmp : UInt8 := 2

def soEeOriginIcmp6 : UInt8 := 3

def icmpDestUnreach : UInt8 := 3

def icmpFragNeeded : UInt8 := 4

def icmp6PacketTooBig : UInt8 := 2

def emsgsize : UInt32 := 90

def isIcmpMtu (ee : SockExtendedErr) : Bool :=
  if ee.origin = soEeOriginIcmp then ee.type == icmpDestUnreach && ee.code == icmpFragNeeded
  else if ee.origin = soEeOriginIcmp6 then ee.type == icmp6PacketTooBig
  else ee.origin == soEeOriginLocal && ee.errno == emsgsize

/-- `is_v4_err || is_v6_err`. -/
def isErr (c : Cmsg) : Bool :=
  (c.level == ipprotoIp && c.type == ipRecverr) || (c.level == ipprotoIpv6 && c.type == ipv6Recverr)

/-! ## The callback and the device -/

inductive Fault where
  | null
  deriving DecidableEq

/-- What the argument of the callback points to: `vf_io_t`, as far as the callback reads it. -/
structure IoCtx where
  tunFd : Int

def PmtudCb : Type := UInt32 → Option IoCtx → Int → Except Fault Int

structure Io extends IoCtx where
  udpFd : Int
  pmtudCb : Option PmtudCb
  pmtudArg : Option IoCtx
  lastPmtudCheckMs : UInt32

/-- `vf_tun_set_mtu_by_fd`: the MTU and the return code. `ioctls` says which values the kernel
accepts. -/
def vfTunSetMtuByFd (ioctls : Int → Bool) (tunFd mtu tunMtu : Int) : Int × Int :=
  if tunFd < 0 ∨ mtu ≤ 0 then (tunMtu, -1)
  else if ioctls mtu then (mtu, 0)
  else (tunMtu, -1)

def vfastPathMtuUpdated (ioctls : Int → Bool) : PmtudCb := fun newMtu arg tunMtu =>
  -- `if (!!arg) return;`
  if arg.isSome then .ok tunMtu
  else
    match arg with
    | none => .error .null
    | some io => .ok (vfTunSetMtuByFd ioctls io.tunFd newMtu.toInt32.toInt tunMtu).1

def vfIoSetPmtudCallback (io : Io) (cb : Option PmtudCb) (arg : Option IoCtx) : Io :=
  { io with pmtudCb := cb, pmtudArg := arg, lastPmtudCheckMs := 0 }

/-! ## The loop -/

/-- The body of the walk over the control messages. -/
def onCmsg (io : Io) (tunMtu : Int) (c : Cmsg) : Except Fault Int :=
  if isErr c then
    let mtu := c.data.info
    if isIcmpMtu c.data && mtu > 0 then
      match io.pmtudCb with
      | some cb => cb mtu io.pmtudArg tunMtu
      | none => .ok tunMtu
    else .ok tunMtu
  else .ok tunMtu

/-- `vfast_check_icmp_errors`: what is left of the queue, and the MTU. Each `recvmsg` takes one
message off the queue; on the empty queue it fails. -/
def vfastCheckIcmpErrors (io : Io) (udpFd : Int) (queue : List (List Cmsg)) (tunMtu : Int) :
    Except Fault (List (List Cmsg) × Int) :=
  if udpFd < 0 then .ok (queue, tunMtu)
  else do
    let tunMtu ← queue.foldlM (fun tunMtu msg => msg.foldlM (onCmsg io) tunMtu) tunMtu
    .ok ([], tunMtu)

/-- An iteration: its clock, and the messages that were queued since the last one. -/
structure Tick where
  now : UInt64
  arrivals : List (List Cmsg)

structure Loop where
  io : Io
  queue : List (List Cmsg)
  tunMtu : Int

def polls (s : Loop) (t : Tick) : Bool := s.io.pmtudCb.isSome && due s.io.lastPmtudCheckMs t.now

/-- The polling of an iteration of `vf_io_run`. -/
def tick (s : Loop) (t : Tick) : Except Fault Loop :=
  if polls s t then do
    let r ← vfastCheckIcmpErrors s.io s.io.udpFd (s.queue ++ t.arrivals) s.tunMtu
    .ok ⟨{ s.io with lastPmtudCheckMs := t.now.toUInt32 }, r.1, r.2⟩
  else .ok { s with queue := s.queue ++ t.arrivals }

/-- What the polls of a run read, with their times. -/
def reads (s : Loop) : List Tick → List (UInt64 × List (List Cmsg))
  | [] => []
  | t :: ts =>
    let read := if polls s t then [(t.now, s.queue ++ t.arrivals)] else []
    match tick s t with
    | .ok s' => read ++ reads s' ts
    | .error _ => read

/-! ## Reports -/

/-- The message reports an MTU of the path. -/
def Reports (c : Cmsg) : Prop := isErr c = true ∧ isIcmpMtu c.data = true ∧ 0 < c.data.info

def Reported (queue : List (List Cmsg)) : Prop := ∃ msg ∈ queue, ∃ c ∈ msg, Reports c

theorem onCmsg_of_reports {io : Io} {cb : PmtudCb} (hcb : io.pmtudCb = some cb) {c : Cmsg}
    (h : Reports c) (tunMtu : Int) : onCmsg io tunMtu c = cb c.data.info io.pmtudArg tunMtu := by
  obtain ⟨he, hm, hi⟩ := h
  have hmtu : (isIcmpMtu c.data && decide (c.data.info > 0)) = true := by
    rw [hm, decide_eq_true hi]
    rfl
  simp only [onCmsg, he, hmtu, if_true, hcb]

theorem onCmsg_of_not_reports (io : Io) {c : Cmsg} (h : ¬ Reports c) (tunMtu : Int) :
    onCmsg io tunMtu c = .ok tunMtu := by
  rw [onCmsg]
  split
  · rename_i he
    refine if_neg fun hm => h ⟨he, ?_⟩
    rw [Bool.and_eq_true, decide_eq_true_eq] at hm
    exact hm
  · rfl

section Walk

variable {α σ ε : Type} {f : σ → α → Except ε σ} {s : σ} {e : ε}

/-- A walk whose body leaves the state alone, except that it stops at the elements `P`. -/
theorem foldlM_stops (P : α → Prop) (hstop : ∀ a, P a → f s a = .error e)
    (hgo : ∀ a, ¬ P a → f s a = .ok s) (l : List α) :
    ((∃ a ∈ l, P a) ∧ l.foldlM f s = .error e) ∨ ((¬ ∃ a ∈ l, P a) ∧ l.foldlM f s = .ok s) := by
  induction l with
  | nil => exact .inr ⟨(fun ⟨_, h, _⟩ => nomatch h), rfl⟩
  | cons a l ih =>
    rw [List.foldlM_cons]
    by_cases ha : P a
    · rw [hstop a ha]
      exact .inl ⟨⟨a, List.mem_cons_self, ha⟩, rfl⟩
    · rw [hgo a ha]
      refine ih.imp (fun ⟨⟨b, hb, hp⟩, he⟩ => ⟨⟨b, List.mem_cons_of_mem a hb, hp⟩, he⟩) ?_
      rintro ⟨hn, he⟩
      refine ⟨?_, he⟩
      rintro ⟨b, hb, hp⟩
      rcases List.mem_cons.mp hb with rfl | hb
      · exact ha hp
      · exact hn ⟨b, hb, hp⟩

theorem foldlM_keeps (hgo : ∀ a, f s a = .ok s) (l : List α) : l.foldlM f s = .ok s := by
  induction l with
  | nil => rfl
  | cons a l ih =>
    rw [List.foldlM_cons, hgo a]
    exact ih

end Walk

/-! ## Runs -/

section Runs

variable {ioctls : Int → Bool}

/-- The callback is registered with this argument, for an open socket. -/
structure Registered (ioctls : Int → Bool) (arg : Option IoCtx) (io : Io) : Prop where
  cb : io.pmtudCb = some (vfastPathMtuUpdated ioctls)
  arg : io.pmtudArg = arg
  fd : 0 ≤ io.udpFd

/-- The loop after an iteration that leaves the device alone. -/
def advance (s : Loop) (t : Tick) : Loop :=
  if polls s t then ⟨{ s.io with lastPmtudCheckMs := t.now.toUInt32 }, [], s.tunMtu⟩
  else { s with queue := s.queue ++ t.arrivals }

theorem advance_tunMtu (s : Loop) (t : Tick) : (advance s t).tunMtu = s.tunMtu := by
  unfold advance
  split <;> rfl

theorem Registered.advance {arg : Option IoCtx} {s : Loop} (h : Registered ioctls arg s.io)
    (t : Tick) : Registered ioctls arg (advance s t).io := by
  unfold PathMtu.advance
  split
  · exact ⟨h.cb, h.arg, h.fd⟩
  · exact h

theorem Registered.polls_eq {arg : Option IoCtx} {s : Loop} (h : Registered ioctls arg s.io)
    (t : Tick) : polls s t = due s.io.lastPmtudCheckMs t.now := by
  rw [polls, h.cb]
  exact Bool.true_and _

/-- **A poll with an argument** leaves the device alone, whatever was queued. -/
theorem check_of_arg {ctx : IoCtx} {io : Io} (h : Registered ioctls (some ctx) io)
    (queue : List (List Cmsg)) (tunMtu : Int) :
    vfastCheckIcmpErrors io io.udpFd queue tunMtu = .ok ([], tunMtu) := by
  have hone : ∀ c, onCmsg io tunMtu c = .ok tunMtu := by
    intro c
    by_cases hc : Reports c
    · rw [onCmsg_of_reports h.cb hc, h.arg]
      rfl
    · exact onCmsg_of_not_reports io hc tunMtu
  rw [vfastCheckIcmpErrors, if_neg (Int.not_lt.mpr h.fd),
    foldlM_keeps (fun msg => foldlM_keeps hone msg) queue]
  rfl

/-- A poll with a NULL argument follows it on the first report. -/
theorem check_of_null {io : Io} (h : Registered ioctls none io) (queue : List (List Cmsg))
    (tunMtu : Int) :
    (Reported queue ∧ vfastCheckIcmpErrors io io.udpFd queue tunMtu = .error .null) ∨
    (¬ Reported queue ∧ vfastCheckIcmpErrors io io.udpFd queue tunMtu = .ok ([], tunMtu)) := by
  have hstop : ∀ c, Reports c → onCmsg io tunMtu c = .error .null := by
    intro c hc
    rw [onCmsg_of_reports h.cb hc, h.arg]
    rfl
  have hmsg := foldlM_stops Reports hstop fun c hc => onCmsg_of_not_reports io hc tunMtu
  have hqueue := foldlM_stops (f := fun tunMtu msg => msg.foldlM (onCmsg io) tunMtu)
    (fun msg => ∃ c ∈ msg, Reports c)
    (fun msg hm => ((hmsg msg).resolve_right fun hn => hn.1 hm).2)
    (fun msg hm => ((hmsg msg).resolve_left fun hn => hm hn.1).2) queue
  rw [vfastCheckIcmpErrors, if_neg (Int.not_lt.mpr h.fd)]
  refine hqueue.imp (fun ⟨hr, he⟩ => ⟨hr, ?_⟩) fun ⟨hr, he⟩ => ⟨hr, ?_⟩
  · rw [he]
    rfl
  · rw [he]
    rfl

theorem tick_of_arg {ctx : IoCtx} {s : Loop} (h : Registered ioctls (some ctx) s.io) (t : Tick) :
    tick s t = .ok (advance s t) := by
  rw [tick, advance]
  split
  · rw [check_of_arg h]
    rfl
  · rfl

theorem run_of_arg {ctx : IoCtx} {s : Loop} (h : Registered ioctls (some ctx) s.io)
    (ts : List Tick) : ∃ s', ts.foldlM tick s = .ok s' ∧ s'.tunMtu = s.tunMtu := by
  induction ts generalizing s with
  | nil => exact ⟨s, rfl, rfl⟩
  | cons t ts ih =>
    obtain ⟨s', he, hm⟩ := ih (h.advance t)
    refine ⟨s', ?_, hm.trans (advance_tunMtu s t)⟩
    rw [List.foldlM_cons, tick_of_arg h t]
    exact he

theorem reads_cons_of_arg {ctx : IoCtx} {s : Loop} (h : Registered ioctls (some ctx) s.io)
    (t : Tick) (ts : List Tick) :
    reads s (t :: ts) =
      (if polls s t then [(t.now, s.queue ++ t.arrivals)] else []) ++ reads (advance s t) ts := by
  rw [reads, tick_of_arg h t]

/-- The polls are those of the rate limiter. -/
theorem map_fst_reads {ctx : IoCtx} {s : Loop} (h : Registered ioctls (some ctx) s.io)
    (ts : List Tick) :
    (reads s ts).map Prod.fst = checks s.io.lastPmtudCheckMs (ts.map Tick.now) := by
  induction ts generalizing s with
  | nil => rfl
  | cons t ts ih =>
    rw [reads_cons_of_arg h, List.map_append, ih (h.advance t), List.map_cons, checks, advance,
      h.polls_eq]
    split <;> rfl

theorem tick_of_null {s : Loop} (h : Registered ioctls none s.io) (t : Tick) :
    ((polls s t = true ∧ Reported (s.queue ++ t.arrivals)) ∧ tick s t = .error .null) ∨
    (¬ (polls s t = true ∧ Reported (s.queue ++ t.arrivals)) ∧ tick s t = .ok (advance s t)) := by
  rw [tick, advance]
  split
  · rename_i hp
    rcases check_of_null h (s.queue ++ t.arrivals) s.tunMtu with ⟨hr, he⟩ | ⟨hr, he⟩
    · rw [he]
      exact .inl ⟨⟨hp, hr⟩, rfl⟩
    · rw [he]
      exact .inr ⟨fun h => hr h.2, rfl⟩
  · rename_i hp
    exact .inr ⟨fun h => hp h.1, rfl⟩

/-- Loops with the same messages to read and the same time of the last poll. -/
structure InStep (s₀ s : Loop) : Prop where
  last : s₀.io.lastPmtudCheckMs = s.io.lastPmtudCheckMs
  queue : s₀.queue = s.queue

theorem InStep.advance {s₀ s : Loop} (h : InStep s₀ s) {t : Tick} (hp : polls s₀ t = polls s t) :
    InStep (advance s₀ t) (advance s t) := by
  unfold PathMtu.advance
  rw [hp]
  split
  · exact ⟨rfl, rfl⟩
  · exact ⟨h.last, congrArg (· ++ t.arrivals) h.queue⟩

/-- A loop with a NULL argument faults when a loop in step with it reads a report. -/
theorem run_of_null {ctx : IoCtx} {s s₀ : Loop} (h : Registered ioctls (some ctx) s.io)
    (h₀ : Registered ioctls none s₀.io) (hs : InStep s₀ s) (ts : List Tick) :
    ts.foldlM tick s₀ = .error .null ↔ ∃ r ∈ reads s ts, Reported r.2 := by
  induction ts generalizing s s₀ with
  | nil => exact ⟨(fun he => nomatch he), (fun ⟨_, hr, _⟩ => nomatch hr)⟩
  | cons t ts ih =>
    have hp : polls s₀ t = polls s t := by rw [h₀.polls_eq, h.polls_eq, hs.last]
    have hrest := ih (h.advance t) (h₀.advance t) (hs.advance hp)
    have hnow : (∃ r ∈ if polls s t then [(t.now, s.queue ++ t.arrivals)] else [], Reported r.2) ↔
        polls s t = true ∧ Reported (s.queue ++ t.arrivals) := by
      cases polls s t <;> simp
    rw [List.foldlM_cons, reads_cons_of_arg h]
    simp only [List.mem_append, or_and_right, exists_or]
    rw [hnow, ← hp, ← hs.queue]
    rcases tick_of_null h₀ t with ⟨hr, he⟩ | ⟨hr, he⟩
    · rw [he]
      exact ⟨fun _ => .inl hr, fun _ => rfl⟩
    · rw [he, or_iff_right hr]
      exact hrest

end Runs

def registered (ioctls : Int → Bool) (io : Io) (arg : Option IoCtx) (tunMtu : Int) : Loop :=
  ⟨vfIoSetPmtudCallback io (some (vfastPathMtuUpdated ioctls)) arg, [], tunMtu⟩

/-- **Path-MTU discovery has no effect.** The loop polls as the rate limiter says, but with the
argument that both ends register no report changes the MTU of the device; with a NULL argument the
first report that is read would follow it. -/
theorem path_mtu_never_set (ioctls : Int → Bool) (io : Io) (hfd : 0 ≤ io.udpFd) (tunMtu : Int)
    (ts : List Tick) :
    (reads (registered ioctls io (some io.toIoCtx) tunMtu) ts).map Prod.fst =
      checks 0 (ts.map Tick.now) ∧
    (∃ s, ts.foldlM tick (registered ioctls io (some io.toIoCtx) tunMtu) = .ok s ∧
      s.tunMtu = tunMtu) ∧
    (ts.foldlM tick (registered ioctls io none tunMtu) = .error .null ↔
      ∃ r ∈ reads (registered ioctls io (some io.toIoCtx) tunMtu) ts, Reported r.2) := by
  have harg : Registered ioctls (some io.toIoCtx)
      (registered ioctls io (some io.toIoCtx) tunMtu).io := ⟨rfl, rfl, hfd⟩
  have hnull : Registered ioctls none (registered ioctls io none tunMtu).io := ⟨rfl, rfl, hfd⟩
  exact ⟨map_fst_reads harg ts, run_of_arg harg ts, run_of_null harg hnull ⟨rfl, rfl⟩ ts⟩

/-- A router asks for packets of 1300 bytes. -/
def fragNeeded : List Tick := [⟨1000, [[⟨ipprotoIp, ipRecverr, ⟨90, 2, 3, 4, 1300⟩⟩]]⟩]

theorem fragNeeded_ignored :
    (∃ s, fragNeeded.foldlM tick
      (registered (fun _ => true) ⟨⟨3⟩, 4, none, none, 0⟩ (some ⟨3⟩) 1400) =
      .ok s ∧ s.tunMtu = 1400) ∧
    fragNeeded.foldlM tick (registered (fun _ => true) ⟨⟨3⟩, 4, none, none, 0⟩ none 1400) =
      .error .null := by
  obtain ⟨-, hkept, hnull⟩ := path_mtu_never_set (fun _ => true) ⟨⟨3⟩, 4, none, none, 0⟩ (by decide)
    1400 fragNeeded
  refine ⟨hkept, hnull.mpr ⟨_, List.mem_cons_self, _, List.mem_cons_self, _, List.mem_cons_self,
    ?_⟩⟩
  exact ⟨rfl, rfl, by decide⟩

end Vfast.PathMtu
