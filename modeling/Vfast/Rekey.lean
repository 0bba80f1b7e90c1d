import Vfast.Lib.Run
import Vfast.Client

/-! Rekeying between a client and its session, over two FIFO channels of sealed
packets. The parties run the key functions of the code; a packet under way is its key
id, the key it was encrypted with and what it says. -/

namespace Vfast.Rekey

open Bytes Key Server Client Run

/-! ## The protocol -/

/-- What a packet says, as far as rekeying is concerned. -/
inductive Body where
  | data
  | rekeyReq (id : UInt32) (raw : Block 32)
  | rekeyAck (id : UInt32)
  deriving DecidableEq

structure Pkt where
  kid : UInt8
  key : Block 32
  body : Body
  deriving DecidableEq

/-- The packet `vf_pack` makes with a context. -/
def sealPkt (ctx : SecCtx) (body : Body) : Pkt :=
  ⟨lowByte (vfRekeyGetKeyid ctx), vfRekeyGetKey ctx, body⟩

/-- The receiver selects the key the packet was encrypted with. -/
def opens (ctx : SecCtx) (p : Pkt) : Prop := vfRekeyGetDecryptKey ctx p.kid = some p.key

instance (ctx : SecCtx) (p : Pkt) : Decidable (opens ctx p) := inferInstanceAs (Decidable (_ = _))

/-- The REKEY_REQ for the staged key, if `vf_io_task` gives a buffer. -/
def request (ctx : SecCtx) (task : Bool) : List Pkt :=
  if task then [sealPkt ctx (.rekeyReq ctx.nextKey.id ctx.nextKey.raw)] else []

/-- `vfast_rekey_timer_handler`; `due` says that the retry interval is over. -/
def timer (ctx : SecCtx) (draw : Option (Block 32)) (now : Int) (due task : Bool) :
    SecCtx × List Pkt :=
  if shouldInit ctx now then
    match vfRekeyPrepareNext ctx draw now with
    | (ctx, false) => (ctx, [])
    | (ctx, true) => (ctx, request ctx task)
  else if ctx.rekeyPending && due then (ctx, request ctx task)
  else (ctx, [])

/-- The server on a packet it opened: a REKEY_REQ is acknowledged under the old key, then
committed. -/
def serverRecv (ctx : SecCtx) (now : Int) : Body → SecCtx × List Pkt
  | .data => (ctx, [])
  | .rekeyReq id raw =>
    match rekeyStage ctx id raw now with
    | none => (ctx, [])
    | some staged => (vfRekeyCommit staged, [sealPkt staged (.rekeyAck id)])
  | .rekeyAck _ => (if ctx.rekeyPending then vfRekeyCommit ctx else ctx, [])

/-- The client on a packet, opened or not. -/
def clientRecv (ctx : SecCtx) : Body → SecCtx
  | .rekeyAck _ => vfRekeyCommit ctx
  | _ => ctx

/-- Both contexts and the packets under way, oldest first. -/
structure Joint where
  cli : SecCtx
  srv : SecCtx
  up : List Pkt
  down : List Pkt

inductive Act where
  | clientSend (len : Nat) (packed : Bool)
  | clientTimer (draw : Option (Block 32)) (now : Int) (due task : Bool)
  | serverSend (packed : Bool)
  | deliverUp (len : Nat) (now : Int)
  | deliverDown
  | loseUp
  | loseDown

def Joint.step (j : Joint) : Act → Joint
  | .clientSend len packed =>
    let cli := j.cli.countBytes len
    { j with cli := cli, up := j.up ++ if packed then [sealPkt cli .data] else [] }
  | .clientTimer draw now due task =>
    let r := timer j.cli draw now due task
    { j with cli := r.1, up := j.up ++ r.2 }
  | .serverSend packed =>
    { j with down := j.down ++ if packed then [sealPkt j.srv .data] else [] }
  | .deliverUp len now =>
    match j.up with
    | [] => j
    | p :: up =>
      if opens j.srv p then
        let r := serverRecv (j.srv.countBytes len) now p.body
        { j with srv := r.1, up := up, down := j.down ++ r.2 }
      else { j with up := up }
  | .deliverDown =>
    match j.down with
    | [] => j
    | p :: down => { j with cli := clientRecv j.cli p.body, down := down }
  | .loseUp => { j with up := j.up.tail }
  | .loseDown => { j with down := j.down.tail }

structure Fresh (raw : Block 32) (ctx : SecCtx) : Prop where
  active : ctx.activeKey.mat = (raw, 1)
  previous : ctx.previousKey = .zero
  next : ctx.nextKey = .zero
  pending : ctx.rekeyPending = false

def Start (j : Joint) : Prop :=
  (∃ raw, Fresh raw j.cli ∧ Fresh raw j.srv) ∧ j.up = [] ∧ j.down = []

def rekeyRuns (init : Joint → Prop) : System Joint Act where
  init := init
  step j l j' := j' = j.step l

def NoWrap (j : Joint) : Act → Prop
  | .clientTimer _ now _ _ => shouldInit j.cli now = true → j.cli.activeKey.id ≠ 0xFFFFFFFF
  | _ => True

def IsLoss : Act → Prop
  | .loseUp => True
  | .loseDown => True
  | _ => False

/-! ## Generations of packets -/

def Under (m : KeyMat) (p : Pkt) : Prop := p.kid = lowByte m.2 ∧ p.key = m.1

/-- Packets of a client under one key; what their requests may carry. -/
def FromClient (m : KeyMat) (asks : KeyMat → Prop) (ps : List Pkt) : Prop :=
  ∀ p ∈ ps, Under m p ∧ (∀ id raw, p.body = .rekeyReq id raw → asks (raw, id)) ∧
    ∀ id, p.body ≠ .rekeyAck id

def FromServer (m : KeyMat) (ps : List Pkt) : Prop :=
  ∀ p ∈ ps, Under m p ∧ ∀ id, p.body ≠ .rekeyAck id

theorem under_seal (ctx : SecCtx) (body : Body) : Under ctx.activeKey.mat (sealPkt ctx body) :=
  ⟨rfl, rfl⟩

theorem opens_active {ctx : SecCtx} {p : Pkt} (h : Under ctx.activeKey.mat p) : opens ctx p := by
  rw [opens, h.1, h.2]
  exact getDecryptKey_active ctx

theorem opens_previous {ctx : SecCtx} {p : Pkt} (h : Under ctx.previousKey.mat p)
    (h0 : ctx.previousKey.id ≠ 0) (hs : ctx.activeKey.id = ctx.previousKey.id + 1) :
    opens ctx p := by
  rw [opens, h.1, h.2]
  exact getDecryptKey_previous ctx h0 hs

theorem FromClient.nil (m : KeyMat) (asks : KeyMat → Prop) : FromClient m asks [] :=
  fun _ h => nomatch h

theorem FromClient.append {m : KeyMat} {asks : KeyMat → Prop} {ps qs : List Pkt}
    (hp : FromClient m asks ps) (hq : FromClient m asks qs) : FromClient m asks (ps ++ qs) := by
  intro p h
  rcases List.mem_append.mp h with h | h
  · exact hp p h
  · exact hq p h

theorem FromClient.imp {m : KeyMat} {asks asks' : KeyMat → Prop} {ps : List Pkt}
    (h : FromClient m asks ps) (hi : ∀ n, asks n → asks' n) : FromClient m asks' ps := fun p hp =>
  ⟨(h p hp).1, fun id raw e => hi _ ((h p hp).2.1 id raw e), (h p hp).2.2⟩

theorem FromServer.append {m : KeyMat} {ps qs : List Pkt} (hp : FromServer m ps)
    (hq : FromServer m qs) : FromServer m (ps ++ qs) := by
  intro p h
  rcases List.mem_append.mp h with h | h
  · exact hp p h
  · exact hq p h

theorem fromClient_data (ctx : SecCtx) (asks : KeyMat → Prop) (packed : Bool) :
    FromClient ctx.activeKey.mat asks (if packed then [sealPkt ctx .data] else []) := by
  intro p hp
  cases packed with
  | false => exact nomatch hp
  | true =>
    rw [List.mem_singleton.mp hp]
    exact ⟨under_seal ctx .data, fun _ _ e => (nomatch e), fun _ e => nomatch e⟩

theorem fromClient_request (ctx : SecCtx) (task : Bool) :
    FromClient ctx.activeKey.mat (· = ctx.nextKey.mat) (request ctx task) := by
  intro p hp
  cases task with
  | false => exact nomatch hp
  | true =>
    rw [List.mem_singleton.mp hp]
    refine ⟨under_seal ctx _, fun id raw e => ?_, fun _ e => nomatch e⟩
    cases e
    rfl

theorem fromServer_data (ctx : SecCtx) (packed : Bool) :
    FromServer ctx.activeKey.mat (if packed then [sealPkt ctx .data] else []) := by
  intro p hp
  cases packed with
  | false => exact nomatch hp
  | true =>
    rw [List.mem_singleton.mp hp]
    exact ⟨under_seal ctx .data, fun _ e => nomatch e⟩

/-! ## The invariant -/

/-- Where a rekey stands: both ends on one key, with packets of the last generation still
on the way up; or the server ahead by one generation, its acknowledgement on the way down
between the packets of the two generations. -/
inductive Phase (j : Joint) : Prop where
  | synced (old new : List Pkt) (key : j.cli.activeKey.mat = j.srv.activeKey.mat)
      (up : j.up = old ++ new)
      (hold : FromClient j.srv.previousKey.mat (fun n => n.2 ≤ j.srv.activeKey.id) old)
      (prev : old ≠ [] → j.srv.previousKey.id ≠ 0 ∧
        j.srv.activeKey.id = j.srv.previousKey.id + 1)
      (hnew : FromClient j.cli.activeKey.mat
        (fun n => j.cli.rekeyPending = true ∧ n = j.cli.nextKey.mat) new)
      (down : FromServer j.cli.activeKey.mat j.down)
  | ahead (before after : List Pkt) (ack : Pkt) (pending : j.cli.rekeyPending = true)
      (key : j.srv.activeKey.mat = j.cli.nextKey.mat)
      (prev : j.srv.previousKey.mat = j.cli.activeKey.mat)
      (up : FromClient j.cli.activeKey.mat (· = j.cli.nextKey.mat) j.up)
      (down : j.down = before ++ ack :: after) (hb : FromServer j.cli.activeKey.mat before)
      (hack : Under j.cli.activeKey.mat ack ∧ ∃ id, ack.body = .rekeyAck id)
      (ha : FromServer j.srv.activeKey.mat after)

structure Inv (j : Joint) : Prop where
  id_ne : j.cli.activeKey.id ≠ 0
  next_id : j.cli.rekeyPending = true → j.cli.nextKey.id = j.cli.activeKey.id + 1 ∧
    j.cli.activeKey.id < j.cli.nextKey.id
  phase : Phase j

theorem inv_start {j : Joint} (h : Start j) : Inv j := by
  obtain ⟨⟨raw, hc, hs⟩, hup, hdown⟩ := h
  have hid : j.cli.activeKey.id = 1 := congrArg Prod.snd hc.active
  refine ⟨by rw [hid]; decide, fun hp => ?_, ?_⟩
  · rw [hc.pending] at hp
    exact nomatch hp
  · refine .synced [] [] (hc.active.trans hs.active.symm) hup (.nil _ _) (fun h => absurd rfl h)
      (.nil _ _) ?_
    rw [hdown]
    exact fun _ h => nomatch h

theorem lt_succ_of_ne {id : UInt32} (h : id ≠ 0xFFFFFFFF) : id < id + 1 := by
  rw [UInt32.lt_iff_toNat_lt, UInt32.toNat_add]
  have h' : id.toNat ≠ 4294967295 := fun e => h (UInt32.toNat_inj.mp e)
  have := id.toNat_lt
  simp only [UInt32.reduceToNat]
  omega

/-! ## Sending -/

/-- The client's keys stay and it sends packets of its generation. -/
theorem Inv.clientSends {j : Joint} (h : Inv j) {cli : SecCtx}
    {ps : List Pkt} (ha : cli.activeKey.mat = j.cli.activeKey.mat)
    (hn : cli.nextKey = j.cli.nextKey) (hp : cli.rekeyPending = j.cli.rekeyPending)
    (hps : FromClient j.cli.activeKey.mat
      (fun n => j.cli.rekeyPending = true ∧ n = j.cli.nextKey.mat) ps) :
    Inv { j with cli := cli, up := j.up ++ ps } := by
  have hid : cli.activeKey.id = j.cli.activeKey.id := congrArg Prod.snd ha
  refine ⟨?_, ?_, ?_⟩
  · exact fun e => h.id_ne (hid.symm.trans e)
  · intro hpend
    show cli.nextKey.id = cli.activeKey.id + 1 ∧ cli.activeKey.id < cli.nextKey.id
    rw [hn, hid]
    exact h.next_id (hp.symm.trans hpend)
  cases h.phase with
  | synced old new key up hold prev hnew down =>
    refine .synced old (new ++ ps) (ha.trans key) ?_ hold prev ?_ ?_
    · show j.up ++ ps = old ++ (new ++ ps)
      rw [up, List.append_assoc]
    · show FromClient cli.activeKey.mat (fun n => cli.rekeyPending = true ∧ n = cli.nextKey.mat) _
      rw [ha, hn, hp]
      exact hnew.append hps
    · show FromServer cli.activeKey.mat j.down
      rw [ha]
      exact down
  | ahead before after ack pending key prev up down hb hack hafter =>
    refine .ahead before after ack (hp.trans pending) ?_ (prev.trans ha.symm) ?_ down ?_ ?_ hafter
    · show j.srv.activeKey.mat = cli.nextKey.mat
      rw [hn]
      exact key
    · show FromClient cli.activeKey.mat (· = cli.nextKey.mat) (j.up ++ ps)
      rw [ha, hn]
      exact up.append (hps.imp fun n hn => hn.2)
    · show FromServer cli.activeKey.mat before
      rw [ha]
      exact hb
    · show Under cli.activeKey.mat ack ∧ _
      rw [ha]
      exact hack

theorem Inv.serverSends {j : Joint} (h : Inv j) {ps : List Pkt}
    (hps : FromServer j.srv.activeKey.mat ps) : Inv { j with down := j.down ++ ps } := by
  refine ⟨h.id_ne, h.next_id, ?_⟩
  cases h.phase with
  | synced old new key up hold prev hnew down =>
    refine .synced old new key up hold prev hnew (down.append ?_)
    rw [key]
    exact hps
  | ahead before after ack pending key prev up down hb hack hafter =>
    refine .ahead before (after ++ ps) ack pending key prev up ?_ hb hack (hafter.append hps)
    show j.down ++ ps = before ++ ack :: (after ++ ps)
    rw [down, List.append_assoc, List.cons_append]

/-- The client stages a new key and asks for it. Nothing under way asks for a key: no
rekey was pending. -/
theorem Inv.clientStarts {j : Joint} (h : Inv j)
    (hp : j.cli.rekeyPending = false) (hmax : j.cli.activeKey.id ≠ 0xFFFFFFFF) (cli : SecCtx)
    (ha : cli.activeKey = j.cli.activeKey)
    (hn : cli.rekeyPending = true → cli.nextKey.id = j.cli.activeKey.id + 1) {ps : List Pkt}
    (hps : FromClient cli.activeKey.mat
      (fun n => cli.rekeyPending = true ∧ n = cli.nextKey.mat) ps) :
    Inv { j with cli := cli, up := j.up ++ ps } := by
  refine ⟨by rw [ha]; exact h.id_ne, fun hpend => ?_, ?_⟩
  · show cli.nextKey.id = cli.activeKey.id + 1 ∧ cli.activeKey.id < cli.nextKey.id
    rw [hn hpend, ha]
    exact ⟨rfl, lt_succ_of_ne hmax⟩
  cases h.phase with
  | synced old new key up hold prev hnew down =>
    refine .synced old (new ++ ps) ?_ ?_ hold prev (FromClient.append ?_ hps) ?_
    · rw [ha]
      exact key
    · show j.up ++ ps = old ++ (new ++ ps)
      rw [up, List.append_assoc]
    · show FromClient cli.activeKey.mat _ new
      rw [ha]
      refine hnew.imp fun n hn => ?_
      rw [hp] at hn
      exact nomatch hn.1
    · show FromServer cli.activeKey.mat j.down
      rw [ha]
      exact down
  | ahead before after ack pending => exact nomatch hp.symm.trans pending

theorem Inv.clientTimer {j : Joint} (h : Inv j)
    (draw : Option (Block 32)) (now : Int) (due task : Bool)
    (hw : NoWrap j (.clientTimer draw now due task)) :
    Inv (j.step (.clientTimer draw now due task)) := by
  simp only [Joint.step, timer]
  cases hi : shouldInit j.cli now with
  | true =>
    have hp := shouldInit_pending hi
    rw [if_pos rfl]
    cases draw with
    | none =>
      refine h.clientStarts hp (hw hi) (vfRekeyPrepareNext j.cli none now).1 rfl (fun hpend => ?_)
        (.nil _ _)
      exact nomatch hp.symm.trans hpend
    | some raw =>
      refine h.clientStarts hp (hw hi) (vfRekeyPrepareNext j.cli (some raw) now).1 rfl
        (fun _ => rfl) ?_
      exact (fromClient_request _ task).imp fun n hn => ⟨rfl, hn⟩
  | false =>
    rw [if_neg Bool.false_ne_true]
    split
    · rename_i hd
      have hp : j.cli.rekeyPending = true := ((Bool.and_eq_true _ _).mp hd).1
      refine h.clientSends rfl rfl rfl ?_
      exact (fromClient_request _ task).imp fun n hn => ⟨hp, hn⟩
    · exact h.clientSends rfl rfl rfl (.nil _ _)

/-! ## Delivering -/

theorem serverRecv_stale (ctx : SecCtx) {body : Body} (now : Int)
    (hreq : ∀ id raw, body = .rekeyReq id raw → id ≤ ctx.activeKey.id)
    (hack : ∀ id, body ≠ .rekeyAck id) : serverRecv ctx now body = (ctx, []) := by
  cases body with
  | data => rfl
  | rekeyReq id raw => simp [serverRecv, rekeyStage, hreq id raw rfl]
  | rekeyAck id => exact absurd rfl (hack id)

theorem FromClient.tail {m : KeyMat} {asks : KeyMat → Prop} {p : Pkt} {ps : List Pkt}
    (h : FromClient m asks (p :: ps)) : FromClient m asks ps := fun q hq =>
  h q (List.mem_cons_of_mem p hq)

theorem FromServer.tail {m : KeyMat} {p : Pkt} {ps : List Pkt} (h : FromServer m (p :: ps)) :
    FromServer m ps := fun q hq => h q (List.mem_cons_of_mem p hq)

/-- The oldest packet to the server goes, and the server only counts its bytes. -/
theorem Inv.dropUp {j : Joint} (h : Inv j) {p : Pkt} {rest : List Pkt}
    (hup : j.up = p :: rest) {srv : SecCtx} (ha : srv.activeKey.mat = j.srv.activeKey.mat)
    (hp : srv.previousKey = j.srv.previousKey) :
    Inv { j with srv := srv, up := rest } := by
  have hid : srv.activeKey.id = j.srv.activeKey.id := congrArg Prod.snd ha
  refine ⟨h.id_ne, h.next_id, ?_⟩
  cases h.phase with
  | synced old new key up hold prev hnew down =>
    have key' := key.trans ha.symm
    rw [← hp, ← hid] at hold prev
    rw [hup] at up
    cases old with
    | nil =>
      cases new with
      | nil => exact nomatch up
      | cons q new =>
        exact .synced [] new key' (List.cons.inj up).2 (.nil _ _) (fun h => absurd rfl h) hnew.tail
          down
    | cons q old =>
      exact .synced old new key' (List.cons.inj up).2 hold.tail
        (fun _ => prev (List.cons_ne_nil q old)) hnew down
  | ahead before after ack pending key prev up down hb hack hafter =>
    rw [hup] at up
    rw [← ha] at key hafter
    rw [← hp] at prev
    exact .ahead before after ack pending key prev up.tail down hb hack hafter

/-- A packet to the client goes, and it is not a REKEY_ACK. -/
theorem Inv.dropDown {j : Joint} (h : Inv j) {p : Pkt} {rest : List Pkt}
    (hdown : j.down = p :: rest) (hack : ∀ id, p.body ≠ .rekeyAck id) :
    Inv { j with down := rest } := by
  refine ⟨h.id_ne, h.next_id, ?_⟩
  cases h.phase with
  | synced old new key up hold prev hnew down =>
    rw [hdown] at down
    exact .synced old new key up hold prev hnew down.tail
  | ahead before after ack pending key prev up down hb hack' hafter =>
    rw [hdown] at down
    cases before with
    | nil =>
      obtain ⟨id, hid⟩ := hack'.2
      rw [(List.cons.inj down).1] at hack
      exact absurd hid (hack id)
    | cons q before =>
      exact .ahead before after ack pending key prev up (List.cons.inj down).2 hb.tail hack' hafter

/-- The server accepts the staged key: it acknowledges it under the old key and is ahead. -/
theorem Inv.serverCommits {j : Joint} (h : Inv j) {p : Pkt}
    {rest : List Pkt} (hup : j.up = p :: rest) {id : UInt32} {raw : Block 32}
    (hbody : p.body = .rekeyReq id raw) {srv : SecCtx} (now : Int)
    (ha : srv.activeKey.mat = j.srv.activeKey.mat) {staged : SecCtx}
    (hst : rekeyStage srv id raw now = some staged) :
    Inv { j with
      srv := vfRekeyCommit staged, up := rest,
      down := j.down ++ [sealPkt staged (.rekeyAck id)] } := by
  have hid : srv.activeKey.id = j.srv.activeKey.id := congrArg Prod.snd ha
  have hfresh : ¬ id ≤ j.srv.activeKey.id := by
    intro hle
    rw [rekeyStage, if_pos (by rw [hid]; exact hle)] at hst
    cases hst
  have hstaged : staged = { srv with nextKey := ⟨raw, id, 0, now⟩ } := by
    rw [rekeyStage, if_neg (by rw [hid]; exact hfresh)] at hst
    exact (Option.some.inj hst).symm
  have stale : ∀ {asks : KeyMat → Prop} {m : KeyMat}, FromClient m asks j.up →
      (∀ n, asks n → n.2 ≤ j.srv.activeKey.id) → False := by
    intro asks m hf hle
    rw [hup] at hf
    exact hfresh (hle _ ((hf p (List.mem_cons_self ..)).2.1 id raw hbody))
  refine ⟨h.id_ne, h.next_id, ?_⟩
  cases h.phase with
  | synced old new key up hold prev hnew down =>
    cases old with
    | cons q old =>
      rw [hup] at up
      rw [← (List.cons.inj up).1] at hold
      exact absurd ((hold p (List.mem_cons_self ..)).2.1 id raw hbody) hfresh
    | nil =>
      rw [List.nil_append] at up
      rw [← up, hup] at hnew
      obtain ⟨hp, hmat⟩ := (hnew p (List.mem_cons_self ..)).2.1 id raw hbody
      refine .ahead j.down [] (sealPkt staged (.rekeyAck id)) hp ?_ ?_ ?_ rfl down ?_
        (fun _ h => nomatch h)
      · rw [hstaged]
        exact hmat
      · rw [hstaged]
        exact ha.trans key.symm
      · exact hnew.tail.imp fun n hn => hn.2
      · refine ⟨?_, id, rfl⟩
        have hm : staged.activeKey.mat = j.cli.activeKey.mat := by
          rw [hstaged]
          exact ha.trans key.symm
        rw [← hm]
        exact under_seal staged _
  | ahead before after ack pending key prev up down hb hack hafter =>
    refine (stale up fun n hn => ?_).elim
    rw [hn, ← key]
    exact UInt32.le_refl _

theorem Inv.up_not_ack {j : Joint} (h : Inv j) {p : Pkt} (hp : p ∈ j.up)
    (id : UInt32) : p.body ≠ .rekeyAck id := by
  cases h.phase with
  | synced old new key up hold prev hnew down =>
    rw [up] at hp
    rcases List.mem_append.mp hp with hp | hp
    · exact (hold p hp).2.2 id
    · exact (hnew p hp).2.2 id
  | ahead before after ack pending key prev up => exact (up p hp).2.2 id

theorem Inv.deliverUp {j : Joint} (h : Inv j) (len : Nat) (now : Int) :
    Inv (j.step (.deliverUp len now)) := by
  simp only [Joint.step]
  cases hup : j.up with
  | nil => exact h
  | cons p rest =>
    dsimp only
    split
    · have hack : ∀ id, p.body ≠ .rekeyAck id :=
        h.up_not_ack (by rw [hup]; exact List.mem_cons_self ..)
      cases hb : p.body with
      | data =>
        rw [serverRecv, List.append_nil]
        exact h.dropUp hup rfl rfl
      | rekeyReq id raw =>
        cases hst : rekeyStage (j.srv.countBytes len) id raw now with
        | none =>
          simp only [serverRecv, hst, List.append_nil]
          exact h.dropUp hup rfl rfl
        | some staged =>
          simp only [serverRecv, hst]
          have ha : (j.srv.countBytes len).activeKey.mat = j.srv.activeKey.mat := rfl
          exact h.serverCommits hup hb now ha hst
      | rekeyAck id => exact absurd hb (hack id)
    · exact h.dropUp hup rfl rfl

/-- The acknowledgement arrives: both ends are on the new key. -/
theorem Inv.clientCommits {j : Joint} (h : Inv j) {p : Pkt}
    {rest : List Pkt} (hdown : j.down = p :: rest) {id : UInt32} (hbody : p.body = .rekeyAck id) :
    Inv { j with cli := vfRekeyCommit j.cli, down := rest } := by
  cases h.phase with
  | synced old new key up hold prev hnew down =>
    rw [hdown] at down
    exact absurd hbody ((down p (List.mem_cons_self ..)).2 id)
  | ahead before after ack pending key prev up down hb hack hafter =>
    obtain ⟨hnext, hlt⟩ := h.next_id pending
    have hprev : j.srv.previousKey.id = j.cli.activeKey.id := congrArg Prod.snd prev
    have hact : j.srv.activeKey.id = j.cli.nextKey.id := congrArg Prod.snd key
    rw [hdown] at down
    cases before with
    | cons q before =>
      rw [(List.cons.inj down).1] at hbody
      exact absurd hbody ((hb q (List.mem_cons_self ..)).2 id)
    | nil =>
      refine ⟨?_, fun hp => (nomatch hp), ?_⟩
      · show j.cli.nextKey.id ≠ 0
        intro e
        rw [e] at hlt
        exact absurd hlt (Nat.not_lt_zero _)
      · refine .synced j.up [] key.symm (List.append_nil _).symm ?_ ?_ (.nil _ _) ?_
        · show FromClient j.srv.previousKey.mat _ j.up
          rw [prev]
          refine up.imp fun n hn => ?_
          rw [hn, hact]
          exact UInt32.le_refl _
        · intro _
          show j.srv.previousKey.id ≠ 0 ∧ j.srv.activeKey.id = j.srv.previousKey.id + 1
          rw [hprev, hact]
          exact ⟨h.id_ne, hnext⟩
        · show FromServer j.cli.nextKey.mat rest
          rw [(List.cons.inj down).2, ← key]
          exact hafter

theorem Inv.deliverDown {j : Joint} (h : Inv j) :
    Inv (j.step .deliverDown) := by
  simp only [Joint.step]
  cases hdown : j.down with
  | nil => exact h
  | cons p rest =>
    dsimp only
    cases hb : p.body with
    | data => exact h.dropDown hdown fun id e => nomatch hb.symm.trans e
    | rekeyReq id raw => exact h.dropDown hdown fun id e => nomatch hb.symm.trans e
    | rekeyAck id => exact h.clientCommits hdown hb

/-! ## Runs without losses -/

theorem Inv.step {j : Joint} (h : Inv j) {l : Act} (hw : NoWrap j l) (hl : ¬ IsLoss l) :
    Inv (j.step l) := by
  cases l with
  | clientSend len packed => exact h.clientSends rfl rfl rfl (fromClient_data _ _ packed)
  | clientTimer draw now due task => exact h.clientTimer draw now due task hw
  | serverSend packed => exact h.serverSends (fromServer_data _ packed)
  | deliverUp len now => exact h.deliverUp len now
  | deliverDown => exact h.deliverDown
  | loseUp => exact absurd trivial hl
  | loseDown => exact absurd trivial hl

/-- The oldest packet of either channel opens. -/
theorem Inv.opens {j : Joint} (h : Inv j) :
    (∀ p, j.up.head? = some p → opens j.srv p) ∧ ∀ p, j.down.head? = some p → opens j.cli p := by
  cases h.phase with
  | synced old new key up hold prev hnew down =>
    refine ⟨fun p hp => ?_, fun p hp => opens_active (down p (List.mem_of_mem_head? hp)).1⟩
    rw [up] at hp
    cases old with
    | nil =>
      rw [key] at hnew
      exact opens_active (hnew p (List.mem_of_mem_head? hp)).1
    | cons q old =>
      obtain ⟨h0, hs⟩ := prev (List.cons_ne_nil q old)
      refine opens_previous (hold p ?_).1 h0 hs
      exact List.mem_of_mem_head? hp
  | ahead before after ack pending key prev up down hb hack hafter =>
    have hprev : j.srv.previousKey.id = j.cli.activeKey.id := congrArg Prod.snd prev
    have hact : j.srv.activeKey.id = j.cli.nextKey.id := congrArg Prod.snd key
    refine ⟨fun p hp => ?_, fun p hp => ?_⟩
    · refine opens_previous ?_ (by rw [hprev]; exact h.id_ne) ?_
      · rw [prev]
        exact (up p (List.mem_of_mem_head? hp)).1
      · rw [hact, hprev]
        exact (h.next_id pending).1
    · rw [down] at hp
      cases before with
      | nil =>
        obtain rfl : ack = p := Option.some.inj hp
        exact opens_active hack.1
      | cons q before =>
        obtain rfl : q = p := Option.some.inj hp
        exact opens_active (hb q (List.mem_cons_self ..)).1

/-- **Key agreement while rekeying.** Over reliable channels, whatever the interleaving of
data, timer ticks and deliveries, the key id of a delivered packet selects the key the
packet was encrypted with. -/
theorem delivered_key_selected {j : Joint}
    (h : ReachableBy (rekeyRuns Start) (fun j l => NoWrap j l ∧ ¬ IsLoss l) j) :
    (∀ p, j.up.head? = some p → vfRekeyGetDecryptKey j.srv p.kid = some p.key) ∧
      ∀ p, j.down.head? = some p → vfRekeyGetDecryptKey j.cli p.kid = some p.key := by
  have hi : Inv j := by
    refine h.invariant Inv (fun j hj => inv_start hj) ?_
    rintro j l _ hi ⟨hw, hl⟩ rfl
    exact hi.step hw hl
  exact hi.opens

def firstCtx : SecCtx := vfRekeyInit 5 (some fun _ => 5) 0

def firstJoint : Joint := ⟨firstCtx, firstCtx, [], []⟩

theorem firstJoint_start : Start firstJoint :=
  ⟨⟨fun _ => 5, ⟨rfl, rfl, rfl, rfl⟩, ⟨rfl, rfl, rfl, rfl⟩⟩, rfl, rfl⟩

/-- A rekey after 300 seconds, accepted by the server but not yet by the client. -/
def aheadJoint : Joint :=
  (firstJoint.step (.clientTimer (some fun _ => 6) 300 false true)).step (.deliverUp 117 300)

theorem aheadJoint_reachable :
    ReachableBy (rekeyRuns Start) (fun j l => NoWrap j l ∧ ¬ IsLoss l) aheadJoint := by
  refine .step (l := .deliverUp 117 300) (.step
    (l := .clientTimer (some fun _ => 6) 300 false true) (.init firstJoint_start) ?_ rfl)
    ⟨trivial, id⟩ rfl
  exact ⟨fun _ => by decide, id⟩

/-- Data the client sends while the server is ahead is opened with the previous key. -/
theorem late_data_opened :
    vfRekeyGetDecryptKey (aheadJoint.step (.clientSend 8 true)).srv 1 = some fun _ => 5 :=
  (delivered_key_selected (.step (l := .clientSend 8 true) aheadJoint_reachable ⟨trivial, id⟩
    rfl)).1 ⟨1, fun _ => 5, .data⟩ (by decide)

/-! ## Runs with losses -/

theorem Inv.loseUp {j : Joint} (h : Inv j) :
    Inv (j.step .loseUp) := by
  simp only [Joint.step]
  cases hup : j.up with
  | nil =>
    rw [List.tail_nil, ← hup]
    exact h
  | cons p rest => exact h.dropUp hup rfl rfl

/-- The client is still on `old` and waits for `new`, which the server has committed; the
acknowledgement is gone. -/
structure Stranded (old new : KeyMat) (j : Joint) : Prop where
  pending : j.cli.rekeyPending = true
  client : j.cli.activeKey.mat = old
  staged : j.cli.nextKey.mat = new
  server : j.srv.activeKey.mat = new
  up : FromClient old (· = new) j.up
  down : ∀ p ∈ j.down, ∀ id, p.body ≠ .rekeyAck id

/-- Losing the acknowledgement strands the client; losing anything else is harmless. -/
theorem Inv.loseDown {j : Joint} (h : Inv j) : Inv (j.step .loseDown) ∨
    Stranded j.cli.activeKey.mat j.cli.nextKey.mat (j.step .loseDown) := by
  simp only [Joint.step]
  cases hdown : j.down with
  | nil =>
    rw [List.tail_nil, ← hdown]
    exact Or.inl h
  | cons p rest =>
    by_cases hack : ∀ id, p.body ≠ .rekeyAck id
    · exact Or.inl (h.dropDown hdown hack)
    · right
      cases h.phase with
      | synced old new key up hold prev hnew down =>
        rw [hdown] at down
        exact absurd (down p (List.mem_cons_self ..)).2 hack
      | ahead before after ack pending key prev up down hb hack' hafter =>
        rw [hdown] at down
        cases before with
        | nil =>
          refine ⟨pending, rfl, rfl, key, up, fun q hq => (hafter q ?_).2⟩
          rw [← (List.cons.inj down).2]
          exact hq
        | cons q before =>
          rw [(List.cons.inj down).1] at hack
          exact absurd (hb q (List.mem_cons_self ..)).2 hack

/-- The request for a key the server already uses is stale: no answer, no change. -/
theorem deliverUp_stale {j : Joint} {p : Pkt} {rest : List Pkt} (hup : j.up = p :: rest)
    (hreq : ∀ id raw, p.body = .rekeyReq id raw → id ≤ j.srv.activeKey.id)
    (hack : ∀ id, p.body ≠ .rekeyAck id) (len : Nat) (now : Int) :
    ∃ srv, srv.activeKey.mat = j.srv.activeKey.mat ∧ srv.previousKey = j.srv.previousKey ∧
      j.step (.deliverUp len now) = { j with srv := srv, up := rest } := by
  have hst := serverRecv_stale (j.srv.countBytes len) now hreq hack
  simp only [Joint.step, hup, hst, List.append_nil]
  split
  · exact ⟨j.srv.countBytes len, rfl, rfl, rfl⟩
  · exact ⟨j.srv, rfl, rfl, rfl⟩

/-- A stranded client stays stranded, whatever happens next. -/
theorem Stranded.step {old new : KeyMat} {j : Joint} (h : Stranded old new j) (l : Act) :
    Stranded old new (j.step l) := by
  cases l with
  | clientSend len packed =>
    refine ⟨h.pending, h.client, h.staged, h.server, h.up.append ?_, h.down⟩
    rw [← h.client]
    exact fromClient_data (j.cli.countBytes len) _ packed
  | clientTimer draw now due task =>
    have hi : shouldInit j.cli now = false := by
      cases hi : shouldInit j.cli now with
      | false => rfl
      | true => exact nomatch (shouldInit_pending hi).symm.trans h.pending
    simp only [Joint.step, timer, hi, Bool.false_eq_true, if_false]
    split
    · refine ⟨h.pending, h.client, h.staged, h.server, h.up.append ?_, h.down⟩
      rw [← h.client, ← h.staged]
      exact fromClient_request j.cli task
    · exact ⟨h.pending, h.client, h.staged, h.server, h.up.append (.nil _ _), h.down⟩
  | serverSend packed =>
    refine ⟨h.pending, h.client, h.staged, h.server, h.up, fun p hp => ?_⟩
    rcases List.mem_append.mp hp with hp | hp
    · exact h.down p hp
    · exact (fromServer_data j.srv packed p hp).2
  | deliverUp len now =>
    cases hup : j.up with
    | nil =>
      simp only [Joint.step, hup]
      exact h
    | cons p rest =>
      have hf := h.up
      rw [hup] at hf
      have hp := hf p (List.mem_cons_self ..)
      have hreq : ∀ id raw, p.body = .rekeyReq id raw → id ≤ j.srv.activeKey.id := by
        intro id raw e
        have hid := (hp.2.1 id raw e).trans h.server.symm
        exact UInt32.le_of_eq (congrArg Prod.snd hid)
      obtain ⟨srv, ha, _, e⟩ := deliverUp_stale hup hreq hp.2.2 len now
      rw [e]
      exact ⟨h.pending, h.client, h.staged, ha.trans h.server, hf.tail, h.down⟩
  | deliverDown =>
    simp only [Joint.step]
    cases hdown : j.down with
    | nil => exact h
    | cons p rest =>
      have hd := h.down
      rw [hdown] at hd
      have hrest := fun q hq => hd q (List.mem_cons_of_mem p hq)
      dsimp only
      cases hb : p.body with
      | data => exact ⟨h.pending, h.client, h.staged, h.server, h.up, hrest⟩
      | rekeyReq id raw => exact ⟨h.pending, h.client, h.staged, h.server, h.up, hrest⟩
      | rekeyAck id => exact absurd hb (hd p (List.mem_cons_self ..) id)
  | loseUp =>
    exact ⟨h.pending, h.client, h.staged, h.server,
      fun p hp => h.up p (List.mem_of_mem_tail hp), h.down⟩
  | loseDown =>
    exact ⟨h.pending, h.client, h.staged, h.server, h.up,
      fun p hp => h.down p (List.mem_of_mem_tail hp)⟩

/-- With losses the parties are in step or the client is stranded. -/
theorem reachable_lossy {j : Joint} (h : ReachableBy (rekeyRuns Start) NoWrap j) :
    Inv j ∨ ∃ old new, Stranded old new j := by
  refine h.invariant (fun j => Inv j ∨ ∃ old new, Stranded old new j)
    (fun j hj => Or.inl (inv_start hj)) ?_
  rintro j l _ (hi | ⟨old, new, hs⟩) hw rfl
  · cases l with
    | loseUp => exact Or.inl hi.loseUp
    | loseDown => exact hi.loseDown.imp id fun hs => ⟨_, _, hs⟩
    | _ => exact Or.inl (hi.step hw id)
  · exact Or.inr ⟨old, new, hs.step l⟩

/-- A committed key whose acknowledgement is not under way is a stranded client. -/
theorem stranded_of_committed {j : Joint} (h : ReachableBy (rekeyRuns Start) NoWrap j)
    (hp : j.cli.rekeyPending = true) (hk : j.srv.activeKey.mat = j.cli.nextKey.mat)
    (hlost : ∀ p ∈ j.down, ∀ id, p.body ≠ .rekeyAck id) :
    Stranded j.cli.activeKey.mat j.srv.activeKey.mat j := by
  rcases reachable_lossy h with hi | ⟨old, new, hs⟩
  · obtain ⟨hnext, hlt⟩ := hi.next_id hp
    cases hi.phase with
    | synced old new key up hold prev hnew down =>
      have hid : j.cli.activeKey.id = j.cli.nextKey.id := congrArg Prod.snd (key.trans hk)
      rw [← hid] at hlt
      exact absurd hlt (Nat.lt_irrefl _)
    | ahead before after ack pending key prev up down hb hack hafter =>
      obtain ⟨id, hid⟩ := hack.2
      refine absurd hid (hlost ack ?_ id)
      rw [down]
      simp
  · rw [hs.client, hs.server]
    exact hs

/-- The delivery adds one packet to the client's channel: an acknowledgement of its staged
key that it can open. -/
def Acked (j j' : Joint) : Prop :=
  ∃ ack, j'.down = j.down ++ [ack] ∧ ack.body = .rekeyAck j.cli.nextKey.id ∧ opens j.cli ack

/-- **A lost REKEY_ACK is never repeated.** The retransmitted request is stale for a server
that has committed, which leaves its keys alone but does not answer; once no
acknowledgement is under way, the client stays on the old key for ever. -/
theorem lost_ack_never_repeated {j : Joint} (hk : j.srv.activeKey.mat = j.cli.nextKey.mat) :
    (∀ p rest len now, j.up = p :: rest →
      p.body = .rekeyReq j.cli.nextKey.id j.cli.nextKey.raw →
        ¬ Acked j (j.step (.deliverUp len now)) ∧
        (j.step (.deliverUp len now)).srv.activeKey.mat = j.srv.activeKey.mat ∧
        (j.step (.deliverUp len now)).srv.previousKey = j.srv.previousKey) ∧
      (ReachableBy (rekeyRuns Start) NoWrap j → j.cli.rekeyPending = true →
        (∀ p ∈ j.down, ∀ id, p.body ≠ .rekeyAck id) →
        ∀ j', Reachable (rekeyRuns (· = j)) j' → j'.cli.rekeyPending = true ∧
          j'.cli.activeKey.mat = j.cli.activeKey.mat ∧
          j'.srv.activeKey.mat = j.srv.activeKey.mat) := by
  constructor
  · intro p rest len now hup hb
    have hid : j.srv.activeKey.id = j.cli.nextKey.id := congrArg Prod.snd hk
    have hreq : ∀ id raw, p.body = .rekeyReq id raw → id ≤ j.srv.activeKey.id := by
      intro id raw e
      rw [hb] at e
      cases e
      exact UInt32.le_of_eq hid.symm
    have hack : ∀ id, p.body ≠ .rekeyAck id := fun id e => nomatch hb.symm.trans e
    obtain ⟨srv, ha, hprev, e⟩ := deliverUp_stale hup hreq hack len now
    rw [e]
    refine ⟨?_, ha, hprev⟩
    rintro ⟨ack, hdown, _⟩
    simpa using congrArg List.length hdown
  · intro h hp hlost j' hj'
    have hs := hj'.invariant (Stranded j.cli.activeKey.mat j.srv.activeKey.mat) ?_ ?_
    · exact ⟨hs.pending, hs.client, hs.server⟩
    · rintro _ rfl
      exact stranded_of_committed h hp hk hlost
    · rintro j l _ hs _ rfl
      exact hs.step l

def strandedJoint : Joint :=
  (aheadJoint.step .loseDown).step (.clientTimer none 302 true true)

theorem strandedJoint_reachable : ReachableBy (rekeyRuns Start) NoWrap strandedJoint := by
  have hr : ReachableBy (rekeyRuns Start) NoWrap aheadJoint :=
    aheadJoint_reachable.mono fun _ _ h => h.1
  refine .step (l := .clientTimer none 302 true true) (.step (l := .loseDown) hr trivial rfl) ?_ rfl
  exact fun h => absurd h (by decide)

theorem retry_unanswered :
    (¬ Acked strandedJoint (strandedJoint.step (.deliverUp 117 302)) ∧
      (strandedJoint.step (.deliverUp 117 302)).srv.activeKey.mat =
        strandedJoint.srv.activeKey.mat ∧
      (strandedJoint.step (.deliverUp 117 302)).srv.previousKey = strandedJoint.srv.previousKey) ∧
    ∀ j', Reachable (rekeyRuns (· = strandedJoint)) j' → j'.cli.rekeyPending = true ∧
      j'.cli.activeKey.mat = strandedJoint.cli.activeKey.mat ∧
      j'.srv.activeKey.mat = strandedJoint.srv.activeKey.mat := by
  obtain ⟨hdrop, hstay⟩ := lost_ack_never_repeated (j := strandedJoint) rfl
  exact ⟨hdrop _ _ 117 302 rfl rfl,
    hstay strandedJoint_reachable rfl fun p hp => absurd hp List.not_mem_nil⟩

/-- The server drops the retransmitted request without an answer. -/
theorem retry_dropped :
    ReachableBy (rekeyRuns Start) NoWrap strandedJoint ∧
      strandedJoint.cli.rekeyPending = true ∧
      strandedJoint.srv.activeKey.mat = strandedJoint.cli.nextKey.mat ∧
      strandedJoint.up = request strandedJoint.cli true ∧
      strandedJoint.down = [] ∧ (strandedJoint.step (.deliverUp 117 302)).down = [] :=
  ⟨strandedJoint_reachable, rfl, rfl, rfl, rfl, rfl⟩

end Vfast.Rekey
