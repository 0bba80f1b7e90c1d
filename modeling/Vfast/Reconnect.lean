import Vfast.Authenticity
import Vfast.ClientKeys

/-! What is left of a session's keys once the client has connected again. An accepted
AUTH_ACK overwrites the active key of the context in use and clears the pending flag, so the
previous key and a staged key of the old session stay in their slots. -/

namespace Vfast.Reconnect

open Bytes Key Crypto Protocol Sessions Server Client ClientKeys Run

/-! ## Sessions of the client -/

/-- The session the client is in: the init key it was given, the keys it drew since, and
whether one of them was acknowledged. -/
structure Epoch where
  init : KeyMat
  drawn : List KeyMat
  rekeyed : Prop

def Epoch.Own (e : Epoch) (k : KeyMat) : Prop := k = e.init ∨ k ∈ e.drawn

section

variable (A : Aead)

/-- `client_handle_auth` accepts the datagram of the event. -/
def accepts (c : VfastClient) : Event → Bool
  | .udp _ data len _ => decide (hlen ≤ len) &&
      (vfRemoveHeaderObfs data len offMsgType == MsgType.authAck.code &&
        authAccepted c (unpacked A c data len))
  | _ => false

def offered (c : VfastClient) : Event → KeyMat
  | .udp env data len _ => (authCtx c.ctx (unpacked A c data len).1 0 env.now).activeKey.mat
  | _ => VKey.zero.mat

/-- The session after an event: a new one with an accepted AUTH_ACK, a rekeyed one with a REKEY_ACK
for the staged key. -/
def epochAfter (c : VfastClient) (ev : Event) (e : Option Epoch) : Option Epoch :=
  if accepts A c ev then some ⟨offered A c ev, [], False⟩
  else e.map fun e => ⟨e.init, e.drawn ++ issuedBy A c ev,
    e.rekeyed ∨ IsRekeyAck ev ∧ Acknowledges A c ev⟩

/-- The client with the session it is in; there is none before the first AUTH_ACK. -/
def sessionRuns (draw : Option (Block 32)) : System (VfastClient × Option Epoch) Event where
  init s := ∃ now dst userName passWord statics workerSeed,
    s = (vfastInitClient draw now dst userName passWord statics workerSeed, none)
  step s ev s' := s' = ((ev.run A s.1).1, epochAfter A s.1 ev s.2)

/-- Every key that the context selects for a received packet is one of `keys`. -/
def SelectsOnly (ctx : SecCtx) (keys : Block 32 → Prop) : Prop :=
  ∀ kid key, vfRekeyGetDecryptKey ctx kid = some key → keys key

/-- Every encrypted packet that `vf_unpack` accepts opens under one of `keys`. -/
def OpensOnly (ctx : SecCtx) (keys : Block 32 → Prop) : Prop :=
  ∀ (m : Mem) (len : Nat) (buf : Mem) (plen : Nat), bypassesAead (m offMsgType) = false →
    vfUnpack A (some ctx) m len = (buf, some plen) →
    ∃ key nonce c t text, keys key ∧
      m.read hlen (len - hlen) = Block.toList nonce ++ (c ++ Block.toList t) ∧
      A.unlock key nonce [] c t = some text

theorem SelectsOnly.opens {ctx : SecCtx} {keys : Block 32 → Prop} (h : SelectsOnly ctx keys) :
    OpensOnly A ctx keys := by
  intro m len buf plen hb hu
  obtain ⟨key, nonce, c, t, text, hk, hlay, hopen, _⟩ := Authenticity.unpack_sealed A hb hu
  exact ⟨key, nonce, c, t, text, h _ _ hk, hlay, hopen⟩

/-- The previous key of `ctx` cannot be selected next to an active key `k` unless it is the
same key. -/
def Retired (ctx : SecCtx) (k : KeyMat) : Prop :=
  ctx.previousKey.id = 0 ∨ lowByte ctx.previousKey.id = lowByte k.2 ∨ ctx.previousKey.raw = k.1

/-- If the event is an accepted AUTH_ACK, the previous key of the old session is out of reach. -/
def CleanAccept (c : VfastClient) (ev : Event) : Prop :=
  accepts A c ev = true → Retired c.ctx (offered A c ev)

/-- **The keys a context selects**: with `k` active, only `k` exactly when the previous key is
out of reach. -/
theorem selectsOnly_iff {ctx : SecCtx} {k : KeyMat} (hk : ctx.activeKey.mat = k) :
    SelectsOnly ctx (· = k.1) ↔ Retired ctx k := by
  obtain rfl := hk
  constructor
  · intro h
    by_cases h0 : ctx.previousKey.id = 0
    · exact Or.inl h0
    by_cases hb : lowByte ctx.previousKey.id = lowByte ctx.activeKey.id
    · exact Or.inr (Or.inl hb)
    · refine Or.inr (Or.inr (h (lowByte ctx.previousKey.id) _ ?_))
      simp [vfRekeyGetDecryptKey, h0, hb]
  · rintro h kid key hsel
    unfold vfRekeyGetDecryptKey at hsel
    split at hsel
    · exact (Option.some.inj hsel).symm
    · rename_i hne
      split at hsel
      · rename_i hprev
        obtain ⟨h0, hkid⟩ := hprev
        rcases h with h | h | h
        · exact absurd h h0
        · exact absurd (hkid.trans h) hne
        · exact (Option.some.inj hsel).symm.trans h
      · cases hsel

theorem accept_ctx {c : VfastClient} {ev : Event} (h : accepts A c ev = true) :
    (ev.run A c).1.ctx.activeKey.mat = offered A c ev ∧
      (ev.run A c).1.ctx.previousKey = c.ctx.previousKey ∧
      (ev.run A c).1.ctx.rekeyPending = false := by
  cases ev with
  | udp env data len src =>
    simp only [accepts, Bool.and_eq_true, decide_eq_true_eq, beq_iff_eq] at h
    obtain ⟨hl, hty, ha⟩ := h
    have hb := buffers_auth (vfFsmUpdate c env.now) env
      (bswap32 ((vfRemoveHeaderObfs data len).load32 offSessionId)) (unpacked A c data len).1
      (unpacked A c data len).2
    rw [if_pos (show authAccepted (vfFsmUpdate c env.now) (unpacked A c data len) = true from ha)]
      at hb
    have hrun : (Event.run A c (.udp env data len src)).1 =
        (clientHandleAuth (vfFsmUpdate c env.now) env
          (bswap32 ((vfRemoveHeaderObfs data len).load32 offSessionId))
          (unpacked A c data len).1 (unpacked A c data len).2).1 := by
      rw [Event.run, clientOnUdp_eq A hl, hty, MsgType.ofCode_code]
    rw [hrun, ctx_eq hb, ctx_setCtx]
    exact ⟨congrArg VKey.mat (authCtx_activeKey c.ctx _ _ 0 env.now), rfl, rfl⟩
  | tun env buf len => cases h
  | timer env => cases h
  | worker env seen lastRx => cases h

/-- **Accepting an AUTH_ACK**: the init key is the only key in reach exactly when the previous key
of the old session is not. -/
theorem accept_iff {c : VfastClient} {ev : Event} (h : accepts A c ev = true) :
    SelectsOnly (ev.run A c).1.ctx (· = (offered A c ev).1) ↔ CleanAccept A c ev := by
  obtain ⟨hact, hprev, -⟩ := accept_ctx A h
  rw [selectsOnly_iff hact, Retired, hprev]
  exact ⟨fun hr _ => hr, fun hr => hr h⟩

/-! ## Whole runs -/

/-- What the key slots of the context in use hold during a session. -/
structure InEpoch (e : Epoch) (ctx : SecCtx) : Prop where
  fresh : ¬ e.rekeyed → ctx.activeKey.mat = e.init ∧ SelectsOnly ctx (· = e.init.1)
  active : e.Own ctx.activeKey.mat
  previous : e.rekeyed → e.Own ctx.previousKey.mat
  staged : ctx.rekeyPending = true → ctx.nextKey.mat ∈ e.drawn

theorem InEpoch.accept {c : VfastClient} {ev : Event} (h : accepts A c ev = true)
    (hc : CleanAccept A c ev) :
    InEpoch ⟨offered A c ev, [], False⟩ (ev.run A c).1.ctx := by
  obtain ⟨hact, -, hpend⟩ := accept_ctx A h
  refine ⟨fun _ => ⟨hact, (accept_iff A h).mpr hc⟩, Or.inl hact, fun hf => hf.elim, fun hp => ?_⟩
  rw [hpend] at hp
  exact nomatch hp

theorem Own.mono {e : Epoch} {k : KeyMat} (h : e.Own k) (issued : List KeyMat) (r : Prop) :
    Epoch.Own ⟨e.init, e.drawn ++ issued, r⟩ k :=
  h.imp_right (List.mem_append_left issued)

/-- The invariant depends on the active and the previous key of the context, and on what is
staged. -/
theorem InEpoch.keep {e : Epoch} {ctx ctx' : SecCtx} (h : InEpoch e ctx) {issued : List KeyMat}
    {r : Prop} (hr : r ↔ e.rekeyed) (hact : ctx'.activeKey.mat = ctx.activeKey.mat)
    (hprev : ctx'.previousKey = ctx.previousKey)
    (hnext : ctx'.rekeyPending = true → ctx.rekeyPending = true ∧
      ctx'.nextKey.mat = ctx.nextKey.mat ∨ ctx'.nextKey.mat ∈ issued) :
    InEpoch ⟨e.init, e.drawn ++ issued, r⟩ ctx' := by
  refine ⟨?_, ?_, ?_, ?_⟩
  · intro hnr
    obtain ⟨hinit, hsel⟩ := h.fresh fun he => hnr (hr.mpr he)
    have hact' : ctx'.activeKey.mat = e.init := hact.trans hinit
    refine ⟨hact', (selectsOnly_iff hact').mpr ?_⟩
    rw [Retired, hprev]
    exact (selectsOnly_iff hinit).mp hsel
  · rw [hact]
    exact Own.mono h.active issued r
  · intro he
    rw [hprev]
    exact Own.mono (h.previous (hr.mp he)) issued r
  · intro hp
    rcases hnext hp with ⟨hp, e'⟩ | e'
    · rw [e']
      exact List.mem_append_left issued (h.staged hp)
    · exact List.mem_append_right e.drawn e'

/-- An acknowledgement promotes the key that is staged. -/
theorem InEpoch.commit {e : Epoch} {ctx : SecCtx} (h : InEpoch e ctx) (issued : List KeyMat)
    {r : Prop} (hr : r) (hp : ctx.rekeyPending = true) :
    InEpoch ⟨e.init, e.drawn ++ issued, r⟩ (vfRekeyCommit ctx) := by
  have hst : e.Own ctx.nextKey.mat := Or.inr (h.staged hp)
  exact ⟨fun hnr => absurd hr hnr, Own.mono hst issued r, fun _ => Own.mono h.active issued r,
    fun hp => nomatch hp⟩

theorem InEpoch.prepare {e : Epoch} {ctx : SecCtx} (h : InEpoch e ctx) (draw : Option (Block 32))
    (now : Int) {issued : List KeyMat} {r : Prop} (hr : r ↔ e.rekeyed)
    (hp : ctx.rekeyPending = false)
    (hi : issued = (draw.map fun raw => (raw, ctx.activeKey.id + 1)).toList) :
    InEpoch ⟨e.init, e.drawn ++ issued, r⟩ (vfRekeyPrepareNext ctx draw now).1 := by
  subst hi
  cases draw with
  | none =>
    refine h.keep hr rfl rfl fun hpend => ?_
    rw [show (vfRekeyPrepareNext ctx none now).1.rekeyPending = ctx.rekeyPending from rfl, hp]
      at hpend
    exact nomatch hpend
  | some raw => exact h.keep hr rfl rfl fun _ => Or.inr (List.mem_singleton.mpr rfl)

theorem InEpoch.quiet {e : Epoch} {c c' : VfastClient} {ack r : Prop} (h : InEpoch e c.ctx)
    (hc : KeyChange ack c c' []) (hno : ¬ ack) (hr : r ↔ e.rekeyed) :
    InEpoch ⟨e.init, e.drawn ++ [], r⟩ c'.ctx := by
  cases hc with
  | same hb =>
    rw [ctx_eq hb]
    exact h.keep hr rfl rfl fun hp => Or.inl ⟨hp, rfl⟩
  | count len hb =>
    rw [ctx_eq hb, ctx_setCtx]
    exact h.keep hr rfl rfl fun hp => Or.inl ⟨hp, rfl⟩
  | prepare draw now hp hb hi =>
    rw [ctx_eq hb, ctx_setCtx]
    exact h.prepare draw now hr hp hi
  | commit ha hb => exact absurd ha hno
  | auth buf sid now hb hi => cases hi

/-- An event that is neither an accepted AUTH_ACK nor a stray REKEY_ACK leaves the slots to the
session. -/
theorem InEpoch.event {e : Epoch} {c : VfastClient} {ev : Event} (h : InEpoch e c.ctx)
    (hna : accepts A c ev = false) (hs : Solicited A c ev) :
    InEpoch ⟨e.init, e.drawn ++ issuedBy A c ev,
      e.rekeyed ∨ IsRekeyAck ev ∧ Acknowledges A c ev⟩ (ev.run A c).1.ctx := by
  by_cases hack : IsRekeyAck ev
  · rw [ctx_eq (rekeyAck_swaps A c ev hack), ctx_newKey]
    exact h.commit _ (Or.inr ⟨hack, hs hack⟩) (hs hack).pending
  have hr : (e.rekeyed ∨ IsRekeyAck ev ∧ Acknowledges A c ev) ↔ e.rekeyed :=
    or_iff_left fun ha => hack ha.1
  cases ev with
  | udp env data len src =>
    have hi : issuedBy A c (.udp env data len src) = [] := by
      refine if_neg ?_
      rintro ⟨hl, hty, ha⟩
      simp [accepts, hl, hty, ha] at hna
    have hc := event_change A c (.udp env data len src)
    rw [hi] at hc ⊢
    exact h.quiet hc hack hr
  | tun env buf len => exact h.quiet (tun_change A c env buf len False []) id hr
  | timer env =>
    change InEpoch _ (vfastRekeyTimerHandler A c env).1.ctx
    rcases timer_cases A c env with ⟨hb, hi⟩ | ⟨hp, hb, hi⟩
    · rw [ctx_eq hb, hi]
      exact h.keep hr rfl rfl fun hp => Or.inl ⟨hp, rfl⟩
    · rw [ctx_eq hb, ctx_setCtx]
      exact h.prepare env.keyDraw env.now hr hp hi
  | worker env seen lastRx =>
    rw [ctx_eq (show buffers (Event.run A c (.worker env seen lastRx)).1 = buffers c from
      buffers_worker A c env seen lastRx)]
    exact h.keep hr rfl rfl fun hp => Or.inl ⟨hp, rfl⟩

/-- The event is no stray REKEY_ACK, and no AUTH_ACK that is accepted while the previous key of the
old session stays in reach. -/
def Orderly (c : VfastClient) (ev : Event) : Prop := CleanAccept A c ev ∧ Solicited A c ev

/-- In runs of such events the slots hold keys of the session. -/
theorem reachable_inEpoch {draw : Option (Block 32)} {s : VfastClient × Option Epoch}
    (h : ReachableBy (sessionRuns A draw) (fun s ev => Orderly A s.1 ev) s) :
    ∀ e, s.2 = some e → InEpoch e s.1.ctx := by
  refine h.invariant (fun s => ∀ e, s.2 = some e → InEpoch e s.1.ctx) ?_ ?_
  · rintro _ ⟨now, dst, userName, passWord, statics, workerSeed, rfl⟩ e he
    cases he
  · rintro ⟨c, old⟩ ev _ hin ⟨hclean, hs⟩ rfl e he
    dsimp only [epochAfter] at he ⊢
    cases ha : accepts A c ev with
    | true =>
      rw [ha, if_pos rfl] at he
      cases he
      exact InEpoch.accept A ha hclean
    | false =>
      rw [ha, if_neg Bool.false_ne_true] at he
      obtain ⟨e0, he0, rfl⟩ := Option.map_eq_some_iff.mp he
      exact (hin e0 he0).event A ha hs

theorem InEpoch.selects {e : Epoch} {ctx : SecCtx} (h : InEpoch e ctx) :
    SelectsOnly ctx fun key => ∃ k, e.Own k ∧ key = k.1 := by
  intro kid key hsel
  by_cases hr : e.rekeyed
  · rcases getDecryptKey_cases hsel with hk | hk
    · exact ⟨_, h.active, hk⟩
    · exact ⟨_, h.previous hr, hk⟩
  · exact ⟨e.init, Or.inl rfl, (h.fresh hr).2 kid key hsel⟩

/-- A swap of the buffers brings a key into use that was drawn in the session. -/
theorem InEpoch.swap {e : Epoch} {c : VfastClient} {ev : Event} (h : InEpoch e c.ctx)
    (hs : Solicited A c ev) (hp : (ev.run A c).1.activePtr ≠ c.activePtr) :
    (ev.run A c).1.ctx.activeKey.mat ∈ e.drawn := by
  have hack : IsRekeyAck ev := (event_change A c ev).swap hp
  rw [ctx_eq (rekeyAck_swaps A c ev hack), ctx_newKey]
  exact h.staged (hs hack).pending

/-- **Old keys die at reconnection**, in runs without stray REKEY_ACKs that accept an AUTH_ACK only
over a context whose previous key is out of reach of the new one. Until a drawn key is acknowledged
the init key is the only key that opens packets, later only keys of the session do, and what is
committed was drawn in the session. At an accepted AUTH_ACK the first half of the condition is
exactly what it takes, and at a swap of the buffers the second half is. -/
theorem old_keys_die_at_reconnection {draw : Option (Block 32)} {s : VfastClient × Option Epoch}
    (h : ReachableBy (sessionRuns A draw) (fun s ev => Orderly A s.1 ev) s) :
    (∀ e, s.2 = some e →
      (¬ e.rekeyed → SelectsOnly s.1.ctx (· = e.init.1) ∧ OpensOnly A s.1.ctx (· = e.init.1)) ∧
      OpensOnly A s.1.ctx (fun key => ∃ k, e.Own k ∧ key = k.1) ∧
      ∀ ev, Orderly A s.1 ev → (ev.run A s.1).1.activePtr ≠ s.1.activePtr →
        (ev.run A s.1).1.ctx.activeKey.mat ∈ e.drawn) ∧
    (∀ ev, accepts A s.1 ev = true →
      (SelectsOnly (ev.run A s.1).1.ctx (· = (offered A s.1 ev).1) ↔ CleanAccept A s.1 ev)) ∧
    ∀ ev, ((ev.run A s.1).1.activePtr ≠ s.1.activePtr → Acknowledges A s.1 ev) ↔
      Solicited A s.1 ev := by
  refine ⟨fun e he => ?_, fun ev ha => accept_iff A ha, swap_acknowledges_iff A s.1⟩
  have hin := reachable_inEpoch A h e he
  refine ⟨fun hr => ?_, hin.selects.opens A, fun ev hev => hin.swap A hev.2⟩
  exact ⟨(hin.fresh hr).2, (hin.fresh hr).2.opens A⟩

end

/-! ## Two sessions -/

def afterAll (A : Aead) (s : VfastClient × Option Epoch) (evs : List Event) :
    VfastClient × Option Epoch :=
  evs.foldl (fun s ev => ((ev.run A s.1).1, epochAfter A s.1 ev s.2)) s

theorem afterAll_accepts {A : Aead} {s : VfastClient × Option Epoch} {evs : List Event} {ev : Event}
    (h : accepts A (afterAll A s evs).1 ev = true) :
    (afterAll A s (evs ++ [ev])).2 = some ⟨offered A (afterAll A s evs).1 ev, [], False⟩ := by
  rw [afterAll, List.foldl_append]
  exact if_pos h

theorem idleClient_starts : (sessionRuns markAead (some fun _ => 7)).init (idleClient, none) :=
  ⟨0, ⟨0, 0⟩, [], [], ⟨0x5EED5EED, .init⟩, 0x5EED5EED, rfl⟩

theorem orderly_of_not {c : VfastClient} {ev : Event} (ha : accepts markAead c ev = false)
    (hr : ¬ IsRekeyAck ev) : Orderly markAead c ev :=
  ⟨fun h => absurd h (Bool.eq_false_iff.mp ha), fun h => absurd h hr⟩

/-- A session with one rekey, then silence and a second handshake. -/
def oneRekey : List Event :=
  handshake 0 .idle ++ granted 0 5 :: rekey 300 5 21 2 ++
    .worker (envAt 400 none) .connected 300 :: handshake 400 .reconnecting

def reconnectedOnce : VfastClient × Option Epoch :=
  afterAll markAead (idleClient, none) (oneRekey ++ [granted 400 9])

/-- The key of the first session is still in its slot, and no packet selects it: its id has the low
byte of the new one. -/
theorem second_session_key : ∃ e, reconnectedOnce.2 = some e ∧
    SelectsOnly reconnectedOnce.1.ctx (· = e.init.1) ∧ e.init.1 0 = 9 ∧
      reconnectedOnce.1.ctx.previousKey.raw 0 = 5 := by
  have hrun : ReachableBy (sessionRuns markAead (some fun _ => 7))
      (fun s ev => Orderly markAead s.1 ev) reconnectedOnce := by
    refine (ReachableBy.init idleClient_starts).along (fun _ _ _ => rfl)
      ⟨?_, ?_, ?_, ?_, ?_, ?_, ?_, ?_, ?_, ?_, ?_, trivial⟩
    · exact orderly_of_not rfl id
    · exact orderly_of_not rfl fun h => absurd h.2 (by decide)
    · exact orderly_of_not rfl id
    · exact ⟨fun _ => Or.inl (by decide +kernel), fun h => absurd h.2 (by decide)⟩
    · exact orderly_of_not rfl id
    · exact ⟨fun h => absurd h (by decide +kernel), fun _ => ⟨by decide +kernel, _, 4,
        Prod.ext rfl (by decide +kernel), by decide, by decide +kernel⟩⟩
    · exact orderly_of_not rfl id
    · exact orderly_of_not rfl id
    · exact orderly_of_not rfl fun h => absurd h.2 (by decide)
    · exact orderly_of_not rfl id
    · exact ⟨fun _ => Or.inr (Or.inl (by decide +kernel)), fun h => absurd h.2 (by decide)⟩
  have he : reconnectedOnce.2 = some _ := afterAll_accepts (by decide +kernel)
  exact ⟨_, he, (((old_keys_die_at_reconnection markAead hrun).1 _ he).1 id).1, by decide +kernel,
    by decide +kernel⟩

def twoRekeys : List Event :=
  handshake 0 .idle ++ granted 0 5 :: rekey 300 5 21 2 ++ rekey 600 21 22 3 ++
    .worker (envAt 700 none) .connected 600 :: handshake 700 .reconnecting

def reconnectedTwice : VfastClient × Option Epoch :=
  afterAll markAead (idleClient, none) (twoRekeys ++ [granted 700 9])

/-- After two rekeys and a reconnection, packets with key id 2 are opened with the first key
that the old session drew. -/
theorem old_key_survives_reconnection :
    ∃ s e kid key, Reachable (sessionRuns markAead (some fun _ => 7)) s ∧ s.2 = some e ∧
      ¬ e.rekeyed ∧ vfRekeyGetDecryptKey s.1.ctx kid = some key ∧ key 0 = 21 ∧ e.init.1 0 = 9 := by
  refine ⟨reconnectedTwice, _, 2, reconnectedTwice.1.ctx.previousKey.raw, ?_,
    afterAll_accepts (by decide +kernel), id, ?_, ?_, ?_⟩
  · exact Run.Reachable.foldl (fun _ ev => ⟨ev, rfl⟩) (.init idleClient_starts) _
  · rw [vfRekeyGetDecryptKey, if_neg (by decide +kernel), if_pos (by decide +kernel)]
  · decide +kernel
  · decide +kernel

end Vfast.Reconnect
