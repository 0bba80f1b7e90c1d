import Vfast.ClientKeys

/-! What `client_handle_auth` leaves behind. It writes the key, the session id and the address
before it configures the interface, and takes nothing back when that fails. -/

namespace Vfast.ClientAuth

open Bytes Key Crypto Protocol Sessions Server Client ClientKeys

/-- Both security contexts, `fsm.sid`, `fsm.sec` and `vip`. -/
def footing (c : VfastClient) : (Fin 2 → SecCtx) × UInt32 × Option (Fin 2) × UInt32 :=
  (c.secCtxs, c.fsm.sid, c.fsm.sec, c.vip)

/-- The footing that an AUTH_ACK brings: the active context has the key of the payload and the
id of the header. -/
def ackFooting (c : VfastClient) (sid : UInt32) (buf : Mem) (now : Int) :
    (Fin 2 → SecCtx) × UInt32 × Option (Fin 2) × UInt32 :=
  (fun i => if i = c.activePtr then authCtx c.ctx buf sid now else c.secCtxs i, sid,
    some c.activePtr, buf.load32 (hlen + 4))

/-- **What `client_handle_auth` does**: without an accepted payload at most the state changes,
with one the footing does, and the interface decides what is returned. -/
theorem clientHandleAuth_cases (c : VfastClient) (env : ClientEnv) (sid : UInt32) (buf : Mem)
    (payload : Option Nat) :
    (authAccepted c (buf, payload) = false ∧ (clientHandleAuth c env sid buf payload).2 = false ∧
      footing (clientHandleAuth c env sid buf payload).1 = footing c) ∨
    (authAccepted c (buf, payload) = true ∧
      (clientHandleAuth c env sid buf payload).2 = env.tunOk ∧
      footing (clientHandleAuth c env sid buf payload).1 = ackFooting c sid buf env.now ∧
      (env.tunOk = true → (clientHandleAuth c env sid buf payload).1.fsm.state = .connected)) := by
  unfold clientHandleAuth authAfterLoad authAccepted
  by_cases hs : c.fsm.state = .authWait
  · cases payload with
    | none => simp [hs]
    | some plen =>
      by_cases hl : plen < 64
      · simp [hs, hl]
      · by_cases hst : bswap32 (buf.load32 hlen) = 0
        · right
          have h64 : 64 ≤ plen := Nat.not_lt.mp hl
          cases ht : env.tunOk with
          | true =>
            simp [hs, hl, h64, hst, footing, ackFooting, VfastClient.setCtx, VfastClient.setState]
          | false => simp [hs, hl, h64, hst, footing, ackFooting, VfastClient.setCtx]
        · simp [hs, hl, hst, footing, VfastClient.setState]
  · simp [hs]

/-- **All or nothing**: a failure leaves the footing alone; a success takes all of it from
payload and header, and connects the client. -/
structure AllOrNothing (c : VfastClient) (env : ClientEnv) (sid : UInt32) (buf : Mem)
    (payload : Option Nat) : Prop where
  failed : (clientHandleAuth c env sid buf payload).2 = false →
    footing (clientHandleAuth c env sid buf payload).1 = footing c
  done : (clientHandleAuth c env sid buf payload).2 = true →
    footing (clientHandleAuth c env sid buf payload).1 = ackFooting c sid buf env.now ∧
      (clientHandleAuth c env sid buf payload).1.fsm.state = .connected

/-- **`client_handle_auth` is all-or-nothing exactly if configuring the interface does not fail**
after an accepted payload, or the payload brings nothing new. -/
theorem client_auth_all_or_nothing_iff (c : VfastClient) (env : ClientEnv) (sid : UInt32)
    (buf : Mem) (payload : Option Nat) :
    AllOrNothing c env sid buf payload ↔
      (authAccepted c (buf, payload) = true → env.tunOk = false →
        ackFooting c sid buf env.now = footing c) := by
  rcases clientHandleAuth_cases c env sid buf payload with
    ⟨hacc, hret, hfoot⟩ | ⟨hacc, hret, hfoot, hstate⟩
  · constructor
    · intro _ h
      rw [hacc] at h
      cases h
    · intro _
      refine ⟨fun _ => hfoot, fun h => ?_⟩
      rw [hret] at h
      cases h
  · constructor
    · intro h _ htun
      rw [← hfoot]
      exact h.failed (hret.trans htun)
    · intro h
      refine ⟨fun hf => ?_, fun ht => ⟨hfoot, hstate (hret.symm.trans ht)⟩⟩
      rw [hfoot]
      exact h hacc (hret.symm.trans hf)

def waiting : VfastClient :=
  (vfastInitClient none 0 ⟨0, 0⟩ [] [] ⟨0x5EED5EED, .init⟩ 0x5EED5EED).setState .authWait

def ack : Mem := Mem.write (fun _ => 0) (hlen + 4) [10, 0, 0, 2]

/-- **A failed configuration keeps the new session**: the call returns -1, and the client has the
address and the session id of the payload. -/
theorem failed_tun_keeps_session :
    (clientHandleAuth waiting ⟨0, 0, none, false, none, none⟩ 0x0200000A ack (some 64)).2 = false ∧
      waiting.vip = 0 ∧ waiting.fsm.sid = 0 ∧
      (clientHandleAuth waiting ⟨0, 0, none, false, none, none⟩ 0x0200000A ack (some 64)).1.vip =
        0x0200000A ∧
      (clientHandleAuth waiting ⟨0, 0, none, false, none, none⟩ 0x0200000A ack
        (some 64)).1.fsm.sid = 0x0200000A ∧
      ¬ AllOrNothing waiting ⟨0, 0, none, false, none, none⟩ 0x0200000A ack (some 64) := by
  refine ⟨by decide, rfl, rfl, by decide, by decide, fun h => ?_⟩
  have hf := congrArg (fun f => f.2.1) (h.failed (by decide))
  revert hf
  decide

end Vfast.ClientAuth
