import Vfast.ServerInv
import Vfast.ClientKeys

/-! Datagrams that the client cannot unpack. `client_on_udp` does not test the payload that
`vf_unpack` returns: it sets the watchdog first, and each branch is left to deal with a
`NULL` payload on its own. -/

namespace Vfast.Rejects

open Bytes Key Crypto Protocol Sessions Server Client ClientKeys

/-- The client after the datagram is the one before, and nothing was sent or written. -/
structure Ignored (c c' : VfastClient) (outs : List Out) : Prop where
  keys : buffers c' = buffers c
  standing : standing c' = standing c
  watchdog : c'.fsm.lastRxTime = c.fsm.lastRxTime
  silent : outs = []

/-- The branch of the message type acts on a `NULL` payload. -/
def ActsOnNull (c : VfastClient) : Option MsgType → Prop
  | some .rekeyAck => True
  | some .dpdRequest => True
  | some .data => c.fsm.state = .connected
  | _ => False

/-- The watchdog is all that moves when a branch does nothing. -/
theorem ignored_update_iff (c : VfastClient) (now : Int) :
    Ignored c (vfFsmUpdate c now) [] ↔ now = c.fsm.lastRxTime :=
  ⟨fun h => h.watchdog, fun h => ⟨rfl, rfl, h, rfl⟩⟩

theorem clientHandleHello_null (c : VfastClient) (buf : Mem) :
    clientHandleHello c buf none = c := by
  unfold clientHandleHello helloAfterLoad
  split <;> rfl

theorem clientHandleAuth_null (c : VfastClient) (env : ClientEnv) (sid : UInt32) (buf : Mem) :
    (clientHandleAuth c env sid buf none).1 = c := by
  unfold clientHandleAuth authAfterLoad
  split <;> rfl

theorem newKey_not_ignored (c : VfastClient) (now : Int) (outs : List Out) :
    ¬ Ignored c (vfastHandleNewKey (vfFsmUpdate c now)) outs := by
  intro h
  have hp : 1 - c.activePtr = c.activePtr := congrArg Prod.snd h.keys
  revert hp
  generalize c.activePtr = i
  revert i
  decide

section

variable (A : Aead)

/-- A DPD_REQUEST is answered, whatever it holds. -/
theorem clientHandleDpd_sends (c : VfastClient) (env : ClientEnv) (buf : Mem) (src : SockAddr) :
    (clientHandleDpd A c env buf src).2.toList ≠ [] := by
  obtain ⟨tlen, ht⟩ := ServerInv.vfPack_small A c.statics env.urandom (some c.ctx) buf 16
    .dpdResponse c.fsm.sid (by decide)
  simp [clientHandleDpd, ht]

theorem clientHandleData_null (c : VfastClient) (buf : Mem) :
    clientHandleData c buf none = [] ↔ c.fsm.state ≠ .connected := by
  unfold clientHandleData vfFsmIsConnected
  by_cases h : c.fsm.state = .connected
  · simp [h]
  · simp [h]

/-- **A datagram that the client cannot unpack** is ignored exactly when the watchdog was set
in the same second and its branch does not act on a `NULL` payload: REKEY_ACK swaps the key
contexts, DPD_REQUEST is answered, and DATA is written to the TUN device while connected. -/
theorem unpack_failure_ignored_iff {c : VfastClient} {data : Mem} {len : Nat} (hl : hlen ≤ len)
    (hu : (unpacked A c data len).2 = none) (env : ClientEnv) (src : SockAddr) :
    Ignored c (clientOnUdp A c env data len src).1 (clientOnUdp A c env data len src).2.1 ↔
      env.now = c.fsm.lastRxTime ∧
        ¬ ActsOnNull c (MsgType.ofCode (vfRemoveHeaderObfs data len offMsgType)) := by
  have hquiet : Ignored c (vfFsmUpdate c env.now) [] ↔
      env.now = c.fsm.lastRxTime ∧ ¬ False := by
    rw [ignored_update_iff]
    exact (and_iff_left id).symm
  rw [clientOnUdp_eq A hl, hu]
  cases MsgType.ofCode (vfRemoveHeaderObfs data len offMsgType) with
  | none => exact hquiet
  | some ty =>
    cases ty with
    | data =>
      have hdata := clientHandleData_null (vfFsmUpdate c env.now) (unpacked A c data len).1
      constructor
      · intro h
        exact ⟨h.watchdog, hdata.mp h.silent⟩
      · rintro ⟨hnow, hst⟩
        exact ⟨rfl, rfl, hnow, hdata.mpr hst⟩
    | hello =>
      dsimp only
      rw [clientHandleHello_null]
      exact hquiet
    | dpdRequest =>
      constructor
      · intro h
        exact absurd h.silent (clientHandleDpd_sends A _ env _ src)
      · intro h
        exact absurd trivial h.2
    | rekeyAck =>
      constructor
      · intro h
        exact absurd h (newKey_not_ignored c env.now [])
      · intro h
        exact absurd trivial h.2
    | authAck =>
      dsimp only
      rw [clientHandleAuth_null]
      exact hquiet
    | keepalive => exact hquiet
    | disconnect => exact hquiet
    | dpdResponse => exact hquiet
    | rekeyReq => exact hquiet
    | authReq => exact hquiet
    | logout => exact hquiet

end

def bareData : Mem := fun i => if i = 3 then MsgType.data.code else strayAck i

theorem bareData_rejected : (unpacked markAead idleClient bareData 20).2 = none := by decide

theorem bare_data_ignored :
    Ignored idleClient (clientOnUdp markAead idleClient idleEnv bareData 20 ⟨0, 0⟩).1
      (clientOnUdp markAead idleClient idleEnv bareData 20 ⟨0, 0⟩).2.1 := by
  refine (unpack_failure_ignored_iff markAead (by decide) bareData_rejected idleEnv ⟨0, 0⟩).mpr
    ⟨rfl, fun h => ?_⟩
  exact absurd (show idleClient.fsm.state = .connected from h) (by decide)

theorem garbage_resets_watchdog :
    ∃ (c : VfastClient) (env : ClientEnv) (data : Mem) (len : Nat) (src : SockAddr),
      hlen ≤ len ∧ (unpacked markAead c data len).2 = none ∧
      (clientOnUdp markAead c env data len src).1.fsm.lastRxTime ≠ c.fsm.lastRxTime := by
  refine ⟨idleClient, { idleEnv with now := 9 }, bareData, 20, ⟨0, 0⟩, by decide,
    bareData_rejected, ?_⟩
  decide

end Vfast.Rejects
