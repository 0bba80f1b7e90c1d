import Mathlib.Data.List.Perm.Basic
import Vfast.Generations
import Vfast.Io
import Vfast.Lib.Slots

/-! Who owns the task buffers. A callback hands its buffer on to the kernel, if it sends from
it, or back to the engine, and its verdict tells the engine which. As long as the two agree
every outstanding operation works on a buffer of its own that is marked as used. -/

namespace Vfast.IoOwners

open Bytes Key Crypto Protocol Sessions Server Client Addresses Ingress Generations Io Slots Run

/-- **Task buffers have one owner.** -/
structure OneOwner (io : VfIo) : Prop where
  owned : ∀ o ∈ io.outstanding, o.buf < io.poolSize ∧ io.inUse o.buf = true
  distinct : (io.outstanding.map Sqe.buf).Nodup
  fresh : ∀ io' i, getTaskFromInstance io = some (io', some i) → ∀ o ∈ io.outstanding, o.buf ≠ i

/-! ## The invariant -/

def users (io : VfIo) : List Nat := io.outstanding.map Sqe.buf ++ io.borrowed

/-- The engine in the middle of a call that itself uses the tasks `held`. -/
structure Sound (held : List Nat) (io : VfIo) : Prop where
  pool : 0 < io.poolSize
  points : ∀ o ∈ io.outstanding, o.userData = .task o.buf
  owned : Owned io.inUse (held ++ users io)
  inPool : ∀ i ∈ held ++ users io, i < io.poolSize

theorem sound_init {n : Nat} (h : 0 < n) : Sound [] (vfIoInit n) where
  pool := h
  points _ ho := absurd ho List.not_mem_nil
  owned := .empty _
  inPool _ hi := absurd hi List.not_mem_nil

/-- Tasks change hands: only the operations, the borrowed and the held ones together count. -/
theorem Sound.hand {held held' : List Nat} {io io' : VfIo} (h : Sound held io)
    (hsize : io'.poolSize = io.poolSize) (huse : io'.inUse = io.inUse)
    (hpoints : ∀ o ∈ io'.outstanding, o.userData = .task o.buf)
    (hp : (held ++ users io).Perm (held' ++ users io')) : Sound held' io' where
  pool := hsize ▸ h.pool
  points := hpoints
  owned := huse ▸ h.owned.perm hp
  inPool i hi := hsize ▸ h.inPool i (hp.mem_iff.mpr hi)

theorem Sound.free {held : List Nat} {io : VfIo} {i : Nat} (h : Sound (i :: held) io) :
    Sound held (io.free i) where
  pool := h.pool
  points := h.points
  owned := Owned.release h.owned
  inPool j hj := h.inPool j (List.mem_cons_of_mem i hj)

/-! ## Acquiring a task -/

/-- **What the search can find**: nothing, or a free task of the pool. -/
theorem getTaskLoop_cases {n : Nat} {io : VfIo} {r : VfIo × Option Nat} (hs : 0 < io.poolSize)
    (h : getTaskLoop n io = some r) :
    ∃ idx, r = ({ io with poolIdx := idx }, none) ∨
      ∃ i, i < io.poolSize ∧ io.inUse i = false ∧
        r = ({ io with
          poolIdx := idx
          op := Function.update io.op i 0
          inUse := Function.update io.inUse i true }, some i) := by
  induction n generalizing io with
  | zero =>
    cases h
    exact ⟨io.poolIdx, Or.inl rfl⟩
  | succ n ih =>
    simp only [getTaskLoop] at h
    split at h
    · cases h
    · rename_i hidx
      split at h
      · exact @ih { io with poolIdx := wrap32 (io.poolIdx + 1) } hs h
      · rename_i hfree
        cases h
        have hlt : io.poolIdx.tmod io.poolSize < io.poolSize :=
          Int.tmod_lt_of_pos _ (by omega)
        exact ⟨_, Or.inr ⟨_, by omega, by simpa using hfree, rfl⟩⟩

/-- The search stays in the pool while the counter does not wrap. -/
theorem getTaskLoop_defined {n : Nat} {io : VfIo}
    (h : n = 0 ∨ 0 ≤ io.poolIdx ∧ io.poolIdx + n ≤ 0x80000000) :
    ∃ r, getTaskLoop n io = some r := by
  induction n generalizing io with
  | zero => exact ⟨_, rfl⟩
  | succ n ih =>
    -- the last try may wrap the counter, but no try follows it
    obtain ⟨h0, hn⟩ := h.resolve_left (Nat.succ_ne_zero n)
    have hidx : ¬ io.poolIdx.tmod io.poolSize < 0 := Int.not_lt.mpr (Int.tmod_nonneg _ h0)
    simp only [getTaskLoop, hidx, if_false]
    split
    · apply ih
      rcases Nat.eq_zero_or_pos n with hz | hpos
      · exact Or.inl hz
      · have hwrap : wrap32 (io.poolIdx + 1) = io.poolIdx + 1 := by
          unfold wrap32
          rw [Int.bmod_eq_of_le] <;> omega
        right
        simp only [hwrap]
        omega
    · exact ⟨_, rfl⟩

theorem Sound.getTask {held : List Nat} {io io' : VfIo} {r : Option Nat} (h : Sound held io)
    (hr : getTaskFromInstance io = some (io', r)) : Sound (r.toList ++ held) io' := by
  obtain ⟨idx, he | ⟨i, hi, hfree, he⟩⟩ := getTaskLoop_cases h.pool hr
  · cases he
    exact h.hand rfl rfl h.points (List.Perm.refl _)
  · cases he
    refine ⟨h.pool, h.points, h.owned.acquire hfree, ?_⟩
    intro j hj
    rcases List.mem_cons.mp hj with rfl | hj
    · exact hi
    · exact h.inPool j hj

theorem Sound.oneOwner {io : VfIo} (h : Sound [] io) : OneOwner io := by
  have hmem : ∀ o ∈ io.outstanding, o.buf ∈ users io := fun o ho =>
    List.mem_append_left io.borrowed (List.mem_map_of_mem ho)
  refine ⟨fun o ho => ⟨h.inPool _ (hmem o ho), h.owned.flagged _ (hmem o ho)⟩, ?_, ?_⟩
  · have hn : (users io).Nodup := h.owned.nodup
    exact (List.nodup_append.mp hn).1
  · rintro io' i hi o ho rfl
    obtain ⟨idx, he | ⟨j, -, hfree, he⟩⟩ := getTaskLoop_cases h.pool hi
    · cases he
    · cases he
      exact h.owned.not_mem hfree (hmem o ho)

/-! ## Reads and writes -/

theorem prepare_perm (io : VfIo) (op : UInt32) (p : TaskPtr) :
    ((⟨op, p, p.index⟩ : Sqe) :: io.outstanding).Perm (io.prepare op p).outstanding := by
  have hfl : (io.setOp op p).inFlight = io.inFlight := by cases p <;> rfl
  have hout : (io.prepare op p).outstanding = io.queued ++ ⟨op, p, p.index⟩ :: io.inFlight := by
    simp [VfIo.outstanding, VfIo.prepare, hfl]
  rw [hout]
  exact List.perm_middle.symm

theorem Sound.prepare {held : List Nat} {io : VfIo} {i : Nat} (h : Sound (i :: held) io)
    (op : UInt32) : Sound held (io.prepare op (.task i)) := by
  have hp := prepare_perm io op (.task i)
  have hpoints : ∀ o ∈ (io.prepare op (.task i)).outstanding, o.userData = .task o.buf := by
    intro o ho
    rcases List.mem_cons.mp (hp.mem_iff.mpr ho) with rfl | ho
    · rfl
    · exact h.points o ho
  have husers : (i :: users io).Perm (users (io.prepare op (.task i))) :=
    (hp.map Sqe.buf).append_right io.borrowed
  exact h.hand rfl rfl hpoints (List.perm_middle.symm.trans (husers.append_left held))

theorem submit_perm (io : VfIo) : io.outstanding.Perm io.submit.outstanding :=
  List.perm_append_comm

theorem Sound.submit {held : List Nat} {io : VfIo} (h : Sound held io) : Sound held io.submit := by
  have hp := submit_perm io
  have hpoints : ∀ o ∈ io.submit.outstanding, o.userData = .task o.buf := fun o ho =>
    h.points o (hp.mem_iff.mpr ho)
  exact h.hand rfl rfl hpoints (((hp.map _).append_right _).append_left _)

theorem Sound.read {held : List Nat} {io io' : VfIo} {op : UInt32} {ring : Ring}
    (h : Sound held io) (hr : vfIoRead io op ring = some io') : Sound held io' := by
  unfold vfIoRead at hr
  split at hr
  · cases hr
  · rename_i hg
    cases hr
    exact h.getTask hg
  · rename_i hg
    split at hr
    · cases hr
      exact (h.getTask hg).prepare op
    · cases hr
      exact (h.getTask hg).free

theorem Sound.write {held : List Nat} {io io' : VfIo} {i : Nat} {op : UInt32} {ring : Ring}
    (h : Sound (i :: held) io) (hw : vfIoWrite io op (.task i) ring = some io') :
    Sound held io' := by
  unfold vfIoWrite at hw
  split at hw
  · cases hw
    exact h.free
  · cases hw
    split
    · exact (h.prepare op).submit
    · exact h.prepare op

/-! ## Completions -/

/-- A callback's writes and its verdict: nothing, and the task is done; or one datagram from
the task's buffer, and the task stays in use. -/
inductive Tidy : List Out × TaskState → Prop where
  | silent : Tidy ([], .done)
  | sent (bytes : List UInt8) (dst : SockAddr) : Tidy ([.udpSend bytes dst], .use)

variable {σ ι : Type}

theorem Sound.readDone {io io' : VfIo} {i : Nat} {s s' : σ} {op : UInt32} {c : Completion ι}
    {cb : σ → ι → Nat → σ × List Out × TaskState} (h : Sound [i] io)
    (ht : Tidy (cb s c.input c.res.toNat).2)
    (hr : readDone io s (.task i) op c cb = some (io', s')) : Sound [] io' := by
  unfold Io.readDone at hr
  generalize cb s c.input c.res.toNat = r at ht hr
  obtain ⟨s1, outs, verdict⟩ := r
  cases ht with
  | silent =>
    simp only [writeOuts] at hr
    split at hr
    · cases hr
    · rename_i hread
      cases hr
      exact (h.read hread).free
  | sent bytes dst =>
    -- the send takes the task over, and `IO_TASK_USE` leaves it there
    simp only [writeOuts] at hr
    split at hr
    · cases hr
    · rename_i hwrite
      obtain ⟨io₁, hw, hio⟩ := Option.bind_eq_some_iff.mp hwrite
      cases hio
      split at hr
      · cases hr
      · rename_i hread
        cases hr
        exact (h.write hw).read hread

/-- A completed operation is no longer outstanding. -/
theorem completed_perm {io : VfIo} {k : Nat} {o : Sqe} (hk : io.inFlight[k]? = some o) :
    (o :: { io with inFlight := io.inFlight.eraseIdx k }.outstanding).Perm io.outstanding := by
  obtain ⟨hlt, rfl⟩ := List.getElem?_eq_some_iff.mp hk
  exact List.perm_middle.symm.trans ((List.getElem_cons_eraseIdx_perm hlt).append_left io.queued)

/-- A completed operation gives its task to the completion loop. -/
theorem Sound.completed {io : VfIo} (h : Sound [] io) {k : Nat} {o : Sqe}
    (hk : io.inFlight[k]? = some o) :
    o.userData = .task o.buf ∧ Sound [o.buf] { io with inFlight := io.inFlight.eraseIdx k } := by
  have hp := completed_perm hk
  have hpoints : ∀ o ∈ io.queued ++ io.inFlight.eraseIdx k, o.userData = .task o.buf := fun o ho =>
    h.points o (hp.mem_iff.mp (List.mem_cons_of_mem _ ho))
  constructor
  · exact h.points _ (hp.mem_iff.mp List.mem_cons_self)
  · exact h.hand rfl rfl hpoints ((hp.map Sqe.buf).append_right io.borrowed).symm

/-- Operation `k` is a read `op` and completes with data. -/
def Received (io : VfIo) (op : UInt32) (k : Nat) (c : Completion ι) : Prop :=
  0 ≤ c.res ∧ ∃ o, io.inFlight[k]? = some o ∧ io.opAt c.bytes o.userData = op

def TidyStep (ops : VfOps σ ι) (s : VfIo × σ) : Step σ ι → Prop
  | .complete k c =>
    (Received s.1 opTunRead k c → Tidy (ops.onTunData s.2 c.input c.res.toNat).2) ∧
      (Received s.1 opUdpRecv k c → Tidy (ops.onUdpData s.2 c.input c.res.toNat).2)
  | _ => True

theorem Sound.complete {ops : VfOps σ ι} {io io' : VfIo} {s s' : σ} {k : Nat} {c : Completion ι}
    (h : Sound [] io) (ht : TidyStep ops (io, s) (.complete k c))
    (hc : io.complete ops s k c = some (io', s')) : Sound [] io' := by
  unfold VfIo.complete at hc
  split at hc
  · cases hc
  rename_i o hk
  obtain ⟨hptr, hheld⟩ := h.completed hk
  dsimp only at hc
  split at hc
  · rename_i hres
    split at hc
    · rename_i hop
      rw [hptr] at hc
      exact hheld.readDone (ht.1 ⟨hres, o, hk, hop⟩) hc
    split at hc
    · rename_i hop
      rw [hptr] at hc
      exact hheld.readDone (ht.2 ⟨hres, o, hk, hop⟩) hc
    · rw [hptr] at hc
      cases hc
      exact hheld.free
  · split at hc
    · split at hc
      · cases hc
      · rename_i hread
        rw [hptr] at hc
        cases hc
        exact (hheld.read hread).free
    · rw [hptr] at hc
      cases hc
      exact hheld.free

/-! ## Runs -/

theorem Sound.unborrow {io : VfIo} (h : Sound [] io) {i : Nat} (hi : i ∈ io.borrowed) :
    Sound [i] { io with borrowed := io.borrowed.erase i } := by
  have hp : io.borrowed.Perm (i :: io.borrowed.erase i) := List.perm_cons_erase hi
  exact h.hand rfl rfl h.points ((hp.append_left _).trans List.perm_middle)

/-- **One step of the engine.** -/
theorem Sound.next {ops : VfOps σ ι} {io : VfIo} {s : σ} {l : Step σ ι} {s' : VfIo × σ}
    (h : Sound [] io) (ht : TidyStep ops (io, s) l) (hn : io.next ops s l = some s') :
    Sound [] s'.1 := by
  cases l with
  | read tun ring =>
    obtain ⟨io', hr, rfl⟩ := Option.map_eq_some_iff.mp hn
    exact h.read hr
  | submit =>
    cases hn
    exact h.submit
  | complete k c => exact h.complete ht hn
  | borrow =>
    obtain ⟨⟨io', r⟩, hr, rfl⟩ := Option.map_eq_some_iff.mp hn
    have hs : Sound (r.toList ++ []) io' := h.getTask hr
    rw [List.append_nil] at hs
    exact hs.hand rfl rfl hs.points (List.perm_append_comm_assoc _ _ _)
  | send i ring =>
    simp only [VfIo.next] at hn
    split at hn
    · rename_i hi
      obtain ⟨io', hw, rfl⟩ := Option.map_eq_some_iff.mp hn
      exact (h.unborrow hi).write hw
    · cases hn
  | rollback i =>
    simp only [VfIo.next] at hn
    split at hn
    · rename_i hi
      cases hn
      exact (h.unborrow hi).free
    · cases hn
  | other t =>
    cases hn
    exact h

/-- **Every run of tidy steps.** -/
theorem reachable_sound {ops : VfOps σ ι} {start : σ → Prop} {other : σ → σ → Prop}
    {ok : VfIo × σ → Step σ ι → Prop} (hok : ∀ s l, ok s l → TidyStep ops s l) {s : VfIo × σ}
    (h : ReachableBy (ioRuns ops start other) ok s) : Sound [] s.1 := by
  apply h.invariant fun s => Sound [] s.1
  · rintro s ⟨⟨n, hn, -, he⟩, -⟩
    rw [he]
    exact sound_init hn
  · intro s l s' hs hl hstep
    exact hs.next (hok s l hl) hstep.1

/-! ## Definedness -/

/-- The step is possible: there is such an operation in flight, or such a borrowed task. -/
def Possible (io : VfIo) : Step σ ι → Prop
  | .complete k _ => k < io.inFlight.length
  | .send i _ => i ∈ io.borrowed
  | .rollback i => i ∈ io.borrowed
  | _ => True

/-- One more search of the pool does not wrap `pool_idx`. -/
def InRange (io : VfIo) : Prop := 0 ≤ io.poolIdx ∧ io.poolIdx + io.poolSize ≤ 0x80000000

theorem vfIoRead_defined {io : VfIo} (h : InRange io) (op : UInt32) (ring : Ring) :
    ∃ io', vfIoRead io op ring = some io' := by
  obtain ⟨⟨io', r⟩, hr⟩ := getTaskLoop_defined (Or.inr h)
  have hg : getTaskFromInstance io = some (io', r) := hr
  unfold vfIoRead
  rw [hg]
  cases r with
  | none => exact ⟨_, rfl⟩
  | some i =>
    cases ring.sqe with
    | true => exact ⟨_, rfl⟩
    | false => exact ⟨_, rfl⟩

theorem release_pool {io io' : VfIo} {p : TaskPtr} (h : io.release p = some io') :
    io'.poolSize = io.poolSize ∧ io'.poolIdx = io.poolIdx ∧ io'.outstanding = io.outstanding := by
  cases p with
  | task i =>
    cases h
    exact ⟨rfl, rfl, rfl⟩
  | inside i =>
    obtain ⟨-, he⟩ := Option.ite_none_right_eq_some.mp h
    cases he
    exact ⟨rfl, rfl, rfl⟩

theorem write_pool {io io' : VfIo} {op : UInt32} {p : TaskPtr} {ring : Ring}
    (h : vfIoWrite io op p ring = some io') :
    io'.poolSize = io.poolSize ∧ io'.poolIdx = io.poolIdx := by
  unfold vfIoWrite at h
  split at h
  · obtain ⟨hsize, hidx, -⟩ := release_pool h
    exact ⟨hsize, hidx⟩
  · cases h
    split <;> cases p <;> exact ⟨rfl, rfl⟩

theorem InRange.write {io io' : VfIo} {op : UInt32} {p : TaskPtr} {ring : Ring} (h : InRange io)
    (hw : vfIoWrite io op p ring = some io') : InRange io' := by
  obtain ⟨hsize, hidx⟩ := write_pool hw
  unfold InRange
  rw [hsize, hidx]
  exact h

theorem vfIoWrite_defined (io : VfIo) (op : UInt32) (i : Nat) (ring : Ring) :
    ∃ io', vfIoWrite io op (.task i) ring = some io' := by
  unfold vfIoWrite
  cases ring.sqe with
  | true => exact ⟨_, rfl⟩
  | false => exact ⟨_, rfl⟩

theorem readDone_defined {io : VfIo} (h : InRange io) {s : σ} {i : Nat} (op : UInt32)
    {c : Completion ι} {cb : σ → ι → Nat → σ × List Out × TaskState}
    (ht : Tidy (cb s c.input c.res.toNat).2) : ∃ s', readDone io s (.task i) op c cb = some s' := by
  unfold readDone
  generalize cb s c.input c.res.toNat = r at ht
  obtain ⟨s1, outs, verdict⟩ := r
  cases ht with
  | silent =>
    obtain ⟨io', hr⟩ := vfIoRead_defined h op c.read
    simp [writeOuts, hr, VfIo.release]
  | sent bytes dst =>
    obtain ⟨io₁, hw⟩ := vfIoWrite_defined io opUdpSend i c.write
    obtain ⟨io', hr⟩ := vfIoRead_defined (h.write hw) op c.read
    simp [writeOuts, hw, hr]

theorem complete_defined {ops : VfOps σ ι} {io : VfIo} {s : σ} {k : Nat} {c : Completion ι}
    (h : InRange io) (hs : Sound [] io) (hk : k < io.inFlight.length)
    (ht : TidyStep ops (io, s) (.complete k c)) : ∃ s', io.complete ops s k c = some s' := by
  have hget : io.inFlight[k]? = some io.inFlight[k] := List.getElem?_eq_getElem hk
  have hrest : InRange { io with inFlight := io.inFlight.eraseIdx k } := h
  have hptr := (hs.completed hget).1
  have hat := congrArg (io.opAt c.bytes) hptr
  unfold VfIo.complete
  rw [hget]
  dsimp only
  rw [hptr]
  split
  · rename_i hres
    split
    · rename_i hop
      exact readDone_defined hrest _ (ht.1 ⟨hres, _, hget, hat.trans hop⟩)
    split
    · rename_i hop
      exact readDone_defined hrest _ (ht.2 ⟨hres, _, hget, hat.trans hop⟩)
    · exact ⟨_, rfl⟩
  · split
    · obtain ⟨io', hr⟩ := vfIoRead_defined hrest (io.opAt c.bytes (.task io.inFlight[k].buf)) c.read
      rw [hr]
      exact ⟨_, rfl⟩
    · exact ⟨_, rfl⟩

/-- A possible step of tidy callbacks does not leave the pool. -/
theorem next_defined {ops : VfOps σ ι} {io : VfIo} {s : σ} {l : Step σ ι} (h : InRange io)
    (hs : Sound [] io) (hp : Possible io l) (ht : TidyStep ops (io, s) l) :
    ∃ s', io.next ops s l = some s' := by
  cases l with
  | read tun ring =>
    obtain ⟨io', hr⟩ := vfIoRead_defined h (if tun then opTunRead else opUdpRecv) ring
    exact ⟨_, Option.map_eq_some_iff.mpr ⟨io', hr, rfl⟩⟩
  | submit => exact ⟨_, rfl⟩
  | complete k c => exact complete_defined h hs hp ht
  | borrow =>
    obtain ⟨r, hr⟩ := getTaskLoop_defined (Or.inr h)
    exact ⟨_, Option.map_eq_some_iff.mpr ⟨r, hr, rfl⟩⟩
  | send i ring =>
    obtain ⟨io', hw⟩ :=
      vfIoWrite_defined { io with borrowed := io.borrowed.erase i } opUdpSend i ring
    exact ⟨_, (if_pos hp).trans (congrArg (Option.map _) hw)⟩
  | rollback i => exact ⟨_, if_pos hp⟩
  | other t => exact ⟨_, rfl⟩

/-! ## A buffer that is returned and written from -/

theorem write_perm {io io' : VfIo} {op : UInt32} {p : TaskPtr} {ring : Ring}
    (h : ring.sqe = true) (hw : vfIoWrite io op p ring = some io') :
    ((⟨op, p, p.index⟩ : Sqe) :: io.outstanding).Perm io'.outstanding := by
  simp only [vfIoWrite, h, Bool.not_true, Bool.false_eq_true, if_false] at hw
  cases hw
  split
  · exact (prepare_perm io op p).trans (submit_perm _)
  · exact prepare_perm io op p

theorem write_outstanding {io io' : VfIo} {op : UInt32} {p : TaskPtr} {ring : Ring}
    (h : ring.sqe = true) (hw : vfIoWrite io op p ring = some io') :
    ⟨op, p, p.index⟩ ∈ io'.outstanding :=
  (write_perm h hw).mem_iff.mp List.mem_cons_self

theorem getTask_outstanding {io io' : VfIo} {r : Option Nat} (hs : 0 < io.poolSize)
    (hg : getTaskFromInstance io = some (io', r)) : io'.outstanding = io.outstanding := by
  obtain ⟨idx, he | ⟨i, -, -, he⟩⟩ := getTaskLoop_cases hs hg
  · cases he
    rfl
  · cases he
    rfl

theorem read_outstanding {io io' : VfIo} {op : UInt32} {ring : Ring} {o : Sqe}
    (hs : 0 < io.poolSize) (hr : vfIoRead io op ring = some io') (ho : o ∈ io.outstanding) :
    o ∈ io'.outstanding := by
  unfold vfIoRead at hr
  split at hr
  · cases hr
  · rename_i hg
    cases hr
    rw [getTask_outstanding hs hg]
    exact ho
  · rename_i hg
    rw [← getTask_outstanding hs hg] at ho
    split at hr
    · cases hr
      exact (prepare_perm _ _ _).mem_iff.mp (List.mem_cons_of_mem _ ho)
    · cases hr
      exact ho

/-- The first write of a callback is a call of `vf_io_write` on the task it got, and the others
follow it. -/
theorem writeOuts_cons {io io' : VfIo} {p : TaskPtr} {ring : Ring} {w : Out} {outs : List Out}
    (hw : writeOuts p ring io (w :: outs) = some io') :
    ∃ op q io₁, (op = opUdpSend ∨ op = opTunWrite) ∧ q.index = p.index ∧
      vfIoWrite io op q ring = some io₁ ∧ writeOuts p ring io₁ outs = some io' := by
  cases w with
  | udpSend bytes dst =>
    obtain ⟨io₁, hfirst, hrest⟩ := Option.bind_eq_some_iff.mp hw
    exact ⟨opUdpSend, p, io₁, .inl rfl, rfl, hfirst, hrest⟩
  | tunWrite bytes =>
    obtain ⟨io₁, hfirst, hrest⟩ := Option.bind_eq_some_iff.mp hw
    exact ⟨opTunWrite, .inside p.index, io₁, .inr rfl, rfl, hfirst, hrest⟩
  | tunNull => cases hw

/-- The write of a callback, whatever it writes, works on the buffer that the callback got. -/
theorem writeOuts_outstanding {io io' : VfIo} {i : Nat} {ring : Ring} {w : Out}
    (hs : 0 < io.poolSize) (h : ring.sqe = true)
    (hw : writeOuts (.task i) ring io [w] = some io') :
    0 < io'.poolSize ∧ ∃ o ∈ io'.outstanding, o.buf = i := by
  obtain ⟨op, q, io₁, -, hq, hwrite, hio⟩ := writeOuts_cons hw
  cases hio
  rw [(write_pool hwrite).1]
  exact ⟨hs, _, write_outstanding h hwrite, hq⟩

/-- **A datagram whose callback writes from the buffer and gives it back**: an operation is
left on a buffer that is free. -/
theorem Sound.disowned {ops : VfOps σ ι} {io : VfIo} (h : Sound [] io) {s : σ} {k : Nat}
    {c : Completion ι} {w : Out} {s' : VfIo × σ} (hk : Received io opUdpRecv k c)
    (hcb : (ops.onUdpData s c.input c.res.toNat).2 = ([w], .done)) (hsqe : c.write.sqe = true)
    (hn : io.next ops s (.complete k c) = some s') : ¬ OneOwner s'.1 := by
  obtain ⟨hres, o, hget, hop⟩ := hk
  obtain ⟨hptr, hheld⟩ := h.completed hget
  have htun : opUdpRecv ≠ opTunRead := by decide
  simp only [VfIo.next, VfIo.complete, hget, hop, hres, htun, if_true, if_false] at hn
  rw [hptr] at hn
  simp only [Io.readDone, hcb, if_true] at hn
  split at hn
  · cases hn
  rename_i hw
  obtain ⟨hs1, o1, ho1, hbuf⟩ := writeOuts_outstanding hheld.pool hsqe hw
  split at hn
  · cases hn
  rename_i hr
  cases hn
  have ho2 := read_outstanding hs1 hr ho1
  -- the release comes last, after the read has taken a task of its own
  intro hown
  have hbusy := (hown.owned o1 ho2).2
  rw [hbuf] at hbusy
  simp [VfIo.free] at hbusy

/-! ## Runs that spare the engine -/

def Spares (bad : σ → ι → Nat → Prop) (s : VfIo × σ) : Step σ ι → Prop
  | .complete k c => Received s.1 opUdpRecv k c → ¬ bad s.2 c.input c.res.toNat
  | _ => True

/-- A state of the engine in which buffers have one owner, which every possible step without a
`bad` datagram leaves for a state (and not the pool), and in which a `bad` datagram breaks
the ownership as soon as its write gets a queue entry. -/
structure Governed (ops : VfOps σ ι) (bad : σ → ι → Nat → Prop) (s : VfIo × σ) : Prop where
  oneOwner : OneOwner s.1
  defined : ∀ l, InRange s.1 → Possible s.1 l → Spares bad s l →
    ∃ s', s.1.next ops s.2 l = some s'
  broken : ∀ k c s', Received s.1 opUdpRecv k c → bad s.2 c.input c.res.toNat →
    c.write.sqe = true → s.1.next ops s.2 (.complete k c) = some s' → ¬ OneOwner s'.1

theorem governed {ops : VfOps σ ι} {bad : σ → ι → Nat → Prop} {start : σ → Prop}
    {other : σ → σ → Prop} {s : VfIo × σ} (htun : ∀ s x n, Tidy (ops.onTunData s x n).2)
    (hudp : ∀ s x n, ¬ bad s x n → Tidy (ops.onUdpData s x n).2)
    (hbad : ∀ s x n, bad s x n → ∃ o, (ops.onUdpData s x n).2 = ([o], .done))
    (h : ReachableBy (ioRuns ops start other) (Spares bad) s) : Governed ops bad s := by
  have htidy : ∀ s l, Spares bad s l → TidyStep ops s l := by
    intro s l hl
    cases l with
    | complete k c => exact ⟨fun _ => htun _ _ _, fun hr => hudp _ _ _ (hl hr)⟩
    | _ => trivial
  have hs : Sound [] s.1 := reachable_sound htidy h
  refine ⟨hs.oneOwner, ?_, ?_⟩
  · intro l hw hp hl
    exact next_defined hw hs hp (htidy s l hl)
  · intro k c s' hk hb hsqe hn
    obtain ⟨o, ho⟩ := hbad _ _ _ hb
    exact hs.disowned hk ho hsqe hn

/-! ## The server's callbacks -/

section

variable (A : Aead) (hmac : List UInt8 → List UInt8 → Block 32)

theorem Answers.tidy {outs : List Out} {isuse : Bool} (h : Answers (outs, isuse)) :
    Tidy (outs, if isuse then .use else .done) := by
  cases h with
  | silent => exact .silent
  | sent bytes dst => exact .sent bytes dst

theorem rekeyReq_stale (srv : VfastServer) (env : Env) (p : Ptr) {buf : Mem} {plen : Nat}
    (src : SockAddr) (hty : MsgType.ofCode (buf offMsgType) = some .rekeyReq)
    (h : ¬ Newer (srv.sessions.heap p) buf plen) :
    (vfastHandleRekeyReq A srv env p buf plen src).2 = [] := by
  unfold vfastHandleRekeyReq
  split
  · rfl
  · rename_i h36
    have hle : carriedId buf ≤ (srv.sessions.heap p).secCtx.activeKey.id :=
      UInt32.not_lt.mp fun hlt => h ⟨hty, Nat.not_lt.mp h36, hlt⟩
    have hst : rekeyStage (srv.sessions.heap p).secCtx (bswap32 (buf.load32 hlen))
        (Block.ofList 32 (buf.read (hlen + 4) 32)) env.now = none := if_pos hle
    simp only [hst]

theorem rekeyReq_newer {srv : VfastServer} (env : Env) {p : Ptr} {buf : Mem} {plen : Nat}
    (src : SockAddr) (h : Newer (srv.sessions.heap p) buf plen) :
    ∃ o, (vfastHandleRekeyReq A srv env p buf plen src).2 = [o] := by
  have hst : rekeyStage (srv.sessions.heap p).secCtx (bswap32 (buf.load32 hlen))
      (Block.ofList 32 (buf.read (hlen + 4) 32)) env.now = some _ :=
    if_neg (UInt32.not_le.mpr h.larger)
  unfold vfastHandleRekeyReq
  rw [if_neg (Nat.not_lt.mpr h.whole)]
  simp only [hst, VfastServer.packSend]
  obtain ⟨tlen, ht⟩ := ServerInv.vfPack_small A srv.statics env.urandom
    (some { (srv.sessions.heap p).secCtx with
      nextKey := ⟨Block.ofList 32 (buf.read (hlen + 4) 32), bswap32 (buf.load32 hlen), 0,
        env.now⟩ })
    (buf.write hlen (le32 (bswap32 (bswap32 (buf.load32 hlen))))) 4 .rekeyAck
    (srv.sessions.heap p).sid (by decide)
  exact ⟨_, by rw [ht]; rfl⟩

/-- **The verdict of the dispatch** fits what it submitted, except after a DATA packet and a
REKEY_REQ with a newer key. -/
theorem dispatch_answers {srv : VfastServer} (env : Env) {s : Option Ptr} (sid : UInt32)
    {buf : Mem} {plen : Nat} (src : SockAddr) (hd : buf offMsgType ≠ MsgType.data.code)
    (hr : ∀ p, s = some p → ¬ Newer (srv.sessions.heap p) buf plen) :
    Answers (dispatch A hmac srv env s sid buf plen src).2 := by
  unfold dispatch
  split
  · rename_i hty
    exact absurd (MsgType.code_of_ofCode hty).symm hd
  · exact hello_answers A hmac _ _ _ _ _
  · exact auth_answers A hmac _ _ _ _ _
  · exact echo_answers A _ _ _ _ _ _ _
  · exact .silent
  · split <;> exact .silent
  · rename_i hty
    cases s with
    | none => exact .silent
    | some p =>
      dsimp only
      rw [rekeyReq_stale A srv env p src hty (hr p rfl)]
      exact .silent
  · exact .silent

def DataDelivered (srv : VfastServer) (data : Mem) (len : Nat) : Prop :=
  hlen ≤ len ∧ typeOf data len = MsgType.data.code ∧ (unpackFor A srv data len).2 ≠ none

/-- The datagrams after which `server_on_udp` returns a buffer that it writes from. -/
def Forwarded (srv : VfastServer) (p : Packet Env) (len : Nat) : Prop :=
  DataDelivered A srv p.data len ∨ ∃ q buf, RekeyAccepted A srv q p.data len buf

/-- The count of the bytes does not make a request newer. -/
theorem newer_counted (srv : VfastServer) (s : Option Ptr) (len : Nat) (p : Ptr) (buf : Mem)
    (plen : Nat) : Newer ((srv.countBytes s len).sessions.heap p) buf plen ↔
      Newer (srv.sessions.heap p) buf plen := by
  have hid : ((srv.countBytes s len).sessions.heap p).secCtx.activeKey.id =
      (srv.sessions.heap p).secCtx.activeKey.id := by
    cases s with
    | none => rfl
    | some q =>
      simp only [VfastServer.countBytes, VfastServer.setCtx, modify_heap]
      split
      · rename_i e
        rw [e]
        rfl
      · rfl
  constructor
  · intro h
    exact ⟨h.type, h.whole, hid ▸ h.larger⟩
  · intro h
    exact ⟨h.type, h.whole, hid.symm ▸ h.larger⟩

theorem serverOnUdp_tidy {srv : VfastServer} {p : Packet Env} {len : Nat}
    (h : ¬ Forwarded A srv p len) : Tidy ((serverOps A hmac).onUdpData srv p len).2 := by
  change Tidy (serverOnUdp A hmac srv p.env p.data len p.src).2
  rcases unpackFor_cases A srv p.data len with hnone | ⟨hl, buf, plen, hun⟩
  · rw [(serverOnUdp_dropped A hmac p.env p.src hnone).1]
    exact .silent
  · obtain ⟨stats, heq⟩ := serverOnUdp_dispatched A hmac p.env p.src hl hun
    rw [heq _ rfl]
    apply Answers.tidy
    apply dispatch_answers
    · intro hty
      rw [(unpackFor_header A hun).1] at hty
      exact h (Or.inl ⟨hl, hty, by simp [hun]⟩)
    · intro q hs hnew
      have hnew' := (newer_counted { srv with stats := stats } _ _ _ _ _).mp hnew
      exact h (Or.inr ⟨q, _, plen, ⟨hl, hs, hun⟩, hnew'⟩)

theorem serverOnUdp_forwarded {srv : VfastServer} {p : Packet Env} {len : Nat}
    (h : Forwarded A srv p len) :
    ∃ o, ((serverOps A hmac).onUdpData srv p len).2 = ([o], .done) := by
  change ∃ o, (serverOnUdp A hmac srv p.env p.data len p.src).2 = ([o], .done)
  rcases h with ⟨hl, hty, hne⟩ | ⟨q, buf, plen, hre, hnew⟩
  · obtain ⟨plen, hp⟩ := Option.ne_none_iff_exists'.mp hne
    have hun : unpackFor A srv p.data len = ((unpackFor A srv p.data len).1, some plen) :=
      Prod.ext rfl hp
    obtain ⟨stats, heq⟩ := serverOnUdp_dispatched A hmac p.env p.src hl hun
    have hcode : MsgType.ofCode ((unpackFor A srv p.data len).1 offMsgType) = some .data := by
      rw [(unpackFor_header A hun).1, hty, MsgType.ofCode_code]
    rw [heq _ rfl]
    simp only [dispatch, hcode]
    exact ⟨_, rfl⟩
  · obtain ⟨stats, heq⟩ := serverOnUdp_dispatched A hmac p.env p.src hre.len_ge hre.unpack
    have hnew' : Newer ((({ srv with stats := stats } : VfastServer).countBytes
        (sessionFor srv p.data len) len).sessions.heap q) buf plen :=
      (newer_counted { srv with stats := stats } _ _ _ _ _).mpr hnew
    obtain ⟨o, ho⟩ := rekeyReq_newer A p.env p.src hnew'
    rw [heq _ rfl]
    rw [hre.session] at ho ⊢
    simp only [dispatch, hnew.type, ho]
    exact ⟨o, rfl⟩

theorem serverOnTun_tidy (srv : VfastServer) (p : Packet Env) (len : Nat) :
    Tidy ((serverOps A hmac).onTunData srv p len).2 := by
  change Tidy (serverOnTun A srv p.env p.data len).2
  unfold serverOnTun
  split
  · exact .silent
  dsimp only
  split
  · exact .silent
  split
  · exact .silent
  · rename_i hs
    obtain ⟨bytes, dst, rfl⟩ := packSend_isSend A _ _ _ _ _ _ _ _ _ (congrArg Prod.snd hs)
    exact .sent bytes dst

/-! ## The client's callbacks -/

def DataConnected (c : VfastClient) (p : Packet ClientEnv) (len : Nat) : Prop :=
  hlen ≤ len ∧ typeOf p.data len = MsgType.data.code ∧ vfFsmIsConnected c = true

theorem clientOnUdp_tidy {c : VfastClient} {p : Packet ClientEnv} {len : Nat}
    (h : ¬ DataConnected c p len) : Tidy ((clientOps A).onUdpData c p len).2 := by
  change Tidy (clientOnUdp A c p.env p.data len p.src).2
  by_cases hl : hlen ≤ len
  · rw [ClientKeys.clientOnUdp_eq A hl]
    split
    · rename_i hty
      have hidle : vfFsmIsConnected (vfFsmUpdate c p.env.now) ≠ true := fun hc =>
        h ⟨hl, (MsgType.code_of_ofCode hty).symm, hc⟩
      have hnone : clientHandleData (vfFsmUpdate c p.env.now)
          (ClientKeys.unpacked A c p.data len).1 (ClientKeys.unpacked A c p.data len).2 = [] :=
        if_pos (by simpa using hidle)
      rw [hnone]
      exact .silent
    · exact .silent
    · dsimp only [clientHandleDpd]
      cases (vfPack A (vfFsmUpdate c p.env.now).statics p.env.urandom
        (some (vfFsmUpdate c p.env.now).ctx) (ClientKeys.unpacked A c p.data len).1 16 bufSize
        .dpdResponse (vfFsmUpdate c p.env.now).fsm.sid).2.2 with
      | none => exact .silent
      | some tlen => exact .sent _ _
    · exact .silent
    · exact .silent
    · exact .silent
  · rw [clientOnUdp, if_pos (by omega)]
    exact .silent

theorem clientOnUdp_data {c : VfastClient} {p : Packet ClientEnv} {len : Nat}
    (h : DataConnected c p len) :
    ∃ o, ((clientOps A).onUdpData c p len).2 = ([o], .done) := by
  change ∃ o, (clientOnUdp A c p.env p.data len p.src).2 = ([o], .done)
  obtain ⟨hl, hty, hc⟩ := h
  have hcode : vfRemoveHeaderObfs p.data len offMsgType = MsgType.data.code := hty
  have hcon : vfFsmIsConnected (vfFsmUpdate c p.env.now) = true := hc
  rw [ClientKeys.clientOnUdp_eq A hl, hcode, MsgType.ofCode_code]
  simp only [clientHandleData, hcon]
  cases (ClientKeys.unpacked A c p.data len).2 with
  | none => exact ⟨_, rfl⟩
  | some plen => exact ⟨_, rfl⟩

theorem clientOnTun_tidy (c : VfastClient) (p : Packet ClientEnv) (len : Nat) :
    Tidy ((clientOps A).onTunData c p len).2 := by
  change Tidy (clientOnTun A c p.env p.data len).2
  unfold clientOnTun
  split
  · exact .silent
  dsimp only
  split
  · exact .silent
  · exact .sent _ _

/-! ## The engine under the two ends -/

/-- **Every run of the server's and of the client's engine** whose datagrams spare it: buffers
have one owner. It is exact: the datagrams that it excludes break it. -/
theorem buffers_have_one_owner :
    (∀ s, ReachableBy (serverIo A hmac) (Spares (Forwarded A)) s →
      Governed (serverOps A hmac) (Forwarded A) s) ∧
    (∀ s, ReachableBy (clientIo A) (Spares DataConnected) s →
      Governed (clientOps A) DataConnected s) := by
  constructor
  · intro s h
    exact governed (serverOnTun_tidy A hmac) (fun _ _ _ => serverOnUdp_tidy A hmac)
      (fun _ _ _ => serverOnUdp_forwarded A hmac) h
  · intro s h
    exact governed (clientOnTun_tidy A) (fun _ _ _ => clientOnUdp_tidy A)
      (fun _ _ _ => clientOnUdp_data A) h

end

/-! ## A first login and its first packet -/

/-- A step of the server's engine; where it is undefined the engine stays. -/
def advance (s : VfIo × VfastServer) (l : Step VfastServer (Packet Env)) : VfIo × VfastServer :=
  (s.1.next (serverOps markAead zeroHmac) s.2 l).getD s

theorem advance_reachable {ok : VfIo × VfastServer → Step VfastServer (Packet Env) → Prop}
    {s : VfIo × VfastServer} (hr : ReachableBy (serverIo markAead zeroHmac) ok s)
    {l : Step VfastServer (Packet Env)} (hok : ok s l) (hl : ∀ t, l ≠ .other t) :
    ReachableBy (serverIo markAead zeroHmac) ok (advance s l) := by
  unfold advance
  cases hn : s.1.next (serverOps markAead zeroHmac) s.2 l with
  | none => exact hr
  | some s' => exact .step hr hok ⟨hn, fun t e => absurd e (hl t)⟩

theorem foldl_reachable {ok : VfIo × VfastServer → Step VfastServer (Packet Env) → Prop}
    {ls : List (Step VfastServer (Packet Env))}
    (hls : ∀ l ∈ ls, (∀ s, ok s l) ∧ ∀ t, l ≠ .other t) {s : VfIo × VfastServer}
    (hr : ReachableBy (serverIo markAead zeroHmac) ok s) :
    ReachableBy (serverIo markAead zeroHmac) ok (ls.foldl advance s) := by
  induction ls generalizing s with
  | nil => exact hr
  | cons l ls ih =>
    obtain ⟨hok, hne⟩ := hls l List.mem_cons_self
    exact ih (fun l hl => hls l (List.mem_cons_of_mem _ hl)) (advance_reachable hr (hok s) hne)

def room : Ring := ⟨true, false⟩

def warmUp : List (Step VfastServer (Packet Env)) :=
  (List.replicate 16 [.read true room, .read false room]).flatten ++ [.submit]

/-- A datagram of `res` bytes, whose handler submits at once or leaves it to the loop. -/
def received (res : Int) (flush : Bool) (env : Env) (data : Mem) : Completion (Packet Env) :=
  ⟨res, ⟨env, data, ⟨0, 0⟩⟩, 0, ⟨true, flush⟩, room⟩

def listening : VfIo × VfastServer := warmUp.foldl advance (vfIoInit 2048, startedServer 0x0000000A)

/-- An AUTH_REQ completes the first receive and is answered from its buffer. -/
def loggedIn : VfIo × VfastServer :=
  advance (advance listening
    (.complete 1 (received 172 true (authEnv (some fun _ => 1) 0) authDatagram))) .submit

def dataArrived : VfIo × VfastServer :=
  advance (advance loggedIn (.complete 2 (received 80 false (authEnv none 0) dataDatagram))) .submit

theorem listening_reachable :
    ReachableBy (serverIo markAead zeroHmac) (Spares (Forwarded markAead)) listening := by
  have hquiet : ∀ l ∈ warmUp, (∀ s, Spares (Forwarded markAead) s l) ∧ ∀ t, l ≠ .other t := by
    intro l hl
    simp only [warmUp, List.mem_append, List.mem_flatten, List.mem_replicate] at hl
    rcases hl with ⟨_, ⟨-, rfl⟩, hl⟩ | hl
    · rcases List.mem_pair.mp hl with rfl | rfl
      · exact ⟨fun _ => trivial, nofun⟩
      · exact ⟨fun _ => trivial, nofun⟩
    · rw [List.mem_singleton.mp hl]
      exact ⟨fun _ => trivial, nofun⟩
  have h0 : ReachableBy (serverIo markAead zeroHmac) (Spares (Forwarded markAead))
      (vfIoInit 2048, startedServer 0x0000000A) :=
    .init ⟨⟨2048, by decide, by decide, rfl⟩, startedServer_started (by decide)⟩
  exact foldl_reachable hquiet h0

theorem auth_spared (srv : VfastServer) :
    ¬ Forwarded markAead srv ⟨authEnv (some fun _ => 1) 0, authDatagram, ⟨0, 0⟩⟩ 172 := by
  rintro (⟨_, hty, _⟩ | ⟨q, buf, plen, hre, hnew⟩)
  · exact absurd hty (by decide)
  · have hty := (MsgType.code_of_ofCode hnew.type).trans hre.type
    exact absurd hty (by decide)

theorem loggedIn_reachable :
    ReachableBy (serverIo markAead zeroHmac) (Spares (Forwarded markAead)) loggedIn := by
  have h1 := advance_reachable listening_reachable
    (l := .complete 1 (received 172 true (authEnv (some fun _ => 1) 0) authDatagram))
    (fun _ => auth_spared _) nofun
  exact advance_reachable h1 (l := .submit) trivial nofun

/-- After the login the answer is in flight besides 32 reads. -/
theorem login_keeps_owners :
    (loggedIn.1.inFlight.length = 33 ∧ ⟨opUdpSend, .task 1, 1⟩ ∈ loggedIn.1.inFlight) ∧
      OneOwner loggedIn.1 :=
  ⟨by decide +kernel,
    ((buffers_have_one_owner markAead zeroHmac).1 _ loggedIn_reachable).oneOwner⟩

/-- After the first DATA packet its TUN write is in flight from a buffer that is free. -/
theorem tun_write_buffer_free :
    ∃ s, Reachable (serverIo markAead zeroHmac) s ∧
      ∃ o ∈ s.1.inFlight, o.op = opTunWrite ∧ s.1.inUse o.buf = false := by
  have h0 : Reachable (serverIo markAead zeroHmac) loggedIn :=
    loggedIn_reachable.mono fun _ _ _ => trivial
  have h1 := advance_reachable h0
    (l := .complete 2 (received 80 false (authEnv none 0) dataDatagram)) trivial nofun
  have h2 := advance_reachable h1 (l := .submit) trivial nofun
  refine ⟨dataArrived, h2, ⟨opTunWrite, .inside 3, 3⟩, ?_, rfl, ?_⟩
  · decide +kernel
  · decide +kernel

end Vfast.IoOwners
