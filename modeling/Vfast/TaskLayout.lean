import Vfast.Io
import Vfast.Lib.Writes

/-! The layout of a task (`vf_task_t` of `io.h`) and the pointer arithmetic on it.
`vfast_data_to_task` is right for a pointer to the buffer. The DATA handlers pass the payload
behind the packet header instead, and get an address inside the task from which the engine
writes into packet buffers. -/

namespace Vfast.TaskLayout

open Bytes Writes Protocol Io

/-! ## The layout -/

inductive TaskField where
  | op | buf | iov | msg | addr | addrLen | inUse
  deriving DecidableEq

def TaskField.size : TaskField → Nat
  | .op => 4
  | .buf => bufSize
  | .iov => 16
  | .msg => 56
  | .addr => 16
  | .addrLen => 4
  | .inUse => 1

def TaskField.align : TaskField → Nat
  | .op | .addr | .addrLen => 4
  | .buf | .inUse => 1
  | .iov | .msg => 8

def alignUp (n a : Nat) : Nat := (n + a - 1) / a * a

/-- Each field stands at the first multiple of its alignment behind the fields before it. -/
def place : Nat → List TaskField → List (TaskField × Nat)
  | _, [] => []
  | off, f :: fs => (f, alignUp off f.align) :: place (alignUp off f.align + f.size) fs

def TaskField.offset (f : TaskField) : Nat :=
  ((place 0 [.op, .buf, .iov, .msg, .addr, .addrLen, .inUse]).lookup f).getD 0

def sizeofTask : Nat := alignUp (TaskField.inUse.offset + TaskField.inUse.size) 8

theorem offset_eq (f : TaskField) : f.offset =
    match f with
    | .op => 0
    | .buf => 4
    | .iov => 2056
    | .msg => 2072
    | .addr => 2128
    | .addrLen => 2144
    | .inUse => 2148 := by
  cases f <;> rfl

theorem sizeofTask_eq : sizeofTask = 2152 := rfl

/-! ## Addresses -/

def taskAddr (pool i : Nat) : Nat := pool + i * sizeofTask

def bufAddr (pool i : Nat) : Nat := taskAddr pool i + TaskField.buf.offset

def vfastDataToTask (d : Nat) : Nat := d - TaskField.buf.offset

def opOf (pool i : Nat) (m : Mem) : UInt32 := m.load32 (taskAddr pool i + TaskField.op.offset)

def inUseOf (pool i : Nat) (m : Mem) : Bool := m (taskAddr pool i + TaskField.inUse.offset) != 0

/-! ## The writes of the engine -/

def releaseWrites (task : Nat) : List Write := [⟨task + TaskField.inUse.offset, [0]⟩]

/-- What `vf_io_write` stores for a datagram. A `struct iovec` holds the base and the length, a
`struct msghdr` the name, its length, the vector and its length. -/
def datagramWrites (task data : Nat) (len : UInt64) (dest : Block 16) : List Write :=
  [⟨task + TaskField.iov.offset, leBytes 8 data⟩,
    ⟨task + TaskField.iov.offset + 8, le64 len⟩,
    ⟨task + TaskField.addrLen.offset, le32 16⟩,
    ⟨task + TaskField.addr.offset, dest.toList⟩,
    ⟨task + TaskField.msg.offset, leBytes 8 (task + TaskField.addr.offset)⟩,
    ⟨task + TaskField.msg.offset + 8, le32 16⟩,
    ⟨task + TaskField.msg.offset + 16, leBytes 8 (task + TaskField.iov.offset)⟩,
    ⟨task + TaskField.msg.offset + 24, le64 1⟩]

/-- The writes of `vf_io_write`; `sqe` says whether there is a submission queue entry. -/
def ioWriteWrites (data : Nat) (op : UInt32) (len : UInt64) (dest : Block 16) (sqe : Bool) :
    List Write :=
  let task := vfastDataToTask data
  if sqe then
    ⟨task + TaskField.op.offset, le32 op⟩ ::
      if op = opUdpSend then datagramWrites task data len dest else []
  else releaseWrites task

/-- The data pointers that callers pass: the buffer of a task, or the packet behind the header
in it. -/
inductive Passed (pool i : Nat) : Nat → Prop
  | buf : Passed pool i (bufAddr pool i)
  | payload : Passed pool i (bufAddr pool i + hlen)

def Own (pool i a : Nat) : Prop :=
  taskAddr pool i ≤ a ∧ a < taskAddr pool i + sizeofTask ∧
    ¬ (bufAddr pool i ≤ a ∧ a < bufAddr pool i + bufSize)

/-- **The pointer resolves to its task**: `vf_io_write` and the completion of what it submits set
`op` and `in_use` of the task, and write no byte of a buffer or of another task. -/
structure Resolves (pool i data : Nat) : Prop where
  task : vfastDataToTask data = taskAddr pool i
  write : ∀ op len dest sqe a, Covers (ioWriteWrites data op len dest sqe) a → Own pool i a
  submitted : ∀ op len dest m, opOf pool i (replay m (ioWriteWrites data op len dest true)) = op
  refused : ∀ op len dest m,
    inUseOf pool i (replay m (ioWriteWrites data op len dest false)) = false
  complete : ∀ a, Covers (releaseWrites (vfastDataToTask data)) a → Own pool i a
  completed : ∀ m, inUseOf pool i (replay m (releaseWrites (vfastDataToTask data))) = false

section

variable {pool i : Nat}

theorem dataToTask_buf : vfastDataToTask (bufAddr pool i) = taskAddr pool i :=
  Nat.add_sub_cancel _ _

/-- The payload pointer is taken for a task that starts inside the task. -/
theorem dataToTask_payload :
    vfastDataToTask (bufAddr pool i + hlen) = taskAddr pool i + hlen := by
  unfold vfastDataToTask bufAddr
  omega

theorem covers_release {task a : Nat} : Covers (releaseWrites task) a ↔ a = task + 2148 := by
  simp only [releaseWrites, offset_eq, covers_cons, List.length_singleton, covers_nil, or_false]
  omega

theorem covers_datagram {task data a : Nat} {len : UInt64} {dest : Block 16}
    (h : Covers (datagramWrites task data len dest) a) : task + 2056 ≤ a ∧ a < task + 2148 := by
  simp only [datagramWrites, offset_eq, covers_cons, covers_nil, length_le32, length_le64,
    length_leBytes, Block.length_toList, or_false] at h
  omega

/-- What `vf_io_write` writes behind `op` of the address it takes for a task. -/
theorem covers_rest {task data a : Nat} {op : UInt32} {len : UInt64} {dest : Block 16}
    (h : Covers (if op = opUdpSend then datagramWrites task data len dest else []) a) :
    op = opUdpSend ∧ task + 2056 ≤ a ∧ a < task + 2148 := by
  split at h
  · rename_i hop
    exact ⟨hop, covers_datagram h⟩
  · exact absurd h (covers_nil a)

/-- **Where `vf_io_write` writes**: `op`, and from `iov` to `addr_len` for a datagram. -/
theorem covers_submit {data a : Nat} {op : UInt32} {len : UInt64} {dest : Block 16}
    (h : Covers (ioWriteWrites data op len dest true) a) :
    (vfastDataToTask data ≤ a ∧ a < vfastDataToTask data + 4) ∨
      op = opUdpSend ∧ vfastDataToTask data + 2056 ≤ a ∧ a < vfastDataToTask data + 2148 := by
  rcases covers_cons.mp h with h | h
  · rw [length_le32] at h
    exact .inl h
  · exact .inr (covers_rest h)

theorem submit_op {data : Nat} {op : UInt32} {len : UInt64} {dest : Block 16} {m : Mem} :
    (replay m (ioWriteWrites data op len dest true)).load32 (vfastDataToTask data) = op := by
  have hlog : replay m (ioWriteWrites data op len dest true) =
      replay (m.write (vfastDataToTask data) (le32 op))
        (if op = opUdpSend then datagramWrites (vfastDataToTask data) data len dest else []) := rfl
  have hkeep : (replay m (ioWriteWrites data op len dest true)).load32 (vfastDataToTask data) =
      (m.write (vfastDataToTask data) (le32 op)).load32 (vfastDataToTask data) := by
    apply load32_congr
    intro k hk
    rw [hlog]
    apply replay_of_not_covers
    intro hc
    have hrest := covers_rest hc
    omega
  rw [hkeep, load32_write]

theorem release_inUse (pool i : Nat) (m : Mem) :
    inUseOf pool i (replay m (releaseWrites (taskAddr pool i))) = false := by
  rw [inUseOf, releaseWrites, replay_cons, replay_nil]
  simp [write_apply]

theorem own_iff {a : Nat} : Own pool i a ↔ taskAddr pool i ≤ a ∧ a < taskAddr pool i + 2152 ∧
    (a < taskAddr pool i + 4 ∨ taskAddr pool i + 2052 ≤ a) := by
  simp only [Own, bufAddr, offset_eq, sizeofTask_eq, bufSize]
  omega

theorem own_of_release {a : Nat} (h : Covers (releaseWrites (taskAddr pool i)) a) :
    Own pool i a := by
  rw [covers_release] at h
  rw [own_iff]
  omega

theorem resolves_buf : Resolves pool i (bufAddr pool i) where
  task := dataToTask_buf
  write op len dest sqe a h := by
    cases sqe with
    | false =>
      have hrel : Covers (releaseWrites (vfastDataToTask (bufAddr pool i))) a := h
      rw [dataToTask_buf] at hrel
      exact own_of_release hrel
    | true =>
      have hsub := covers_submit h
      rw [dataToTask_buf] at hsub
      rw [own_iff]
      omega
  submitted op len dest m := by
    have hop := @submit_op (bufAddr pool i) op len dest m
    rwa [dataToTask_buf] at hop
  refused op len dest m := by
    have hrel := release_inUse pool i m
    rwa [← dataToTask_buf] at hrel
  complete a h := by
    rw [dataToTask_buf] at h
    exact own_of_release h
  completed m := by
    rw [dataToTask_buf]
    exact release_inUse pool i m

end

/-- **A data pointer resolves to its task exactly if it points to the buffer.** -/
theorem data_pointer_resolves_iff (pool i data : Nat) (h : Passed pool i data) :
    Resolves pool i data ↔ data = bufAddr pool i := by
  constructor
  · intro hr
    cases h with
    | buf => rfl
    | payload =>
      have htask := hr.task
      rw [dataToTask_payload] at htask
      exact absurd htask (by simp [hlen])
  · rintro rfl
    exact resolves_buf

theorem reply_pointer_resolves : Resolves 4096 1 (bufAddr 4096 1) :=
  (data_pointer_resolves_iff 4096 1 _ .buf).mpr rfl

/-- The payload of a DATA packet in the first task: `vf_io_write` stores `op` in the packet's
header, and the completion clears a byte of the buffer of the next task. -/
theorem payload_pointer_corrupts :
    Passed 4096 0 (bufAddr 4096 0 + hlen) ∧
    (∀ len dest, Covers (ioWriteWrites (bufAddr 4096 0 + hlen) opTunWrite len dest true)
      (bufAddr 4096 0 + 16)) ∧
    Covers (releaseWrites (vfastDataToTask (bufAddr 4096 0 + hlen))) (bufAddr 4096 1 + 12) ∧
    ¬ Resolves 4096 0 (bufAddr 4096 0 + hlen) := by
  refine ⟨.payload, ?_, ?_, ?_⟩
  · intro len dest
    exact covers_cons.mpr (.inl (by decide))
  · rw [covers_release]
    decide
  · intro h
    exact absurd h.task (by decide)

/-! ## The engine's task pointers

`Io` keeps `op` and `in_use` of the tasks and lets writes through a pointer into a buffer change
neither. The bytes agree with that. -/

def ptrAddr (pool : Nat) : TaskPtr → Nat
  | .task i => taskAddr pool i
  | .inside i => taskAddr pool i + hlen

/-- The memory holds the flags and the operations of the engine's tasks. -/
structure Represents (pool : Nat) (m : Mem) (io : VfIo) : Prop where
  op : ∀ i, opOf pool i m = io.op i
  inUse : ∀ i, inUseOf pool i m = io.inUse i

section

variable {pool : Nat} {m : Mem} {log : List Write}

theorem opOf_replay {i : Nat} (h : ∀ k < 4, ¬ Covers log (taskAddr pool i + k)) :
    opOf pool i (replay m log) = opOf pool i m := by
  apply load32_congr
  intro k hk
  rw [offset_eq, Nat.add_zero]
  exact replay_of_not_covers (h k hk)

theorem inUseOf_replay {i : Nat} (h : ¬ Covers log (taskAddr pool i + 2148)) :
    inUseOf pool i (replay m log) = inUseOf pool i m := by
  unfold inUseOf
  rw [offset_eq, replay_of_not_covers h]

theorem Represents.frame {io : VfIo} (h : Represents pool m io)
    (hop : ∀ i, ∀ k < 4, ¬ Covers log (taskAddr pool i + k))
    (huse : ∀ i, ¬ Covers log (taskAddr pool i + 2148)) : Represents pool (replay m log) io :=
  ⟨fun i => (opOf_replay (hop i)).trans (h.op i),
    fun i => (inUseOf_replay (huse i)).trans (h.inUse i)⟩

/-- A release is undefined exactly if its byte lies behind the pool. -/
theorem release_eq_none_iff {io : VfIo} {p : TaskPtr} (h : p.index < io.poolSize) :
    io.release p = none ↔
      ∃ a, Covers (releaseWrites (ptrAddr pool p)) a ∧ taskAddr pool io.poolSize ≤ a := by
  simp only [covers_release, exists_eq_left]
  cases p with
  | task i =>
    have hi : i < io.poolSize := h
    simp only [VfIo.release, ptrAddr, taskAddr, sizeofTask_eq]
    constructor
    · intro he
      cases he
    · omega
  | inside i =>
    have hi : i < io.poolSize := h
    simp only [VfIo.release, ite_eq_right_iff, reduceCtorEq, imp_false, ptrAddr, taskAddr,
      sizeofTask_eq, hlen]
    omega

/-- **Releases agree**: through a pointer into a buffer no flag changes. -/
theorem Represents.release {io io' : VfIo} {p : TaskPtr} (h : Represents pool m io)
    (hr : io.release p = some io') :
    Represents pool (replay m (releaseWrites (ptrAddr pool p))) io' := by
  cases p with
  | task i =>
    cases hr
    constructor
    · intro j
      refine (opOf_replay fun k hk hc => ?_).trans (h.op j)
      rw [covers_release, ptrAddr, taskAddr, taskAddr, sizeofTask_eq] at hc
      omega
    · intro j
      by_cases hj : j = i
      · subst hj
        rw [ptrAddr, release_inUse]
        simp [VfIo.free]
      · rw [inUseOf_replay, h.inUse]
        · simp [VfIo.free, hj]
        · intro hc
          rw [covers_release, ptrAddr, taskAddr, taskAddr, sizeofTask_eq] at hc
          omega
  | inside i =>
    -- the byte lies in the buffer of the next task
    obtain ⟨-, he⟩ := Option.ite_none_right_eq_some.mp hr
    cases he
    apply h.frame
    · intro j k hk hc
      rw [covers_release, ptrAddr, taskAddr, taskAddr, sizeofTask_eq, hlen] at hc
      omega
    · intro j hc
      rw [covers_release, ptrAddr, taskAddr, taskAddr, sizeofTask_eq, hlen] at hc
      omega

/-- **Submissions agree**, datagrams being sent from the buffer itself. -/
theorem Represents.submit {io : VfIo} (h : Represents pool m io) {p : TaskPtr} {data : Nat}
    {op : UInt32} {len : UInt64} {dest : Block 16} (hd : vfastDataToTask data = ptrAddr pool p)
    (hop : op = opUdpSend → ∃ i, p = .task i) :
    Represents pool (replay m (ioWriteWrites data op len dest true)) (io.setOp op p) := by
  cases p with
  | task i =>
    constructor
    · intro j
      by_cases hj : j = i
      · subst hj
        have hset := @submit_op data op len dest m
        rw [hd, ptrAddr] at hset
        rw [opOf, offset_eq]
        simpa [VfIo.setOp] using hset
      · rw [opOf_replay, h.op]
        · simp [VfIo.setOp, hj]
        · intro k hk hc
          have hsub := covers_submit hc
          rw [hd, ptrAddr, taskAddr, taskAddr, sizeofTask_eq] at hsub
          omega
    · intro j
      refine (inUseOf_replay fun hc => ?_).trans (h.inUse j)
      have hsub := covers_submit hc
      rw [hd, ptrAddr, taskAddr, taskAddr, sizeofTask_eq] at hsub
      omega
  | inside i =>
    -- only `op` is written, into the header of the packet
    have hsend : op ≠ opUdpSend := by
      intro he
      obtain ⟨j, hj⟩ := hop he
      cases hj
    apply h.frame
    · intro j k hk hc
      have hsub := (covers_submit hc).resolve_right fun hr => hsend hr.1
      rw [hd, ptrAddr, taskAddr, taskAddr, sizeofTask_eq, hlen] at hsub
      omega
    · intro j hc
      have hsub := (covers_submit hc).resolve_right fun hr => hsend hr.1
      rw [hd, ptrAddr, taskAddr, taskAddr, sizeofTask_eq, hlen] at hsub
      omega

end

end Vfast.TaskLayout
