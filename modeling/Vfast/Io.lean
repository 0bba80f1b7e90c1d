import Mathlib.Logic.Function.Basic
import Vfast.ClientKeys
import Vfast.ServerInv

/-! The I/O engine (`io.c`): a pool of tasks, each with a packet buffer and an `in_use` flag,
and the operations on them that the kernel has been given. The contents of the buffers are
not part of the state: a completion brings the bytes that the callback sees. What the code
does outside the pool is undefined here (`none`). -/

namespace Vfast.Io

open Bytes Crypto Sessions Server Client

def opTunRead : UInt32 := 1
def opTunWrite : UInt32 := 2
def opUdpRecv : UInt32 := 3
def opUdpSend : UInt32 := 4

/-- A `vf_task_t *`: a task of the pool, or an address inside one. `vfast_data_to_task` turns a
pointer to the packet behind the header of task `i` into `inside i`: what it takes for `op`
and `in_use` are bytes of the buffers of tasks `i` and `i + 1`. -/
inductive TaskPtr where
  | task (i : Nat)
  | inside (i : Nat)
  deriving DecidableEq, Repr

def TaskPtr.index : TaskPtr → Nat
  | .task i => i
  | .inside i => i

/-- A submission queue entry: the operation, its `user_data`, and the buffer it works on. -/
structure Sqe where
  op : UInt32
  userData : TaskPtr
  buf : Nat
  deriving DecidableEq, Repr

/-- `vf_io_t` and its ring; `borrowed` are the tasks that `vf_io_task` has handed out and that
were neither written nor given back. -/
structure VfIo where
  poolSize : Nat
  poolIdx : Int
  op : Nat → UInt32
  inUse : Nat → Bool
  queued : List Sqe
  inFlight : List Sqe
  borrowed : List Nat

def vfIoInit (poolSize : Nat) : VfIo := ⟨poolSize, 0, fun _ => 0, fun _ => false, [], [], []⟩

/-- The operations that the kernel has or is about to get. -/
def VfIo.outstanding (io : VfIo) : List Sqe := io.queued ++ io.inFlight

/-! ## Fields of a task -/

/-- `task->op`; behind a pointer into a buffer it is whatever `bytes` lie there. -/
def VfIo.opAt (io : VfIo) (bytes : UInt32) : TaskPtr → UInt32
  | .task i => io.op i
  | .inside _ => bytes

def VfIo.setOp (io : VfIo) (op : UInt32) : TaskPtr → VfIo
  | .task i => { io with op := Function.update io.op i op }
  | .inside _ => io

def VfIo.free (io : VfIo) (i : Nat) : VfIo :=
  { io with inUse := Function.update io.inUse i false }

/-- `atomic_store(&task->in_use, false)`; behind a pointer into the last task of the pool the
byte lies behind the pool. -/
def VfIo.release (io : VfIo) : TaskPtr → Option VfIo
  | .task i => some (io.free i)
  | .inside i => if i + 1 < io.poolSize then some io else none

/-! ## Acquiring a task -/

/-- A 32-bit `int`; `atomic_fetch_add` wraps. -/
def wrap32 (n : Int) : Int := n.bmod (2 ^ 32)

/-- The search of `get_task_from_instance` with `n` tries left. The remainder has the sign of
the index, and a negative one lies before the pool. -/
def getTaskLoop : Nat → VfIo → Option (VfIo × Option Nat)
  | 0, io => some (io, none)
  | n + 1, io =>
    let idx := io.poolIdx.tmod io.poolSize
    let io := { io with poolIdx := wrap32 (io.poolIdx + 1) }
    if idx < 0 then none
    else if io.inUse idx.toNat then getTaskLoop n io
    else
      some ({ io with
        op := Function.update io.op idx.toNat 0
        inUse := Function.update io.inUse idx.toNat true }, some idx.toNat)

def getTaskFromInstance (io : VfIo) : Option (VfIo × Option Nat) := getTaskLoop io.poolSize io

/-! ## Submitting operations -/

/-- What the ring does in one call: whether `io_uring_get_sqe` has an entry, and whether the
entry is submitted at once, by the batching counter of `vf_io_write` or by the caller. -/
structure Ring where
  sqe : Bool
  flush : Bool

def VfIo.submit (io : VfIo) : VfIo :=
  { io with queued := [], inFlight := io.inFlight ++ io.queued }

def VfIo.prepare (io : VfIo) (op : UInt32) (p : TaskPtr) : VfIo :=
  { io.setOp op p with queued := io.queued ++ [⟨op, p, p.index⟩] }

def vfIoRead (io : VfIo) (op : UInt32) (ring : Ring) : Option VfIo :=
  match getTaskFromInstance io with
  | none => none
  | some (io, none) => some io
  | some (io, some i) =>
    if ring.sqe then some (io.prepare op (.task i)) else io.release (.task i)

/-- `vf_io_write` on the task that `vfast_data_to_task` finds. -/
def vfIoWrite (io : VfIo) (op : UInt32) (p : TaskPtr) (ring : Ring) : Option VfIo :=
  if !ring.sqe then io.release p
  else
    let io := io.prepare op p
    some (if io.poolSize ≤ 64 || ring.flush then io.submit else io)

/-- The writes of a callback that was given the buffer of `p`. A UDP packet starts at the
buffer, the TUN payload behind the header. -/
def writeOuts (p : TaskPtr) (ring : Ring) : VfIo → List Out → Option VfIo
  | io, [] => some io
  | io, .udpSend _ _ :: outs =>
    (vfIoWrite io opUdpSend p ring).bind fun io => writeOuts p ring io outs
  | io, .tunWrite _ :: outs =>
    (vfIoWrite io opTunWrite (.inside p.index) ring).bind fun io => writeOuts p ring io outs
  | _, .tunNull :: _ => none

/-! ## Completions -/

/-- `vf_ops_t`: the callbacks, with what they are given besides the length. -/
structure VfOps (σ ι : Type) where
  onUdpData : σ → ι → Nat → σ × List Out × TaskState
  onTunData : σ → ι → Nat → σ × List Out × TaskState

/-- A completion: its result, the input of a callback, the bytes where a stray pointer takes
`op` from, and the ring's answers to the callback's write and to the read that follows. -/
structure Completion (ι : Type) where
  res : Int
  input : ι
  bytes : UInt32
  write : Ring
  read : Ring

variable {σ ι : Type}

/-- A read completion: the callback, its writes, the next read, and the release of the task
unless the callback keeps it. -/
def readDone (io : VfIo) (s : σ) (p : TaskPtr) (op : UInt32) (c : Completion ι)
    (cb : σ → ι → Nat → σ × List Out × TaskState) : Option (VfIo × σ) :=
  let r := cb s c.input c.res.toNat
  match writeOuts p c.write io r.2.1 with
  | none => none
  | some io =>
    match vfIoRead io op c.read with
    | none => none
    | some io => (if r.2.2 = .done then io.release p else some io).map fun io => (io, r.1)

/-- The body of the completion loop of `vf_io_run` for the `k`-th operation in flight. -/
def VfIo.complete (ops : VfOps σ ι) (io : VfIo) (s : σ) (k : Nat) (c : Completion ι) :
    Option (VfIo × σ) :=
  match io.inFlight[k]? with
  | none => none
  | some o =>
    let p := o.userData
    let op := io.opAt c.bytes p
    let io := { io with inFlight := io.inFlight.eraseIdx k }
    if c.res ≥ 0 then
      if op = opTunRead then readDone io s p op c ops.onTunData
      else if op = opUdpRecv then readDone io s p op c ops.onUdpData
      else (io.release p).map fun io => (io, s)
    else if op = opTunRead ∨ op = opUdpRecv then
      match vfIoRead io op c.read with
      | none => none
      | some io => (io.release p).map fun io => (io, s)
    else (io.release p).map fun io => (io, s)

/-! ## Runs -/

/-- The steps of the engine: a read of the warm-up, a submission, a completion; `vf_io_task`
for business logic, which writes the task or gives it back; and what business logic does
outside the callbacks. -/
inductive Step (σ ι : Type) where
  | read (tun : Bool) (ring : Ring)
  | submit
  | complete (k : Nat) (c : Completion ι)
  | borrow
  | send (i : Nat) (ring : Ring)
  | rollback (i : Nat)
  | other (s : σ)

/-- A step, `none` where it is not possible or leaves the pool. -/
def VfIo.next (ops : VfOps σ ι) (io : VfIo) (s : σ) : Step σ ι → Option (VfIo × σ)
  | .read tun ring =>
    (vfIoRead io (if tun then opTunRead else opUdpRecv) ring).map fun io => (io, s)
  | .submit => some (io.submit, s)
  | .complete k c => io.complete ops s k c
  | .borrow =>
    (getTaskFromInstance io).map fun r => ({ r.1 with borrowed := r.2.toList ++ r.1.borrowed }, s)
  | .send i ring =>
    if i ∈ io.borrowed then
      (vfIoWrite { io with borrowed := io.borrowed.erase i } opUdpSend (.task i) ring).map
        fun io => (io, s)
    else none
  | .rollback i =>
    if i ∈ io.borrowed then
      ({ io with borrowed := io.borrowed.erase i }.release (.task i)).map fun io => (io, s)
    else none
  | .other s' => some (io, s')

/-- The engine under callbacks `ops`, with business logic that starts in `start` and moves by
`other` outside of them. -/
def ioRuns (ops : VfOps σ ι) (start : σ → Prop) (other : σ → σ → Prop) :
    Run.System (VfIo × σ) (Step σ ι) where
  init s := (∃ n, 0 < n ∧ n < 2 ^ 31 ∧ s.1 = vfIoInit n) ∧ start s.2
  step s l s' := s.1.next ops s.2 l = some s' ∧ ∀ t, l = .other t → other s.2 t

/-! ## The two ends -/

/-- What a callback is given: the answers of its system calls, the buffer and `task->addr`. -/
structure Packet (ε : Type) where
  env : ε
  data : Mem
  src : SockAddr

section

variable (A : Aead) (hmac : List UInt8 → List UInt8 → Block 32)

def serverOps : VfOps VfastServer (Packet Env) where
  onUdpData srv p len := serverOnUdp A hmac srv p.env p.data len p.src
  onTunData srv p len := serverOnTun A srv p.env p.data len

def clientOps : VfOps VfastClient (Packet ClientEnv) where
  onUdpData c p len := clientOnUdp A c p.env p.data len p.src
  onTunData c p len := clientOnTun A c p.env p.data len

/-- The engine under the server, whose maintenance timer borrows its tasks in steps of their
own. -/
def serverIo : Run.System (VfIo × VfastServer) (Step VfastServer (Packet Env)) :=
  ioRuns (serverOps A hmac) ServerInv.Started fun srv srv' =>
    ∃ env, srv' = (vfastServerMaintenance A srv env).1

/-- The engine under the client, with its rekey timer and the worker of its state machine. -/
def clientIo : Run.System (VfIo × VfastClient) (Step VfastClient (Packet ClientEnv)) :=
  ioRuns (clientOps A)
    (fun c => ∃ draw now dst userName passWord statics workerSeed,
      c = vfastInitClient draw now dst userName passWord statics workerSeed)
    fun c c' => ∃ env, c' = (vfastRekeyTimerHandler A c env).1 ∨
      ∃ seen lastRx, c' = (fsmWorker A c env seen lastRx).1

end

end Vfast.Io
