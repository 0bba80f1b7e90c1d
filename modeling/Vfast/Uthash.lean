import Mathlib.Logic.Function.Basic
import Vfast.Lib.Blocks

/-! The hash tables of `uthash.h` as their macros leave them in memory: handles inside the
elements, linked once in the order of insertion and once along the chain of a bucket, and a
bucket array that doubles when a chain grows long. A macro that follows a null or dangling
pointer faults, so that a run without a fault is one that is safe for memory. -/

namespace Vfast.Uthash

/-- What ends a run early: a pointer that is null or dangling or a shift past the width, `exit(-1)`
when `malloc` refuses `size` bytes, `abort` when `zmalloc` gets no block, or a loop that runs on. -/
inductive Halt where
  | fault
  | exit (size : Nat)
  | abort
  | diverge
  deriving DecidableEq, Repr

/-- The `UT_hash_handle` that one table uses in every element, field by field. `tbl` leads to the
record beside the head, `key` into the element. -/
structure Handles (P : Type) where
  prev : P → Option P
  next : P → Option P
  hhPrev : P → Option P
  hhNext : P → Option P
  keylen : P → UInt32
  hashv : P → UInt32

structure Bucket (P : Type) where
  hhHead : Option P
  count : UInt32
  expandMult : UInt32

structure Table (P : Type) where
  buckets : List (Bucket P)
  numBuckets : UInt32
  log2NumBuckets : UInt32
  numItems : UInt32
  tail : Option P
  idealChainMaxlen : UInt32
  nonidealItems : UInt32
  ineffExpands : UInt32
  noexpand : Bool

/-- The head pointer of a table, and what its element's `tbl` leads to. -/
structure Root (P : Type) where
  head : Option P
  tbl : Option (Table P)

/-- The elements: which are allocated, and the bytes of the key field. -/
structure Elements (P : Type) where
  alive : P → Bool
  key : P → List UInt8

def Root.empty {P : Type} : Root P := ⟨none, none⟩

def Bucket.zero {P : Type} : Bucket P := ⟨none, 0, 0⟩

def hashJenMix (a b c : UInt32) : UInt32 × UInt32 × UInt32 :=
  let a := (a - b - c) ^^^ (c >>> 13)
  let b := (b - c - a) ^^^ (a <<< 8)
  let c := (c - a - b) ^^^ (b >>> 13)
  let a := (a - b - c) ^^^ (c >>> 12)
  let b := (b - c - a) ^^^ (a <<< 16)
  let c := (c - a - b) ^^^ (b >>> 5)
  let a := (a - b - c) ^^^ (c >>> 3)
  let b := (b - c - a) ^^^ (a <<< 10)
  let c := (c - a - b) ^^^ (b >>> 15)
  (a, b, c)

/-- The byte of a key, shifted; zero past its end. -/
def keyByte (key : List UInt8) (i : Nat) (shift : UInt32) : UInt32 :=
  (key.getD i 0).toUInt32 <<< shift

def hashJen (key : List UInt8) : UInt32 :=
  let word := fun (k : List UInt8) i =>
    keyByte k i 0 + keyByte k (i + 1) 8 + keyByte k (i + 2) 16 + keyByte k (i + 3) 24
  let s := Blocks.foldBlocks 12
    (fun (s : UInt32 × UInt32 × UInt32) k =>
      hashJenMix (s.1 + word k 0) (s.2.1 + word k 4) (s.2.2 + word k 8))
    (0x9e3779b9, 0x9e3779b9, 0xfeedbeef) key
  let k := Blocks.leftover 12 key
  (hashJenMix (s.1 + word k 0) (s.2.1 + word k 4)
    (s.2.2 + UInt32.ofNat key.length + keyByte k 10 24 + keyByte k 9 16 + keyByte k 8 8)).2.2

def hashToBkt (hashv numBkts : UInt32) : UInt32 := hashv &&& (numBkts - 1)

variable {P : Type} (o : Elements P)

variable [DecidableEq P]

def deref : Option P → Except Halt P
  | none => .error .fault
  | some p => if o.alive p then .ok p else .error .fault

/-- `(head)->hh.tbl`. -/
def headTbl (root : Root P) : Except Halt (Table P) := do
  let _ ← deref o root.head
  match root.tbl with
  | none => .error .fault
  | some tb => .ok tb

def bucketAt {P : Type} (buckets : List (Bucket P)) (i : UInt32) : Except Halt (Bucket P) :=
  match buckets[i.toNat]? with
  | none => .error .fault
  | some b => .ok b

/-- The loop of `HASH_FIND_IN_BKT`. -/
def hashFindInBkt (hh : Handles P) (keyptr : List UInt8) (hashval : UInt32) :
    Nat → Option P → Except Halt (Option P)
  | _, none => .ok none
  | 0, some _ => .error .diverge
  | fuel + 1, some p => do
    let out ← deref o (some p)
    if hh.hashv out = hashval ∧ hh.keylen out = UInt32.ofNat keyptr.length ∧
        (o.key out).take keyptr.length = keyptr then
      .ok (some out)
    else hashFindInBkt hh keyptr hashval fuel (hh.hhNext out)

def hashFind (fuel : Nat) (hh : Handles P) (root : Root P) (keyptr : List UInt8) :
    Except Halt (Option P) := do
  if root.head = none then .ok none
  else
    let tb ← headTbl o root
    let b ← bucketAt tb.buckets (hashToBkt (hashJen keyptr) tb.numBuckets)
    hashFindInBkt o hh keyptr (hashJen keyptr) fuel b.hhHead

def hashCnt (root : Root P) : Except Halt UInt32 := do
  if root.head = none then .ok 0
  else
    let tb ← headTbl o root
    .ok tb.numItems

/-- The writes of `HASH_ADD_TO_BKT` and of the loop of `HASH_EXPAND_BUCKETS` that put a handle in
front of a chain. -/
def pushFront (hh : Handles P) (b : Bucket P) (addhh : P) : Except Halt (Handles P × Bucket P) := do
  let a ← deref o (some addhh)
  let hh := { hh with
    hhNext := Function.update hh.hhNext a b.hhHead
    hhPrev := Function.update hh.hhPrev a none }
  let b' := { b with hhHead := some a, count := b.count + 1 }
  match b.hhHead with
  | none => .ok (hh, b')
  | some _ =>
    let q ← deref o b.hhHead
    .ok ({ hh with hhPrev := Function.update hh.hhPrev q (some a) }, b')

structure Expand (P : Type) where
  hh : Handles P
  newBuckets : List (Bucket P)
  nonideal : UInt32

/-- `count` went up: an item past the ideal length is counted, and the bucket's multiplier rises. -/
def tally {P : Type} (ideal nonideal : UInt32) (b : Bucket P) : UInt32 × Bucket P :=
  if b.count > ideal then
    (nonideal + 1,
      if b.count > b.expandMult * ideal then { b with expandMult := b.expandMult + 1 } else b)
  else (nonideal, b)

/-- One pass of the inner loop; the handle it goes on with was read before the writes. -/
def expandStep (numBuckets ideal : UInt32) (e : Expand P) (p : P) :
    Except Halt (Expand P × Option P) := do
  let thh ← deref o (some p)
  let nxt := e.hh.hhNext thh
  let bkt := hashToBkt (e.hh.hashv thh) (numBuckets * 2)
  let b ← bucketAt e.newBuckets bkt
  let (hh, b) ← pushFront o e.hh b thh
  let (nonideal, b) := tally ideal e.nonideal b
  .ok (⟨hh, e.newBuckets.set bkt.toNat b, nonideal⟩, nxt)

def expandChain (numBuckets ideal : UInt32) :
    Nat → Expand P → Option P → Except Halt (Expand P)
  | _, e, none => .ok e
  | 0, _, some _ => .error .diverge
  | fuel + 1, e, some p => do
    let (e, nxt) ← expandStep o numBuckets ideal e p
    expandChain numBuckets ideal fuel e nxt

/-- The record after the loops; two doublings in a row that helped little are the last. -/
def Table.expanded {P : Type} (tb : Table P) (ideal : UInt32) (e : Expand P) : Table P :=
  let ineff := if e.nonideal > tb.numItems >>> 1 then tb.ineffExpands + 1 else 0
  { tb with
    buckets := e.newBuckets
    numBuckets := tb.numBuckets * 2
    log2NumBuckets := tb.log2NumBuckets + 1
    idealChainMaxlen := ideal
    nonidealItems := e.nonideal
    ineffExpands := ineff
    noexpand := if ineff > 1 then true else tb.noexpand }

/-- `HASH_EXPAND_BUCKETS`; a bucket takes 16 bytes. -/
def hashExpandBuckets (malloc : Nat → Bool) (fuel : Nat) (hh : Handles P) (tb : Table P) :
    Except Halt (Handles P × Table P) := do
  if malloc (16 * tb.numBuckets.toNat * 2) = false then
    .error (.exit (16 * tb.numBuckets.toNat * 2))
  else if tb.log2NumBuckets + 1 ≥ 32 then .error .fault
  else
    let ideal := (tb.numItems >>> (tb.log2NumBuckets + 1)) +
      (if tb.numItems &&& (tb.numBuckets * 2 - 1) ≠ 0 then 1 else 0)
    let e ← (List.range tb.numBuckets.toNat).foldlM
      (fun e i => do
        let b ← bucketAt tb.buckets (UInt32.ofNat i)
        expandChain o tb.numBuckets ideal fuel e b.hhHead)
      ⟨hh, List.replicate (tb.numBuckets.toNat * 2) Bucket.zero, 0⟩
    .ok (e.hh, tb.expanded ideal e)

def Table.new {P : Type} (head : P) : Table P where
  buckets := List.replicate 32 Bucket.zero
  numBuckets := 32
  log2NumBuckets := 5
  numItems := 0
  tail := some head
  idealChainMaxlen := 0
  nonidealItems := 0
  ineffExpands := 0
  noexpand := false

/-- `HASH_MAKE_TABLE`; the record takes 64 bytes. -/
def hashMakeTable {P : Type} (malloc : Nat → Bool) (head : P) : Except Halt (Table P) :=
  if malloc 64 = false then .error (.exit 64)
  else if malloc (32 * 16) = false then .error (.exit (32 * 16))
  else .ok (Table.new head)

def hashAddToTable (malloc : Nat → Bool) (fuel : Nat) (hh : Handles P) (root : Root P) (add : P) :
    Except Halt (Handles P × Root P) := do
  let tb ← headTbl o root
  let tb := { tb with numItems := tb.numItems + 1 }
  let bkt := hashToBkt (hh.hashv add) tb.numBuckets
  let b ← bucketAt tb.buckets bkt
  let (hh, b) ← pushFront o hh b add
  let tb := { tb with buckets := tb.buckets.set bkt.toNat b }
  if b.count ≥ (b.expandMult + 1) * 10 ∧ tb.noexpand = false then
    let (hh, tb) ← hashExpandBuckets o malloc fuel hh tb
    .ok (hh, { root with tbl := some tb })
  else .ok (hh, { root with tbl := some tb })

def hashAppendList (hh : Handles P) (root : Root P) (add : P) :
    Except Halt (Handles P × Root P) := do
  let tb ← headTbl o root
  let tail ← deref o tb.tail
  .ok ({ hh with
      next := Function.update (Function.update hh.next add none) tail (some add)
      prev := Function.update hh.prev add (some tail) },
    { root with tbl := some { tb with tail := some add } })

def hashAdd (malloc : Nat → Bool) (fuel : Nat) (hh : Handles P) (root : Root P) (p : P) :
    Except Halt (Handles P × Root P) := do
  let add ← deref o (some p)
  let hh := { hh with
    hashv := Function.update hh.hashv add (hashJen (o.key add))
    keylen := Function.update hh.keylen add (UInt32.ofNat (o.key add).length) }
  if root.head = none then
    let tb ← hashMakeTable malloc add
    hashAddToTable o malloc fuel
      { hh with
        next := Function.update hh.next add none
        prev := Function.update hh.prev add none }
      ⟨some add, some tb⟩ add
  else
    let (hh, root) ← hashAppendList o hh root add
    hashAddToTable o malloc fuel hh root add

/-- A write through a link that may be null. -/
def patch (f : P → Option P) (q v : Option P) : Except Halt (P → Option P) :=
  match q with
  | none => .ok f
  | some q => do
    let q ← deref o (some q)
    .ok (Function.update f q v)

def hashDelInBkt (hh : Handles P) (b : Bucket P) (del : P) :
    Except Halt (Handles P × Bucket P) := do
  let b := { b with
    count := b.count - 1
    hhHead := if b.hhHead = some del then hh.hhNext del else b.hhHead }
  let hhNext ← patch o hh.hhNext (hh.hhPrev del) (hh.hhNext del)
  let hhPrev ← patch o hh.hhPrev (hhNext del) (hh.hhPrev del)
  .ok ({ hh with hhNext := hhNext, hhPrev := hhPrev }, b)

def hashDelete (hh : Handles P) (root : Root P) (p : P) : Except Halt (Handles P × Root P) := do
  let del ← deref o (some p)
  let tb ← headTbl o root
  if hh.prev del = none ∧ hh.next del = none then .ok (hh, ⟨none, none⟩)
  else
    let tb := if tb.tail = some del then { tb with tail := hh.prev del } else tb
    let next ← patch o hh.next (hh.prev del) (hh.next del)
    let head := if hh.prev del = none then next del else root.head
    let prev ← patch o hh.prev (next del) (hh.prev del)
    let hh := { hh with next := next, prev := prev }
    let tb ← headTbl o ⟨head, some tb⟩
    let bkt := hashToBkt (hh.hashv del) tb.numBuckets
    let b ← bucketAt tb.buckets bkt
    let (hh, b) ← hashDelInBkt o hh b del
    .ok (hh, ⟨head, some { tb with
      buckets := tb.buckets.set bkt.toNat b
      numItems := tb.numItems - 1 }⟩)

/-- The `for` of `HASH_ITER` with its two cursors: `tmp` is read before the body, which may
delete and free `el`. The body says whether it breaks. -/
def hashIterLoop {σ P : Type} (o : σ → Elements P) (hh : σ → Handles P)
    (body : σ → P → Except Halt (σ × Bool)) : Nat → σ → Option P → Option P → Except Halt σ
  | _, s, none, _ => .ok s
  | 0, _, some _, _ => .error .diverge
  | fuel + 1, s, some el, tmp => do
    let (s, stop) ← body s el
    if stop then .ok s
    else match tmp with
    | none => hashIterLoop o hh body fuel s none none
    | some t =>
      let t ← deref (o s) (some t)
      hashIterLoop o hh body fuel s (some t) ((hh s).next t)

def hashIter {σ P : Type} (o : σ → Elements P) (hh : σ → Handles P) (root : σ → Root P)
    (body : σ → P → Except Halt (σ × Bool)) (fuel : Nat) (s : σ) : Except Halt σ :=
  match (root s).head with
  | none => .ok s
  | some p => do
    let el ← deref (o s) (some p)
    hashIterLoop o hh body fuel s (some el) ((hh s).next el)

end Vfast.Uthash
