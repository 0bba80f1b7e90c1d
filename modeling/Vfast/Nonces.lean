import Mathlib.Data.List.Nodup
import Mathlib.Logic.Function.Basic
import Vfast.Crypto

/-! The nonces of a client and a server that encrypt under one key. A nonce is the salt of
its process followed by the number of the call; both processes count from zero, so
everything rests on the salts. -/

namespace Vfast.Nonces

open Bytes Crypto

/-! ## The salt of one process -/

/-- The salt bytes in place once the reads `rds` were made on top of `salt`: a read fills
the bytes it delivers, and none is made after one that delivered all 16. -/
def saltFrom (salt : Block 16) : List Urandom → Block 16
  | [] => salt
  | none :: rds => saltFrom salt rds
  | some bs :: rds =>
    if 16 ≤ bs.length then fun i => bs.getD i 0 else saltFrom (fun i => bs.getD i (salt i)) rds

def saltAfter (rds : List Urandom) : Block 16 := saltFrom (fun _ => 0) rds

/-- The static variables of a process after one `get_fast_nonce` for each read. -/
def genFrom (g : NonceGen) : List Urandom → NonceGen
  | [] => g
  | rd :: rds => genFrom (getFastNonce g rd).1 rds

def genAfter (rds : List Urandom) : NonceGen := genFrom .init rds

theorem genFrom_append (g : NonceGen) (rds : List Urandom) (rd : Urandom) :
    genFrom g (rds ++ [rd]) = (getFastNonce (genFrom g rds) rd).1 := by
  induction rds generalizing g with
  | nil => rfl
  | cons r rds ih => exact ih _

theorem genFrom_counter (g : NonceGen) (rds : List Urandom) :
    (genFrom g rds).counter = g.counter + UInt64.ofNat rds.length := by
  induction rds generalizing g with
  | nil => simp [genFrom]
  | cons rd rds ih =>
    have hc : (getFastNonce g rd).1.counter = g.counter + 1 := by
      simp only [getFastNonce, NonceGen.prepare]
      split
      · rfl
      · split <;> rfl
    rw [genFrom, ih, hc, List.length_cons, UInt64.ofNat_add, UInt64.add_assoc,
      UInt64.add_comm 1 (UInt64.ofNat rds.length)]
    rfl

/-- An initialised process keeps its salt. -/
theorem genFrom_initialized {g : NonceGen} (h : g.initialized = true) (rds : List Urandom) :
    (genFrom g rds).noncePrefix = g.noncePrefix := by
  induction rds generalizing g with
  | nil => rfl
  | cons rd rds ih =>
    have hp : g.prepare rd = g := by simp [NonceGen.prepare, h]
    have hg : (getFastNonce g rd).1 = { g with counter := g.counter + 1 } := by
      simp only [getFastNonce, hp]
    rw [genFrom, hg]
    exact ih h

/-- **The salt** depends on the reads only. -/
theorem genFrom_salt {g : NonceGen} (h : g.initialized = false) (rds : List Urandom) :
    (genFrom g rds).noncePrefix = saltFrom g.noncePrefix rds := by
  induction rds generalizing g with
  | nil => rfl
  | cons rd rds ih =>
    cases rd with
    | none =>
      have hg : (getFastNonce g none).1 = { g with counter := g.counter + 1 } := by
        simp [getFastNonce, NonceGen.prepare, h]
      rw [genFrom, hg, saltFrom]
      exact ih h
    | some bs =>
      have hg : (getFastNonce g (some bs)).1 =
          ⟨g.counter + 1, fun i => (bs.take 16).getD i (g.noncePrefix i),
            decide ((bs.take 16).length = 16)⟩ := by
        simp [getFastNonce, NonceGen.prepare, h]
      have hd : ∀ i : Fin 16, (bs.take 16).getD i (g.noncePrefix i) =
          bs.getD i (g.noncePrefix i) := by
        intro i
        have hi := i.isLt
        simp [List.getD_eq_getElem?_getD, hi]
      rw [genFrom, saltFrom, hg]
      by_cases hl : 16 ≤ bs.length
      · -- a full read: the flag is set and the salt stays
        rw [if_pos hl, genFrom_initialized (by simp [hl])]
        funext i
        have hi : i.val < bs.length := by omega
        refine (hd i).trans ?_
        simp [List.getD_eq_getElem?_getD, hi]
      · rw [if_neg hl, ih (by simp; omega)]
        congr 1
        funext i
        exact hd i

/-- The nonce of call number `i` of a process whose reads are `rds`. -/
def nonceBytes (rds : List Urandom) (i : Nat) : List UInt8 :=
  (saltAfter (rds.take (i + 1))).toList ++ le64 (UInt64.ofNat i)

theorem nextNonce_genAfter (rds : List Urandom) (rd : Urandom) :
    (nextNonce (genAfter rds) rd).toList =
      (saltAfter (rds ++ [rd])).toList ++ le64 (UInt64.ofNat rds.length) := by
  have hs : ((genAfter rds).prepare rd).noncePrefix = saltAfter (rds ++ [rd]) := by
    have h := genFrom_salt (g := .init) rfl (rds ++ [rd])
    rw [genFrom_append] at h
    exact h
  have hc : ((genAfter rds).prepare rd).counter = UInt64.ofNat rds.length := by
    have h := genFrom_counter .init rds
    have h0 : NonceGen.init.counter + UInt64.ofNat rds.length = UInt64.ofNat rds.length :=
      UInt64.zero_add _
    rw [h0] at h
    rw [← h]
    unfold NonceGen.prepare
    split
    · rfl
    · split <;> rfl
  unfold nextNonce getFastNonce
  dsimp only
  rw [hs, hc]
  exact Block.toList_ofList (by simp)

/-! ## Two processes -/

inductive Side where
  | client
  | server
  deriving DecidableEq, Repr

/-- One call of `vf_encrypt`: the process that makes it, the outcome of its read of
`/dev/urandom`, and its arguments. -/
structure Call where
  side : Side
  urandom : Urandom
  mem : Mem
  plain : Nat
  len : Nat
  out : Nat

section

variable (A : Aead) (key : Block 32)

def Call.run (g : NonceGen) (c : Call) : NonceGen × Mem × Nat :=
  vfEncrypt A g c.urandom key c.mem c.plain c.len c.out

/-- The nonces of the calls, read off the packets: the first 24 bytes of each. -/
def nonces (g : Side → NonceGen) : List Call → List (List UInt8)
  | [] => []
  | c :: cs =>
    (c.run A key (g c.side)).2.1.read c.out 24 ::
      nonces (Function.update g c.side (c.run A key (g c.side)).1) cs

def readsOf (s : Side) (cs : List Call) : List Urandom :=
  (cs.filter (·.side = s)).map Call.urandom

/-- Each call's process and its number there, counted on from `n`. -/
def numbers (n : Side → Nat) : List Call → List (Side × Nat)
  | [] => []
  | c :: cs => (c.side, n c.side) :: numbers (Function.update n c.side (n c.side + 1)) cs

theorem run_nonce (g : NonceGen) (c : Call) :
    (c.run A key g).2.1.read c.out 24 = (nextNonce g c.urandom).toList :=
  read_write_len _ _ _ _ (by simp)

theorem run_gen (g : NonceGen) (c : Call) : (c.run A key g).1 = (getFastNonce g c.urandom).1 := rfl

theorem readsOf_cons_self (c : Call) (cs : List Call) :
    readsOf c.side (c :: cs) = c.urandom :: readsOf c.side cs := by
  simp [readsOf]

theorem readsOf_cons_ne {s : Side} {c : Call} (h : c.side ≠ s) (cs : List Call) :
    readsOf s (c :: cs) = readsOf s cs := by
  simp [readsOf, h]

theorem mem_numbers {n : Side → Nat} {cs : List Call} {s : Side} {i : Nat} :
    (s, i) ∈ numbers n cs ↔ n s ≤ i ∧ i < n s + (readsOf s cs).length := by
  induction cs generalizing n with
  | nil =>
    simp only [numbers, readsOf, List.not_mem_nil, List.filter_nil, List.map_nil, List.length_nil,
      false_iff]
    omega
  | cons c cs ih =>
    rw [numbers, List.mem_cons, ih]
    by_cases h : c.side = s
    · subst h
      rw [readsOf_cons_self, Function.update_self, List.length_cons, Prod.mk.injEq]
      constructor
      · rintro (⟨_, rfl⟩ | h) <;> omega
      · intro h
        by_cases hi : i = n c.side
        · exact Or.inl ⟨rfl, hi⟩
        · right
          omega
    · rw [readsOf_cons_ne h, Function.update_of_ne (Ne.symm h)]
      constructor
      · rintro (e | h')
        · exact absurd (congrArg Prod.fst e).symm h
        · exact h'
      · exact Or.inr

theorem nodup_numbers (n : Side → Nat) (cs : List Call) : (numbers n cs).Nodup := by
  induction cs generalizing n with
  | nil => exact List.nodup_nil
  | cons c cs ih =>
    rw [numbers, List.nodup_cons]
    refine ⟨?_, ih _⟩
    rw [mem_numbers, Function.update_self]
    omega

/-- **The nonce of every call** is given by its number and the reads of its process. The
induction carries the reads `h s` made by each process before the list starts. -/
theorem nonces_eq (h : Side → List Urandom) (cs : List Call) :
    nonces A key (fun s => genAfter (h s)) cs =
      (numbers (fun s => (h s).length) cs).map fun t =>
        nonceBytes (h t.1 ++ readsOf t.1 cs) t.2 := by
  induction cs generalizing h with
  | nil => rfl
  | cons c cs ih =>
    have hgen : Function.update (fun s => genAfter (h s)) c.side
        (c.run A key (genAfter (h c.side))).1 =
          fun s => genAfter (Function.update h c.side (h c.side ++ [c.urandom]) s) := by
      funext s
      by_cases e : s = c.side
      · subst e
        rw [Function.update_self, Function.update_self, run_gen]
        exact (genFrom_append .init _ _).symm
      · rw [Function.update_of_ne e, Function.update_of_ne e]
    have hnum : Function.update (fun s => (h s).length) c.side ((h c.side).length + 1) =
        fun s => (Function.update h c.side (h c.side ++ [c.urandom]) s).length := by
      funext s
      by_cases e : s = c.side
      · subst e
        simp
      · rw [Function.update_of_ne e, Function.update_of_ne e]
    have hreads : ∀ s, Function.update h c.side (h c.side ++ [c.urandom]) s ++ readsOf s cs =
        h s ++ readsOf s (c :: cs) := by
      intro s
      by_cases e : s = c.side
      · subst e
        rw [Function.update_self, readsOf_cons_self, List.append_assoc]
        rfl
      · rw [Function.update_of_ne e, readsOf_cons_ne (Ne.symm e)]
    rw [nonces, numbers, List.map_cons, run_nonce, nextNonce_genAfter, hgen, ih, hnum]
    congr 1
    · rw [nonceBytes, readsOf_cons_self]
      congr 3
      rw [List.take_length_add_append]
      rfl
    · apply List.map_congr_left
      intro t _
      rw [hreads]

/-- Nonces of calls below 2^64 are equal exactly when their numbers and salts are. -/
theorem nonceBytes_inj {rds rds' : List Urandom} {i j : Nat} (hi : i < 2 ^ 64) (hj : j < 2 ^ 64) :
    nonceBytes rds i = nonceBytes rds' j ↔
      i = j ∧ saltAfter (rds.take (i + 1)) = saltAfter (rds'.take (i + 1)) := by
  constructor
  · intro h
    obtain ⟨hs, hc⟩ := List.append_inj h (by simp)
    have hv := congrArg leVal hc
    rw [le64, le64, leVal_leBytes, leVal_leBytes, UInt64.toNat_ofNat', UInt64.toNat_ofNat',
      Nat.mod_eq_of_lt hi, Nat.mod_eq_of_lt hj] at hv
    have hij : i = j := by omega
    subst hij
    exact ⟨rfl, Block.toList_inj hs⟩
  · rintro ⟨rfl, hs⟩
    rw [nonceBytes, nonceBytes, hs]

/-- **No nonce is used twice** exactly when, at every call number that both processes
reach, the salts that their reads have put in place differ. -/
theorem nonces_distinct_iff (cs : List Call) (hn : ∀ s, (readsOf s cs).length < 2 ^ 64) :
    (nonces A key (fun _ => .init) cs).Nodup ↔
      ∀ i, i < (readsOf .client cs).length → i < (readsOf .server cs).length →
        saltAfter ((readsOf .client cs).take (i + 1)) ≠
          saltAfter ((readsOf .server cs).take (i + 1)) := by
  have he := nonces_eq A key (fun _ => []) cs
  simp only [List.nil_append, List.length_nil] at he
  rw [show (fun _ : Side => NonceGen.init) = fun _ => genAfter [] from rfl, he,
    List.nodup_map_iff_inj_on (nodup_numbers _ cs)]
  have hmem : ∀ s i, (s, i) ∈ numbers (fun _ => 0) cs ↔ i < (readsOf s cs).length := by
    intro s i
    rw [mem_numbers]
    omega
  have hlt : ∀ s i, (s, i) ∈ numbers (fun _ => 0) cs → i < 2 ^ 64 := by
    intro s i h
    have h1 := (hmem s i).mp h
    have h2 := hn s
    omega
  constructor
  · intro hinj i hc hs e
    have hc := (hmem .client i).mpr hc
    have hs := (hmem .server i).mpr hs
    have := hinj _ hc _ hs ((nonceBytes_inj (hlt _ _ hc) (hlt _ _ hs)).mpr ⟨rfl, e⟩)
    cases this
  · rintro hd ⟨s, i⟩ hi ⟨t, j⟩ hj e
    obtain ⟨rfl, e⟩ := (nonceBytes_inj (hlt _ _ hi) (hlt _ _ hj)).mp e
    have hi' := (hmem s i).mp hi
    have hj' := (hmem t i).mp hj
    cases s with
    | client =>
      cases t with
      | client => rfl
      | server => exact absurd e (hd i hi' hj')
    | server =>
      cases t with
      | client => exact absurd e.symm (hd i hj' hi')
      | server => rfl

end

def emptyCall (side : Side) (urandom : Urandom) : Call := ⟨side, urandom, fun _ => 0, 0, 0, 0⟩

/-- Two processes whose first reads deliver different bytes. -/
theorem first_nonces_differ :
    (nonces markAead (fun _ => 7) (fun _ => .init)
      [emptyCall .client (some (List.replicate 16 1)),
        emptyCall .server (some (List.replicate 16 2))]).Nodup := by
  refine (nonces_distinct_iff markAead (fun _ => 7) _ ?_).mpr ?_
  · intro s
    cases s <;> decide
  · intro i hc hs e
    cases i with
    | zero => exact absurd (congrFun e 0) (by decide)
    | succ i => exact absurd hc (by simp [readsOf, emptyCall])

/-- The salts that the two processes read in full differ. -/
def SaltsDiffer (cs : List Call) : Prop :=
  ∀ a b, some a ∈ readsOf .client cs → some b ∈ readsOf .server cs → 16 ≤ a.length →
    16 ≤ b.length → a.take 16 ≠ b.take 16

/-- **Two processes that cannot read `/dev/urandom` start with the same nonce.** -/
theorem unread_salts_collide :
    SaltsDiffer [emptyCall .client none, emptyCall .server none] ∧
      ¬ (nonces markAead (fun _ => 7) (fun _ => .init)
        [emptyCall .client none, emptyCall .server none]).Nodup := by
  refine ⟨fun a b ha => ?_, ?_⟩
  · simp [readsOf, emptyCall] at ha
  · decide

end Vfast.Nonces
