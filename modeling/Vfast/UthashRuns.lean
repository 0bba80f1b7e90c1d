import Vfast.Lib.Keyed
import Vfast.Lib.Run
import Vfast.UthashRep

/-! Hashes in use: any number of them over one handle field, and whole runs of one. -/

namespace Vfast.Uthash

/-! ## As a keyed list -/

variable {P : Type} {o : Elements P}

section Keyed

variable {n : Nat}

/-- The hash holds the keyed list `t`, which has the newest element first. -/
def Holds (o : Elements P) (n : Nat) (s : Handles P × Root P) (t : List P) : Prop :=
  Rep o n s.1 s.2 t.reverse

/-- With distinct keys `HASH_FIND` is the search of the keyed list. -/
theorem Holds.find {s : Handles P × Root P} {t : List P} (h : Holds o n s t) {fuel : Nat}
    (hf : t.length ≤ fuel) (hd : Keyed.KeysDistinct o.key t) {k : List UInt8} (hk : k.length = n) :
    hashFind o fuel s.1 s.2 k = .ok (Keyed.hashFind o.key t k) := by
  have hf' : t.reverse.length ≤ fuel := by rwa [List.length_reverse]
  obtain ⟨r, he, hsome, hnone⟩ := Rep.find h hf' hk
  rw [he]
  cases r with
  | none =>
    rw [Keyed.hashFind_eq_none.mpr fun p hp => hnone rfl p (List.mem_reverse.mpr hp)]
  | some p =>
    obtain ⟨hp, rfl⟩ := hsome p rfl
    rw [Keyed.hashFind_of_mem hd (List.mem_reverse.mp hp)]

theorem erase_reverse [DecidableEq P] {t : List P} (hn : t.Nodup) (p : P) :
    t.reverse.erase p = (t.erase p).reverse := by
  rw [hn.erase_eq_filter, ← List.filter_reverse, ← (List.nodup_reverse.mpr hn).erase_eq_filter]

def hashWalk (o : Elements P) (fuel : Nat) (s : Handles P × Root P) : Except Halt (List P) :=
  hashIter (fun _ => o) (fun _ => s.1) (fun _ => s.2) (fun seen p => .ok (seen ++ [p], false))
    fuel []

theorem Holds.walk {s : Handles P × Root P} {t : List P} (h : Holds o n s t) {fuel : Nat}
    (hf : t.length ≤ fuel) : hashWalk o fuel s = .ok (Keyed.hashIter t) := by
  have hlist : ∀ l seen : List P,
      iterList (fun seen p => .ok (seen ++ [p], false)) l seen = .ok (seen ++ l) := by
    intro l
    induction l with
    | nil => exact fun seen => by rw [List.append_nil]; rfl
    | cons p l ih => exact fun seen => (ih (seen ++ [p])).trans (by rw [List.append_assoc]; rfl)
  have hf' : t.reverse.length ≤ fuel := by rwa [List.length_reverse]
  rw [hashWalk, Keyed.hashIter, ← List.nil_append t.reverse, ← hlist]
  exact hashIter_eq (fun _ l => l <:+ t.reverse) (fun _ p l hl => h.suffix hl)
    (fun _ p l _ hl _ => (List.suffix_cons p l).trans hl) hf' (List.suffix_refl _) h.head

end Keyed

variable [DecidableEq P]

/-! ## Hashes that share a handle field -/

section Shards

variable {ι : Type} [DecidableEq ι] {n : Nat} {hh : Handles P} {root : ι → Root P}
  {items : ι → List P}

/-- Any number of hashes over the same handle field, no element in two of them. -/
structure Shards (o : Elements P) (n : Nat) (hh : Handles P) (root : ι → Root P)
    (items : ι → List P) : Prop where
  rep : ∀ i, Rep o n hh (root i) (items i)
  disjoint : ∀ i j p, p ∈ items i → p ∈ items j → i = j

omit [DecidableEq P] [DecidableEq ι] in
theorem Shards.frame (h : Shards o n hh root items) {o' : Elements P}
    (ho : ∀ i, ∀ p ∈ items i, o'.alive p = true ∧ o'.key p = o.key p) :
    Shards o' n hh root items :=
  ⟨fun i => (h.rep i).frame (fun _ _ => ⟨rfl, rfl, rfl, rfl, rfl, rfl⟩) (ho i), h.disjoint⟩

omit [DecidableEq P] in
/-- One hash changes, and only the handles of elements that no other hash has. -/
theorem Shards.replace (h : Shards o n hh root items) {hh' : Handles P} (i : ι) {root' : Root P}
    {l : List P} (hr : Rep o n hh' root' l) (hnew : ∀ j, j ≠ i → ∀ p ∈ items j, p ∉ l)
    (hsame : ∀ j, j ≠ i → ∀ p ∈ items j, SameHandle hh hh' p) :
    Shards o n hh' (Function.update root i root') (Function.update items i l) := by
  constructor
  · intro j
    by_cases e : j = i
    · subst e
      rw [Function.update_self, Function.update_self]
      exact hr
    · rw [Function.update_of_ne e, Function.update_of_ne e]
      exact (h.rep j).frame (hsame j e) fun p hp => ⟨(h.rep j).alive p hp, rfl⟩
  · intro j k p hj hk
    by_cases ej : j = i <;> by_cases ek : k = i
    · exact ej.trans ek.symm
    · subst ej
      rw [Function.update_self] at hj
      rw [Function.update_of_ne ek] at hk
      exact absurd hj (hnew k ek p hk)
    · subst ek
      rw [Function.update_of_ne ej] at hj
      rw [Function.update_self] at hk
      exact absurd hk (hnew j ej p hj)
    · rw [Function.update_of_ne ej] at hj
      rw [Function.update_of_ne ek] at hk
      exact h.disjoint j k p hj hk

theorem Shards.add (h : Shards o n hh root items) {malloc : Nat → Bool}
    (hmem : malloc (2 ^ 36) = false) (i : ι) {fuel : Nat} (hf : (items i).length < fuel) {a : P}
    (ha : o.alive a = true) (hnew : ∀ j, a ∉ items j) (hlen : (o.key a).length = n) :
    Exits malloc (Asks (root i)) (hashAdd o malloc fuel hh (root i) a) ∨
    ∃ hh' root', hashAdd o malloc fuel hh (root i) a = .ok (hh', root') ∧
      Shards o n hh' (Function.update root i root')
        (Function.update items i (items i ++ [a])) := by
  have hout : ∀ j, j ≠ i → ∀ p ∈ items j, p ∉ items i ++ [a] := by
    intro j hji p hp hm
    rcases List.mem_append.mp hm with hm | hm
    · exact hji (h.disjoint j i p hp hm)
    · exact hnew j (List.mem_singleton.mp hm ▸ hp)
  rcases (h.rep i).add hmem hf ha (hnew i) hlen with he | ⟨hh', root', he, hr, hsame⟩
  · exact .inl he
  · exact .inr ⟨hh', root', he, h.replace i hr hout fun j hji p hp => hsame p (hout j hji p hp)⟩

theorem Shards.delete (h : Shards o n hh root items) (i : ι) {p : P} (hp : p ∈ items i) :
    ∃ hh' root', hashDelete o hh (root i) p = .ok (hh', root') ∧
      Shards o n hh' (Function.update root i root')
        (Function.update items i ((items i).erase p)) := by
  obtain ⟨hh', root', he, hr, hsame⟩ := (h.rep i).delete hp
  have hout : ∀ j, j ≠ i → ∀ q ∈ items j, q ∉ items i := fun j hji q hq hm =>
    hji (h.disjoint j i q hq hm)
  exact ⟨hh', root', he, h.replace i hr
    (fun j hji q hq hm => hout j hji q hq (List.mem_of_mem_erase hm))
    fun j hji q hq => hsame q (hout j hji q hq)⟩

end Shards

/-! ## Whole runs -/

section Runs

/-- What a program does with a hash; each addition meets its own memory. -/
inductive Op (P : Type) where
  | add (malloc : Nat → Bool) (p : P)
  | delete (p : P)

def Op.run (o : Elements P) (fuel : Nat) (s : Handles P × Root P) :
    Op P → Except Halt (Handles P × Root P)
  | .add malloc p => hashAdd o malloc fuel s.1 s.2 p
  | .delete p => hashDelete o s.1 s.2 p

def Op.spec (t : List P) : Op P → List P
  | .add _ p => Keyed.hashAdd t p
  | .delete p => Keyed.hashDelete t p

/-- Added are allocated elements with keys of `n` bytes that are not there yet, deleted are
elements that are there; no more than 64 GiB can be had at once. -/
def Op.Valid (o : Elements P) (n : Nat) (t : List P) : Op P → Prop
  | .add malloc p => malloc (2 ^ 36) = false ∧ o.alive p = true ∧ p ∉ t ∧ (o.key p).length = n
  | .delete p => p ∈ t

def ValidRun (o : Elements P) (n : Nat) : List P → List (Op P) → Prop
  | _, [] => True
  | t, op :: ops => op.Valid o n t ∧ ValidRun o n (op.spec t) ops

variable {n : Nat}

/-- An addition stops only if `malloc` refuses a size that it asks for, and a deletion never. -/
def Op.Refused (s : Handles P × Root P) (op : Op P) (halt : Halt) : Prop :=
  match op with
  | .add malloc _ => ∃ size, Asks s.2 size ∧ malloc size = false ∧ halt = .exit size
  | .delete _ => False

/-- The program has exited at an addition whose request was refused. -/
def RanOut (o : Elements P) (fuel : Nat) (s : Handles P × Root P) (ops : List (Op P)) : Prop :=
  Run.Stops (List.foldlM (Op.run o fuel) s) Op.Refused ops

theorem Op.run_holds {fuel : Nat} {s : Handles P × Root P} {t : List P} (h : Holds o n s t)
    (hf : t.length < fuel) {op : Op P} (hv : op.Valid o n t) :
    (∃ halt, op.run o fuel s = .error halt ∧ op.Refused s halt) ∨
      ∃ s', op.run o fuel s = .ok s' ∧ Holds o n s' (op.spec t) := by
  have hf' : t.reverse.length < fuel := by rwa [List.length_reverse]
  cases op with
  | add malloc p =>
    obtain ⟨hmem, ha, hnew, hlen⟩ := hv
    rcases Rep.add h hmem hf' ha (fun hm => hnew (List.mem_reverse.mp hm)) hlen with
      ⟨size, hasks, hs, he⟩ | ⟨hh', root', he, hr, -⟩
    · exact .inl ⟨.exit size, he, size, hasks, hs, rfl⟩
    · refine .inr ⟨(hh', root'), he, ?_⟩
      rw [Holds, Op.spec, Keyed.hashAdd, List.reverse_cons]
      exact hr
  | delete p =>
    obtain ⟨hh', root', he, hr, -⟩ := Rep.delete h (List.mem_reverse.mpr hv)
    refine .inr ⟨(hh', root'), he, ?_⟩
    have hn : t.Nodup := List.nodup_reverse.mp h.nodup
    rw [Holds, Op.spec, Keyed.hashDelete, ← erase_reverse hn]
    exact hr

theorem length_spec_le (t : List P) (op : Op P) : (op.spec t).length ≤ t.length + 1 := by
  cases op with
  | add malloc p => exact Nat.le_refl _
  | delete p => exact Nat.le_succ_of_le (List.length_erase_le ..)

theorem run_holds {fuel : Nat} {ops : List (Op P)} {s : Handles P × Root P} {t : List P}
    (h : Holds o n s t) (hf : t.length + ops.length ≤ fuel) (hv : ValidRun o n t ops) :
    RanOut o fuel s ops ∨
      ∃ s', ops.foldlM (Op.run o fuel) s = .ok s' ∧ Holds o n s' (ops.foldl Op.spec t) ∧
        (ops.foldl Op.spec t).length ≤ fuel := by
  induction ops generalizing s t with
  | nil => exact .inr ⟨s, rfl, h, hf⟩
  | cons op ops ih =>
    rw [List.length_cons] at hf
    have hlt : t.length < fuel := by omega
    rw [List.foldlM_cons, List.foldl_cons]
    rcases op.run_holds h hlt hv.1 with ⟨halt, he, hr⟩ | ⟨s', he, h'⟩
    · exact .inl (.head he hr ops)
    · rw [he]
      have hle := length_spec_le t op
      exact (ih h' (by omega) hv.2).imp_left (.cons he)

/-- **Runs of a hash.** Whatever a program adds and deletes, and however often the bucket array
doubles on the way, no macro follows a bad pointer or loops: the hash holds what the keyed list
holds, unless `malloc` refused what an addition asked for. -/
theorem uthash_runs (hh : Handles P) (fuel : Nat) (ops : List (Op P)) (hv : ValidRun o n [] ops)
    (hf : ops.length ≤ fuel) :
    RanOut o fuel (hh, Root.empty) ops ∨
    ∃ s t, ops.foldlM (Op.run o fuel) (hh, Root.empty) = .ok s ∧ t = ops.foldl Op.spec [] ∧
      (∀ k, k.length = n → ∃ r, hashFind o fuel s.1 s.2 k = .ok r ∧
        (∀ p, r = some p → p ∈ t ∧ o.key p = k) ∧ (r = none → ∀ p ∈ t, o.key p ≠ k)) ∧
      (Keyed.KeysDistinct o.key t → ∀ k, k.length = n →
        hashFind o fuel s.1 s.2 k = .ok (Keyed.hashFind o.key t k)) ∧
      hashCnt o s.2 = .ok (UInt32.ofNat (Keyed.hashCnt t)) ∧
      hashWalk o fuel s = .ok (Keyed.hashIter t) := by
  have h₀ : Holds o n (hh, Root.empty) [] := Rep.empty o n hh none
  have hf₀ : ([] : List P).length + ops.length ≤ fuel := by rwa [List.length_nil, Nat.zero_add]
  rcases run_holds h₀ hf₀ hv with he | ⟨s, he, h, hlen⟩
  · exact .inl he
  · refine .inr ⟨s, _, he, rfl, fun k hk => ?_, fun hd k hk => h.find hlen hd hk, ?_, h.walk hlen⟩
    · have hlen' : (ops.foldl Op.spec []).reverse.length ≤ fuel := by rwa [List.length_reverse]
      obtain ⟨r, hr, hsome, hnone⟩ := Rep.find h hlen' hk
      refine ⟨r, hr, fun p hp => ?_, fun e p hp => hnone e p (List.mem_reverse.mpr hp)⟩
      obtain ⟨hm, hk⟩ := hsome p hp
      exact ⟨List.mem_reverse.mp hm, hk⟩
    · rw [Rep.cnt h, List.length_reverse, Keyed.hashCnt]

def byteElements : Elements Nat := ⟨fun _ => true, fun p => [UInt8.ofNat p]⟩

def blankHandles : Handles Nat :=
  ⟨fun _ => none, fun _ => none, fun _ => none, fun _ => none, fun _ => 0, fun _ => 0⟩

def threeOps : List (Op Nat) :=
  [.add (· < 2 ^ 36) 4, .add (· < 2 ^ 36) 5, .add (· < 2 ^ 36) 6, .delete 5]

theorem uthash_two_left : ∃ s,
    threeOps.foldlM (Op.run byteElements 4) (blankHandles, Root.empty) = .ok s ∧
      hashWalk byteElements 4 s = .ok [4, 6] := by
  have hv : ValidRun byteElements 1 [] threeOps := by
    simp [threeOps, ValidRun, Op.Valid, Op.spec, Keyed.hashAdd, byteElements]
  rcases uthash_runs blankHandles 4 threeOps hv (by decide) with
    ⟨-, -, -, -, halt, -, -, -, he⟩ | ⟨s, t, he, rfl, -, -, -, hw⟩
  · have hok : (threeOps.foldlM (Op.run byteElements 4) (blankHandles, Root.empty)).isOk =
        true := by
      decide +kernel
    rw [he] at hok
    exact absurd hok Bool.false_ne_true
  · exact ⟨s, he, hw⟩

end Runs

end Vfast.Uthash
