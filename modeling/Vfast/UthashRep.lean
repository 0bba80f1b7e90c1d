import Mathlib.Algebra.Group.Nat.Defs
import Mathlib.Data.List.Perm.Subperm
import Vfast.Lib.Linked
import Vfast.Uthash

/-! What a hash of `uthash.h` looks like in memory, and that the macros keep it so. `Rep` says that
the handles link its elements in the order of insertion and that every bucket leads to the chain
of those its number was computed for; finding, adding, deleting and walking are then what they
are on a list. -/

namespace Vfast.Uthash

open Linked

variable {P : Type}

/-! ## What stands in memory -/

variable {o : Elements P}

theorem deref_some {p : P} (h : o.alive p = true) : deref o (some p) = .ok p := by
  rw [deref, if_pos h]

theorem headTbl_some {p : P} (h : o.alive p = true) (tb : Table P) :
    headTbl o ⟨some p, some tb⟩ = .ok tb := by
  rw [headTbl, deref_some h]
  rfl

/-- The buckets of an array: each leads to its chain, and an element is in the chain its hash
selects. -/
structure Buckets (hh : Handles P) (nb : UInt32) (bs : List (Bucket P)) (member : P → Prop)
    (chain : Nat → List P) : Prop where
  length : bs.length = nb.toNat
  chains : Chains hh.hhPrev hh.hhNext chain
  bucket : ∀ i b, bs[i]? = some b →
    b.hhHead = (chain i).head? ∧ b.count = UInt32.ofNat (chain i).length
  mem : ∀ i p, p ∈ chain i ↔ member p ∧ (hashToBkt (hh.hashv p) nb).toNat = i

/-- A write to bucket links, and to those of the elements in `S` only. -/
structure Moved (S : P → Prop) (hh hh' : Handles P) : Prop where
  prev : hh'.prev = hh.prev
  next : hh'.next = hh.next
  keylen : hh'.keylen = hh.keylen
  hashv : hh'.hashv = hh.hashv
  hhPrev : ∀ p, ¬ S p → hh'.hhPrev p = hh.hhPrev p
  hhNext : ∀ p, ¬ S p → hh'.hhNext p = hh.hhNext p

theorem Moved.refl (S : P → Prop) (hh : Handles P) : Moved S hh hh :=
  ⟨rfl, rfl, rfl, rfl, fun _ _ => rfl, fun _ _ => rfl⟩

theorem Moved.trans {S T U : P → Prop} {hh hh' hh'' : Handles P} (h : Moved S hh hh')
    (h' : Moved T hh' hh'') (hS : ∀ p, S p → U p) (hT : ∀ p, T p → U p) : Moved U hh hh'' :=
  ⟨h'.prev.trans h.prev, h'.next.trans h.next, h'.keylen.trans h.keylen, h'.hashv.trans h.hashv,
    fun p hp => (h'.hhPrev p fun ht => hp (hT p ht)).trans (h.hhPrev p fun hs => hp (hS p hs)),
    fun p hp => (h'.hhNext p fun ht => hp (hT p ht)).trans (h.hhNext p fun hs => hp (hS p hs))⟩

theorem hashToBkt_lt {nb : UInt32} {k : Nat} (h : nb.toNat = 2 ^ k) (hashv : UInt32) :
    (hashToBkt hashv nb).toNat < nb.toNat := by
  have hpos : 1 ≤ nb.toNat := h ▸ Nat.one_le_two_pow
  have hsub : (nb - 1).toNat = nb.toNat - 1 :=
    UInt32.toNat_sub_of_le nb 1 (UInt32.le_iff_toNat_le.mpr hpos)
  have hle : (hashToBkt hashv nb).toNat ≤ nb.toNat - 1 := by
    rw [hashToBkt, UInt32.toNat_and, hsub]
    exact Nat.and_le_right
  omega

theorem Buckets.bucketAt {hh : Handles P} {nb : UInt32} {bs : List (Bucket P)} {member : P → Prop}
    {chain : Nat → List P} (h : Buckets hh nb bs member chain) {i : UInt32}
    (hi : i.toNat < nb.toNat) : ∃ b, Uthash.bucketAt bs i = .ok b ∧
      b.hhHead = (chain i.toNat).head? ∧ b.count = UInt32.ofNat (chain i.toNat).length := by
  have hlt : i.toNat < bs.length := by rw [h.length]; exact hi
  have hget : bs[i.toNat]? = some bs[i.toNat] := List.getElem?_eq_getElem hlt
  exact ⟨bs[i.toNat], by rw [Uthash.bucketAt, hget], h.bucket _ _ hget⟩

theorem Buckets.congr {hh hh' : Handles P} {nb : UInt32} {bs : List (Bucket P)}
    {member member' : P → Prop} {chain : Nat → List P} (h : Buckets hh nb bs member chain)
    (hm : ∀ p, member' p ↔ member p) (hp : ∀ p, member p → hh'.hhPrev p = hh.hhPrev p)
    (hn : ∀ p, member p → hh'.hhNext p = hh.hhNext p)
    (hv : ∀ p, member p → hh'.hashv p = hh.hashv p) : Buckets hh' nb bs member' chain := by
  have hin : ∀ i p, p ∈ chain i → member p := fun i p hp => ((h.mem i p).mp hp).1
  refine ⟨h.length, ⟨fun i => ?_, h.chains.nodup, h.chains.disjoint⟩, h.bucket, fun i p => ?_⟩
  · exact (h.chains.seg i).congr (fun p hp' => hp p (hin i p hp')) fun p hp' => hn p (hin i p hp')
  · rw [h.mem, hm]
    exact and_congr_right fun hp' => by rw [hv p hp']

theorem bucket_set {bs : List (Bucket P)} {chain : Nat → List P}
    (h : ∀ i b, bs[i]? = some b →
      b.hhHead = (chain i).head? ∧ b.count = UInt32.ofNat (chain i).length)
    {j : Nat} (hj : j < bs.length) {b' : Bucket P} {l : List P} (hhead : b'.hhHead = l.head?)
    (hcount : b'.count = UInt32.ofNat l.length) (i : Nat) (b : Bucket P)
    (hi : (bs.set j b')[i]? = some b) :
    b.hhHead = (Function.update chain j l i).head? ∧
      b.count = UInt32.ofNat (Function.update chain j l i).length := by
  by_cases e : i = j
  · subst e
    rw [List.getElem?_set_self hj] at hi
    rw [Function.update_self, ← Option.some.inj hi]
    exact ⟨hhead, hcount⟩
  · rw [List.getElem?_set_ne (Ne.symm e)] at hi
    rw [Function.update_of_ne e]
    exact h i b hi

/-- The table record of a hash with these elements, its tail apart. -/
structure Indexed (o : Elements P) (hh : Handles P) (tb : Table P) (items : List P)
    (chain : Nat → List P) : Prop where
  alive : ∀ p ∈ items, o.alive p = true
  log2 : tb.log2NumBuckets.toNat < 32
  size : tb.numBuckets.toNat = 2 ^ tb.log2NumBuckets.toNat
  numItems : tb.numItems = UInt32.ofNat items.length
  buckets : Buckets hh tb.numBuckets tb.buckets (· ∈ items) chain

theorem Indexed.chain_length {hh : Handles P} {tb : Table P} {items : List P}
    {chain : Nat → List P} (h : Indexed o hh tb items chain) (i : Nat) :
    (chain i).length ≤ items.length :=
  ((h.buckets.chains.nodup i).subperm fun p hp => ((h.buckets.mem i p).mp hp).1).length_le

theorem indexed_new (hh : Handles P) (a : P) :
    Indexed o hh (Table.new a) [] fun _ => [] := by
  refine ⟨fun _ hp => (nomatch hp), (by decide : (5 : UInt32).toNat < 32),
    (by decide : (32 : UInt32).toNat = 2 ^ (5 : UInt32).toNat), rfl,
    ⟨List.length_replicate, chains_nil, fun i b hb => ?_, fun i p => ?_⟩⟩
  · rw [List.eq_of_mem_replicate (List.mem_of_getElem? hb)]
    exact ⟨rfl, rfl⟩
  · exact ⟨fun hp => absurd hp List.not_mem_nil, fun hp => absurd hp.1 List.not_mem_nil⟩

/-- A hash with these elements, in the order in which they were added. -/
structure Rep (o : Elements P) (n : Nat) (hh : Handles P) (root : Root P) (items : List P) :
    Prop where
  nodup : items.Nodup
  alive : ∀ p ∈ items, o.alive p = true
  head : root.head = items.head?
  seg : Seg hh.prev hh.next none items none
  key : ∀ p ∈ items, (o.key p).length = n
  hashv : ∀ p ∈ items, hh.hashv p = hashJen (o.key p)
  keylen : ∀ p ∈ items, hh.keylen p = UInt32.ofNat n
  table : items ≠ [] → ∃ tb chain, root.tbl = some tb ∧ tb.tail = items.getLast? ∧
    Indexed o hh tb items chain

/-- The handle of an element is as it was. -/
structure SameHandle (hh hh' : Handles P) (p : P) : Prop where
  prev : hh'.prev p = hh.prev p
  next : hh'.next p = hh.next p
  hhPrev : hh'.hhPrev p = hh.hhPrev p
  hhNext : hh'.hhNext p = hh.hhNext p
  keylen : hh'.keylen p = hh.keylen p
  hashv : hh'.hashv p = hh.hashv p

theorem Rep.empty (o : Elements P) (n : Nat) (hh : Handles P) (tbl : Option (Table P)) :
    Rep o n hh ⟨none, tbl⟩ [] where
  nodup := List.nodup_nil
  alive _ h := nomatch h
  head := rfl
  seg := trivial
  key _ h := nomatch h
  hashv _ h := nomatch h
  keylen _ h := nomatch h
  table h := absurd rfl h

section Shape

variable {n : Nat} {hh : Handles P} {root : Root P} {items : List P}

/-- Writes to other elements do not matter. -/
theorem Rep.frame (h : Rep o n hh root items) {o' : Elements P} {hh' : Handles P}
    (hhh : ∀ p ∈ items, SameHandle hh hh' p)
    (ho : ∀ p ∈ items, o'.alive p = true ∧ o'.key p = o.key p) : Rep o' n hh' root items where
  nodup := h.nodup
  alive p hp := (ho p hp).1
  head := h.head
  seg := h.seg.congr (fun p hp => (hhh p hp).prev) fun p hp => (hhh p hp).next
  key p hp := by rw [(ho p hp).2, h.key p hp]
  hashv p hp := by rw [(hhh p hp).hashv, (ho p hp).2, h.hashv p hp]
  keylen p hp := by rw [(hhh p hp).keylen, h.keylen p hp]
  table hne := by
    obtain ⟨tb, chain, ht, htail, hi⟩ := h.table hne
    exact ⟨tb, chain, ht, htail, fun p hp => (ho p hp).1, hi.log2, hi.size, hi.numItems,
      hi.buckets.congr (fun _ => Iff.rfl) (fun p hp => (hhh p hp).hhPrev)
        (fun p hp => (hhh p hp).hhNext) fun p hp => (hhh p hp).hashv⟩

theorem tbl_of_headTbl {tb : Table P} (h : Uthash.headTbl o root = .ok tb) :
    root.tbl = some tb := by
  obtain ⟨head, tbl⟩ := root
  rw [Uthash.headTbl] at h
  cases hd : deref o head with
  | error e => simp only [hd, bind, Except.bind, reduceCtorEq] at h
  | ok p =>
    cases tbl with
    | none => simp only [hd, bind, Except.bind, reduceCtorEq] at h
    | some tb' =>
      simp only [hd, bind, Except.bind, Except.ok.injEq] at h
      rw [h]

theorem Rep.headTbl (h : Rep o n hh root items) (hne : items ≠ []) :
    ∃ tb chain, Uthash.headTbl o root = .ok tb ∧ tb.tail = items.getLast? ∧
      Indexed o hh tb items chain := by
  obtain ⟨tb, chain, ht, htail, hi⟩ := h.table hne
  obtain ⟨p, l, rfl⟩ := List.exists_cons_of_ne_nil hne
  have hroot : root = ⟨some p, some tb⟩ := by
    cases root
    exact congrArg₂ Root.mk h.head ht
  exact ⟨tb, chain, by rw [hroot, headTbl_some (h.alive p List.mem_cons_self)], htail, hi⟩

theorem hashFindInBkt_eq (keyptr : List UInt8) (hashval : UInt32) {l : List P} {fuel : Nat}
    (hf : l.length ≤ fuel) (hpath : Path hh.hhNext l) (ha : ∀ p ∈ l, o.alive p = true) :
    hashFindInBkt o hh keyptr hashval fuel l.head? = .ok (l.find? fun p =>
      hh.hashv p = hashval ∧ hh.keylen p = UInt32.ofNat keyptr.length ∧
        (o.key p).take keyptr.length = keyptr) := by
  induction l generalizing fuel with
  | nil => cases fuel <;> rfl
  | cons p l ih =>
    obtain ⟨fuel, rfl⟩ := Nat.exists_eq_add_of_le' (Nat.one_le_of_lt hf)
    rw [List.head?_cons, hashFindInBkt, deref_some (ha p List.mem_cons_self), List.find?_cons]
    simp only [bind, Except.bind]
    split
    · rename_i hc
      simp only [hc, and_self, decide_true]
    · rename_i hc
      rw [hpath.1, ih (Nat.le_of_succ_le_succ hf) hpath.2 fun q hq =>
        ha q (List.mem_cons_of_mem p hq), decide_eq_false hc]

/-- **Finding.** An element with the key is found if there is one. -/
theorem Rep.find (h : Rep o n hh root items) {fuel : Nat} (hf : items.length ≤ fuel)
    {k : List UInt8} (hk : k.length = n) :
    ∃ r, hashFind o fuel hh root k = .ok r ∧ (∀ p, r = some p → p ∈ items ∧ o.key p = k) ∧
      (r = none → ∀ p ∈ items, o.key p ≠ k) := by
  by_cases hne : items = []
  · subst hne
    exact ⟨none, by rw [hashFind, h.head]; rfl, fun _ e => (nomatch e), fun _ _ hp => (nomatch hp)⟩
  obtain ⟨tb, chain, ht, -, hi⟩ := h.headTbl hne
  obtain ⟨b, hb, hhead, -⟩ := hi.buckets.bucketAt (hashToBkt_lt hi.size (hashJen k))
  set i := (hashToBkt (hashJen k) tb.numBuckets).toNat
  have hmem : ∀ p ∈ chain i, p ∈ items := fun p hp => ((hi.buckets.mem i p).mp hp).1
  have hrun := hashFindInBkt_eq k (hashJen k)
    (Nat.le_trans (hi.chain_length i) hf) (hi.buckets.chains.seg i).path
    fun p hp => h.alive p (hmem p hp)
  have hfind : hashFind o fuel hh root k =
      hashFindInBkt o hh k (hashJen k) fuel (chain i).head? := by
    rw [hashFind, h.head, if_neg fun e => hne (List.head?_eq_none_iff.mp e), ht]
    simp only [bind, Except.bind, hb, hhead]
  refine ⟨_, hfind.trans hrun, fun p hp => ?_, fun hnone p hp e => ?_⟩
  · have hp' := hmem p (List.mem_of_find?_eq_some hp)
    have hc := List.find?_some hp
    simp only [decide_eq_true_eq] at hc
    have hlen : (o.key p).length ≤ k.length := Nat.le_of_eq ((h.key p hp').trans hk.symm)
    exact ⟨hp', by rw [← hc.2.2, List.take_of_length_le hlen]⟩
  · have hin : p ∈ chain i := (hi.buckets.mem i p).mpr ⟨hp, by rw [h.hashv p hp, e]⟩
    have hlen : (o.key p).length ≤ k.length := Nat.le_of_eq ((h.key p hp).trans hk.symm)
    refine List.find?_eq_none.mp hnone p hin (decide_eq_true ?_)
    exact ⟨by rw [h.hashv p hp, e], by rw [h.keylen p hp, hk],
      by rw [List.take_of_length_le hlen, e]⟩

theorem Rep.cnt (h : Rep o n hh root items) :
    hashCnt o root = .ok (UInt32.ofNat items.length) := by
  by_cases hne : items = []
  · subst hne
    rw [hashCnt, h.head]
    rfl
  · obtain ⟨tb, chain, ht, -, hi⟩ := h.headTbl hne
    rw [hashCnt, h.head, if_neg fun e => hne (List.head?_eq_none_iff.mp e), ht]
    simp only [bind, Except.bind, hi.numItems]

end Shape

/-- A loop over a list whose body may break. -/
def iterList {σ : Type} (body : σ → P → Except Halt (σ × Bool)) : List P → σ → Except Halt σ
  | [], s => .ok s
  | p :: l, s => do
    let (s, stop) ← body s p
    if stop then .ok s else iterList body l s

/-- **Walking.** The loop runs its body on one element after the other, as long as the body leaves
those that follow in the list. -/
theorem hashIterLoop_eq {σ : Type} {os : σ → Elements P} {hs : σ → Handles P}
    {body : σ → P → Except Halt (σ × Bool)} (I : σ → List P → Prop)
    (hI : ∀ s p l, I s (p :: l) → (os s).alive p = true ∧ (hs s).next p = l.head?)
    (hbody : ∀ s p l s', I s (p :: l) → body s p = .ok (s', false) → I s' l) {fuel : Nat}
    {l : List P} (hf : l.length ≤ fuel) {s : σ} (h : I s l) :
    hashIterLoop os hs body fuel s l.head? l.tail.head? = iterList body l s := by
  induction l generalizing fuel s with
  | nil => cases fuel <;> rfl
  | cons p l ih =>
    obtain ⟨fuel, rfl⟩ := Nat.exists_eq_add_of_le' (Nat.one_le_of_lt hf)
    rw [List.head?_cons, List.tail_cons, hashIterLoop, iterList]
    rcases hb : body s p with e | ⟨s', _ | _⟩
    · rfl
    · have h' := hbody s p l s' h hb
      have hrest := ih (Nat.le_of_succ_le_succ hf) h'
      simp only [bind, Except.bind, Bool.false_eq_true, if_false]
      cases l with
      | nil => exact hrest
      | cons q l =>
        obtain ⟨ha, hn⟩ := hI s' q l h'
        simp only [List.head?_cons, deref_some ha, hn]
        exact hrest
    · rfl

theorem hashIter_eq {σ : Type} {os : σ → Elements P} {hs : σ → Handles P} {rs : σ → Root P}
    {body : σ → P → Except Halt (σ × Bool)} (I : σ → List P → Prop)
    (hI : ∀ s p l, I s (p :: l) → (os s).alive p = true ∧ (hs s).next p = l.head?)
    (hbody : ∀ s p l s', I s (p :: l) → body s p = .ok (s', false) → I s' l) {fuel : Nat}
    {l : List P} (hf : l.length ≤ fuel) {s : σ} (h : I s l) (hroot : (rs s).head = l.head?) :
    hashIter os hs rs body fuel s = iterList body l s := by
  rw [← hashIterLoop_eq I hI hbody hf h, hashIter, hroot]
  cases l with
  | nil => cases fuel <;> rfl
  | cons p l =>
    obtain ⟨ha, hn⟩ := hI s p l h
    simp only [List.head?_cons, deref_some ha, bind, Except.bind, hn, List.tail_cons]

theorem Rep.suffix {o : Elements P} {n : Nat} {hh : Handles P} {root : Root P} {items : List P}
    (h : Rep o n hh root items) {p : P} {l : List P} (hl : p :: l <:+ items) :
    o.alive p = true ∧ hh.next p = l.head? := by
  obtain ⟨m, rfl⟩ := hl
  exact ⟨h.alive p (List.mem_append_right _ List.mem_cons_self), h.seg.links.2⟩

/-! ## Adding to a chain, and doubling the array -/

variable [DecidableEq P]

theorem Buckets.push {hh : Handles P} {nb : UInt32} {k : Nat} (hnb : nb.toNat = 2 ^ k)
    {bs : List (Bucket P)} {member : P → Prop} {chain : Nat → List P}
    (h : Buckets hh nb bs member chain) (halive : ∀ p, member p → o.alive p = true) {a : P}
    (ha : o.alive a = true) (hnew : ¬ member a) :
    ∃ b hh' b', Uthash.bucketAt bs (hashToBkt (hh.hashv a) nb) = .ok b ∧
      pushFront o hh b a = .ok (hh', b') ∧ Moved (fun p => p = a ∨ member p) hh hh' ∧
      ∃ chain', ∀ b'' : Bucket P, b''.hhHead = b'.hhHead → b''.count = b'.count →
        Buckets hh' nb (bs.set (hashToBkt (hh.hashv a) nb).toNat b'') (fun p => p = a ∨ member p)
          chain' := by
  set j := hashToBkt (hh.hashv a) nb with hj
  obtain ⟨b, hb, hhead, hcount⟩ := h.bucketAt (hashToBkt_lt hnb (hh.hashv a))
  have hout : ∀ i, a ∉ chain i := fun i hi => hnew ((h.mem i a).mp hi).1
  have hin : ∀ q, (chain j.toNat).head? = some q → member q := fun q hq =>
    ((h.mem _ q).mp (List.mem_of_mem_head? hq)).1
  have hpush := h.chains.push hout j.toNat
  set hh' : Handles P := { hh with
    hhNext := Function.update hh.hhNext a (chain j.toNat).head?
    hhPrev := link (Function.update hh.hhPrev a none) (chain j.toNat).head? (some a) } with hhh'
  refine ⟨b, hh', { b with hhHead := some a, count := b.count + 1 }, hb, ?_, ?_,
    Function.update chain j.toNat (a :: chain j.toNat), ?_⟩
  · rw [pushFront, deref_some ha, hhh', ← hhead]
    cases hq : b.hhHead with
    | none => rfl
    | some q =>
      rw [hhead] at hq
      simp only [bind, Except.bind, deref_some (halive q (hin q hq))]
      rfl
  · refine ⟨rfl, rfl, rfl, rfl, fun p hp => ?_, fun p hp => ?_⟩
    · obtain ⟨hpa, hpm⟩ := not_or.mp hp
      show link _ _ _ p = _
      rw [link_of_ne fun e => hpm (hin p e), Function.update_of_ne hpa]
    · exact Function.update_of_ne (not_or.mp hp).1 ..
  · intro b'' hh1 hc1
    have hlt : j.toNat < bs.length := by
      rw [h.length]
      exact hashToBkt_lt hnb (hh.hashv a)
    have hc2 : b''.count = UInt32.ofNat (a :: chain j.toNat).length := by
      rw [hc1, List.length_cons, UInt32.ofNat_add, ← hcount]
      rfl
    refine ⟨by rw [List.length_set, h.length], hpush, bucket_set h.bucket hlt hh1 hc2,
      fun i p => ?_⟩
    · show p ∈ _ ↔ _ ∧ (hashToBkt (hh.hashv p) nb).toNat = i
      by_cases e : i = j.toNat
      · subst e
        rw [Function.update_self, List.mem_cons, h.mem]
        constructor
        · rintro (rfl | hp)
          · exact ⟨.inl rfl, rfl⟩
          · exact ⟨.inr hp.1, hp.2⟩
        · rintro ⟨rfl | hp, he⟩
          · exact .inl rfl
          · exact .inr ⟨hp, he⟩
      · rw [Function.update_of_ne e, h.mem]
        constructor
        · exact fun hp => ⟨.inr hp.1, hp.2⟩
        · rintro ⟨rfl | hp, he⟩
          · exact absurd he.symm e
          · exact ⟨hp, he⟩

/-- The doubled array while the handles move over: `done` have moved. -/
def Moving (e : Expand P) (nb : UInt32) (done : P → Prop) : Prop :=
  ∃ chain, Buckets e.hh nb e.newBuckets done chain

theorem tally_fields {P : Type} (ideal nonideal : UInt32) (b : Bucket P) :
    (tally ideal nonideal b).2.hhHead = b.hhHead ∧ (tally ideal nonideal b).2.count = b.count := by
  rw [tally]
  split
  · split <;> exact ⟨rfl, rfl⟩
  · exact ⟨rfl, rfl⟩

section Doubling

variable {numBuckets : UInt32} (ideal : UInt32) {k : Nat} (hnb : (numBuckets * 2).toNat = 2 ^ k)
include hnb

theorem expandStep_moving {e : Expand P} {done : P → Prop} (h : Moving e (numBuckets * 2) done)
    (halive : ∀ p, done p → o.alive p = true) {p : P} (hp : o.alive p = true) (hnew : ¬ done p) :
    ∃ e', expandStep o numBuckets ideal e p = .ok (e', e.hh.hhNext p) ∧
      Moving e' (numBuckets * 2) (fun q => q = p ∨ done q) ∧
      Moved (fun q => q = p ∨ done q) e.hh e'.hh := by
  obtain ⟨chain, h⟩ := h
  obtain ⟨b, hh', b', hb, hpush, hmoved, chain', hset⟩ := h.push hnb halive hp hnew
  obtain ⟨hhead, hcount⟩ := tally_fields ideal e.nonideal b'
  refine ⟨⟨hh', e.newBuckets.set (hashToBkt (e.hh.hashv p) (numBuckets * 2)).toNat
    (tally ideal e.nonideal b').2, (tally ideal e.nonideal b').1⟩, ?_, ⟨chain', ?_⟩, hmoved⟩
  · rw [expandStep, deref_some hp]
    simp only [bind, Except.bind, hb, hpush]
  · exact hset _ hhead hcount

theorem expandChain_moving {l : List P} {fuel : Nat} (hf : l.length ≤ fuel) {e : Expand P}
    {done : P → Prop} (h : Moving e (numBuckets * 2) done)
    (halive : ∀ p, done p → o.alive p = true) (hpath : Path e.hh.hhNext l) (hn : l.Nodup)
    (hl : ∀ p ∈ l, o.alive p = true ∧ ¬ done p) :
    ∃ e', expandChain o numBuckets ideal fuel e l.head? = .ok e' ∧
      Moving e' (numBuckets * 2) (fun q => q ∈ l ∨ done q) ∧
      Moved (fun q => q ∈ l ∨ done q) e.hh e'.hh := by
  induction l generalizing fuel e done with
  | nil =>
    have hm : (fun q => q ∈ ([] : List P) ∨ done q) = done := by funext q; simp
    rw [hm]
    exact ⟨e, by cases fuel <;> rfl, h, Moved.refl _ _⟩
  | cons p l ih =>
    obtain ⟨fuel, rfl⟩ := Nat.exists_eq_add_of_le' (Nat.one_le_of_lt hf)
    obtain ⟨hp, hnew⟩ := hl p List.mem_cons_self
    obtain ⟨hpl, hnl⟩ := List.nodup_cons.mp hn
    obtain ⟨e₁, hstep, hmoving, hmoved⟩ := expandStep_moving ideal hnb h halive hp hnew
    have hout : ∀ q ∈ l, ¬ (q = p ∨ done q) := by
      rintro q hq (rfl | hd)
      · exact hpl hq
      · exact (hl q (List.mem_cons_of_mem p hq)).2 hd
    have halive₁ : ∀ q, (q = p ∨ done q) → o.alive q = true := by
      rintro q (rfl | hd)
      · exact hp
      · exact halive q hd
    obtain ⟨e₂, hchain, hmoving₂, hmoved₂⟩ := ih (Nat.le_of_succ_le_succ hf) hmoving halive₁
      (hpath.2.congr fun q hq => hmoved.hhNext q (hout q hq)) hnl
      fun q hq => ⟨(hl q (List.mem_cons_of_mem p hq)).1, hout q hq⟩
    have hm : (fun q => q ∈ p :: l ∨ done q) = fun q => q ∈ l ∨ q = p ∨ done q := by
      funext q
      rw [List.mem_cons, or_assoc, or_left_comm]
    rw [hm]
    refine ⟨e₂, ?_, hmoving₂, hmoved.trans hmoved₂ (fun q hq => .inr hq) fun q hq => hq⟩
    rw [List.head?_cons, expandChain, hstep, hpath.1]
    exact hchain

theorem expandChains_moving {bs : List (Bucket P)} {chain : Nat → List P} {fuel : Nat}
    (hbucket : ∀ i b, bs[i]? = some b → b.hhHead = (chain i).head?)
    (hlen : bs.length ≤ 2 ^ 32) (hn : ∀ i, (chain i).Nodup)
    (hdisj : ∀ i j p, p ∈ chain i → p ∈ chain j → i = j) (hf : ∀ i, (chain i).length ≤ fuel)
    {is : List Nat} (his : is.Nodup) (hlt : ∀ i ∈ is, i < bs.length) {e : Expand P}
    {done : P → Prop} (h : Moving e (numBuckets * 2) done)
    (halive : ∀ p, done p → o.alive p = true) (hpath : ∀ i ∈ is, Path e.hh.hhNext (chain i))
    (hl : ∀ i ∈ is, ∀ p ∈ chain i, o.alive p = true ∧ ¬ done p) :
    ∃ e', is.foldlM (fun e i => do
        let b ← bucketAt bs (UInt32.ofNat i)
        expandChain o numBuckets ideal fuel e b.hhHead) e = .ok e' ∧
      Moving e' (numBuckets * 2) (fun q => (∃ i ∈ is, q ∈ chain i) ∨ done q) ∧
      Moved (fun q => (∃ i ∈ is, q ∈ chain i) ∨ done q) e.hh e'.hh := by
  induction is generalizing e done with
  | nil =>
    have hm : (fun q => (∃ i ∈ ([] : List Nat), q ∈ chain i) ∨ done q) = done := by funext q; simp
    rw [hm]
    exact ⟨e, rfl, h, Moved.refl _ _⟩
  | cons i is ih =>
    obtain ⟨hi, his⟩ := List.nodup_cons.mp his
    have hib := hlt i List.mem_cons_self
    obtain ⟨e₁, hchain, hmoving, hmoved⟩ := expandChain_moving ideal hnb (hf i) h halive
      (hpath i List.mem_cons_self) (hn i) (hl i List.mem_cons_self)
    have hout : ∀ j ∈ is, ∀ q ∈ chain j, ¬ (q ∈ chain i ∨ done q) := by
      rintro j hj q hq (hqi | hd)
      · exact hi (hdisj j i q hq hqi ▸ hj)
      · exact (hl j (List.mem_cons_of_mem i hj) q hq).2 hd
    have halive₁ : ∀ q, (q ∈ chain i ∨ done q) → o.alive q = true := by
      rintro q (hq | hd)
      · exact (hl i List.mem_cons_self q hq).1
      · exact halive q hd
    obtain ⟨e₂, hrest, hmoving₂, hmoved₂⟩ := ih his
      (fun j hj => hlt j (List.mem_cons_of_mem i hj)) hmoving halive₁
      (fun j hj => (hpath j (List.mem_cons_of_mem i hj)).congr fun q hq =>
        hmoved.hhNext q (hout j hj q hq))
      fun j hj q hq => ⟨(hl j (List.mem_cons_of_mem i hj) q hq).1, hout j hj q hq⟩
    have hm : (fun q => (∃ j ∈ i :: is, q ∈ chain j) ∨ done q) =
        fun q => (∃ j ∈ is, q ∈ chain j) ∨ q ∈ chain i ∨ done q := by
      funext q
      simp only [List.mem_cons, exists_eq_or_imp]
      rw [or_assoc, or_left_comm]
    rw [hm]
    refine ⟨e₂, ?_, hmoving₂, hmoved.trans hmoved₂ (fun q hq => .inr hq) fun q hq => hq⟩
    have hat : bucketAt bs (UInt32.ofNat i) = .ok bs[i] := by
      have hi32 : (UInt32.ofNat i).toNat = i :=
        UInt32.toNat_ofNat_of_lt' (Nat.lt_of_lt_of_le hib hlen)
      rw [bucketAt, hi32, List.getElem?_eq_getElem hib]
    rw [List.foldlM_cons, hat]
    have hhead : bs[i].hhHead = (chain i).head? := hbucket i _ (List.getElem?_eq_getElem hib)
    simp only [bind, Except.bind, hhead, hchain] at hrest ⊢
    exact hrest

end Doubling

/-- Memory ran out: `malloc` refused a size that was asked for, and the program has exited. -/
def Exits {α : Type} (malloc : Nat → Bool) (asked : Nat → Prop) (r : Except Halt α) : Prop :=
  ∃ size, asked size ∧ malloc size = false ∧ r = .error (.exit size)

/-- Doubling the array keeps the elements. No more than 64 GiB can be had for it. -/
theorem hashExpandBuckets_indexed {malloc : Nat → Bool} (hmem : malloc (2 ^ 36) = false)
    {fuel : Nat} {hh : Handles P} {tb : Table P} {items : List P} {chain : Nat → List P}
    (h : Indexed o hh tb items chain) (hf : items.length ≤ fuel) :
    Exits malloc (· = 16 * tb.numBuckets.toNat * 2) (hashExpandBuckets o malloc fuel hh tb) ∨
    ∃ hh' tb' chain', hashExpandBuckets o malloc fuel hh tb = .ok (hh', tb') ∧
      Indexed o hh' tb' items chain' ∧ tb'.tail = tb.tail ∧ Moved (· ∈ items) hh hh' := by
  by_cases hm : malloc (16 * tb.numBuckets.toNat * 2) = false
  · exact .inl ⟨_, rfl, hm, by rw [hashExpandBuckets, if_pos hm]⟩
  right
  have hlog : tb.log2NumBuckets.toNat < 31 := by
    refine Nat.lt_of_le_of_ne (Nat.le_of_lt_succ h.log2) fun e => hm ?_
    rw [h.size, e]
    exact hmem
  have hlog' : (tb.log2NumBuckets + 1).toNat = tb.log2NumBuckets.toNat + 1 := by
    rw [UInt32.toNat_add]
    exact Nat.mod_eq_of_lt (by
      show tb.log2NumBuckets.toNat + 1 < 2 ^ 32
      omega)
  have hshift : ¬ tb.log2NumBuckets + 1 ≥ 32 := by
    rw [ge_iff_le, UInt32.le_iff_toNat_le, hlog']
    show ¬ 32 ≤ tb.log2NumBuckets.toNat + 1
    omega
  have hpow : 2 ^ (tb.log2NumBuckets.toNat + 1) ≤ 2 ^ 31 :=
    Nat.pow_le_pow_right (by decide) hlog
  have hnb : (tb.numBuckets * 2).toNat = 2 ^ (tb.log2NumBuckets.toNat + 1) := by
    rw [UInt32.toNat_mul, h.size, Nat.pow_succ]
    exact Nat.mod_eq_of_lt (by
      rw [Nat.pow_succ] at hpow
      exact Nat.lt_of_le_of_lt hpow (by decide))
  have hbound : tb.buckets.length ≤ 2 ^ 32 := by
    rw [h.buckets.length]
    exact Nat.le_of_lt (UInt32.toNat_lt _)
  -- the new array is empty, and no handle has moved
  set ideal := (tb.numItems >>> (tb.log2NumBuckets + 1)) +
    (if tb.numItems &&& (tb.numBuckets * 2 - 1) ≠ 0 then 1 else 0) with hideal
  have hstart : Moving (⟨hh, List.replicate (tb.numBuckets.toNat * 2) Bucket.zero, 0⟩ : Expand P)
      (tb.numBuckets * 2) fun _ => False := by
    refine ⟨fun _ => [], ⟨?_, chains_nil, fun i b hb => ?_, fun i p => ?_⟩⟩
    · rw [List.length_replicate, hnb, h.size, Nat.pow_succ]
    · rw [List.eq_of_mem_replicate (List.mem_of_getElem? hb)]
      exact ⟨rfl, rfl⟩
    · exact ⟨fun hp => absurd hp List.not_mem_nil, fun hp => hp.1.elim⟩
  obtain ⟨e, hrun, hmoving, hmoved⟩ := expandChains_moving (o := o) ideal hnb
    (fun i b hb => (h.buckets.bucket i b hb).1) hbound h.buckets.chains.nodup
    h.buckets.chains.disjoint (fun i => Nat.le_trans (h.chain_length i) hf)
    (List.nodup_range (n := tb.numBuckets.toNat))
    (fun i hi => by rw [h.buckets.length]; exact List.mem_range.mp hi) hstart
    (fun p hp => hp.elim) (fun i _ => (h.buckets.chains.seg i).path)
    fun i _ p hp => ⟨h.alive p ((h.buckets.mem i p).mp hp).1, id⟩
  have hall : ∀ p, ((∃ i ∈ List.range tb.numBuckets.toNat, p ∈ chain i) ∨ False) ↔ p ∈ items := by
    intro p
    rw [or_false]
    constructor
    · rintro ⟨i, -, hp⟩
      exact ((h.buckets.mem i p).mp hp).1
    · exact fun hp => ⟨_, List.mem_range.mpr (hashToBkt_lt h.size (hh.hashv p)),
        (h.buckets.mem _ p).mpr ⟨hp, rfl⟩⟩
  obtain ⟨chain', hb⟩ := hmoving
  refine ⟨e.hh, tb.expanded ideal e, chain', ?_, ⟨h.alive, ?_, ?_, h.numItems, ?_⟩, ?_,
    hmoved.trans (Moved.refl (· ∈ items) _) (fun p hp => (hall p).mp hp) fun _ hp => hp⟩
  · rw [hashExpandBuckets, if_neg hm, if_neg hshift]
    simp only [bind, Except.bind] at hrun ⊢
    rw [hrun]
  · show (tb.log2NumBuckets + 1).toNat < 32
    omega
  · show (tb.numBuckets * 2).toNat = 2 ^ (tb.log2NumBuckets + 1).toNat
    rw [hnb, hlog']
  · exact hb.congr (fun p => (hall p).symm) (fun _ _ => rfl) (fun _ _ => rfl) fun _ _ => rfl
  · rfl

/-! ## The operations -/

section Operations

variable {n : Nat} {hh : Handles P} {root : Root P} {items : List P}

/-- An element enters the chain of its bucket, and the array may double. -/
theorem hashAddToTable_indexed {malloc : Nat → Bool} (hmem : malloc (2 ^ 36) = false) {fuel : Nat}
    (hf : items.length < fuel) {tb : Table P} {chain : Nat → List P}
    (ht : headTbl o root = .ok tb) (h : Indexed o hh tb items chain) {a : P}
    (ha : o.alive a = true) (hnew : a ∉ items) :
    Exits malloc (· = 16 * tb.numBuckets.toNat * 2) (hashAddToTable o malloc fuel hh root a) ∨
    ∃ hh' tb' chain',
      hashAddToTable o malloc fuel hh root a = .ok (hh', { root with tbl := some tb' }) ∧
      Indexed o hh' tb' (items ++ [a]) chain' ∧ tb'.tail = tb.tail ∧
      Moved (· ∈ items ++ [a]) hh hh' := by
  obtain ⟨b, hh₁, b₁, hb, hpush, hmoved, chain₁, hset⟩ := h.buckets.push h.size h.alive ha hnew
  have hmem' : ∀ p, p ∈ items ++ [a] ↔ p = a ∨ p ∈ items := by
    intro p
    rw [List.mem_append, List.mem_singleton, or_comm]
  have hmoved₁ : Moved (· ∈ items ++ [a]) hh hh₁ :=
    hmoved.trans (Moved.refl (· ∈ items ++ [a]) _) (fun p => (hmem' p).mpr) fun _ => id
  set tb₁ : Table P := { tb with
    numItems := tb.numItems + 1
    buckets := tb.buckets.set (hashToBkt (hh.hashv a) tb.numBuckets).toNat b₁ } with htb₁
  have h₁ : Indexed o hh₁ tb₁ (items ++ [a]) chain₁ := by
    refine ⟨fun p hp => ?_, h.log2, h.size, ?_, ?_⟩
    · rcases (hmem' p).mp hp with rfl | hp
      · exact ha
      · exact h.alive p hp
    · show tb.numItems + 1 = _
      rw [h.numItems, List.length_append, List.length_singleton, UInt32.ofNat_add]
      rfl
    · exact (hset b₁ rfl rfl).congr hmem' (fun _ _ => rfl) (fun _ _ => rfl) fun _ _ => rfl
  have hrun : hashAddToTable o malloc fuel hh root a =
      if b₁.count ≥ (b₁.expandMult + 1) * 10 ∧ tb₁.noexpand = false then do
        let r ← hashExpandBuckets o malloc fuel hh₁ tb₁
        .ok (r.1, { root with tbl := some r.2 })
      else .ok (hh₁, { root with tbl := some tb₁ }) := by
    rw [hashAddToTable, ht]
    simp only [bind, Except.bind, hb, hpush]
    rfl
  rw [hrun]
  split
  · have hf' : (items ++ [a]).length ≤ fuel := by rw [List.length_append]; exact hf
    rcases hashExpandBuckets_indexed hmem h₁ hf' with
      ⟨size, hsize, hm, he⟩ | ⟨hh₂, tb₂, chain₂, he, h₂, ht₂, hm₂⟩
    · exact .inl ⟨size, hsize, hm, by rw [he]; rfl⟩
    · exact .inr ⟨hh₂, tb₂, chain₂, by rw [he]; rfl, h₂, ht₂,
        hmoved₁.trans hm₂ (fun _ => id) fun _ => id⟩
  · exact .inr ⟨hh₁, tb₁, chain₁, rfl, h₁, rfl, hmoved₁⟩

/-- An element that is linked at the end of the list, with its key in its handle, enters its
bucket: the hash stands again. -/
theorem Rep.addToTable (h : Rep o n hh root items) {malloc : Nat → Bool}
    (hmem : malloc (2 ^ 36) = false) {fuel : Nat} (hf : items.length < fuel) {a : P}
    (ha : o.alive a = true) (hnew : a ∉ items) (hlen : (o.key a).length = n)
    {hh₁ : Handles P} {root₁ : Root P} {tb : Table P} {chain : Nat → List P}
    (hhashv : hh₁.hashv = Function.update hh.hashv a (hashJen (o.key a)))
    (hkeylen : hh₁.keylen = Function.update hh.keylen a (UInt32.ofNat (o.key a).length))
    (hhhPrev : hh₁.hhPrev = hh.hhPrev) (hhhNext : hh₁.hhNext = hh.hhNext)
    (hseg : Seg hh₁.prev hh₁.next none (items ++ [a]) none)
    (hframe : ∀ p, p ≠ a → p ∉ items → hh₁.prev p = hh.prev p ∧ hh₁.next p = hh.next p)
    (hhead : root₁.head = (items ++ [a]).head?) (ht : Uthash.headTbl o root₁ = .ok tb)
    (htail : tb.tail = some a) (hi : Indexed o hh tb items chain) :
    Exits malloc (· = 16 * tb.numBuckets.toNat * 2) (hashAddToTable o malloc fuel hh₁ root₁ a) ∨
    ∃ hh' root', hashAddToTable o malloc fuel hh₁ root₁ a = .ok (hh', root') ∧
      Rep o n hh' root' (items ++ [a]) ∧ ∀ p, p ∉ items ++ [a] → SameHandle hh hh' p := by
  have hne : ∀ p ∈ items, p ≠ a := fun p hp e => hnew (e ▸ hp)
  have hmem' : ∀ p, p ∈ items ++ [a] ↔ p ∈ items ∨ p = a := fun p => by
    rw [List.mem_append, List.mem_singleton]
  have hi₁ : Indexed o hh₁ tb items chain :=
    ⟨hi.alive, hi.log2, hi.size, hi.numItems, hi.buckets.congr (fun _ => Iff.rfl)
      (fun p _ => by rw [hhhPrev]) (fun p _ => by rw [hhhNext])
      fun p hp => by rw [hhashv, Function.update_of_ne (hne p hp)]⟩
  rcases hashAddToTable_indexed hmem hf ht hi₁ ha hnew with
    he | ⟨hh', tb', chain', he, h', ht', hm⟩
  · exact .inl he
  refine .inr ⟨hh', _, he, ⟨?_, h'.alive, hhead, ?_, fun p hp => ?_, fun p hp => ?_, fun p hp => ?_,
    fun _ => ⟨tb', chain', rfl, ?_, h'⟩⟩, fun p hp => ?_⟩
  · exact List.nodup_append.mpr ⟨h.nodup, List.nodup_singleton a,
      fun p hp q hq e => hne p hp (e.trans (List.mem_singleton.mp hq))⟩
  · rw [hm.prev, hm.next]
    exact hseg
  · rcases (hmem' p).mp hp with hp | rfl
    · exact h.key p hp
    · exact hlen
  · rw [hm.hashv, hhashv]
    rcases (hmem' p).mp hp with hp | rfl
    · rw [Function.update_of_ne (hne p hp), h.hashv p hp]
    · rw [Function.update_self]
  · rw [hm.keylen, hkeylen]
    rcases (hmem' p).mp hp with hp | rfl
    · rw [Function.update_of_ne (hne p hp), h.keylen p hp]
    · rw [Function.update_self, hlen]
  · rw [ht', htail, List.getLast?_concat]
  · obtain ⟨hpi, hpa⟩ := not_or.mp fun e => hp ((hmem' p).mpr e)
    obtain ⟨hprev, hnext⟩ := hframe p hpa hpi
    exact ⟨by rw [hm.prev, hprev], by rw [hm.next, hnext], by rw [hm.hhPrev p hp, hhhPrev],
      by rw [hm.hhNext p hp, hhhNext], by rw [hm.keylen, hkeylen, Function.update_of_ne hpa],
      by rw [hm.hashv, hhashv, Function.update_of_ne hpa]⟩

/-- The first element of a new table leaves its array as it is. -/
theorem not_exits_new {malloc : Nat → Bool} {asked : Nat → Prop} {fuel : Nat} {a : P}
    (ha : o.alive a = true) :
    ¬ Exits malloc asked (hashAddToTable o malloc fuel hh ⟨some a, some (Table.new a)⟩ a) := by
  have hlt : (hashToBkt (hh.hashv a) 32).toNat < 32 := by
    have h32 : (32 : UInt32).toNat = 2 ^ 5 := rfl
    exact hashToBkt_lt h32 _
  have hb : bucketAt (Table.new a).buckets (hashToBkt (hh.hashv a) 32) = .ok Bucket.zero := by
    rw [bucketAt, Table.new]
    simp only [List.getElem?_replicate_of_lt hlt]
  have hnum : (Table.new a).numBuckets = 32 := rfl
  rintro ⟨size, -, -, he⟩
  simp only [hashAddToTable, headTbl_some ha, bind, Except.bind, hnum, hb, pushFront,
    deref_some ha, Bucket.zero] at he
  exact nomatch he

/-- What `HASH_ADD` asks `malloc` for: the record and the 32 buckets of a new table, or an array
twice as long for a table that is there. -/
def Asks {P : Type} (root : Root P) (size : Nat) : Prop :=
  match root.head with
  | none => size = 64 ∨ size = 32 * 16
  | some _ => ∃ tb, root.tbl = some tb ∧ size = 16 * tb.numBuckets.toNat * 2

/-- **Adding.** The element comes last, and no handle outside the hash is written. -/
theorem Rep.add (h : Rep o n hh root items) {malloc : Nat → Bool} (hmem : malloc (2 ^ 36) = false)
    {fuel : Nat} (hf : items.length < fuel) {a : P} (ha : o.alive a = true) (hnew : a ∉ items)
    (hlen : (o.key a).length = n) :
    Exits malloc (Asks root) (hashAdd o malloc fuel hh root a) ∨
    ∃ hh' root', hashAdd o malloc fuel hh root a = .ok (hh', root') ∧
      Rep o n hh' root' (items ++ [a]) ∧ ∀ p, p ∉ items ++ [a] → SameHandle hh hh' p := by
  by_cases hitems : items = []
  · -- the table is made
    subst hitems
    have hasks : ∀ size, size = 64 ∨ size = 32 * 16 → Asks root size := by
      intro size hs
      rw [Asks, h.head]
      exact hs
    rw [hashAdd, deref_some ha, h.head]
    simp only [bind, Except.bind, List.head?_nil, if_true, hashMakeTable]
    by_cases hm : malloc 64 = false
    · exact .inl ⟨64, hasks 64 (.inl rfl), hm, by rw [if_pos hm]⟩
    by_cases hm' : malloc (32 * 16) = false
    · exact .inl ⟨32 * 16, hasks _ (.inr rfl), hm', by rw [if_neg hm, if_pos hm']⟩
    simp only [if_neg hm, if_neg hm']
    refine .inr (Or.resolve_left (h.addToTable hmem hf ha hnew hlen rfl rfl rfl rfl
      ⟨Function.update_self .., Function.update_self .., trivial⟩ (fun p hpa _ => ?_) rfl
      (headTbl_some ha _) rfl (indexed_new hh a)) (not_exits_new ha))
    exact ⟨Function.update_of_ne hpa .., Function.update_of_ne hpa ..⟩
  · -- the element goes to the end of the list
    obtain ⟨tb, chain, ht, htail, hi⟩ := h.headTbl hitems
    have htbl := tbl_of_headTbl ht
    obtain ⟨l, q, rfl⟩ := (List.eq_nil_or_concat' items).resolve_left hitems
    have hlast : (l ++ [q]).getLast? = some q := List.getLast?_concat
    have hq : q ∈ l ++ [q] := List.mem_append_right _ List.mem_cons_self
    have hne : ¬ (l ++ [q]).head? = none := fun e => hitems (List.head?_eq_none_iff.mp e)
    have hseg := h.seg.snoc h.nodup hnew
    rw [hlast, link_some] at hseg
    have hroot : (l ++ [q]).head? = (l ++ [q] ++ [a]).head? := by cases l <;> rfl
    have ht' : Uthash.headTbl o ⟨(l ++ [q]).head?, some { tb with tail := some a }⟩ =
        .ok { tb with tail := some a } := by
      obtain ⟨p, hp⟩ := Option.ne_none_iff_exists'.mp hne
      rw [hp, headTbl_some (h.alive p (List.mem_of_mem_head? hp))]
    rw [hashAdd, deref_some ha]
    simp only [bind, Except.bind, h.head, if_neg hne, hashAppendList, ht, htail, hlast,
      deref_some (h.alive q hq)]
    refine Or.imp_left ?_ (h.addToTable hmem hf ha hnew hlen rfl rfl rfl rfl hseg
      (fun p hpa hpi => ?_) hroot ht' rfl ⟨hi.alive, hi.log2, hi.size, hi.numItems, hi.buckets⟩)
    · rintro ⟨size, hsize, hm, he⟩
      obtain ⟨p, hp⟩ := Option.ne_none_iff_exists'.mp hne
      refine ⟨size, ?_, hm, he⟩
      rw [Asks, h.head, hp]
      exact ⟨tb, htbl, hsize⟩
    · have hpq : p ≠ q := fun e => hpi (e ▸ hq)
      exact ⟨Function.update_of_ne hpa ..,
        (Function.update_of_ne hpq ..).trans (Function.update_of_ne hpa ..)⟩

theorem patch_eq {f : P → Option P} {q v : Option P} (h : ∀ p, q = some p → o.alive p = true) :
    patch o f q v = .ok (link f q v) := by
  cases q with
  | none => rfl
  | some p =>
    rw [patch, deref_some (h p rfl)]
    rfl

theorem Buckets.delete {nb : UInt32} {k : Nat} (hnb : nb.toNat = 2 ^ k) {bs : List (Bucket P)}
    {member : P → Prop} {chain : Nat → List P} (h : Buckets hh nb bs member chain)
    (halive : ∀ p, member p → o.alive p = true) {p : P} (hp : member p) :
    ∃ b hh' b', Uthash.bucketAt bs (hashToBkt (hh.hashv p) nb) = .ok b ∧
      hashDelInBkt o hh b p = .ok (hh', b') ∧ Moved member hh hh' ∧
      ∃ chain', Buckets hh' nb (bs.set (hashToBkt (hh.hashv p) nb).toNat b')
        (fun q => member q ∧ q ≠ p) chain' := by
  set j := (hashToBkt (hh.hashv p) nb).toNat with hj
  obtain ⟨b, hb, hhead, hcount⟩ := h.bucketAt (hashToBkt_lt hnb (hh.hashv p))
  obtain ⟨l₁, l₂, hl⟩ := List.append_of_mem ((h.mem j p).mpr ⟨hp, rfl⟩)
  have hn := h.chains.nodup j
  have hin : ∀ q, q ∈ l₁ ++ l₂ → member q := by
    intro q hq
    refine ((h.mem j q).mp ?_).1
    rw [hl]
    simp only [List.mem_append, List.mem_cons] at hq ⊢
    exact hq.imp_right .inr
  have hlast : ∀ q, l₁.getLast? = some q → member q := fun q hq =>
    hin q (List.mem_append_left _ (List.mem_of_getLast? hq))
  have hfirst : ∀ q, l₂.head? = some q → member q := fun q hq =>
    hin q (List.mem_append_right _ (List.mem_of_mem_head? hq))
  rw [hl] at hn
  obtain ⟨hprev, hnext⟩ := (hl ▸ h.chains.seg j : Seg _ _ _ (l₁ ++ p :: l₂) _).links
  have hpl₁ : l₁.getLast? ≠ some p := fun e =>
    (List.nodup_append.mp hn).2.2 p (List.mem_of_getLast? e) p List.mem_cons_self rfl
  have hunlink := h.chains.unlink hl
  refine ⟨b, { hh with
    hhNext := link hh.hhNext l₁.getLast? l₂.head?
    hhPrev := link hh.hhPrev l₂.head? l₁.getLast? }, { b with
    count := b.count - 1
    hhHead := if b.hhHead = some p then l₂.head? else b.hhHead }, hb, ?_, ?_,
    Function.update chain j (l₁ ++ l₂),
      ⟨by rw [List.length_set, h.length], hunlink, ?_, fun i q => ?_⟩⟩
  · rw [hashDelInBkt, hprev, hnext, patch_eq fun q hq => halive q (hlast q hq)]
    simp only [bind, Except.bind]
    rw [link_of_ne hpl₁, hnext, patch_eq fun q hq => halive q (hfirst q hq)]
  · exact ⟨rfl, rfl, rfl, rfl, fun q hq => link_of_ne fun e => hq (hfirst q e),
      fun q hq => link_of_ne fun e => hq (hlast q e)⟩
  · refine bucket_set h.bucket (by rw [h.length]; exact hashToBkt_lt hnb _) ?_ ?_
    · show (if b.hhHead = some p then l₂.head? else b.hhHead) = _
      rw [hhead, ← hj, hl]
      exact head?_unlink hn
    · show b.count - 1 = _
      rw [hcount, ← hj, hl]
      simp only [List.length_append, List.length_cons, UInt32.ofNat_add]
      rw [← UInt32.add_assoc]
      exact UInt32.add_sub_cancel ..
  · show q ∈ _ ↔ (member q ∧ q ≠ p) ∧ (hashToBkt (hh.hashv q) nb).toNat = i
    have hsplit : q ∈ l₁ ++ l₂ ↔ q ∈ chain j ∧ q ≠ p := by
      rw [hl]
      have hpn : p ∉ l₁ ++ l₂ := fun hm => by
        have := (List.nodup_middle.mp hn)
        exact (List.nodup_cons.mp this).1 hm
      simp only [List.mem_append, List.mem_cons] at hpn ⊢
      constructor
      · intro hq
        exact ⟨hq.imp_right .inr, fun e => hpn (e ▸ hq)⟩
      · rintro ⟨hq | rfl | hq, hqp⟩
        · exact .inl hq
        · exact absurd rfl hqp
        · exact .inr hq
    by_cases e : i = j
    · subst e
      rw [Function.update_self, hsplit, h.mem, and_right_comm]
    · rw [Function.update_of_ne e, h.mem, and_assoc, and_congr_right_iff]
      intro _
      constructor
      · intro hi
        refine ⟨?_, hi⟩
        rintro rfl
        exact e hi.symm
      · exact fun hi => hi.2

/-- **Deleting.** -/
theorem Rep.delete (h : Rep o n hh root items) {p : P} (hp : p ∈ items) :
    ∃ hh' root', hashDelete o hh root p = .ok (hh', root') ∧ Rep o n hh' root' (items.erase p) ∧
      ∀ q, q ∉ items → SameHandle hh hh' q := by
  obtain ⟨tb, chain, ht, htail, hi⟩ := h.headTbl (List.ne_nil_of_mem hp)
  have ha := h.alive p hp
  obtain ⟨l₁, l₂, rfl⟩ := List.append_of_mem hp
  have hn := h.nodup
  obtain ⟨hprev, hnext⟩ := h.seg.links
  have hpl : p ∉ l₁ ++ l₂ := (List.nodup_cons.mp (List.nodup_middle.mp hn)).1
  have herase : (l₁ ++ p :: l₂).erase p = l₁ ++ l₂ := by
    rw [List.erase_append_right _ fun hm => hpl (List.mem_append_left _ hm), List.erase_cons_head]
  have hin : ∀ q ∈ l₁ ++ l₂, q ∈ l₁ ++ p :: l₂ := by
    intro q hq
    simp only [List.mem_append, List.mem_cons] at hq ⊢
    exact hq.imp_right .inr
  rw [herase]
  by_cases hone : l₁.getLast? = none ∧ l₂.head? = none
  · -- the last element takes the table with it
    obtain ⟨h1, h2⟩ := hone
    rw [List.getLast?_eq_none_iff] at h1
    rw [List.head?_eq_none_iff] at h2
    subst h1 h2
    refine ⟨hh, ⟨none, none⟩, ?_, Rep.empty o n hh none, fun q _ =>
      ⟨rfl, rfl, rfl, rfl, rfl, rfl⟩⟩
    rw [hashDelete, deref_some ha]
    simp only [bind, Except.bind, ht, hprev, hnext]
    rfl
  have hne : l₁ ++ l₂ ≠ [] := by
    intro e
    obtain ⟨rfl, rfl⟩ := List.append_eq_nil_iff.mp e
    exact hone ⟨rfl, rfl⟩
  have hlast : ∀ q, l₁.getLast? = some q → q ∈ l₁ ++ l₂ := fun q hq =>
    List.mem_append_left _ (List.mem_of_getLast? hq)
  have hfirst : ∀ q, l₂.head? = some q → q ∈ l₁ ++ l₂ := fun q hq =>
    List.mem_append_right _ (List.mem_of_mem_head? hq)
  -- the list
  set hh₁ : Handles P := { hh with
    next := link hh.next l₁.getLast? l₂.head?
    prev := link hh.prev l₂.head? l₁.getLast? } with hhh₁
  have hseg : Seg hh₁.prev hh₁.next none (l₁ ++ l₂) none := h.seg.unlink hn
  have hhead : (if l₁.getLast? = none then l₂.head? else (l₁ ++ p :: l₂).head?) =
      (l₁ ++ l₂).head? := by
    cases l₁ with
    | nil => rfl
    | cons q l₁ => rw [if_neg (by simp)]; rfl
  obtain ⟨f, hf⟩ := Option.ne_none_iff_exists'.mp fun e => hne (List.head?_eq_none_iff.mp e)
  have hfa : o.alive f = true := h.alive f (hin f (List.mem_of_mem_head? hf))
  -- the bucket
  have hbuckets₁ : Buckets hh₁ tb.numBuckets tb.buckets (· ∈ l₁ ++ p :: l₂) chain :=
    hi.buckets.congr (fun _ => Iff.rfl) (fun _ _ => rfl) (fun _ _ => rfl) fun _ _ => rfl
  obtain ⟨b, hh₂, b₂, hb, hdel, hmoved, chain', hbuckets⟩ := hbuckets₁.delete hi.size hi.alive hp
  refine ⟨hh₂, ⟨some f, some { tb with
    tail := (l₁ ++ l₂).getLast?
    buckets := tb.buckets.set (hashToBkt (hh.hashv p) tb.numBuckets).toNat b₂
    numItems := tb.numItems - 1 }⟩, ?_, ?_, fun q hq => ?_⟩
  · have htl : (if tb.tail = some p then { tb with tail := l₁.getLast? } else tb) =
        { tb with tail := (l₁ ++ l₂).getLast? } := by
      rw [← getLast?_unlink hn, htail]
      split
      · rfl
      · rw [← htail]
    rw [hashDelete, deref_some ha]
    simp only [bind, Except.bind, ht, hprev, hnext, if_neg hone, htl,
      patch_eq fun q hq => h.alive q (hin q (hlast q hq)),
      link_of_ne fun e => hpl (hlast p e), h.head, hhead, hf,
      patch_eq fun q hq => h.alive q (hin q (hfirst q hq)), headTbl_some hfa]
    have hb' : bucketAt tb.buckets (hashToBkt (hh.hashv p) tb.numBuckets) = .ok b := hb
    simp only [hb', ← hhh₁, hdel]
  · refine ⟨(List.nodup_cons.mp (List.nodup_middle.mp hn)).2, fun q hq => h.alive q (hin q hq),
      hf.symm, ?_, fun q hq => h.key q (hin q hq), fun q hq => ?_, fun q hq => ?_,
      fun _ => ⟨_, chain', rfl, rfl, fun q hq => h.alive q (hin q hq), hi.log2, hi.size, ?_, ?_⟩⟩
    · rw [hmoved.prev, hmoved.next]
      exact hseg
    · rw [hmoved.hashv]
      exact h.hashv q (hin q hq)
    · rw [hmoved.keylen]
      exact h.keylen q (hin q hq)
    · show tb.numItems - 1 = _
      rw [hi.numItems]
      simp only [List.length_append, List.length_cons, UInt32.ofNat_add]
      rw [← UInt32.add_assoc]
      exact UInt32.add_sub_cancel ..
    · refine hbuckets.congr (fun q => ⟨fun hq => ⟨hin q hq, fun e => hpl (e ▸ hq)⟩, fun hq => ?_⟩)
        (fun _ _ => rfl) (fun _ _ => rfl) fun _ _ => rfl
      obtain ⟨hq, hqp⟩ := hq
      simp only [List.mem_append, List.mem_cons] at hq ⊢
      exact hq.imp_right fun hq => hq.resolve_left hqp
  · exact ⟨by rw [hmoved.prev]; exact link_of_ne fun e => hq (hin q (hfirst q e)),
      by rw [hmoved.next]; exact link_of_ne fun e => hq (hin q (hlast q e)),
      hmoved.hhPrev q hq, hmoved.hhNext q hq, by rw [hmoved.keylen], by rw [hmoved.hashv]⟩

end Operations

end Vfast.Uthash
