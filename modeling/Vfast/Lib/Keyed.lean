import Mathlib.Data.List.Basic

/-! Intrusive hash tables as keyed containers. A table is the list of the
handles linked into it, newest first; the key of a handle is read from the
object it points to. `hashAdd` does not look for an equal key, so a table may
hold two handles with one key; `hashFind` then returns the newer one. Where the
objects need no identity they stand for their handles: `hashModify` and
`hashRemove` then work on the object that `hashFind` returns. -/

namespace Vfast.Keyed

variable {α κ : Type} [DecidableEq κ]

def hashFind (key : α → κ) (t : List α) (k : κ) : Option α := t.find? fun a => key a = k

def hashAdd (t : List α) (a : α) : List α := a :: t

def hashModify (key : α → κ) (t : List α) (k : κ) (f : α → α) : List α :=
  match t with
  | [] => []
  | a :: t => if key a = k then f a :: t else a :: hashModify key t k f

def hashRemove (key : α → κ) (t : List α) (k : κ) : List α := t.eraseP fun a => key a = k

def hashDelete [DecidableEq α] (t : List α) (a : α) : List α := t.erase a

/-- The order in which a table is walked: oldest handle first. -/
def hashIter (t : List α) : List α := t.reverse

def hashCnt (t : List α) : Nat := t.length

def KeysDistinct (key : α → κ) (t : List α) : Prop :=
  ∀ a ∈ t, ∀ b ∈ t, key a = key b → a = b

theorem hashFind_some {key : α → κ} {t : List α} {k : κ} {a : α}
    (h : hashFind key t k = some a) : a ∈ t ∧ key a = k :=
  ⟨List.mem_of_find?_eq_some h, by simpa using List.find?_some h⟩

theorem hashFind_eq_none {key : α → κ} {t : List α} {k : κ} :
    hashFind key t k = none ↔ ∀ a ∈ t, key a ≠ k := by
  simp [hashFind]

theorem hashFind_of_mem {key : α → κ} {t : List α} (hd : KeysDistinct key t) {a : α}
    (ha : a ∈ t) : hashFind key t (key a) = some a := by
  cases h : hashFind key t (key a) with
  | none => exact absurd rfl (hashFind_eq_none.mp h a ha)
  | some b =>
    obtain ⟨hb, hk⟩ := hashFind_some h
    rw [hd b hb a ha hk]

theorem hashFind_congr {key key' : α → κ} {t : List α} (h : ∀ a ∈ t, key a = key' a) (k : κ) :
    hashFind key t k = hashFind key' t k := by
  induction t with
  | nil => rfl
  | cons a t ih =>
    have ha := h a (by simp)
    have ht := ih fun b hb => h b (by simp [hb])
    simp only [hashFind, List.find?_cons, ha] at ht ⊢
    rw [ht]

theorem hashFind_add_self (key : α → κ) (t : List α) (a : α) :
    hashFind key (hashAdd t a) (key a) = some a := by
  simp [hashFind, hashAdd]

theorem mem_hashAdd {t : List α} {a b : α} : b ∈ hashAdd t a ↔ b = a ∨ b ∈ t := by
  simp [hashAdd]

theorem mem_hashDelete [DecidableEq α] {t : List α} (hn : t.Nodup) {a b : α} :
    b ∈ hashDelete t a ↔ b ≠ a ∧ b ∈ t := hn.mem_erase_iff

theorem nodup_hashDelete [DecidableEq α] {t : List α} (hn : t.Nodup) (a : α) :
    (hashDelete t a).Nodup :=
  hn.erase a

theorem hashFind_add_of_ne {key : α → κ} {t : List α} {a : α} {k : κ} (h : key a ≠ k) :
    hashFind key (hashAdd t a) k = hashFind key t k := by
  simp [hashFind, hashAdd, h]

theorem hashFind_cons (key : α → κ) (a : α) (t : List α) (k : κ) :
    hashFind key (a :: t) k = if key a = k then some a else hashFind key t k := by
  by_cases h : key a = k
  · simp [hashFind, h]
  · simp [hashFind, h]

theorem hashFind_modify {key : α → κ} {f : α → α} (hf : ∀ a, key (f a) = key a) (t : List α)
    (k k' : κ) : hashFind key (hashModify key t k f) k' =
      if k' = k then (hashFind key t k).map f else hashFind key t k' := by
  induction t with
  | nil => simp [hashFind, hashModify]
  | cons a t ih =>
    by_cases ha : key a = k
    · subst ha
      by_cases hk : k' = key a
      · simp [hashModify, hashFind_cons, hk, hf]
      · simp [hashModify, hashFind_cons, hk, hf, Ne.symm hk]
    · by_cases hk : key a = k'
      · subst hk
        simp [hashModify, hashFind_cons, ha]
      · simp [hashModify, hashFind_cons, ha, hk, ih]

theorem map_hashModify {key : α → κ} {f : α → α} (hf : ∀ a, key (f a) = key a) (t : List α)
    (k : κ) : (hashModify key t k f).map key = t.map key := by
  induction t with
  | nil => rfl
  | cons a t ih =>
    rw [hashModify]
    split <;> simp [hf, ih]

theorem hashFind_of_not_mem {key : α → κ} {t : List α} {k : κ} (h : k ∉ t.map key) :
    hashFind key t k = none :=
  hashFind_eq_none.mpr fun _ ha e => h (e ▸ List.mem_map_of_mem ha)

/-- With distinct keys nothing is left under the key. -/
theorem hashFind_remove {key : α → κ} {t : List α} (hn : (t.map key).Nodup) (k k' : κ) :
    hashFind key (hashRemove key t k) k' = if k' = k then none else hashFind key t k' := by
  induction t with
  | nil => simp [hashFind, hashRemove]
  | cons a t ih =>
    obtain ⟨ha, ht⟩ := List.nodup_cons.mp hn
    have hrest := ih ht
    simp only [hashRemove] at hrest
    by_cases hk : key a = k
    · subst hk
      by_cases hk' : k' = key a
      · simp [hashRemove, hk', hashFind_of_not_mem ha]
      · simp [hashRemove, hashFind_cons, hk', Ne.symm hk']
    · by_cases hk' : key a = k'
      · subst hk'
        simp [hashRemove, hashFind_cons, hk]
      · simp [hashRemove, hashFind_cons, hk, hk', hrest]

/-- With distinct keys a walk that unlinks what fails `p` is a test of what is found. -/
theorem hashFind_filter {key : α → κ} {t : List α} (hn : (t.map key).Nodup) (p : α → Bool) (k : κ) :
    hashFind key (t.filter p) k = (hashFind key t k).filter p := by
  induction t with
  | nil => rfl
  | cons a t ih =>
    obtain ⟨ha, ht⟩ := List.nodup_cons.mp hn
    have hrest := ih ht
    by_cases hk : key a = k
    · subst hk
      rw [hashFind_of_not_mem ha] at hrest
      cases hp : p a with
      | true => simp [hashFind_cons, hp, Option.filter]
      | false => simpa [hashFind_cons, hp, Option.filter] using hrest
    · cases hp : p a with
      | true => simp [hashFind_cons, hk, hp, hrest]
      | false => simp [hashFind_cons, hk, hp, hrest]

theorem mem_hashIter {t : List α} {a : α} : a ∈ hashIter t ↔ a ∈ t := List.mem_reverse

/-! ## Handles that point to their objects -/

section Objects

variable {P : Type} {key : α → κ} {obj : P → α} {t : List P} {p : P}

theorem hashFind_map (key : α → κ) (obj : P → α) (t : List P) (k : κ) :
    hashFind key (t.map obj) k = (hashFind (fun p => key (obj p)) t k).map obj := by
  rw [hashFind, List.find?_map]
  rfl

variable [DecidableEq P]

theorem map_update_of_not_mem {a : α} (hp : p ∉ t) : t.map (Function.update obj p a) = t.map obj :=
  List.map_congr_left fun q hq => Function.update_of_ne (fun e : q = p => hp (e ▸ hq)) a obj

theorem map_update (hd : KeysDistinct (fun p => key (obj p)) t) (hn : t.Nodup) (hp : p ∈ t)
    (f : α → α) : t.map (Function.update obj p (f (obj p))) =
      hashModify key (t.map obj) (key (obj p)) f := by
  induction t with
  | nil => cases hp
  | cons q t ih =>
    obtain ⟨hq, hn⟩ := List.nodup_cons.mp hn
    rw [List.map_cons, List.map_cons, hashModify]
    by_cases e : q = p
    · subst e
      rw [if_pos rfl, Function.update_self, map_update_of_not_mem hq]
    · have hpt : p ∈ t := (List.mem_cons.mp hp).resolve_left (Ne.symm e)
      have hk : key (obj q) ≠ key (obj p) := fun he => e (hd q List.mem_cons_self p hp he)
      have hd' : KeysDistinct (fun p => key (obj p)) t := fun a ha b hb =>
        hd a (List.mem_cons_of_mem q ha) b (List.mem_cons_of_mem q hb)
      rw [if_neg hk, Function.update_of_ne e, ih hd' hn hpt]

theorem map_erase (hd : KeysDistinct (fun p => key (obj p)) t) (hp : p ∈ t) :
    (t.erase p).map obj = hashRemove key (t.map obj) (key (obj p)) := by
  induction t with
  | nil => cases hp
  | cons q t ih =>
    rw [hashRemove, List.map_cons, List.eraseP_cons]
    by_cases e : q = p
    · subst e
      rw [List.erase_cons_head, decide_eq_true rfl]
      rfl
    · have hpt : p ∈ t := (List.mem_cons.mp hp).resolve_left (Ne.symm e)
      have hk : key (obj q) ≠ key (obj p) := fun he => e (hd q List.mem_cons_self p hp he)
      have hd' : KeysDistinct (fun p => key (obj p)) t := fun a ha b hb =>
        hd a (List.mem_cons_of_mem q ha) b (List.mem_cons_of_mem q hb)
      rw [List.erase_cons_tail (by simpa using e), List.map_cons, ih hd' hpt, decide_eq_false hk]
      rfl

theorem suffix_erase {l : List P} (hn : t.Nodup) (h : p :: l <:+ t) :
    l <:+ t.erase p := by
  obtain ⟨a, rfl⟩ := h
  have hp : p ∉ a := fun hm => (List.nodup_append.mp hn).2.2 p hm p List.mem_cons_self rfl
  rw [List.erase_append_right _ hp, List.erase_cons_head]
  exact List.suffix_append a l

/-- Handles that are unlinked one by one, if they are dead. -/
theorem foldl_erase_eq_filter (dead : P → Bool) (l : List P) (hn : t.Nodup) :
    l.foldl (fun t p => if dead p then t.erase p else t) t =
      t.filter fun p => !(dead p && decide (p ∈ l)) := by
  induction l generalizing t with
  | nil => simp
  | cons q l ih =>
    rw [List.foldl_cons]
    cases hq : dead q with
    | false =>
      rw [if_neg (by simp), ih hn]
      refine List.filter_congr fun p hp => ?_
      by_cases e : p = q
      · subst e
        simp [hq]
      · simp [e]
    | true =>
      rw [if_pos rfl, ih (hn.erase q), hn.erase_eq_filter, List.filter_filter]
      refine List.filter_congr fun p hp => ?_
      by_cases e : p = q
      · subst e
        simp [hq]
      · simp [e]

end Objects

end Vfast.Keyed
