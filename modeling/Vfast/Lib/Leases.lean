import Mathlib.Logic.Function.Basic

/-! Leases with a sliding term: a key is honoured until its lease expires, and a check near
the end of the term renews it. Expired leases may be purged at any time, which no later
check can tell. -/

namespace Vfast.Leases

variable {κ ν : Type}

structure Lease (ν : Type) where
  val : ν
  expire : Int

abbrev Book (κ ν : Type) := κ → Option (Lease ν)

/-- The leases that are honoured at `now`. -/
def live (b : Book κ ν) (now : Int) : Book κ ν := fun k => (b k).filter fun l => now ≤ l.expire

theorem live_some {b : Book κ ν} {now : Int} {k : κ} {l : Lease ν} :
    live b now k = some l ↔ b k = some l ∧ now ≤ l.expire := by
  simp [live, Option.filter_eq_some_iff]

/-- `b` is `b'` without some of the leases that had expired by `now`. -/
def Pruned (now : Int) (b b' : Book κ ν) : Prop :=
  ∀ k, b k = b' k ∨ b k = none ∧ ∃ l, b' k = some l ∧ l.expire < now

theorem pruned_refl (now : Int) (b : Book κ ν) : Pruned now b b := fun _ => Or.inl rfl

theorem Pruned.mono {now now' : Int} {b b' : Book κ ν} (h : Pruned now b b') (hle : now ≤ now') :
    Pruned now' b b' := by
  intro k
  rcases h k with e | ⟨e, l, hl, hx⟩
  · exact Or.inl e
  · exact Or.inr ⟨e, l, hl, Int.lt_of_lt_of_le hx hle⟩

theorem Pruned.purge {now : Int} {b b' : Book κ ν} (h : Pruned now b b') :
    Pruned now (live b now) b' := by
  intro k
  rcases h k with e | ⟨e, l, hl, hx⟩
  · cases hk : b' k with
    | none => exact Or.inl (by simp [live, e, hk])
    | some l =>
      by_cases hx : now ≤ l.expire
      · exact Or.inl (by simp [live, e, hk, Option.filter, hx])
      · exact Or.inr ⟨by simp [live, e, hk, Option.filter, hx], l, rfl, Int.not_le.mp hx⟩
  · exact Or.inr ⟨by simp [live, e], l, hl, hx⟩

/-- What was pruned is not honoured. -/
theorem Pruned.live {now : Int} {b b' : Book κ ν} (h : Pruned now b b') :
    live b now = live b' now := by
  funext k
  rcases h k with e | ⟨e, l, hl, hx⟩
  · simp [Leases.live, e]
  · simp [Leases.live, e, hl, Option.filter, hx]

/-! ## Operations -/

variable [DecidableEq κ]

section

variable (term margin : Int)

/-- A check with less than `margin` to go starts the term anew. -/
def renew (now : Int) (l : Lease ν) : Lease ν :=
  if l.expire - now < margin then { l with expire := now + term } else l

def grant (b : Book κ ν) (k : κ) (v : ν) (now : Int) : Book κ ν :=
  Function.update b k (some ⟨v, now + term⟩)

/-- Whether the key is honoured, and the book after the renewal. -/
def check (b : Book κ ν) (k : κ) (now : Int) : Book κ ν × Option ν :=
  match live b now k with
  | none => (b, none)
  | some l => (Function.update b k (some (renew term margin now l)), some l.val)

def revoke (b : Book κ ν) (k : κ) : Book κ ν := Function.update b k none

/-! ## Purging is invisible -/

theorem Pruned.update {now : Int} {b b' : Book κ ν} (h : Pruned now b b') (k : κ)
    (o : Option (Lease ν)) : Pruned now (Function.update b k o) (Function.update b' k o) := by
  intro k'
  by_cases e : k' = k
  · subst e
    left
    simp
  · simpa [Function.update_of_ne e] using h k'

/-- A check answers alike and leaves the books alike. -/
theorem Pruned.check {now : Int} {b b' : Book κ ν} (h : Pruned now b b') (k : κ) :
    (check term margin b k now).2 = (check term margin b' k now).2 ∧
      Pruned now (check term margin b k now).1 (check term margin b' k now).1 := by
  unfold Leases.check
  rw [h.live]
  cases Leases.live b' now k with
  | none => exact ⟨rfl, h⟩
  | some l => exact ⟨rfl, h.update k _⟩

end

/-! ## Histories -/

inductive Event (κ : Type) where
  | grant (k : κ)
  | check (k : κ) (honoured : Bool)
  | revoke (k : κ)

def Event.key : Event κ → κ
  | .grant k | .check k _ | .revoke k => k

abbrev History (κ : Type) := List (Int × Event κ)

/-- The time of the grant or the last honoured check of a key that was not revoked since. -/
def lastSign (k : κ) : History κ → Option Int
  | [] => none
  | (t, .grant k') :: h => if k' = k then some t else lastSign k h
  | (t, .check k' honoured) :: h => if k' = k ∧ honoured then some t else lastSign k h
  | (_, .revoke k') :: h => if k' = k then none else lastSign k h

/-- The time of the last check (or the grant) of a key that was granted, not revoked since, and
checked at intervals of at most `margin`. -/
def steady (margin : Int) (k : κ) : History κ → Option Int
  | [] => none
  | (t, .grant k') :: h => if k' = k then some t else steady margin k h
  | (t, .check k' _) :: h =>
    if k' = k then (steady margin k h).bind fun t' => if t ≤ t' + margin then some t else none
    else steady margin k h
  | (_, .revoke k') :: h => if k' = k then none else steady margin k h

theorem lastSign_of_ne {k : κ} {e : Event κ} (hk : e.key ≠ k) (t : Int) (h : History κ) :
    lastSign k ((t, e) :: h) = lastSign k h := by
  cases e <;> simp_all [lastSign, Event.key]

theorem steady_of_ne {k : κ} {e : Event κ} (hk : e.key ≠ k) (margin t : Int) (h : History κ) :
    steady margin k ((t, e) :: h) = steady margin k h := by
  cases e <;> simp_all [steady, Event.key]

/-- **What a history says about the book** at `clock`: a lease ends at most a term after the
last sign of its key, and the lease of a steady key lasts for another `margin`. -/
structure Records (term margin clock : Int) (h : History κ) (b : Book κ ν) : Prop where
  signed : ∀ k l, b k = some l → ∃ t, lastSign k h = some t ∧ t ≤ clock ∧ l.expire ≤ t + term
  lasts : ∀ k t, steady margin k h = some t → t ≤ clock ∧
    (clock ≤ t + margin → ∃ l, b k = some l ∧ t + margin ≤ l.expire)

section

variable {term margin clock now : Int} {h : History κ} {b : Book κ ν}

theorem records_nil (term margin clock : Int) :
    Records term margin clock ([] : History κ) (fun _ => none : Book κ ν) :=
  ⟨fun _ _ e => absurd e (by simp), fun _ _ e => absurd e (by simp [steady])⟩

theorem Records.later (r : Records term margin clock h b) (hc : clock ≤ now) :
    Records term margin now h b := by
  constructor
  · intro k l hl
    obtain ⟨t, ht, hle, he⟩ := r.signed k l hl
    exact ⟨t, ht, Int.le_trans hle hc, he⟩
  · intro k t ht
    obtain ⟨hle, hb⟩ := r.lasts k t ht
    exact ⟨Int.le_trans hle hc, fun hn => hb (Int.le_trans hc hn)⟩

theorem Records.purge (r : Records term margin now h b) :
    Records term margin now h (live b now) := by
  constructor
  · intro k l hl
    exact r.signed k l (live_some.mp hl).1
  · intro k t ht
    obtain ⟨hle, hb⟩ := r.lasts k t ht
    refine ⟨hle, fun hn => ?_⟩
    obtain ⟨l, hl, he⟩ := hb hn
    exact ⟨l, live_some.mpr ⟨hl, Int.le_trans hn he⟩, he⟩

/-- **One event**: only its own key needs a look. -/
theorem Records.event (r : Records term margin now h b) (e : Event κ) (o : Option (Lease ν))
    (hsigned : ∀ l, o = some l →
      ∃ t, lastSign e.key ((now, e) :: h) = some t ∧ t ≤ now ∧ l.expire ≤ t + term)
    (hlasts : ∀ t, steady margin e.key ((now, e) :: h) = some t →
      t ≤ now ∧ (now ≤ t + margin → ∃ l, o = some l ∧ t + margin ≤ l.expire)) :
    Records term margin now ((now, e) :: h) (Function.update b e.key o) := by
  constructor
  · intro k l hl
    by_cases hk : k = e.key
    · subst hk
      rw [Function.update_self] at hl
      exact hsigned l hl
    · rw [Function.update_of_ne hk] at hl
      rw [lastSign_of_ne (Ne.symm hk)]
      exact r.signed k l hl
  · intro k t ht
    by_cases hk : k = e.key
    · subst hk
      rw [Function.update_self]
      exact hlasts t ht
    · rw [steady_of_ne (Ne.symm hk)] at ht
      rw [Function.update_of_ne hk]
      exact r.lasts k t ht

theorem Records.grant (r : Records term margin now h b) (hm : margin ≤ term) (k : κ) (v : ν) :
    Records term margin now ((now, .grant k) :: h) (grant term b k v now) := by
  apply r.event (.grant k)
  · rintro l ⟨⟩
    exact ⟨now, if_pos rfl, Int.le_refl _, Int.le_refl _⟩
  · intro t ht
    obtain rfl : now = t := by simpa [steady, Event.key] using ht
    exact ⟨Int.le_refl _, fun _ => ⟨_, rfl, by dsimp only; omega⟩⟩

theorem Records.revoke (r : Records term margin now h b) (k : κ) :
    Records term margin now ((now, .revoke k) :: h) (revoke b k) := by
  apply r.event (.revoke k)
  · rintro l ⟨⟩
  · intro t ht
    simp [steady, Event.key] at ht

/-- **A steady key is honoured.** -/
theorem Records.honoured (r : Records term margin now h b) {k : κ} {t : Int}
    (ht : steady margin k h = some t) (hn : now ≤ t + margin) :
    ∃ v, (check term margin b k now).2 = some v := by
  obtain ⟨l, hl, he⟩ := (r.lasts k t ht).2 hn
  have hlive : live b now k = some l := live_some.mpr ⟨hl, Int.le_trans hn he⟩
  exact ⟨l.val, by simp [check, hlive]⟩

/-- **A key that is honoured gave a sign within the term.** -/
theorem Records.recent (r : Records term margin now h b) {k : κ} {v : ν}
    (hv : (check term margin b k now).2 = some v) :
    ∃ t, lastSign k h = some t ∧ now ≤ t + term := by
  unfold check at hv
  cases hl : live b now k with
  | none => simp [hl] at hv
  | some l =>
    obtain ⟨hb, hle⟩ := live_some.mp hl
    obtain ⟨t, ht, -, he⟩ := r.signed k l hb
    exact ⟨t, ht, Int.le_trans hle he⟩

theorem renew_bounds (hm : margin ≤ term) (l : Lease ν) (hl : l.expire ≤ now + term) :
    (renew term margin now l).expire ≤ now + term ∧
      now + margin ≤ (renew term margin now l).expire := by
  unfold renew
  split
  · exact ⟨Int.le_refl _, by dsimp only; omega⟩
  · exact ⟨hl, by omega⟩

/-- A check of a steady key comes within the margin. -/
theorem steady_check {k : κ} {honoured : Bool} {t : Int}
    (ht : steady margin k ((now, .check k honoured) :: h) = some t) :
    t = now ∧ ∃ t', steady margin k h = some t' ∧ now ≤ t' + margin := by
  simp only [steady, if_true, Option.bind_eq_some_iff] at ht
  obtain ⟨t', ht', hif⟩ := ht
  split at hif
  · rename_i hn
    exact ⟨(Option.some.inj hif).symm, t', ht', hn⟩
  · cases hif

theorem Records.check (r : Records term margin now h b) (hm : margin ≤ term) (k : κ) :
    Records term margin now ((now, .check k (check term margin b k now).2.isSome) :: h)
      (check term margin b k now).1 := by
  cases hl : live b now k with
  | none =>
    -- a refused check is no sign, and the key was not steady
    have hck : Leases.check term margin b k now = (b, none) := by simp [Leases.check, hl]
    have hev := r.event (.check k false) (b k)
      (fun l hk => by simpa [lastSign, Event.key] using r.signed k l hk) (by
      intro t ht
      obtain ⟨-, t', ht', hn⟩ := steady_check ht
      obtain ⟨v, hv⟩ := r.honoured ht' hn
      rw [Event.key, hck] at hv
      cases hv)
    rw [hck]
    rwa [Event.key, Function.update_eq_self] at hev
  | some l =>
    have hck : Leases.check term margin b k now =
        (Function.update b k (some (renew term margin now l)), some l.val) := by
      simp [Leases.check, hl]
    have hle : l.expire ≤ now + term := by
      obtain ⟨t, -, htc, he⟩ := r.signed k l (live_some.mp hl).1
      omega
    obtain ⟨hup, hlow⟩ := renew_bounds hm l hle
    rw [hck]
    apply r.event (.check k true)
    · rintro l' ⟨⟩
      exact ⟨now, if_pos ⟨rfl, rfl⟩, Int.le_refl _, hup⟩
    · intro t ht
      obtain ⟨rfl, -⟩ := steady_check ht
      exact ⟨Int.le_refl _, fun _ => ⟨_, rfl, hlow⟩⟩

end

end Vfast.Leases
