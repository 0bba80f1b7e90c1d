import Vfast.Lib.Leases
import Vfast.Lib.Run
import Vfast.User

/-! The lifetime of tokens. The store refines a book of leases with a term of an hour, which
a verification in the last quarter of it renews. Clean-up removes leases that no
verification would honour. -/

namespace Vfast.Tokens

open Bytes Keyed Auth User Leases Run

/-! ## The store as a book of leases -/

/-- The lease of each token: its user until it expires. -/
def book (g : UserMgr) : Book (Block 16) VfUser := fun tk =>
  (hashFind VfNode.token g.userNode tk).map fun n => ⟨n.user, n.expire⟩

/-- No token is in the store twice. -/
def Distinct (g : UserMgr) : Prop := (g.userNode.map VfNode.token).Nodup

theorem extend_token (now : Int) (n : VfNode) : (extend now n).token = n.token := by
  unfold extend
  split <;> rfl

theorem extend_lease (now : Int) (n : VfNode) :
    (⟨(extend now n).user, (extend now n).expire⟩ : Lease VfUser) =
      renew tokenInter tokenMin now ⟨n.user, n.expire⟩ := by
  unfold extend renew
  split <;> rfl

theorem book_add (g : UserMgr) (n : VfNode) :
    book { g with userNode := hashAdd g.userNode n } =
      Function.update (book g) n.token (some ⟨n.user, n.expire⟩) := by
  funext tk
  by_cases h : tk = n.token
  · subst h
    simp [book, hashFind_add_self]
  · simp [book, hashFind_add_of_ne (Ne.symm h), h]

/-- `vf_user_verify_pkt` is a check of the lease. -/
theorem book_verify (g : UserMgr) {pkt : VpnAuth} (hm : pkt.magic = vfastMagic) (now : Int) :
    (book (vfUserVerifyPkt g (some pkt) now).1, (vfUserVerifyPkt g (some pkt) now).2) =
      check tokenInter tokenMin (book g) pkt.token now := by
  unfold vfUserVerifyPkt check live
  simp only [hm, ne_eq, not_true_eq_false, if_false]
  cases hf : hashFind VfNode.token g.userNode pkt.token with
  | none => simp [book, hf]
  | some n =>
    by_cases he : now ≤ n.expire
    · have hupdate : book { g with
          userNode := hashModify VfNode.token g.userNode pkt.token (extend now) } =
          Function.update (book g) pkt.token
            (some (renew tokenInter tokenMin now ⟨n.user, n.expire⟩)) := by
        funext tk
        by_cases h : tk = pkt.token
        · subst h
          simp [book, hashFind_modify (extend_token now), hf, extend_lease]
        · simp [book, hashFind_modify (extend_token now), h]
      simp [he, hupdate, book, hf, Option.filter]
    · simp [he, book, hf, Option.filter]

theorem book_remove {g : UserMgr} (hd : Distinct g) (tk : Block 16) :
    book { g with userNode := hashRemove VfNode.token g.userNode tk } = revoke (book g) tk := by
  funext tk'
  by_cases h : tk' = tk
  · subst h
    simp [book, revoke, hashFind_remove hd]
  · simp [book, revoke, hashFind_remove hd, h]

theorem book_logout {g : UserMgr} (hd : Distinct g) (tk : Block 16) :
    book (vfUserLogout g (some tk)).1 = revoke (book g) tk ∧
      (vfUserLogout g (some tk)).2 = if (book g tk).isSome then 0 else -1 := by
  unfold vfUserLogout
  dsimp only
  cases hf : hashFind VfNode.token g.userNode tk with
  | none =>
    have hnone : book g tk = none := by simp [book, hf]
    have hself : Function.update (book g) tk none = book g := by
      rw [← hnone, Function.update_eq_self]
    simp [revoke, hnone, hself]
  | some n =>
    have hsome : book g tk = some ⟨n.user, n.expire⟩ := by simp [book, hf]
    exact ⟨book_remove hd tk, by simp [hsome]⟩

/-- `vf_user_clean_expired` purges. -/
theorem book_clean {g : UserMgr} (hd : Distinct g) (now : Int) :
    book (vfUserCleanExpired g now) = live (book g) now := by
  funext tk
  simp only [book, vfUserCleanExpired, live, hashFind_filter hd]
  cases hashFind VfNode.token g.userNode tk with
  | none => rfl
  | some n =>
    by_cases he : now ≤ n.expire
    · simp [Option.filter, he]
    · simp [Option.filter, he]

/-! ## Calls -/

inductive Call where
  | login (user pass : Option (List UInt8)) (radius : Int) (draw : Option (Block 16))
  | verify (pkt : VpnAuth)
  | logout (token : Block 16)
  | clean

inductive Answer where
  | login (code : Int) (tkOut : Option (Block 16))
  | verify (info : Option VfUser)
  | logout (code : Int)
  | clean
  deriving DecidableEq

/-- The store after a call at `now`, and what the call returns. -/
def answer (g : UserMgr) (now : Int) : Call → UserMgr × Answer
  | .login user pass radius draw =>
    let r := vfUserLogin g user pass radius draw now
    (r.1, .login r.2.1 r.2.2)
  | .verify pkt =>
    let r := vfUserVerifyPkt g (some pkt) now
    (r.1, .verify r.2)
  | .logout token =>
    let r := vfUserLogout g (some token)
    (r.1, .logout r.2)
  | .clean => (vfUserCleanExpired g now, .clean)

def Call.event : Call → Answer → Option (Event (Block 16))
  | .login .., .login _ (some tk) => some (.grant tk)
  | .verify pkt, .verify info => some (.check pkt.token info.isSome)
  | .logout tk, _ => some (.revoke tk)
  | _, _ => none

/-- The token that the call draws is none of `drawn`, and a packet that it verifies has the
magic number. -/
def Call.Proper (drawn : List (Block 16)) : Call → Prop
  | .login _ _ _ draw => ∀ tk ∈ draw, tk ∉ drawn
  | .verify pkt => pkt.magic = vfastMagic
  | _ => True

def Call.draws : Call → List (Block 16)
  | .login _ _ _ draw => draw.toList
  | _ => []

/-! ## Runs -/

/-- A run of the store: `bare` is the store had the clean-up calls been left out. -/
structure Life where
  mgr : UserMgr
  bare : UserMgr
  log : History (Block 16)
  drawn : List (Block 16)
  clock : Int

def Life.after (s : Life) (now : Int) (c : Call) : Life where
  mgr := (answer s.mgr now c).1
  bare :=
    match c with
    | .clean => s.bare
    | c => (answer s.bare now c).1
  log := ((c.event (answer s.mgr now c).2).map fun e => (now, e)).toList ++ s.log
  drawn := c.draws ++ s.drawn
  clock := now

/-- Any calls at nondecreasing times, with distinct draws. -/
def tokenRuns : System Life (Int × Call) where
  init s := ∃ clock, s = ⟨⟨[]⟩, ⟨[]⟩, [], [], clock⟩
  step s l s' := s.clock ≤ l.1 ∧ l.2.Proper s.drawn ∧ s' = s.after l.1 l.2

/-! ## The invariant -/

/-- **What a login does**, to any store: nothing, or a new node for the drawn token. -/
theorem login_cases (user pass : Option (List UInt8)) (radius : Int) (draw : Option (Block 16))
    (now : Int) :
    (∃ code, ∀ g, vfUserLogin g user pass radius draw now = (g, code, none)) ∨
      ∃ name tk, draw = some tk ∧ ∀ g, vfUserLogin g user pass radius draw now =
        ({ g with userNode := hashAdd g.userNode ⟨tk, userRecord name, now + tokenInter⟩ }, 0,
          some tk) := by
  unfold vfUserLogin
  cases user with
  | none => exact Or.inl ⟨_, fun _ => rfl⟩
  | some user =>
    cases pass with
    | none => exact Or.inl ⟨_, fun _ => rfl⟩
    | some pass =>
      dsimp only
      split
      · exact Or.inl ⟨_, fun _ => rfl⟩
      · cases draw with
        | none => exact Or.inl ⟨_, fun _ => rfl⟩
        | some tk => exact Or.inr ⟨user, tk, rfl, fun _ => rfl⟩

theorem verify_tokens (g : UserMgr) (pkt : VpnAuth) (now : Int) :
    (vfUserVerifyPkt g (some pkt) now).1.userNode.map VfNode.token =
      g.userNode.map VfNode.token := by
  unfold vfUserVerifyPkt
  dsimp only
  split
  · rfl
  · split
    · rfl
    · split
      · exact map_hashModify (extend_token now) _ _
      · rfl

theorem answer_tokens (g : UserMgr) (now : Int) (c : Call) :
    ((answer g now c).1.userNode.map VfNode.token).Sublist
      (c.draws ++ g.userNode.map VfNode.token) := by
  cases c with
  | login user pass radius draw =>
    dsimp only [answer]
    rcases login_cases user pass radius draw now with ⟨code, e⟩ | ⟨name, tk, rfl, e⟩
    · rw [e]
      exact List.sublist_append_right _ _
    · rw [e]
      exact List.Sublist.refl _
  | verify pkt =>
    dsimp only [answer]
    rw [verify_tokens]
    exact List.Sublist.refl _
  | logout tk =>
    simp only [answer, vfUserLogout]
    split
    · exact List.Sublist.refl _
    · exact List.eraseP_sublist.map _
  | clean => exact List.filter_sublist.map _

structure Held (drawn : List (Block 16)) (g : UserMgr) : Prop where
  distinct : Distinct g
  drawn : ∀ tk ∈ g.userNode.map VfNode.token, tk ∈ drawn

theorem Held.answer {drawn : List (Block 16)} {g : UserMgr} (h : Held drawn g) (now : Int)
    {c : Call} (hc : c.Proper drawn) : Held (c.draws ++ drawn) (answer g now c).1 := by
  have hsub := answer_tokens g now c
  constructor
  · refine List.Nodup.sublist hsub (List.nodup_append.mpr ⟨?_, h.distinct, ?_⟩)
    · cases c with
      | login user pass radius draw => cases draw <;> simp [Call.draws]
      | _ => exact List.nodup_nil
    · rintro tk htk tk' htk' rfl
      cases c with
      | login user pass radius draw =>
        exact hc tk (by simpa [Call.draws] using htk) (h.drawn tk htk')
      | _ => cases htk
  · intro tk htk
    rcases List.mem_append.mp (hsub.subset htk) with htk | htk
    · exact List.mem_append_left _ htk
    · exact List.mem_append_right _ (h.drawn tk htk)

structure Inv (s : Life) : Prop where
  held : Held s.drawn s.mgr
  heldBare : Held s.drawn s.bare
  records : Records tokenInter tokenMin s.clock s.log (book s.mgr)
  pruned : Pruned s.clock (book s.mgr) (book s.bare)

theorem inv_init (clock : Int) : Inv ⟨⟨[]⟩, ⟨[]⟩, [], [], clock⟩ :=
  ⟨⟨List.nodup_nil, by simp⟩, ⟨List.nodup_nil, by simp⟩, records_nil _ _ _, pruned_refl _ _⟩

/-- A call is recorded as what it does to the book. -/
theorem records_answer {g : UserMgr} {drawn : List (Block 16)} {log : History (Block 16)}
    {now : Int} (r : Records tokenInter tokenMin now log (book g)) (hd : Distinct g) {c : Call}
    (hc : c.Proper drawn) :
    Records tokenInter tokenMin now
      (((c.event (answer g now c).2).map fun e => (now, e)).toList ++ log)
      (book (answer g now c).1) := by
  have hm : tokenMin ≤ tokenInter := by decide
  cases c with
  | login user pass radius draw =>
    rcases login_cases user pass radius draw now with ⟨code, e⟩ | ⟨name, tk, -, e⟩
    · simp only [answer, e]
      exact r
    · simp only [answer, e, book_add]
      exact r.grant hm tk (userRecord name)
  | verify pkt =>
    have hck := r.check hm pkt.token
    rw [← book_verify g hc now] at hck
    exact hck
  | logout tk =>
    have hrev := r.revoke tk
    rw [← (book_logout hd tk).1] at hrev
    exact hrev
  | clean =>
    have hpurge := r.purge
    rw [← book_clean hd now] at hpurge
    exact hpurge

/-- A call other than the clean-up does the same to both books. -/
theorem pruned_answer {g g' : UserMgr} {drawn : List (Block 16)} {now : Int}
    (hp : Pruned now (book g) (book g')) (hd : Distinct g) (hd' : Distinct g') {c : Call}
    (hc : c.Proper drawn) (hne : c ≠ .clean) :
    Pruned now (book (answer g now c).1) (book (answer g' now c).1) := by
  cases c with
  | login user pass radius draw =>
    rcases login_cases user pass radius draw now with ⟨code, e⟩ | ⟨name, tk, -, e⟩
    · simp only [answer, e]
      exact hp
    · simp only [answer, e, book_add]
      exact hp.update tk _
  | verify pkt =>
    have hck := (hp.check tokenInter tokenMin pkt.token).2
    rw [← book_verify g hc now, ← book_verify g' hc now] at hck
    exact hck
  | logout tk =>
    have hrev : Pruned now (revoke (book g) tk) (revoke (book g') tk) := hp.update tk none
    rw [← (book_logout hd tk).1, ← (book_logout hd' tk).1] at hrev
    exact hrev
  | clean => exact absurd rfl hne

/-- **One call** keeps the books. -/
theorem Inv.after {s : Life} (h : Inv s) {now : Int} (hn : s.clock ≤ now) {c : Call}
    (hc : c.Proper s.drawn) : Inv (s.after now c) := by
  have hr := records_answer (h.records.later hn) h.held.distinct hc
  have hp := h.pruned.mono hn
  by_cases hclean : c = .clean
  · subst hclean
    refine ⟨h.held.answer now hc, h.heldBare, hr, ?_⟩
    have hpurge := hp.purge
    rw [← book_clean h.held.distinct now] at hpurge
    exact hpurge
  · have hbare : (s.after now c).bare = (answer s.bare now c).1 := by
      cases c with
      | clean => exact absurd rfl hclean
      | _ => rfl
    refine ⟨h.held.answer now hc, ?_, hr, ?_⟩
    · rw [hbare]
      exact h.heldBare.answer now hc
    · rw [hbare]
      exact pruned_answer hp h.held.distinct h.heldBare.distinct hc hclean

theorem reachable_inv {s : Life} (h : Reachable tokenRuns s) : Inv s := by
  apply h.invariant Inv
  · rintro s ⟨clock, rfl⟩
    exact inv_init clock
  · rintro s ⟨now, c⟩ s' hi - ⟨hn, hc, rfl⟩
    exact hi.after hn hc

/-! ## Lifetimes -/

def Expired (g : UserMgr) (now : Int) (tk : Block 16) : Prop :=
  ∃ n, hashFind VfNode.token g.userNode tk = some n ∧ n.expire < now

/-- Clean-up changes no answer but that of the logout of an expired token. -/
theorem Inv.same_answer {s : Life} (h : Inv s) {now : Int} (hn : s.clock ≤ now) {c : Call}
    (hc : c.Proper s.drawn) (hx : ∀ tk, c = .logout tk → ¬ Expired s.bare now tk) :
    (answer s.mgr now c).2 = (answer s.bare now c).2 := by
  have hp := h.pruned.mono hn
  cases c with
  | login user pass radius draw =>
    dsimp only [answer]
    rcases login_cases user pass radius draw now with ⟨code, e⟩ | ⟨name, tk, -, e⟩
    · rw [e, e]
    · rw [e, e]
  | verify pkt =>
    have e := book_verify s.mgr hc now
    have e' := book_verify s.bare hc now
    have hck := (hp.check tokenInter tokenMin pkt.token).1
    rw [← e, ← e'] at hck
    exact congrArg Answer.verify hck
  | logout tk =>
    have e := (book_logout h.held.distinct tk).2
    have e' := (book_logout h.heldBare.distinct tk).2
    have hbook : book s.mgr tk = book s.bare tk := by
      rcases hp tk with hb | ⟨-, l, hl, hlt⟩
      · exact hb
      · obtain ⟨n, hn, rfl⟩ := Option.map_eq_some_iff.mp hl
        exact absurd ⟨n, hn, hlt⟩ (hx tk rfl)
    dsimp only [answer]
    rw [e, e', hbook]
  | clean => rfl

/-- **Token lifetime.** -/
theorem token_lifetime {s : Life} (h : Reachable tokenRuns s) {now : Int} (hn : s.clock ≤ now) :
    (∀ pkt : VpnAuth, pkt.magic = vfastMagic → ∀ t, steady 900 pkt.token s.log = some t →
      now ≤ t + 900 → ∃ info, (answer s.mgr now (.verify pkt)).2 = .verify (some info)) ∧
    (∀ pkt info, (answer s.mgr now (.verify pkt)).2 = .verify (some info) →
      ∃ t, lastSign pkt.token s.log = some t ∧ now ≤ t + 3600) ∧
    ∀ c : Call, c.Proper s.drawn → (∀ tk, c = .logout tk → ¬ Expired s.bare now tk) →
      (answer s.mgr now c).2 = (answer s.bare now c).2 := by
  have hi := reachable_inv h
  have hr := hi.records.later hn
  refine ⟨?_, ?_, fun c hc hx => hi.same_answer hn hc hx⟩
  · intro pkt hm t ht hle
    obtain ⟨info, hinfo⟩ := hr.honoured ht hle
    rw [← book_verify s.mgr hm now] at hinfo
    exact ⟨info, congrArg Answer.verify hinfo⟩
  · intro pkt info ha
    have hinfo : (vfUserVerifyPkt s.mgr (some pkt) now).2 = some info := Answer.verify.inj ha
    have hm : pkt.magic = vfastMagic := by
      by_contra hne
      simp [vfUserVerifyPkt, hne] at hinfo
    apply hr.recent (v := info)
    rw [← book_verify s.mgr hm now]
    exact hinfo

def loggedIn : Life :=
  (Life.mk ⟨[]⟩ ⟨[]⟩ [] [] 0).after 0 (.login (some [0x61]) (some [0x62]) 0 (some fun _ => 7))

theorem loggedIn_reachable : Reachable tokenRuns loggedIn := by
  have h0 : Reachable tokenRuns (Life.mk ⟨[]⟩ ⟨[]⟩ [] [] 0) := .init ⟨0, rfl⟩
  exact h0.next (l := (0, .login (some [0x61]) (some [0x62]) 0 (some fun _ => 7)))
    ⟨Int.le_refl 0, by simp [Call.Proper], rfl⟩

theorem loggedIn_verifies :
    ∃ info, (answer loggedIn.mgr 900 (.verify ⟨vfastMagic, 0, fun _ => 7, 0, 0, fun _ => 0⟩)).2 =
      .verify (some info) :=
  (token_lifetime loggedIn_reachable (by decide)).1 _ rfl 0 (by decide) (by decide)

/-- **Clean-up changes what the logout of an expired token returns.** -/
theorem expired_logout_differs :
    Reachable tokenRuns (loggedIn.after 5000 .clean) ∧
      (answer (loggedIn.after 5000 .clean).mgr 5000 (.logout fun _ => 7)).2 = .logout (-1) ∧
      (answer (loggedIn.after 5000 .clean).bare 5000 (.logout fun _ => 7)).2 = .logout 0 :=
  ⟨loggedIn_reachable.next (l := (5000, .clean)) ⟨by decide, trivial, rfl⟩, by decide, by decide⟩

end Vfast.Tokens
