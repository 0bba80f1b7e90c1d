import Vfast.SessionMem
import Vfast.Tokens

/-! The token store in memory: `user.c` over the macros of `uthash.h`, with nodes that are
allocated at login, linked by one handle each, unlinked and freed. The store of `User` is what
this memory means: every call does on the memory what it does on the list, no call touches a node
that was freed, and none that is allocated is out of the store. -/

namespace Vfast.UserMem

open Bytes Auth User Uthash
open Keyed (KeysDistinct)
open SessionMem (Alloc Ends)
open Tokens (Call Answer answer)

/-! ## The calls on memory -/

/-- The nodes, their handles and the head `g_user_mgr.user_node`. `brk` is the address that
`zcalloc` returns next. -/
structure Memory where
  alive : Nat → Bool
  obj : Nat → VfNode
  brk : Nat
  hh : Handles Nat
  userNode : Root Nat

def Memory.nodes (m : Memory) : Elements Nat := ⟨m.alive, fun p => (m.obj p).token.toList⟩

def Memory.load (m : Memory) (p : Nat) : Except Halt VfNode :=
  if m.alive p then .ok (m.obj p) else .error .fault

def Memory.store (m : Memory) (p : Nat) (n : VfNode) : Except Halt Memory :=
  if m.alive p then .ok { m with obj := Function.update m.obj p n } else .error .fault

def blankNode : VfNode := ⟨fun _ => 0, ⟨fun _ => 0, .guest⟩, 0⟩

/-- `zcalloc`; without memory the program aborts. -/
def Memory.zcalloc (m : Memory) (env : Alloc) : Except Halt (Nat × Memory) :=
  if env.zmalloc then
    .ok (m.brk,
      { m with
        alive := Function.update m.alive m.brk true
        obj := Function.update m.obj m.brk blankNode
        brk := m.brk + 1 })
  else .error .abort

/-- `zfree` and `free`; freeing twice is a fault. -/
def Memory.zfree (m : Memory) (p : Nat) : Except Halt Memory :=
  if m.alive p then .ok { m with alive := Function.update m.alive p false } else .error .fault

def Memory.add (m : Memory) (env : Alloc) (fuel : Nat) (p : Nat) : Except Halt Memory := do
  let r ← hashAdd m.nodes env.malloc fuel m.hh m.userNode p
  .ok { m with hh := r.1, userNode := r.2 }

def Memory.del (m : Memory) (p : Nat) : Except Halt Memory := do
  let r ← hashDelete m.nodes m.hh m.userNode p
  .ok { m with hh := r.1, userNode := r.2 }

def Memory.find (m : Memory) (fuel : Nat) (token : Block 16) : Except Halt (Option Nat) :=
  hashFind m.nodes fuel m.hh m.userNode token.toList

/-- `vf_user_login`. The node is filled before it is linked. -/
def vfUserLogin (env : Alloc) (fuel : Nat) (m : Memory) (user pass : Option (List UInt8))
    (radius : Int) (draw : Option (Block 16)) (now : Int) :
    Except Halt (Memory × Int × Option (Block 16)) :=
  match user, pass with
  | some user, some _ =>
    if radius ≠ 0 then .ok (m, -2, none)
    else
      match draw with
      | none => .ok (m, -3, none)
      | some tk => do
        let r ← m.zcalloc env
        let m ← r.2.store r.1 ⟨tk, userRecord user, now + tokenInter⟩
        let m ← m.add env fuel r.1
        .ok (m, 0, some tk)
  | _, _ => .ok (m, -3, none)

def vfUserVerifyPkt (fuel : Nat) (m : Memory) (pkt : Option VpnAuth) (now : Int) :
    Except Halt (Memory × Option VfUser) :=
  match pkt with
  | none => .ok (m, none)
  | some pkt =>
    if pkt.magic ≠ vfastMagic then .ok (m, none)
    else do
      match ← m.find fuel pkt.token with
      | none => .ok (m, none)
      | some p =>
        let s ← m.load p
        if now ≤ s.expire then
          let m ← m.store p (extend now s)
          .ok (m, some s.user)
        else .ok (m, none)

def vfUserLogout (fuel : Nat) (m : Memory) (token : Option (Block 16)) :
    Except Halt (Memory × Int) :=
  match token with
  | none => .ok (m, -1)
  | some token => do
    match ← m.find fuel token with
    | none => .ok (m, -1)
    | some p =>
      let m ← m.del p
      let m ← m.zfree p
      .ok (m, 0)

def cleanBody (now : Int) (m : Memory) (p : Nat) : Except Halt (Memory × Bool) := do
  let s ← m.load p
  if now > s.expire then
    let m ← m.del p
    let m ← m.zfree p
    .ok (m, false)
  else .ok (m, false)

def vfUserCleanExpired (fuel : Nat) (m : Memory) (now : Int) : Except Halt Memory :=
  hashIter Memory.nodes Memory.hh Memory.userNode (cleanBody now) fuel m

def uninitBody (m : Memory) (p : Nat) : Except Halt (Memory × Bool) := do
  let m ← m.del p
  let m ← m.zfree p
  .ok (m, false)

/-- `vf_user_uninit`, as far as the store goes. -/
def vfUserUninit (fuel : Nat) (m : Memory) : Except Halt Memory :=
  hashIter Memory.nodes Memory.hh Memory.userNode uninitBody fuel m

/-! ## Memory that stands for a store -/

/-- The nodes `t` are in the store, newest first, and no others are allocated. -/
structure Sim (m : Memory) (t : List Nat) : Prop where
  holds : Holds m.nodes 16 (m.hh, m.userNode) t
  alive : ∀ p, m.alive p = true ↔ p ∈ t
  brk : ∀ p ∈ t, p < m.brk
  tokens : KeysDistinct (fun p => (m.obj p).token) t

def Memory.mgr (m : Memory) (t : List Nat) : UserMgr := ⟨t.map m.obj⟩

section

variable {m : Memory} {t : List Nat}

theorem Sim.nodup (h : Sim m t) : t.Nodup := List.nodup_reverse.mp h.holds.nodup

theorem load_eq {p : Nat} (ha : m.alive p = true) : m.load p = .ok (m.obj p) := by
  rw [Memory.load, if_pos ha]

theorem Sim.find (h : Sim m t) {fuel : Nat} (hf : t.length ≤ fuel) (token : Block 16) :
    ∃ r, m.find fuel token = .ok r ∧
      (∀ p, r = some p → p ∈ t ∧ (m.obj p).token = token) ∧
      (r = none → ∀ p ∈ t, (m.obj p).token ≠ token) := by
  have hf' : t.reverse.length ≤ fuel := by rwa [List.length_reverse]
  obtain ⟨r, hr, hsome, hnone⟩ := Rep.find h.holds hf' (Block.length_toList token)
  refine ⟨r, hr, fun p hp => ?_, fun hn p hp he => ?_⟩
  · obtain ⟨hm, hk⟩ := hsome p hp
    exact ⟨List.mem_reverse.mp hm, Block.toList_inj hk⟩
  · exact hnone hn p (List.mem_reverse.mpr hp) (congrArg Block.toList he)

theorem find_mgr (k : Block 16) : Keyed.hashFind VfNode.token (m.mgr t).userNode k =
    (Keyed.hashFind (fun p => (m.obj p).token) t k).map m.obj :=
  Keyed.hashFind_map VfNode.token m.obj t k

theorem find_none {k : Block 16} (hn : ∀ p ∈ t, (m.obj p).token ≠ k) :
    Keyed.hashFind VfNode.token (m.mgr t).userNode k = none := by
  rw [find_mgr, Keyed.hashFind_eq_none.mpr hn]
  rfl

theorem Sim.find_some (h : Sim m t) {p : Nat} (hp : p ∈ t) :
    Keyed.hashFind VfNode.token (m.mgr t).userNode (m.obj p).token = some (m.obj p) := by
  rw [find_mgr, Keyed.hashFind_of_mem h.tokens hp]
  rfl

theorem Sim.drop (h : Sim m t) {p : Nat} (hp : p ∈ t) :
    ∃ m' m'', m.del p = .ok m' ∧ m'.zfree p = .ok m'' ∧ m''.obj = m.obj ∧ Sim m'' (t.erase p) := by
  obtain ⟨hh', root', he, hr, -⟩ := Rep.delete h.holds (List.mem_reverse.mpr hp)
  have hn := h.nodup
  have ha : m.alive p = true := (h.alive p).mpr hp
  have hmem : ∀ q, q ∈ t.erase p ↔ q ≠ p ∧ q ∈ t := fun q => hn.mem_erase_iff
  refine ⟨{ m with hh := hh', userNode := root' },
    { m with hh := hh', userNode := root', alive := Function.update m.alive p false },
    ?_, ?_, rfl, ?_, ?_, ?_, ?_⟩
  · rw [Memory.del, he]
    rfl
  · rw [Memory.zfree, if_pos ha]
  · rw [erase_reverse hn] at hr
    refine Rep.frame hr (fun q _ => ⟨rfl, rfl, rfl, rfl, rfl, rfl⟩) fun q hq => ⟨?_, rfl⟩
    obtain ⟨hne, hq⟩ := (hmem q).mp (List.mem_reverse.mp hq)
    show Function.update m.alive p false q = true
    rw [Function.update_of_ne hne]
    exact (h.alive q).mpr hq
  · intro q
    show Function.update m.alive p false q = true ↔ q ∈ t.erase p
    rw [hmem]
    by_cases e : q = p
    · subst e
      simp
    · rw [Function.update_of_ne e, h.alive]
      simp [e]
  · exact fun q hq => h.brk q (List.mem_of_mem_erase hq)
  · exact fun a hA b hB => h.tokens a (List.mem_of_mem_erase hA) b (List.mem_of_mem_erase hB)

theorem Sim.store (h : Sim m t) {p : Nat} (hp : p ∈ t) {n : VfNode}
    (hn : n.token = (m.obj p).token) :
    m.store p n = .ok { m with obj := Function.update m.obj p n } ∧
      Sim { m with obj := Function.update m.obj p n } t := by
  have htoken : ∀ q, (Function.update m.obj p n q).token = (m.obj q).token := by
    intro q
    by_cases e : q = p
    · subst e
      rw [Function.update_self, hn]
    · rw [Function.update_of_ne e]
  refine ⟨by rw [Memory.store, if_pos ((h.alive p).mpr hp)], ?_, h.alive, h.brk, ?_⟩
  · refine Rep.frame h.holds (fun q _ => ⟨rfl, rfl, rfl, rfl, rfl, rfl⟩) fun q hq => ⟨?_, ?_⟩
    · exact (h.alive q).mpr (List.mem_reverse.mp hq)
    · exact congrArg Block.toList (htoken q)
  · intro a ha b hb he
    dsimp only at he
    rw [htoken, htoken] at he
    exact h.tokens a ha b hb he

/-- A node is allocated and filled, and not yet linked. -/
structure Pending (m : Memory) (p : Nat) (t : List Nat) : Prop where
  holds : Holds m.nodes 16 (m.hh, m.userNode) t
  alive : ∀ q, m.alive q = true ↔ q ∈ p :: t
  brk : ∀ q ∈ p :: t, q < m.brk
  tokens : KeysDistinct (fun q => (m.obj q).token) (p :: t)
  fresh : p ∉ t

def Memory.filled (m : Memory) (n : VfNode) : Memory :=
  { m with
    alive := Function.update m.alive m.brk true
    obj := Function.update (Function.update m.obj m.brk blankNode) m.brk n
    brk := m.brk + 1 }

theorem filled_obj_self (m : Memory) (n : VfNode) : (m.filled n).obj m.brk = n :=
  Function.update_self ..

theorem Sim.filled_obj (h : Sim m t) (n : VfNode) {q : Nat} (hq : q ∈ t) :
    (m.filled n).obj q = m.obj q := by
  have hne : q ≠ m.brk := Nat.ne_of_lt (h.brk q hq)
  show Function.update (Function.update m.obj m.brk blankNode) m.brk n q = m.obj q
  rw [Function.update_of_ne hne, Function.update_of_ne hne]

theorem Sim.filled (h : Sim m t) {n : VfNode} (hfresh : ∀ p ∈ t, (m.obj p).token ≠ n.token) :
    Pending (m.filled n) m.brk t where
  holds := by
    refine Rep.frame h.holds (fun q _ => ⟨rfl, rfl, rfl, rfl, rfl, rfl⟩) fun q hq => ⟨?_, ?_⟩
    · show Function.update m.alive m.brk true q = true
      rw [Function.update_of_ne (Nat.ne_of_lt (h.brk q (List.mem_reverse.mp hq)))]
      exact (h.alive q).mpr (List.mem_reverse.mp hq)
    · show ((m.filled n).obj q).token.toList = (m.obj q).token.toList
      rw [h.filled_obj n (List.mem_reverse.mp hq)]
  alive q := by
    show Function.update m.alive m.brk true q = true ↔ q ∈ m.brk :: t
    rw [List.mem_cons]
    by_cases e : q = m.brk
    · subst e
      simp
    · rw [Function.update_of_ne e, h.alive]
      simp [e]
  brk q hq := by
    rcases List.mem_cons.mp hq with rfl | hq
    · exact Nat.lt_succ_self _
    · exact Nat.lt_succ_of_lt (h.brk q hq)
  tokens a ha b hb he := by
    dsimp only at he
    rcases List.mem_cons.mp ha with rfl | ha <;> rcases List.mem_cons.mp hb with rfl | hb
    · rfl
    · rw [filled_obj_self, h.filled_obj n hb] at he
      exact absurd he.symm (hfresh b hb)
    · rw [filled_obj_self, h.filled_obj n ha] at he
      exact absurd he (hfresh a ha)
    · rw [h.filled_obj n ha, h.filled_obj n hb] at he
      exact h.tokens a ha b hb he
  fresh hm := Nat.lt_irrefl _ (h.brk _ hm)

/-- Linking the node, or running out of memory. -/
theorem Pending.add {p : Nat} (h : Pending m p t) {env : Alloc}
    (hmem : env.malloc (2 ^ 36) = false) {fuel : Nat} (hf : t.length < fuel) :
    Ends (env.Refuses m.userNode) (m.add env fuel p) fun m' =>
      Sim m' (p :: t) ∧ m'.obj = m.obj := by
  have hf' : t.reverse.length < fuel := by rwa [List.length_reverse]
  rcases Rep.add h.holds hmem hf' ((h.alive p).mpr List.mem_cons_self)
      (fun hm => h.fresh (List.mem_reverse.mp hm)) (Block.length_toList _) with
    ⟨size, hasks, hs, he⟩ | ⟨hh', root', he, hr, -⟩
  · exact .inl ⟨.exit size, ⟨size, hasks, hs, rfl⟩, by rw [Memory.add, he]; rfl⟩
  · refine .inr ⟨{ m with hh := hh', userNode := root' }, by rw [Memory.add, he]; rfl, ?_, rfl⟩
    refine ⟨?_, h.alive, h.brk, h.tokens⟩
    rw [Holds, List.reverse_cons]
    exact hr

def NodeRefused (env : Alloc) (m : Memory) (halt : Halt) : Prop :=
  (halt = .abort ∧ env.zmalloc = false) ∨ env.Refuses m.userNode halt

/-- A new node is filled and linked. -/
theorem Sim.login (h : Sim m t) {env : Alloc} (hmem : env.malloc (2 ^ 36) = false) {fuel : Nat}
    (hf : t.length < fuel) {n : VfNode} (hfresh : ∀ p ∈ t, (m.obj p).token ≠ n.token) :
    Ends (NodeRefused env m) (do
      let r ← m.zcalloc env
      let m ← r.2.store r.1 n
      m.add env fuel r.1) fun m' =>
        Sim m' (m.brk :: t) ∧ m'.mgr (m.brk :: t) = ⟨Keyed.hashAdd (m.mgr t).userNode n⟩ := by
  cases hz : env.zmalloc with
  | false => exact .inl ⟨.abort, .inl ⟨rfl, hz⟩, by rw [Memory.zcalloc, hz]; rfl⟩
  | true =>
    have hrun : (do
        let r ← m.zcalloc env
        let m ← r.2.store r.1 n
        m.add env fuel r.1) = (m.filled n).add env fuel m.brk := by
      rw [Memory.zcalloc, hz, if_pos rfl]
      simp only [bind, Except.bind, Memory.store, Function.update_self, if_true]
      rfl
    rw [hrun]
    have hadd : Ends (NodeRefused env m) _ _ :=
      ((h.filled hfresh).add hmem hf).allow fun halt hr => .inr hr
    refine hadd.mono fun m' hm' => ⟨hm'.1, ?_⟩
    rw [Memory.mgr, hm'.2, List.map_cons, filled_obj_self,
      List.map_congr_left fun q hq => h.filled_obj n hq]
    rfl

/-! ## The calls -/

theorem Sim.verify (h : Sim m t) {fuel : Nat} (hf : t.length ≤ fuel) (pkt : Option VpnAuth)
    (now : Int) : ∃ m',
      vfUserVerifyPkt fuel m pkt now = .ok (m', (User.vfUserVerifyPkt (m.mgr t) pkt now).2) ∧
      Sim m' t ∧ m'.mgr t = (User.vfUserVerifyPkt (m.mgr t) pkt now).1 := by
  cases pkt with
  | none => exact ⟨m, rfl, h, rfl⟩
  | some pkt =>
    by_cases hm : pkt.magic = vfastMagic
    · obtain ⟨r, hr, hsome, hnone⟩ := h.find hf pkt.token
      simp only [vfUserVerifyPkt, User.vfUserVerifyPkt, hm, ne_eq, not_true_eq_false, if_false, hr,
        bind, Except.bind]
      cases r with
      | none =>
        rw [find_none (hnone rfl)]
        exact ⟨m, rfl, h, rfl⟩
      | some p =>
        obtain ⟨hp, hk⟩ := hsome p rfl
        have htoken := Tokens.extend_token now (m.obj p)
        obtain ⟨hst, hsim⟩ := h.store hp htoken
        rw [← hk, h.find_some hp]
        simp only [load_eq ((h.alive p).mpr hp)]
        by_cases he : now ≤ (m.obj p).expire
        · simp only [if_pos he, hst]
          refine ⟨_, rfl, hsim, ?_⟩
          exact congrArg UserMgr.mk (Keyed.map_update h.tokens h.nodup hp (extend now))
        · simp only [if_neg he]
          exact ⟨m, rfl, h, rfl⟩
    · simp only [vfUserVerifyPkt, User.vfUserVerifyPkt, ne_eq, hm, not_false_eq_true, if_true]
      exact ⟨m, rfl, h, rfl⟩

theorem Sim.logout (h : Sim m t) {fuel : Nat} (hf : t.length ≤ fuel) (token : Option (Block 16)) :
    ∃ m' t', vfUserLogout fuel m token = .ok (m', (User.vfUserLogout (m.mgr t) token).2) ∧
      Sim m' t' ∧ m'.mgr t' = (User.vfUserLogout (m.mgr t) token).1 := by
  cases token with
  | none => exact ⟨m, t, rfl, h, rfl⟩
  | some token =>
    obtain ⟨r, hr, hsome, hnone⟩ := h.find hf token
    simp only [vfUserLogout, User.vfUserLogout, hr, bind, Except.bind]
    cases r with
    | none =>
      rw [find_none (hnone rfl)]
      exact ⟨m, t, rfl, h, rfl⟩
    | some p =>
      obtain ⟨hp, hk⟩ := hsome p rfl
      obtain ⟨m₁, m₂, he₁, he₂, hobj, h₂⟩ := h.drop hp
      rw [← hk, h.find_some hp]
      simp only [he₁, he₂]
      refine ⟨m₂, t.erase p, rfl, h₂, ?_⟩
      rw [Memory.mgr, hobj, Keyed.map_erase h.tokens hp]
      rfl

/-- The body frees the nodes that are `dead` and leaves the others. -/
def Sweeps (body : Memory → Nat → Except Halt (Memory × Bool)) (dead : VfNode → Bool) : Prop :=
  ∀ m p, m.alive p = true → body m p =
    if dead (m.obj p) then do
      let m ← m.del p
      let m ← m.zfree p
      .ok (m, false)
    else .ok (m, false)

theorem sweeps_cleanBody (now : Int) : Sweeps (cleanBody now) fun n => decide (now > n.expire) := by
  intro m p ha
  rw [cleanBody, load_eq ha]
  by_cases he : now > (m.obj p).expire
  · simp only [bind, Except.bind, if_pos he, decide_eq_true he, if_true]
  · simp only [bind, Except.bind, if_neg he, decide_eq_false he, Bool.false_eq_true, if_false]

theorem sweeps_uninitBody : Sweeps uninitBody fun _ => true := fun _ _ _ => rfl

section Sweep

variable {body : Memory → Nat → Except Halt (Memory × Bool)} {dead : VfNode → Bool}

/-- The node at hand is freed or kept, and the walk goes on with those behind it. -/
theorem Sim.sweepStep (hb : Sweeps body dead) (h : Sim m t) {p : Nat} {l : List Nat}
    (hl : p :: l <:+ t.reverse) :
    ∃ m', body m p = .ok (m', false) ∧ m'.obj = m.obj ∧
      Sim m' (if dead (m.obj p) then t.erase p else t) ∧
      l <:+ (if dead (m.obj p) then t.erase p else t).reverse := by
  have hp : p ∈ t := List.mem_reverse.mp (hl.subset List.mem_cons_self)
  rw [hb m p ((h.alive p).mpr hp)]
  cases hd : dead (m.obj p) with
  | false => exact ⟨m, rfl, rfl, h, (List.suffix_cons p l).trans hl⟩
  | true =>
    obtain ⟨m₁, m₂, he₁, he₂, hobj, h₂⟩ := h.drop hp
    refine ⟨m₂, ?_, hobj, h₂, ?_⟩
    · simp only [if_true, bind, Except.bind, he₁, he₂]
    · rw [if_pos rfl, ← erase_reverse h.nodup]
      exact Keyed.suffix_erase (List.nodup_reverse.mpr h.nodup) hl

theorem Sim.sweepList (hb : Sweeps body dead) {l : List Nat} {m : Memory} {t : List Nat}
    (h : Sim m t) (hl : l <:+ t.reverse) :
    ∃ m', iterList body l m = .ok m' ∧ m'.obj = m.obj ∧
      Sim m' (l.foldl (fun t p => if dead (m.obj p) then t.erase p else t) t) := by
  induction l generalizing m t with
  | nil => exact ⟨m, rfl, rfl, h⟩
  | cons p l ih =>
    obtain ⟨m₁, he₁, hobj₁, h₁, hl₁⟩ := h.sweepStep hb hl
    obtain ⟨m₂, he₂, hobj₂, h₂⟩ := ih h₁ hl₁
    refine ⟨m₂, ?_, hobj₂.trans hobj₁, ?_⟩
    · rw [iterList, he₁]
      exact he₂
    · rw [hobj₁] at h₂
      exact h₂

/-- A walk over the store that frees what is dead. -/
theorem Sim.sweep (hb : Sweeps body dead) (h : Sim m t) {fuel : Nat} (hf : t.length ≤ fuel) :
    ∃ m', hashIter Memory.nodes Memory.hh Memory.userNode body fuel m = .ok m' ∧
      m'.obj = m.obj ∧ Sim m' (t.filter fun p => !dead (m.obj p)) := by
  obtain ⟨m', he, hobj, h'⟩ := h.sweepList hb (List.suffix_refl _)
  refine ⟨m', Eq.trans ?_ he, hobj, ?_⟩
  · -- the nodes still to come end the list, whatever was freed before them
    refine hashIter_eq (fun m l => ∃ t, Sim m t ∧ l <:+ t.reverse)
      (fun m p l ⟨t, h, hl⟩ => h.holds.suffix hl) (fun m p l m₁ ⟨t, h, hl⟩ hm₁ => ?_)
      (by rwa [List.length_reverse]) ⟨t, h, List.suffix_refl _⟩ h.holds.head
    obtain ⟨m₂, he₂, -, h₂, hl₂⟩ := h.sweepStep hb hl
    rw [hm₁] at he₂
    cases he₂
    exact ⟨_, h₂, hl₂⟩
  · rw [Keyed.foldl_erase_eq_filter (fun p => dead (m.obj p)) _ h.nodup] at h'
    have hmem : t.filter (fun p => !(dead (m.obj p) && decide (p ∈ t.reverse))) =
        t.filter fun p => !dead (m.obj p) :=
      List.filter_congr fun p hp => by rw [decide_eq_true (List.mem_reverse.mpr hp), Bool.and_true]
    rwa [hmem] at h'

end Sweep

theorem Sim.clean (h : Sim m t) {fuel : Nat} (hf : t.length ≤ fuel) (now : Int) :
    ∃ m' t', vfUserCleanExpired fuel m now = .ok m' ∧ Sim m' t' ∧
      m'.mgr t' = User.vfUserCleanExpired (m.mgr t) now := by
  obtain ⟨m', he, hobj, h'⟩ := h.sweep (sweeps_cleanBody now) hf
  refine ⟨m', _, he, h', ?_⟩
  rw [Memory.mgr, hobj, User.vfUserCleanExpired, Memory.mgr, List.filter_map]
  rfl

theorem Sim.uninit (h : Sim m t) {fuel : Nat} (hf : t.length ≤ fuel) :
    ∃ m', vfUserUninit fuel m = .ok m' ∧ (∀ p, m'.alive p = false) ∧ m'.userNode.head = none := by
  obtain ⟨m', he, -, h'⟩ := h.sweep sweeps_uninitBody hf
  have hnil : (t.filter fun _ => !true) = [] := List.filter_false t
  rw [hnil] at h'
  refine ⟨m', he, fun p => Bool.eq_false_iff.mpr fun ha => ?_, h'.holds.head⟩
  exact List.not_mem_nil ((h'.alive p).mp ha)

/-- How `vf_user_login` may stop: the credentials passed, a token was drawn, and its node is
refused. -/
def LoginRefused (env : Alloc) (m : Memory) (user pass : Option (List UInt8)) (radius : Int)
    (draw : Option (Block 16)) (halt : Halt) : Prop :=
  user.isSome ∧ pass.isSome ∧ radius = 0 ∧ draw.isSome ∧ NodeRefused env m halt

theorem Sim.loginCall (h : Sim m t) {env : Alloc} (hmem : env.malloc (2 ^ 36) = false) {fuel : Nat}
    (hf : t.length < fuel) (user pass : Option (List UInt8)) (radius : Int)
    (draw : Option (Block 16)) (hfresh : ∀ tk ∈ draw, ∀ n ∈ (m.mgr t).userNode, n.token ≠ tk)
    (now : Int) :
    Ends (LoginRefused env m user pass radius draw)
      (vfUserLogin env fuel m user pass radius draw now) fun r =>
      r.2 = (User.vfUserLogin (m.mgr t) user pass radius draw now).2 ∧
      ∃ t', Sim r.1 t' ∧ r.1.mgr t' = (User.vfUserLogin (m.mgr t) user pass radius draw now).1 := by
  cases user with
  | none => exact .ok ⟨rfl, t, h, rfl⟩
  | some user =>
    cases pass with
    | none => exact .ok ⟨rfl, t, h, rfl⟩
    | some pass =>
      by_cases hr : radius = 0
      · subst hr
        cases draw with
        | none => exact .ok ⟨rfl, t, h, rfl⟩
        | some tk =>
          have hlogin := h.login hmem hf (n := ⟨tk, userRecord user, now + tokenInter⟩)
            fun p hp => hfresh tk rfl (m.obj p) (List.mem_map_of_mem hp)
          have hrun : vfUserLogin env fuel m (some user) (some pass) 0 (some tk) now =
              (do
                let r ← m.zcalloc env
                let m ← r.2.store r.1 ⟨tk, userRecord user, now + tokenInter⟩
                m.add env fuel r.1) >>= fun m => .ok (m, 0, some tk) := by
            simp only [vfUserLogin, ne_eq, not_true_eq_false, if_false, bind_assoc]
          rw [hrun]
          refine (hlogin.allow fun halt hr => ⟨rfl, rfl, rfl, rfl, hr⟩).bind
            fun m' hm' => .ok ⟨rfl, m.brk :: t, hm'.1, ?_⟩
          rw [hm'.2]
          rfl
      · have hl : vfUserLogin env fuel m (some user) (some pass) radius draw now =
            .ok (m, -2, none) := if_pos hr
        have hg : User.vfUserLogin (m.mgr t) (some user) (some pass) radius draw now =
            (m.mgr t, -2, none) := if_pos hr
        rw [hl, hg]
        exact .ok ⟨rfl, t, h, rfl⟩

end

/-! ## Whole runs -/

/-- `vf_user_init`: the head is cleared, in a memory without nodes. -/
def vfUserInit (obj : Nat → VfNode) (hh : Handles Nat) : Memory where
  alive _ := false
  obj := obj
  brk := 0
  hh := hh
  userNode := Root.empty

theorem sim_init (obj : Nat → VfNode) (hh : Handles Nat) : Sim (vfUserInit obj hh) [] where
  holds := Rep.empty _ 16 hh none
  alive _ := ⟨fun h => absurd h Bool.false_ne_true, fun h => absurd h List.not_mem_nil⟩
  brk _ h := absurd h List.not_mem_nil
  tokens _ h := absurd h List.not_mem_nil

structure Event where
  env : Alloc
  now : Int
  call : Call

def answerMem (fuel : Nat) (m : Memory) (e : Event) : Except Halt (Memory × Answer) :=
  match e.call with
  | .login user pass radius draw => do
    let r ← vfUserLogin e.env fuel m user pass radius draw e.now
    .ok (r.1, .login r.2.1 r.2.2)
  | .verify pkt => do
    let r ← vfUserVerifyPkt fuel m (some pkt) e.now
    .ok (r.1, .verify r.2)
  | .logout token => do
    let r ← vfUserLogout fuel m (some token)
    .ok (r.1, .logout r.2)
  | .clean => do
    let m ← vfUserCleanExpired fuel m e.now
    .ok (m, .clean)

/-- The memory after the calls, and their answers. -/
def runMem (fuel : Nat) : Memory → List Event → Except Halt (Memory × List Answer)
  | m, [] => .ok (m, [])
  | m, e :: es => do
    let r ← answerMem fuel m e
    let s ← runMem fuel r.1 es
    .ok (s.1, r.2 :: s.2)

def runMgr : UserMgr → List Event → UserMgr × List Answer
  | g, [] => (g, [])
  | g, e :: es =>
    let r := answer g e.now e.call
    let s := runMgr r.1 es
    (s.1, r.2 :: s.2)

/-- No more than 64 GiB can be had at once, and a token that is drawn is not in the store. -/
def Admissible (g : UserMgr) (e : Event) : Prop :=
  e.env.malloc (2 ^ 36) = false ∧
  match e.call with
  | .login _ _ _ draw => ∀ tk ∈ draw, ∀ n ∈ g.userNode, n.token ≠ tk
  | _ => True

def AdmissibleRun : UserMgr → List Event → Prop
  | _, [] => True
  | g, e :: es => Admissible g e ∧ AdmissibleRun (answer g e.now e.call).1 es

/-- How a call may stop for want of memory: a login, and no other. -/
def Refused (m : Memory) (e : Event) (halt : Halt) : Prop :=
  match e.call with
  | .login user pass radius draw => LoginRefused e.env m user pass radius draw halt
  | _ => False

/-- **One call** does on the memory what it does on the store. -/
theorem Sim.call {m : Memory} {t : List Nat} (h : Sim m t) {fuel : Nat} (hf : t.length < fuel)
    {e : Event} (he : Admissible (m.mgr t) e) :
    Ends (Refused m e) (answerMem fuel m e) fun r =>
      r.2 = (answer (m.mgr t) e.now e.call).2 ∧
      ∃ t', Sim r.1 t' ∧ r.1.mgr t' = (answer (m.mgr t) e.now e.call).1 := by
  obtain ⟨env, now, c⟩ := e
  cases c with
  | login user pass radius draw =>
    refine (h.loginCall he.1 hf user pass radius draw he.2 now).bind fun r hr => .ok ⟨?_, hr.2⟩
    simp only [answer, hr.1]
  | verify pkt =>
    obtain ⟨m', hr, h', hg⟩ := h.verify (Nat.le_of_lt hf) (some pkt) now
    refine .inr ⟨(m', _), ?_, rfl, t, h', hg⟩
    simp only [answerMem, hr]
    rfl
  | logout token =>
    obtain ⟨m', t', hr, h', hg⟩ := h.logout (Nat.le_of_lt hf) (some token)
    refine .inr ⟨(m', _), ?_, rfl, t', h', hg⟩
    simp only [answerMem, hr]
    rfl
  | clean =>
    obtain ⟨m', t', hr, h', hg⟩ := h.clean (Nat.le_of_lt hf) now
    refine .inr ⟨(m', _), ?_, rfl, t', h', hg⟩
    simp only [answerMem, hr]
    rfl

theorem length_answer (g : UserMgr) (now : Int) (c : Call) :
    (answer g now c).1.userNode.length ≤ g.userNode.length + 1 := by
  have hlen := (Tokens.answer_tokens g now c).length_le
  have hdraws : c.draws.length ≤ 1 := by
    cases c with
    | login user pass radius draw => cases draw <;> simp [Call.draws]
    | _ => exact Nat.zero_le 1
  rw [List.length_append, List.length_map, List.length_map] at hlen
  omega

/-- The program has stopped in a call to which the memory it asked for was refused. -/
def RanOut (fuel : Nat) (m : Memory) (es : List Event) : Prop :=
  Run.Stops (runMem fuel m) (fun r => Refused r.1) es

theorem Sim.calls {fuel : Nat} {es : List Event} {m : Memory} {t : List Nat} (h : Sim m t)
    (hf : t.length + es.length ≤ fuel) (hes : AdmissibleRun (m.mgr t) es) :
    RanOut fuel m es ∨
    ∃ m' t', runMem fuel m es = .ok (m', (runMgr (m.mgr t) es).2) ∧ Sim m' t' ∧
      m'.mgr t' = (runMgr (m.mgr t) es).1 ∧ t'.length ≤ fuel := by
  induction es generalizing m t with
  | nil => exact .inr ⟨m, t, rfl, h, rfl, hf⟩
  | cons e es ih =>
    rw [List.length_cons] at hf
    have hlt : t.length < fuel := by omega
    rcases h.call hlt hes.1 with ⟨halt, hs, he⟩ | ⟨⟨m₁, a⟩, he, ha, t₁, h₁, hg₁⟩
    · exact .inl ⟨[], e, es, (m, []), halt, rfl, rfl, hs, by rw [runMem, he]; rfl⟩
    · dsimp only at ha h₁ hg₁
      have hlen : t₁.length ≤ t.length + 1 := by
        have hle := length_answer (m.mgr t) e.now e.call
        rw [← hg₁, Memory.mgr, Memory.mgr, List.length_map, List.length_map] at hle
        exact hle
      have hrest := hes.2
      rw [← hg₁] at hrest
      rcases ih h₁ (by omega) hrest with
        ⟨before, d, after, r, halt, rfl, hb, hs, hex⟩ | ⟨m₂, t₂, he₂, h₂, hg₂, hf₂⟩
      · refine .inl ⟨e :: before, d, after, (r.1, a :: r.2), halt, rfl, ?_, hs, ?_⟩
        · simp only [runMem, he, bind, Except.bind, hb]
        · simp only [runMem, he, bind, Except.bind, hex]
      · refine .inr ⟨m₂, t₂, ?_, h₂, ?_, hf₂⟩
        · simp only [runMem, he, bind, Except.bind, he₂, runMgr, ha, hg₁]
        · rw [hg₂, hg₁]
          rfl

/-- **Runs of the token store in memory.** No call follows a bad pointer, frees a node twice or
loops. Unless a login was refused the memory it asked for, every login, verification, logout and
clean-up answers as it does on the list of nodes; a node is allocated for every token of that list
and for nothing else, and teardown frees them all. -/
theorem user_memory_runs (obj : Nat → VfNode) (hh : Handles Nat) (fuel : Nat) (es : List Event)
    (hes : AdmissibleRun ⟨[]⟩ es) (hf : es.length ≤ fuel) :
    RanOut fuel (vfUserInit obj hh) es ∨
    ∃ (m : Memory) (t : List Nat),
      runMem fuel (vfUserInit obj hh) es = .ok (m, (runMgr ⟨[]⟩ es).2) ∧
      t.Nodup ∧ t.map m.obj = (runMgr ⟨[]⟩ es).1.userNode ∧ (∀ p, m.alive p = true ↔ p ∈ t) ∧
      ∃ m', vfUserUninit fuel m = .ok m' ∧ (∀ p, m'.alive p = false) ∧ m'.userNode.head = none := by
  have hf₀ : ([] : List Nat).length + es.length ≤ fuel := by
    rw [List.length_nil, Nat.zero_add]
    exact hf
  rcases (sim_init obj hh).calls hf₀ hes with he | ⟨m, t, he, h, hg, hl⟩
  · exact .inl he
  · exact .inr ⟨m, t, he, h.nodup, congrArg UserMgr.userNode hg, h.alive, h.uninit hl⟩

/-- Two logins, a verification in the last quarter of the first hour, and a clean-up that frees the
second node only. -/
def secondExpires : List Event :=
  [⟨⟨true, (· < 2 ^ 36)⟩, 1000, .login (some [0x61]) (some [0x62]) 0 (some fun _ => 7)⟩,
    ⟨⟨true, (· < 2 ^ 36)⟩, 1000, .login (some [0x63]) (some [0x64]) 0 (some fun _ => 9)⟩,
    ⟨⟨true, (· < 2 ^ 36)⟩, 4500, .verify ⟨vfastMagic, 0, fun _ => 7, 0, 1, fun _ => 0⟩⟩,
    ⟨⟨true, (· < 2 ^ 36)⟩, 4601, .clean⟩]

theorem secondExpires_freed : ∃ (m : Memory) (t : List Nat),
    runMem 4 (vfUserInit (fun _ => blankNode) blankHandles) secondExpires =
      .ok (m, [.login 0 (some fun _ => 7), .login 0 (some fun _ => 9),
        .verify (some (userRecord [0x61])), .clean]) ∧
    t.map m.obj = [⟨fun _ => 7, userRecord [0x61], 8100⟩] ∧ ∀ p, m.alive p = true ↔ p ∈ t := by
  have hes : AdmissibleRun ⟨[]⟩ secondExpires := by
    refine ⟨⟨by decide, fun tk htk n hn => nomatch hn⟩, ⟨by decide, fun tk htk n hn => ?_⟩,
      ⟨by decide, trivial⟩, ⟨by decide, trivial⟩, trivial⟩
    cases htk
    cases List.mem_singleton.mp hn
    decide
  rcases user_memory_runs (fun _ => blankNode) blankHandles 4 secondExpires hes (by decide) with
    ⟨-, -, -, -, halt, -, -, -, he⟩ | ⟨m, t, he, -, hobj, ha, -⟩
  · have hok : (runMem 4 (vfUserInit (fun _ => blankNode) blankHandles) secondExpires).isOk =
        true := by decide +kernel
    rw [he] at hok
    exact absurd hok Bool.false_ne_true
  · exact ⟨m, t, he, hobj, ha⟩

end Vfast.UserMem
