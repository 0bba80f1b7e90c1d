import Vfast.TaskScan

/-! The read pipeline of `vf_io_run`: sixteen TUN reads and sixteen UDP receives that the warm-up
arms and every completion of a read is to arm again. The loop does that before it releases the
completed task, so it fails while the pool is saturated, and nothing arms the read later. -/

namespace Vfast.Pipeline

open Protocol Server Io IoOwners TaskScan Run

variable {σ ι : Type}

def depth (op : UInt32) (io : VfIo) : Nat := io.outstanding.countP fun o => o.op == op

def Full (io : VfIo) : Prop := depth opTunRead io = 16 ∧ depth opUdpRecv io = 16

abbrev IsRead (op : UInt32) : Prop := op = opTunRead ∨ op = opUdpRecv

/-! ## The loop -/

/-- The engine, business logic, and the reads that the warm-up has made so far. -/
structure Loop (σ : Type) where
  io : VfIo
  logic : σ
  warm : Nat

/-- The warm-up makes two reads in each of its sixteen rounds; completions are processed after
it. Other threads may send at any time. -/
def Warms (n : Nat) : Step σ ι → Nat → Prop
  | .read tun _, n' => n < 32 ∧ tun = (n % 2 == 0) ∧ n' = n + 1
  | .complete _ _, n' => n = 32 ∧ n' = n
  | _, n' => n' = n

def Supplied : Step σ ι → Prop
  | .read _ ring => ring.sqe = true
  | .complete _ c => c.write.sqe = true ∧ c.read.sqe = true
  | .send _ ring => ring.sqe = true
  | _ => True

/-- `vf_io_run` with submission queue entries at all times. -/
def pipeline (ops : VfOps σ ι) (start : σ → Prop) (other : σ → σ → Prop) :
    System (Loop σ) (Step σ ι) where
  init x := (ioRuns ops start other).init (x.io, x.logic) ∧ x.warm = 0
  step x l x' := (ioRuns ops start other).step (x.io, x.logic) l (x'.io, x'.logic) ∧
    Warms x.warm l x'.warm ∧ Supplied l

/-- The search for a task is right, and there is one to find. -/
def Acquirable (io : VfIo) : Prop := Searchable io ∧ ∃ i < io.poolSize, io.inUse i = false

/-- The steps that keep the pipeline: a read finds a free task; and where a read completes, the
engine still knows it as that read and finds a free task before it releases the completed one,
while no other completion is taken for a read that then finds a task. -/
def Refills (x : Loop σ) : Step σ ι → Prop
  | .read _ _ => Acquirable x.io
  | .complete k c => ∀ o, x.io.inFlight[k]? = some o →
    (IsRead o.op → x.io.opAt c.bytes o.userData = o.op ∧ Acquirable x.io) ∧
      (¬ IsRead o.op → IsRead (x.io.opAt c.bytes o.userData) → ¬ Acquirable x.io)
  | _ => True

/-! ## Finding a task -/

structure Pooled (io : VfIo) : Prop where
  size : 0 < io.poolSize
  low : -0x80000000 ≤ io.poolIdx
  high : io.poolIdx < 0x80000000

section

variable {io io' : VfIo}

theorem Pooled.congr (h : Pooled io) (hs : io'.poolSize = io.poolSize)
    (hi : io'.poolIdx = io.poolIdx) : Pooled io' :=
  ⟨hs ▸ h.size, hi ▸ h.low, hi ▸ h.high⟩

theorem acquirable_congr (hs : io'.poolSize = io.poolSize) (hi : io'.poolIdx = io.poolIdx)
    (hu : io'.inUse = io.inUse) : Acquirable io' ↔ Acquirable io := by
  unfold Acquirable Searchable
  rw [hs, hi, hu]

theorem Pooled.searchable (h : Pooled io) : Acquires io ↔ Searchable io := by
  have hwrap : wrap32 (io.poolIdx % 2 ^ 32).toNat = io.poolIdx := by
    have hlow := h.low
    have hhigh := h.high
    unfold wrap32
    rw [Int.toNat_of_nonneg (Int.emod_nonneg _ (by decide)), Int.bmod_def]
    omega
  have hiff := acquires_iff_searchable io (io.poolIdx % 2 ^ 32).toNat
  rwa [hwrap] at hiff

/-- The search finds a task exactly if it is right and a task is free. -/
theorem Pooled.found_iff (h : Pooled io) :
    Acquirable io ↔ ∃ io' i, getTaskFromInstance io = some (io', some i) := by
  constructor
  · rintro ⟨hs, i, hi, hfree⟩
    obtain ⟨io', r, hr, hnone, -, -⟩ := h.searchable.mpr hs
    cases r with
    | none => exact absurd (hnone.mp rfl i hi) (by simp [hfree])
    | some j => exact ⟨io', j, hr⟩
  · rintro ⟨io', i, hr⟩
    obtain ⟨idx, he | ⟨j, hj, hfree, -⟩⟩ := getTaskLoop_cases h.size hr
    · cases he
    · exact ⟨h.searchable.mp (acquires_of_found h.size hr), j, hj, hfree⟩

theorem getTaskLoop_pooled {n : Nat} {r : Option Nat} (h : Pooled io)
    (hr : getTaskLoop n io = some (io', r)) : Pooled io' := by
  induction n generalizing io with
  | zero =>
    cases hr
    exact h
  | succ n ih =>
    obtain ⟨hlow, hhigh⟩ := wrap32_mem (io.poolIdx + 1)
    have hnext : Pooled { io with poolIdx := wrap32 (io.poolIdx + 1) } := ⟨h.size, hlow, hhigh⟩
    simp only [getTaskLoop] at hr
    split at hr
    · cases hr
    split at hr
    · exact ih hnext hr
    · cases hr
      exact ⟨h.size, hlow, hhigh⟩

/-! ## The depth -/

theorem depth_cons {o : Sqe} (h : (o :: io.outstanding).Perm io'.outstanding) (x : UInt32) :
    depth x io' = depth x io + if o.op = x then 1 else 0 := by
  unfold depth
  rw [← h.countP_eq, List.countP_cons]
  simp

/-- What an attempt to arm a read does: one more operation of its kind, or none if no task is
found. -/
structure Rearms (op : UInt32) (io io' : VfIo) : Prop where
  pooled : Pooled io'
  found : Acquirable io → ∀ x, IsRead x → depth x io' = depth x io + if op = x then 1 else 0
  missed : ¬ Acquirable io → ∀ x, IsRead x → depth x io' = depth x io

theorem Pooled.read {op : UInt32} {ring : Ring} (h : Pooled io) (hsqe : ring.sqe = true)
    (hr : vfIoRead io op ring = some io') : Rearms op io io' := by
  unfold vfIoRead at hr
  split at hr
  · cases hr
  · rename_i io₁ hg
    cases hr
    have hnot : ¬ Acquirable io := by
      rw [h.found_iff]
      rintro ⟨io₂, i, hfound⟩
      rw [hg] at hfound
      cases hfound
    refine ⟨getTaskLoop_pooled h hg, fun ha => absurd ha hnot, fun _ x _ => ?_⟩
    unfold depth
    rw [getTask_outstanding h.size hg]
  · rename_i io₁ i hg
    have hfound := h.found_iff.mpr ⟨io₁, i, hg⟩
    rw [if_pos hsqe] at hr
    cases hr
    refine ⟨(getTaskLoop_pooled h hg).congr rfl rfl, fun _ x _ => ?_, fun ha => absurd hfound ha⟩
    rw [depth_cons (prepare_perm io₁ op (.task i)) x]
    unfold depth
    rw [getTask_outstanding h.size hg]

theorem depth_release {p : TaskPtr} (h : io.release p = some io') (x : UInt32) :
    depth x io' = depth x io := by
  unfold depth
  rw [(release_pool h).2.2]

theorem Rearms.release {op : UInt32} {io₁ : VfIo} {p : TaskPtr} (h : Rearms op io io₁)
    (hr : io₁.release p = some io') : Rearms op io io' := by
  obtain ⟨hsize, hidx, -⟩ := release_pool hr
  refine ⟨h.pooled.congr hsize hidx, fun ha x hx => ?_, fun ha x hx => ?_⟩
  · rw [depth_release hr, h.found ha x hx]
  · rw [depth_release hr, h.missed ha x hx]

/-- What writes leave alone: the pool and the reads. -/
structure Kept (io io' : VfIo) : Prop where
  size : io'.poolSize = io.poolSize
  idx : io'.poolIdx = io.poolIdx
  inUse : io'.inUse = io.inUse
  reads : ∀ x, IsRead x → depth x io' = depth x io

theorem Kept.rearms {op : UInt32} {io₁ : VfIo} (h : Kept io io₁) (hr : Rearms op io₁ io') :
    Rearms op io io' := by
  have hiff := acquirable_congr h.size h.idx h.inUse
  refine ⟨hr.pooled, fun ha x hx => ?_, fun ha x hx => ?_⟩
  · rw [hr.found (hiff.mpr ha) x hx, h.reads x hx]
  · rw [hr.missed (fun h' => ha (hiff.mp h')) x hx, h.reads x hx]

theorem Kept.trans {io₁ : VfIo} (h : Kept io io₁) (h' : Kept io₁ io') : Kept io io' :=
  ⟨h'.size.trans h.size, h'.idx.trans h.idx, h'.inUse.trans h.inUse,
    fun x hx => (h'.reads x hx).trans (h.reads x hx)⟩

theorem kept_write {op : UInt32} {p : TaskPtr} {ring : Ring} (hop : ¬ IsRead op)
    (hsqe : ring.sqe = true) (hw : vfIoWrite io op p ring = some io') : Kept io io' := by
  obtain ⟨hsize, hidx⟩ := write_pool hw
  refine ⟨hsize, hidx, ?_, fun x hx => ?_⟩
  · simp only [vfIoWrite, hsqe, Bool.not_true, Bool.false_eq_true, if_false] at hw
    cases hw
    split <;> cases p <;> rfl
  · have hne : op ≠ x := fun he => hop (he ▸ hx)
    rw [depth_cons (write_perm hsqe hw) x, if_neg hne, Nat.add_zero]

theorem kept_writeOuts {p : TaskPtr} {ring : Ring} {outs : List Out} (hsqe : ring.sqe = true)
    (hw : writeOuts p ring io outs = some io') : Kept io io' := by
  induction outs generalizing io with
  | nil =>
    cases hw
    exact ⟨rfl, rfl, rfl, fun _ _ => rfl⟩
  | cons o outs ih =>
    obtain ⟨op, q, io₁, hop, -, hfirst, hrest⟩ := writeOuts_cons hw
    have hwrite : ¬ IsRead op := by
      rcases hop with rfl | rfl <;> decide
    exact (kept_write hwrite hsqe hfirst).trans (ih hrest)

/-! ## Completions -/

theorem io_of_pair {r : Option VfIo} {s s' : σ}
    (h : (r.map fun io => (io, s)) = some (io', s')) : r = some io' := by
  obtain ⟨io₁, hr, he⟩ := Option.map_eq_some_iff.mp h
  cases he
  exact hr

theorem Pooled.readDone {s s' : σ} {p : TaskPtr} {op : UInt32} {c : Completion ι}
    {cb : σ → ι → Nat → σ × List Out × TaskState} (h : Pooled io)
    (hsqe : c.write.sqe = true ∧ c.read.sqe = true)
    (hr : readDone io s p op c cb = some (io', s')) : Rearms op io io' := by
  unfold Io.readDone at hr
  dsimp only at hr
  split at hr
  · cases hr
  rename_i io₁ hw
  have hkept := kept_writeOuts hsqe.1 hw
  split at hr
  · cases hr
  rename_i io₂ hread
  have hre := hkept.rearms ((h.congr hkept.size hkept.idx).read hsqe.2 hread)
  have hrel := io_of_pair hr
  split at hrel
  · exact hre.release hrel
  · cases hrel
    exact hre

/-- The loop arms what it takes the completed operation for, if that is a read, and otherwise only
releases the task. -/
theorem Pooled.complete {ops : VfOps σ ι} {s s' : σ} {k : Nat} {c : Completion ι} (h : Pooled io)
    (hsqe : c.write.sqe = true ∧ c.read.sqe = true)
    (hc : io.complete ops s k c = some (io', s')) :
    ∃ o, io.inFlight[k]? = some o ∧
      ((IsRead (io.opAt c.bytes o.userData) ∧
          Rearms (io.opAt c.bytes o.userData) { io with inFlight := io.inFlight.eraseIdx k } io') ∨
        (¬ IsRead (io.opAt c.bytes o.userData) ∧
          { io with inFlight := io.inFlight.eraseIdx k }.release o.userData = some io')) := by
  have hrest : Pooled { io with inFlight := io.inFlight.eraseIdx k } := ⟨h.size, h.low, h.high⟩
  unfold VfIo.complete at hc
  split at hc
  · cases hc
  rename_i o hk
  refine ⟨o, hk, ?_⟩
  dsimp only at hc
  by_cases hop : IsRead (io.opAt c.bytes o.userData)
  · refine .inl ⟨hop, ?_⟩
    by_cases hres : c.res ≥ 0
    · rw [if_pos hres] at hc
      rcases hop with hop | hop
      · rw [if_pos hop] at hc
        exact hrest.readDone hsqe hc
      · rw [if_neg (by rw [hop]; decide), if_pos hop] at hc
        exact hrest.readDone hsqe hc
    · rw [if_neg hres, if_pos hop] at hc
      split at hc
      · cases hc
      · rename_i io₁ hread
        exact (hrest.read hsqe.2 hread).release (io_of_pair hc)
  · refine .inr ⟨hop, ?_⟩
    obtain ⟨htun, hudp⟩ := not_or.mp hop
    by_cases hres : c.res ≥ 0
    · rw [if_pos hres, if_neg htun, if_neg hudp] at hc
      exact io_of_pair hc
    · rw [if_neg hres, if_neg hop] at hc
      exact io_of_pair hc

/-- **What a completion does to the pipeline**: the completed operation is gone, and if the engine
takes it for a read and finds a task, there is a new one of that kind. -/
theorem Pooled.complete_depth {ops : VfOps σ ι} {s s' : σ} {k : Nat} {c : Completion ι} {o : Sqe}
    (h : Pooled io) (hsqe : c.write.sqe = true ∧ c.read.sqe = true)
    (hc : io.complete ops s k c = some (io', s')) (hk : io.inFlight[k]? = some o) :
    Pooled io' ∧
      ((IsRead (io.opAt c.bytes o.userData) ∧ Acquirable io ∧ ∀ x, IsRead x →
          depth x io' + (if o.op = x then 1 else 0) =
            depth x io + if io.opAt c.bytes o.userData = x then 1 else 0) ∨
        (¬ (IsRead (io.opAt c.bytes o.userData) ∧ Acquirable io) ∧ ∀ x, IsRead x →
          depth x io' + (if o.op = x then 1 else 0) = depth x io)) := by
  have hdepth := depth_cons (completed_perm hk)
  have hacq : Acquirable { io with inFlight := io.inFlight.eraseIdx k } ↔ Acquirable io :=
    acquirable_congr rfl rfl rfl
  obtain ⟨o', hk', hcase⟩ := h.complete hsqe hc
  obtain rfl : o = o' := Option.some.inj (hk.symm.trans hk')
  rcases hcase with ⟨hop, hre⟩ | ⟨hop, hrel⟩
  · refine ⟨hre.pooled, ?_⟩
    by_cases ha : Acquirable io
    · refine .inl ⟨hop, ha, fun x hx => ?_⟩
      rw [hre.found (hacq.mpr ha) x hx, hdepth x]
      omega
    · refine .inr ⟨fun hboth => ha hboth.2, fun x hx => ?_⟩
      rw [hre.missed (fun h' => ha (hacq.mp h')) x hx, hdepth x]
  · obtain ⟨hsize, hidx, -⟩ := release_pool hrel
    refine ⟨h.congr hsize hidx, .inr ⟨fun hboth => hop hboth.1, fun x _ => ?_⟩⟩
    rw [depth_release hrel, hdepth x]

end

/-! ## Runs -/

/-- The depth after `n` reads of the warm-up. -/
def Armed (n : Nat) (io : VfIo) : Prop :=
  depth opTunRead io = (n + 1) / 2 ∧ depth opUdpRecv io = n / 2

/-- A full pipeline stays full exactly if the completion refills it. -/
theorem completion_full_iff {ops : VfOps σ ι} {x : Loop σ} {io' : VfIo} {s' : σ} {k : Nat}
    {c : Completion ι} (h : Pooled x.io) (hsqe : c.write.sqe = true ∧ c.read.sqe = true)
    (hc : x.io.complete ops x.logic k c = some (io', s')) (hfull : Full x.io) :
    Full io' ↔ Refills x (.complete k c) := by
  obtain ⟨o, hk, -⟩ := h.complete hsqe hc
  have hrefills : Refills x (.complete k c) ↔
      (IsRead o.op → x.io.opAt c.bytes o.userData = o.op ∧ Acquirable x.io) ∧
        (¬ IsRead o.op → IsRead (x.io.opAt c.bytes o.userData) → ¬ Acquirable x.io) := by
    constructor
    · intro hr
      exact hr o hk
    · intro hr o' hk'
      obtain rfl : o = o' := Option.some.inj (hk.symm.trans hk')
      exact hr
  have hne : opTunRead ≠ opUdpRecv := by decide
  obtain ⟨htun, hudp⟩ := hfull
  obtain ⟨-, ⟨hop, hacq, hx⟩ | ⟨hnot, hx⟩⟩ := h.complete_depth hsqe hc hk
  · -- one read is armed: it has to be the one that completed
    have h1 := hx opTunRead (.inl rfl)
    have h2 := hx opUdpRecv (.inr rfl)
    rw [htun] at h1
    rw [hudp] at h2
    rw [hrefills, Full]
    constructor
    · rintro ⟨h3, h4⟩
      have heq : x.io.opAt c.bytes o.userData = o.op := by grind
      exact ⟨fun _ => ⟨heq, hacq⟩, fun hno => absurd (heq ▸ hop) hno⟩
    · rintro ⟨hread, hother⟩
      have heq : x.io.opAt c.bytes o.userData = o.op := by
        by_cases ho : IsRead o.op
        · exact (hread ho).1
        · exact absurd hacq (hother ho hop)
      rw [heq] at h1 h2
      omega
  · -- none is armed: the completed operation must not be a read
    have h1 := hx opTunRead (.inl rfl)
    have h2 := hx opUdpRecv (.inr rfl)
    rw [htun] at h1
    rw [hudp] at h2
    rw [hrefills, Full]
    constructor
    · rintro ⟨h3, h4⟩
      have hno : ¬ IsRead o.op := by grind
      exact ⟨fun ho => absurd ho hno, fun _ hop hacq => hnot ⟨hop, hacq⟩⟩
    · rintro ⟨hread, -⟩
      have hno : ¬ IsRead o.op := fun ho => hnot ⟨(hread ho).1 ▸ ho, (hread ho).2⟩
      obtain ⟨h3, h4⟩ := not_or.mp hno
      rw [if_neg h3] at h1
      rw [if_neg h4] at h2
      exact ⟨h1, h2⟩

theorem Armed.read {n : Nat} {io io' : VfIo} {tun : Bool} {ring : Ring} (h : Armed n io)
    (hp : Pooled io) (ha : Acquirable io) (hsqe : ring.sqe = true) (ht : tun = (n % 2 == 0))
    (hr : vfIoRead io (if tun then opTunRead else opUdpRecv) ring = some io') :
    Armed (n + 1) io' := by
  obtain ⟨htun, hudp⟩ := h
  have hre := hp.read hsqe hr
  have h1 := hre.found ha opTunRead (.inl rfl)
  have h2 := hre.found ha opUdpRecv (.inr rfl)
  have hne : opTunRead ≠ opUdpRecv := by decide
  have hne' : opUdpRecv ≠ opTunRead := by decide
  rw [htun] at h1
  rw [hudp] at h2
  unfold Armed
  rcases Nat.mod_two_eq_zero_or_one n with hn | hn
  · have ht' : tun = true := by simp [ht, hn]
    simp only [ht', if_true, hne, if_false] at h1 h2
    omega
  · have ht' : tun = false := by simp [ht, hn]
    simp only [ht', Bool.false_eq_true, hne', if_false, if_true] at h1 h2
    omega

section

variable {ops : VfOps σ ι} {start : σ → Prop} {other : σ → σ → Prop} {x x' : Loop σ} {l : Step σ ι}

/-- **What a step can be**: a read of the warm-up, a completion after it, or a step that leaves
the reads alone. -/
theorem step_cases (h : Pooled x.io) (hstep : (pipeline ops start other).step x l x') :
    (∃ tun ring, l = .read tun ring ∧ ring.sqe = true ∧ tun = (x.warm % 2 == 0) ∧
      x'.warm = x.warm + 1 ∧
      vfIoRead x.io (if tun then opTunRead else opUdpRecv) ring = some x'.io) ∨
    (∃ k c, l = .complete k c ∧ (c.write.sqe = true ∧ c.read.sqe = true) ∧ x.warm = 32 ∧
      x'.warm = 32 ∧ x.io.complete ops x.logic k c = some (x'.io, x'.logic)) ∨
    (x'.warm = x.warm ∧ Pooled x'.io ∧ ∀ op, IsRead op → depth op x'.io = depth op x.io) := by
  obtain ⟨io, s, n⟩ := x
  obtain ⟨io', s', n'⟩ := x'
  obtain ⟨⟨hn, -⟩, hw, hs⟩ := hstep
  cases l with
  | read tun ring =>
    obtain ⟨-, ht, hw⟩ := hw
    exact .inl ⟨tun, ring, rfl, hs, ht, hw, io_of_pair hn⟩
  | complete k c => exact .inr (.inl ⟨k, c, rfl, hs, hw.1, hw.2.trans hw.1, hn⟩)
  | submit =>
    cases hn
    exact .inr (.inr ⟨hw, h.congr rfl rfl, fun op _ => ((submit_perm io).countP_eq _).symm⟩)
  | borrow =>
    obtain ⟨⟨io₁, r⟩, hg, he⟩ := Option.map_eq_some_iff.mp hn
    cases he
    refine .inr (.inr ⟨hw, (getTaskLoop_pooled h hg).congr rfl rfl, fun op _ => ?_⟩)
    exact congrArg (List.countP fun o => o.op == op) (getTask_outstanding h.size hg)
  | send i ring =>
    simp only [VfIo.next] at hn
    split at hn
    · have hkept := kept_write (by decide) hs (io_of_pair hn)
      exact .inr (.inr ⟨hw, h.congr hkept.size hkept.idx, hkept.reads⟩)
    · cases hn
  | rollback i =>
    simp only [VfIo.next] at hn
    split at hn
    · cases hn
      exact .inr (.inr ⟨hw, h.congr rfl rfl, fun _ _ => rfl⟩)
    · cases hn
  | other t =>
    cases hn
    exact .inr (.inr ⟨hw, h, fun _ _ => rfl⟩)

theorem step_pooled (h : Pooled x.io) (hstep : (pipeline ops start other).step x l x') :
    Pooled x'.io := by
  obtain ⟨tun, ring, -, hs, -, -, hr⟩ | ⟨k, c, -, hs, -, -, hc⟩ | ⟨-, hp, -⟩ := step_cases h hstep
  · exact (h.read hs hr).pooled
  · obtain ⟨o, hk, -⟩ := h.complete hs hc
    exact (h.complete_depth hs hc hk).1
  · exact hp

theorem step_armed (h : Pooled x.io) (ha : Armed x.warm x.io) (hok : Refills x l)
    (hstep : (pipeline ops start other).step x l x') : Armed x'.warm x'.io := by
  obtain ⟨tun, ring, rfl, hs, ht, hw, hr⟩ | ⟨k, c, rfl, hs, h32, hw, hc⟩ | ⟨hw, -, hd⟩ :=
    step_cases h hstep
  · rw [hw]
    exact ha.read h hok hs ht hr
  · rw [h32] at ha
    rw [hw]
    exact (completion_full_iff h hs hc ha).mpr hok
  · unfold Armed
    rw [hw, hd _ (.inl rfl), hd _ (.inr rfl)]
    exact ha

theorem init_pooled (h : (pipeline ops start other).init x) : Pooled x.io ∧ Armed x.warm x.io := by
  obtain ⟨⟨⟨n, hn, -, he⟩, -⟩, hw⟩ := h
  dsimp only at he
  rw [he, hw]
  have hlow : (-0x80000000 : Int) ≤ 0 := by decide
  have hhigh : (0 : Int) < 0x80000000 := by decide
  exact ⟨⟨hn, hlow, hhigh⟩, rfl, rfl⟩

theorem reachable_pooled (h : Reachable (pipeline ops start other) x) : Pooled x.io :=
  h.invariant (fun x => Pooled x.io) (fun _ h0 => (init_pooled h0).1)
    fun _ _ _ hp _ hstep => step_pooled hp hstep

/-- **Every run of refilling steps.** -/
theorem reachable_armed (h : ReachableBy (pipeline ops start other) Refills x) :
    Armed x.warm x.io := by
  have hinv := h.invariant (fun x => Pooled x.io ∧ Armed x.warm x.io)
    (fun _ h0 => init_pooled h0) (by
      rintro x l x' ⟨hp, ha⟩ hok hstep
      exact ⟨step_pooled hp hstep, step_armed hp ha hok hstep⟩)
  exact hinv.2

end

/-! ## Filling a pool -/

def silentOps : VfOps Unit Unit := ⟨fun _ _ _ => ((), [], .done), fun _ _ _ => ((), [], .done)⟩

def silentRuns : System (Loop Unit) (Step Unit Unit) :=
  pipeline silentOps (fun _ => True) fun _ _ => True

/-- A pool of the default size whose first `j` tasks were taken in order, each for an operation
that is still outstanding. -/
structure Filled (j : Nat) (io : VfIo) : Prop where
  size : io.poolSize = 2048
  idx : io.poolIdx = j
  inUse : io.inUse = fun i => decide (i < j)
  borrowed : io.borrowed = []
  known : ∀ o ∈ io.outstanding, o.userData = .task o.buf ∧ o.buf < j ∧ io.op o.buf = o.op

def taken (j : Nat) (io : VfIo) : VfIo :=
  { io with
    poolIdx := (j + 1 : Nat)
    op := Function.update io.op j 0
    inUse := fun i => decide (i < j + 1) }

section

variable {io : VfIo} {j : Nat}

theorem Filled.getTask (h : Filled j io) (hj : j < 2048) :
    getTaskFromInstance io = some (taken j io, some j) := by
  obtain ⟨poolSize, poolIdx, op, inUse, queued, inFlight, borrowed⟩ := io
  obtain ⟨hsize, hidx, huse, -, -⟩ := h
  dsimp only at hsize hidx huse
  subst hsize hidx huse
  have hmod : (j : Int).tmod (2048 : Nat) = j := by
    rw [← Int.ofNat_tmod, Nat.mod_eq_of_lt hj]
  have hwrap : wrap32 ((j : Int) + 1) = (j + 1 : Nat) := wrap32_of_mem (by omega) (by omega)
  have hset : Function.update (fun i => decide (i < j)) j true = fun i => decide (i < j + 1) := by
    funext i
    by_cases hi : i = j
    · simp [hi]
    · have hiff : i < j ↔ i < j + 1 := by omega
      simp [hi, hiff]
  have hget : getTaskFromInstance
      ⟨2048, j, op, fun i => decide (i < j), queued, inFlight, borrowed⟩ =
    getTaskLoop (2047 + 1) ⟨2048, j, op, fun i => decide (i < j), queued, inFlight, borrowed⟩ := rfl
  rw [hget, getTaskLoop]
  simp only [hmod, hwrap, hset, taken, Int.toNat_natCast, Nat.lt_irrefl, decide_false,
    Bool.false_eq_true, Int.not_lt.mpr (Int.natCast_nonneg j), if_false]

theorem Filled.acquirable (h : Filled j io) (hj : j < 2048) : Acquirable io := by
  have hsize := h.size
  have hidx := h.idx
  refine ⟨.inr (.inl ⟨by omega, .inl (by omega)⟩), j, by omega, ?_⟩
  rw [h.inUse]
  simp

theorem Filled.saturated (h : Filled 2048 io) : ¬ Acquirable io := by
  rintro ⟨-, i, hi, hfree⟩
  rw [h.size] at hi
  simp [h.inUse, hi] at hfree

theorem Filled.prepare (h : Filled j io) (op : UInt32) :
    Filled (j + 1) ((taken j io).prepare op (.task j)) := by
  refine ⟨h.size, rfl, rfl, h.borrowed, ?_⟩
  intro o ho
  rcases List.mem_cons.mp ((prepare_perm (taken j io) op (.task j)).mem_iff.mpr ho) with rfl | ho
  · exact ⟨rfl, Nat.lt_succ_self j, Function.update_self ..⟩
  · obtain ⟨hptr, hlt, hop⟩ := h.known o ho
    refine ⟨hptr, Nat.lt_succ_of_lt hlt, ?_⟩
    have hne : o.buf ≠ j := Nat.ne_of_lt hlt
    simpa [VfIo.prepare, VfIo.setOp, taken, Function.update_of_ne hne] using hop

theorem Filled.warm (h : Filled j io) (hj : j < 32)
    (hreach : ReachableBy silentRuns Refills ⟨io, (), j⟩) :
    ∃ io', Filled (j + 1) io' ∧ ReachableBy silentRuns Refills ⟨io', (), j + 1⟩ := by
  obtain ⟨tun, ht⟩ : ∃ tun, tun = (j % 2 == 0) := ⟨_, rfl⟩
  have hread : vfIoRead io (if tun then opTunRead else opUdpRecv) ⟨true, false⟩ =
      some ((taken j io).prepare (if tun then opTunRead else opUdpRecv) (.task j)) := by
    simp [vfIoRead, h.getTask (by omega)]
  refine ⟨_, h.prepare (if tun then opTunRead else opUdpRecv), ?_⟩
  refine .step (l := .read tun ⟨true, false⟩) hreach (h.acquirable (by omega))
    ⟨⟨?_, by simp⟩, ⟨hj, ht, rfl⟩, rfl⟩
  simp only [VfIo.next, hread, Option.map_some]

theorem Filled.send (h : Filled j io) (hj : j < 2048)
    (hreach : ReachableBy silentRuns Refills ⟨io, (), 32⟩) :
    ∃ io', Filled (j + 1) io' ∧ ReachableBy silentRuns Refills ⟨io', (), 32⟩ := by
  have hborrow : ReachableBy silentRuns Refills ⟨{ taken j io with borrowed := [j] }, (), 32⟩ := by
    refine .step (l := .borrow) hreach trivial ⟨⟨?_, by simp⟩, rfl, trivial⟩
    simp only [VfIo.next, h.getTask hj, Option.map_some]
    simp [taken, h.borrowed]
  refine ⟨_, h.prepare opUdpSend, ?_⟩
  refine .step (l := .send j ⟨true, false⟩) hborrow trivial ⟨⟨?_, by simp⟩, rfl, rfl⟩
  -- the pool is large, so the entry waits for the batch
  have hsize : ¬ io.poolSize ≤ 64 := by rw [h.size]; decide
  simp [VfIo.next, vfIoWrite, VfIo.prepare, VfIo.setOp, hsize, taken, h.borrowed]

/-- The warm-up takes the first tasks, and sends take the others. -/
theorem filled_reachable (hj : j ≤ 2048) :
    ∃ io, Filled j io ∧ ReachableBy silentRuns Refills ⟨io, (), min j 32⟩ := by
  induction j with
  | zero =>
    refine ⟨vfIoInit 2048, ⟨rfl, rfl, by simp [vfIoInit], rfl,
      by simp [vfIoInit, VfIo.outstanding]⟩, ?_⟩
    exact .init ⟨⟨⟨2048, by decide, by decide, rfl⟩, trivial⟩, rfl⟩
  | succ j ih =>
    obtain ⟨io, hf, hreach⟩ := ih (by omega)
    rcases Nat.lt_or_ge j 32 with hw | hw
    · rw [Nat.min_eq_left (by omega)] at hreach ⊢
      exact hf.warm hw hreach
    · rw [Nat.min_eq_right (by omega)] at hreach ⊢
      exact hf.send (by omega) hreach

end

/-! ## The depth of the pipeline -/

/-- **The read pipeline keeps its depth in every run of refilling steps**, and loses it at every
completion that does not refill. -/
theorem read_pipeline_full (ops : VfOps σ ι) (start : σ → Prop) (other : σ → σ → Prop) :
    (∀ x, ReachableBy (pipeline ops start other) Refills x → x.warm = 32 → Full x.io) ∧
    ∀ x x' k c, Reachable (pipeline ops start other) x → Full x.io →
      (pipeline ops start other).step x (.complete k c) x' →
      (Full x'.io ↔ Refills x (.complete k c)) := by
  constructor
  · intro x h h32
    have harmed := reachable_armed h
    rw [h32] at harmed
    exact harmed
  · intro x x' k c h hfull hstep
    exact completion_full_iff (reachable_pooled h) hstep.2.2 hstep.1.1 hfull

/-- A TUN read completes with `-EAGAIN`, with room in the submission queue. -/
def again : Completion Unit := ⟨-11, (), 0, ⟨true, false⟩, ⟨true, false⟩⟩

/-- With its entries submitted, a full pipeline has a TUN read that the engine still knows as one,
and its completion is processed. -/
theorem Filled.readCompletes {j : Nat} {io : VfIo} (h : Filled j io) (hj : j ≤ 2048)
    (hfull : Full io.submit) :
    ∃ k o io', io.submit.inFlight[k]? = some o ∧ o.op = opTunRead ∧
      io.submit.opAt again.bytes o.userData = opTunRead ∧
      io.submit.complete silentOps () k again = some (io', ()) := by
  obtain ⟨o, ho, hop⟩ : ∃ o ∈ io.submit.outstanding, o.op = opTunRead := by
    have hpos : 0 < depth opTunRead io.submit := by rw [hfull.1]; decide
    obtain ⟨o, ho, hop⟩ := List.countP_pos_iff.mp hpos
    exact ⟨o, ho, by simpa using hop⟩
  obtain ⟨hptr, -, hknown⟩ := h.known o ((submit_perm io).mem_iff.mpr ho)
  obtain ⟨k, hk⟩ := List.mem_iff_getElem?.mp ho
  have hk : io.submit.inFlight[k]? = some o := hk
  have hat : io.submit.opAt 0 o.userData = opTunRead := by
    rw [hptr]
    exact hknown.trans hop
  have hrange : InRange { io.submit with inFlight := io.submit.inFlight.eraseIdx k } := by
    have hidx : io.submit.poolIdx = j := h.idx
    have hsize : io.submit.poolSize = 2048 := h.size
    constructor
    · show 0 ≤ io.submit.poolIdx
      omega
    · show io.submit.poolIdx + io.submit.poolSize ≤ 0x80000000
      omega
  obtain ⟨io₁, hread⟩ := vfIoRead_defined hrange opTunRead ⟨true, false⟩
  refine ⟨k, o, io₁.free o.buf, hk, hop, hat, ?_⟩
  rw [hptr] at hat
  simp [again, VfIo.complete, hk, hptr, hat, hread, VfIo.release]

theorem submitted_reachable {io : VfIo} (h : ReachableBy silentRuns Refills ⟨io, (), 32⟩) :
    ReachableBy silentRuns Refills ⟨io.submit, (), 32⟩ :=
  .step (l := .submit) h trivial ⟨⟨rfl, by simp⟩, rfl, trivial⟩

/-- In a pool of the default size, a read that completes after the warm-up is armed again. -/
theorem refilled_pipeline_full :
    ∃ io k io', ReachableBy silentRuns Refills ⟨io, (), 32⟩ ∧
      silentRuns.step ⟨io, (), 32⟩ (.complete k again) ⟨io', (), 32⟩ ∧ Full io' := by
  obtain ⟨io, hf, hreach⟩ := filled_reachable (j := 32) (by decide)
  have hsub := submitted_reachable hreach
  have hfull := (read_pipeline_full silentOps _ _).1 _ hsub rfl
  obtain ⟨k, o, io', hk, hop, hat, hc⟩ := hf.readCompletes (by decide) hfull
  have hfree : Acquirable io.submit :=
    (acquirable_congr rfl rfl rfl).mpr (hf.acquirable (by decide))
  have hrefills : Refills (⟨io.submit, (), 32⟩ : Loop Unit) (.complete k again) := by
    intro o' hk'
    obtain rfl : o = o' := Option.some.inj (hk.symm.trans hk')
    exact ⟨fun _ => ⟨hat.trans hop.symm, hfree⟩, fun hno => absurd (.inl hop) hno⟩
  have hstep : silentRuns.step ⟨io.submit, (), 32⟩ (.complete k again) ⟨io', (), 32⟩ :=
    ⟨⟨hc, by simp⟩, ⟨rfl, rfl⟩, rfl, rfl⟩
  exact ⟨io.submit, k, io', hsub, hstep,
    (read_pipeline_full silentOps _ _).1 _ (.step hsub hrefills hstep) rfl⟩

/-- **A saturated pool loses a read**: with all tasks in use a TUN read that completes with
`-EAGAIN` is not armed again, although its own task is free right after. -/
theorem saturated_pool_loses_read :
    ∃ io io' k, Reachable silentRuns ⟨io, (), 32⟩ ∧ Full io ∧
      silentRuns.step ⟨io, (), 32⟩ (.complete k again) ⟨io', (), 32⟩ ∧
      depth opTunRead io' = 15 ∧ depth opUdpRecv io' = 16 := by
  obtain ⟨io, hf, hreach⟩ := filled_reachable (Nat.le_refl 2048)
  have hsub := submitted_reachable hreach
  have harmed : Armed 32 io.submit := reachable_armed hsub
  have hfull : Full io.submit := harmed
  have hany : Reachable silentRuns ⟨io.submit, (), 32⟩ := hsub.mono fun _ _ _ => trivial
  have hp : Pooled io.submit := reachable_pooled hany
  obtain ⟨k, o, io', hk, hop, -, hc⟩ := hf.readCompletes (Nat.le_refl _) hfull
  have hbusy : ¬ Acquirable io.submit := fun h => hf.saturated ((acquirable_congr rfl rfl rfl).mp h)
  obtain ⟨-, ⟨-, hacq, -⟩ | ⟨-, hx⟩⟩ := hp.complete_depth ⟨rfl, rfl⟩ hc hk
  · exact absurd hacq hbusy
  have h1 := hx opTunRead (.inl rfl)
  have h2 := hx opUdpRecv (.inr rfl)
  rw [hop, hfull.1, if_pos rfl] at h1
  rw [hop, hfull.2, if_neg (by decide)] at h2
  exact ⟨io.submit, io', k, hany, hfull, ⟨⟨hc, by simp⟩, ⟨rfl, rfl⟩, rfl, rfl⟩, Nat.succ.inj h1, h2⟩

end Vfast.Pipeline
