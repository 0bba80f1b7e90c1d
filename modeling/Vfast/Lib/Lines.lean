import Mathlib.Data.List.Basic

/-! Reading a stream line by line into a buffer of fixed size (`fgets`). A line that does not fit
comes in several pieces, and a piece ends behind a newline at the latest. -/

namespace Vfast.Lines

def newline : UInt8 := 10

/-- `fgets` with room for `room` bytes besides the NUL: what it reads, and what is left of the
stream. -/
def fgets : (room : Nat) → List UInt8 → List UInt8 × List UInt8
  | 0, s => ([], s)
  | _ + 1, [] => ([], [])
  | room + 1, c :: s =>
    if c = newline then ([c], s) else (c :: (fgets room s).1, (fgets room s).2)

/-- `while (fgets(..) != NULL)`: the pieces it reads. -/
def readLoop (room : Nat) : (fuel : Nat) → List UInt8 → List (List UInt8)
  | 0, _ => []
  | _ + 1, [] => []
  | fuel + 1, c :: s => (fgets room (c :: s)).1 :: readLoop room fuel (fgets room (c :: s)).2

/-- The pieces of a stream. Each has a byte, so the stream's length bounds their number. -/
def reads (room : Nat) (s : List UInt8) : List (List UInt8) := readLoop room s.length s

def Closed (s : List UInt8) : Prop := ∀ c ∈ s.getLast?, c = newline

variable {room : Nat}

/-! ## One call -/

theorem fgets_split (room : Nat) (s : List UInt8) :
    (fgets room s).1 ++ (fgets room s).2 = s := by
  induction room generalizing s with
  | zero => rfl
  | succ room ih =>
    cases s with
    | nil => rfl
    | cons c s =>
      rw [fgets]
      split
      · rfl
      · rw [List.cons_append, ih]

theorem length_fgets_le (room : Nat) (s : List UInt8) : (fgets room s).1.length ≤ room := by
  induction room generalizing s with
  | zero => exact Nat.le_refl 0
  | succ room ih =>
    cases s with
    | nil => exact Nat.zero_le _
    | cons c s =>
      rw [fgets]
      split
      · exact Nat.succ_le_succ (Nat.zero_le room)
      · exact Nat.succ_le_succ (ih s)

theorem length_rest_lt (room : Nat) (c : UInt8) (s : List UInt8) :
    (fgets (room + 1) (c :: s)).2.length < (c :: s).length := by
  rw [fgets]
  split
  · exact Nat.lt_succ_self _
  · have hs := congrArg List.length (fgets_split room s)
    rw [List.length_append] at hs
    exact Nat.lt_succ_of_le (hs ▸ Nat.le_add_left _ _)

theorem fgets_line {l s : List UInt8} (hl : newline ∉ l) (hn : l.length < room) :
    fgets room (l ++ newline :: s) = (l ++ [newline], s) := by
  induction l generalizing room with
  | nil =>
    cases room with
    | zero => exact absurd hn (Nat.lt_irrefl 0)
    | succ room =>
      rw [List.nil_append, fgets, if_pos rfl]
      rfl
  | cons c l ih =>
    cases room with
    | zero => exact absurd hn (Nat.not_lt_zero _)
    | succ room =>
      have hc : c ≠ newline := fun he => hl (he ▸ List.mem_cons_self)
      rw [List.cons_append, fgets, if_neg hc,
        ih (fun h => hl (List.mem_cons_of_mem c h)) (Nat.lt_of_succ_lt_succ hn)]
      rfl

/-- Text that fills the room is read up to there, whatever follows. -/
theorem fgets_full (s : List UInt8) {l : List UInt8} (hl : newline ∉ l) :
    fgets l.length (l ++ s) = (l, s) := by
  induction l with
  | nil => rfl
  | cons c l ih =>
    have hc : c ≠ newline := fun he => hl (he ▸ List.mem_cons_self)
    rw [List.length_cons, List.cons_append, fgets, if_neg hc,
      ih fun h => hl (List.mem_cons_of_mem c h)]

theorem fgets_append {s : List UInt8} (hs : s.getLast? = some newline) (b : List UInt8) :
    fgets room (s ++ b) = ((fgets room s).1, (fgets room s).2 ++ b) := by
  induction room generalizing s with
  | zero => rfl
  | succ room ih =>
    cases s with
    | nil => cases hs
    | cons c s =>
      rw [List.cons_append, fgets, fgets]
      split
      · rfl
      · rename_i hc
        cases s with
        | nil => exact absurd (Option.some.inj hs) hc
        | cons d s =>
          rw [List.getLast?_cons_cons] at hs
          rw [ih hs]

/-! ## The whole stream -/

theorem readLoop_eq {fuel : Nat} {s : List UInt8} (hf : s.length ≤ fuel) :
    readLoop (room + 1) fuel s = reads (room + 1) s := by
  induction fuel using Nat.strongRecOn generalizing s with
  | ind fuel ih =>
    cases s with
    | nil => cases fuel <;> rfl
    | cons c s =>
      cases fuel with
      | zero => exact absurd hf (Nat.not_succ_le_zero _)
      | succ fuel =>
        have hlt := length_rest_lt room c s
        have hle : (fgets (room + 1) (c :: s)).2.length ≤ s.length := Nat.lt_succ_iff.mp hlt
        rw [reads, List.length_cons, readLoop, readLoop,
          ih fuel (Nat.lt_succ_self fuel) (Nat.le_trans hle (Nat.le_of_succ_le_succ hf))]
        rcases Nat.lt_or_ge s.length (fuel + 1) with h | h
        · rw [ih s.length h hle]
        · rw [Nat.le_antisymm (Nat.le_of_succ_le_succ hf) (Nat.le_of_succ_le h),
            ih fuel (Nat.lt_succ_self fuel) (Nat.le_trans hle (Nat.le_of_succ_le_succ hf))]

theorem reads_of_fgets {s piece rest : List UInt8} (hs : s ≠ [])
    (h : fgets (room + 1) s = (piece, rest)) :
    reads (room + 1) s = piece :: reads (room + 1) rest := by
  obtain ⟨c, s, rfl⟩ := List.exists_cons_of_ne_nil hs
  have hle : rest.length ≤ s.length := by
    have hlt := length_rest_lt room c s
    rw [h] at hlt
    exact Nat.lt_succ_iff.mp hlt
  rw [reads, List.length_cons, readLoop, h, readLoop_eq hle]

theorem reads_cons (room : Nat) (c : UInt8) (s : List UInt8) :
    reads (room + 1) (c :: s) =
      (fgets (room + 1) (c :: s)).1 :: reads (room + 1) (fgets (room + 1) (c :: s)).2 :=
  reads_of_fgets (List.cons_ne_nil c s) rfl

theorem length_le_of_mem_reads {s l : List UInt8} (h : l ∈ reads (room + 1) s) :
    l.length ≤ room + 1 := by
  induction hn : s.length using Nat.strongRecOn generalizing s with
  | ind n ih =>
    cases s with
    | nil => cases h
    | cons c s =>
      rw [reads_cons] at h
      rcases List.mem_cons.mp h with rfl | h
      · exact length_fgets_le (room + 1) (c :: s)
      · exact ih _ (hn ▸ length_rest_lt room c s) h rfl

/-- Behind whole lines the reading starts anew. -/
theorem reads_append {a : List UInt8} (ha : Closed a) (b : List UInt8) :
    reads (room + 1) (a ++ b) = reads (room + 1) a ++ reads (room + 1) b := by
  induction hn : a.length using Nat.strongRecOn generalizing a with
  | ind n ih =>
    cases a with
    | nil => rfl
    | cons c s =>
      obtain ⟨d, hd⟩ : ∃ d, (c :: s).getLast? = some d :=
        Option.isSome_iff_exists.mp (by simp)
      obtain rfl := ha d hd
      have hrest : Closed (fgets (room + 1) (c :: s)).2 := by
        intro e he
        have hsplit := fgets_split (room + 1) (c :: s)
        rw [← hsplit, List.getLast?_append, Option.mem_def.mp he] at hd
        exact Option.some.inj hd
      rw [reads_of_fgets (List.append_ne_nil_of_left_ne_nil (List.cons_ne_nil c s) b)
          (fgets_append hd b),
        reads_cons, List.cons_append,
        ih _ (hn ▸ length_rest_lt room c s) hrest rfl]

theorem Closed.append {a b : List UInt8} (ha : Closed a) (hb : Closed b) : Closed (a ++ b) := by
  intro c hc
  rw [List.getLast?_append, Option.mem_def, Option.or_eq_some_iff] at hc
  rcases hc with hc | ⟨-, hc⟩
  · exact hb c hc
  · exact ha c hc

theorem closed_line (l : List UInt8) : Closed (l ++ [newline]) := by
  intro c hc
  rw [List.getLast?_append] at hc
  exact (Option.some.inj hc).symm

theorem reads_line {l : List UInt8} (hl : newline ∉ l) (hn : l.length ≤ room) :
    reads (room + 1) (l ++ [newline]) = [l ++ [newline]] := by
  rw [reads_of_fgets (List.append_ne_nil_of_right_ne_nil l (List.cons_ne_nil _ _))
    (fgets_line hl (Nat.lt_succ_of_le hn))]
  rfl

theorem reads_full (s : List UInt8) {l : List UInt8} (hl : newline ∉ l) (hn : l.length = room + 1) :
    reads (room + 1) (l ++ s) = l :: reads (room + 1) s := by
  have hne : l ≠ [] := List.ne_nil_of_length_eq_add_one hn
  refine reads_of_fgets (List.append_ne_nil_of_left_ne_nil hne s) ?_
  rw [← hn]
  exact fgets_full s hl

end Vfast.Lines
