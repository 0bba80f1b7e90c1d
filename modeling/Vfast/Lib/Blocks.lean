import Mathlib.Data.List.Basic

/-! Messages in blocks of `n` symbols. A state is folded over the whole blocks, and what is left
over waits for more input: `foldBlocks_resume` and `leftover_resume` say that the cut of a
message into inputs does not matter. Proofs go by `blockInduction`, one block at a time. -/

namespace Vfast.Blocks

variable {σ τ α : Type*}

/-- The state after the whole blocks of a message. -/
def foldBlocks (n : Nat) (f : σ → List α → σ) (s : σ) (xs : List α) : σ :=
  (List.range (xs.length / n)).foldl (fun s i => f s ((xs.drop (n * i)).take n)) s

/-- What follows the whole blocks. -/
def leftover (n : Nat) (xs : List α) : List α := xs.drop (n * (xs.length / n))

/-- All blocks, the last one possibly short. -/
def pieces (n : Nat) (xs : List α) : List (List α) :=
  (List.range ((xs.length + n - 1) / n)).map fun i => (xs.drop (n * i)).take n

/-- A message is shorter than a block, or a block with a message after it. -/
theorem blockInduction {P : List α → Prop} {n : Nat} (hn : 0 < n)
    (short : ∀ xs, xs.length < n → P xs)
    (block : ∀ b xs, b.length = n → P xs → P (b ++ xs)) (xs : List α) : P xs := by
  induction h : xs.length using Nat.strongRecOn generalizing xs with
  | ind k ih =>
    by_cases hs : xs.length < n
    · exact short xs hs
    · rw [← List.take_append_drop n xs]
      refine block _ _ (by rw [List.length_take]; omega) (ih (k - n) (by omega) _ ?_)
      rw [List.length_drop, h]

theorem foldBlocks_short {n : Nat} (f : σ → List α → σ) (s : σ) {xs : List α}
    (h : xs.length < n) : foldBlocks n f s xs = s := by
  rw [foldBlocks, Nat.div_eq_of_lt h]
  rfl

theorem leftover_short {n : Nat} {xs : List α} (h : xs.length < n) : leftover n xs = xs := by
  rw [leftover, Nat.div_eq_of_lt h, Nat.mul_zero, List.drop_zero]

theorem drop_block {n : Nat} {b : List α} (hb : b.length = n) (xs : List α) (i : Nat) :
    (b ++ xs).drop (n * (i + 1)) = xs.drop (n * i) := by
  rw [Nat.mul_add, Nat.mul_one, Nat.add_comm, List.drop_append, hb, Nat.add_sub_cancel_left,
    List.drop_of_length_le (by omega), List.nil_append]

theorem foldBlocks_block {n : Nat} (hn : 0 < n) (f : σ → List α → σ) (s : σ) {b : List α}
    (hb : b.length = n) (xs : List α) : foldBlocks n f s (b ++ xs) = foldBlocks n f (f s b) xs := by
  have hl : (b ++ xs).length / n = xs.length / n + 1 := by
    rw [List.length_append, hb, Nat.add_comm, Nat.add_div_right _ hn]
  simp only [foldBlocks, hl, List.range_succ_eq_map, List.foldl_cons, List.foldl_map,
    drop_block hb, Nat.mul_zero, List.drop_zero]
  rw [← hb, List.take_left]

theorem leftover_block {n : Nat} (hn : 0 < n) {b : List α} (hb : b.length = n) (xs : List α) :
    leftover n (b ++ xs) = leftover n xs := by
  have hl : (b ++ xs).length / n = xs.length / n + 1 := by
    rw [List.length_append, hb, Nat.add_comm, Nat.add_div_right _ hn]
  rw [leftover, leftover, hl, drop_block hb]

theorem length_leftover {n : Nat} (hn : 0 < n) (xs : List α) : (leftover n xs).length < n := by
  have := Nat.div_add_mod xs.length n
  have := Nat.mod_lt xs.length hn
  rw [leftover, List.length_drop]
  omega

/-- **Resuming.** The blocks of the rest of a message go on where those of its start ended. -/
theorem foldBlocks_resume {n : Nat} (hn : 0 < n) (f : σ → List α → σ) (s : σ) (xs ys : List α) :
    foldBlocks n f (foldBlocks n f s xs) (leftover n xs ++ ys) = foldBlocks n f s (xs ++ ys) := by
  induction xs using blockInduction hn generalizing s with
  | short xs h => rw [foldBlocks_short f s h, leftover_short h]
  | block b xs hb ih =>
    rw [foldBlocks_block hn f s hb, leftover_block hn hb, List.append_assoc,
      foldBlocks_block hn f s hb, ih]

theorem leftover_resume {n : Nat} (hn : 0 < n) (xs ys : List α) :
    leftover n (leftover n xs ++ ys) = leftover n (xs ++ ys) := by
  induction xs using blockInduction hn with
  | short xs h => rw [leftover_short h]
  | block b xs hb ih => rw [leftover_block hn hb, List.append_assoc, leftover_block hn hb, ih]

/-- **Simulation.** A relation that whole blocks keep holds after a message. -/
theorem foldBlocks_rel {n : Nat} (hn : 0 < n) {f : σ → List α → σ} {g : τ → List α → τ}
    {R : σ → τ → Prop} (step : ∀ s t b, b.length = n → R s t → R (f s b) (g t b))
    {s : σ} {t : τ} (h : R s t) (xs : List α) : R (foldBlocks n f s xs) (foldBlocks n g t xs) := by
  induction xs using blockInduction hn generalizing s t with
  | short xs hs => rwa [foldBlocks_short f s hs, foldBlocks_short g t hs]
  | block b xs hb ih =>
    rw [foldBlocks_block hn f s hb, foldBlocks_block hn g t hb]
    exact ih (step s t b hb h)

theorem pieces_nil {n : Nat} (hn : 0 < n) : pieces n ([] : List α) = [] := by
  rw [pieces, List.length_nil, Nat.div_eq_of_lt (by omega)]
  rfl

theorem pieces_short {n : Nat} {xs : List α} (h : xs.length < n) (hx : xs ≠ []) :
    pieces n xs = [xs] := by
  have hpos := List.length_pos_of_ne_nil hx
  have hl : (xs.length + n - 1) / n = 1 := Nat.div_eq_of_lt_le (by omega) (by omega)
  rw [pieces, hl]
  simp [List.range_one, List.take_of_length_le (Nat.le_of_lt h)]

theorem pieces_block {n : Nat} (hn : 0 < n) {b : List α} (hb : b.length = n) (xs : List α) :
    pieces n (b ++ xs) = b :: pieces n xs := by
  have hl : ((b ++ xs).length + n - 1) / n = (xs.length + n - 1) / n + 1 := by
    rw [List.length_append, hb, show n + xs.length + n - 1 = xs.length + n - 1 + n by omega,
      Nat.add_div_right _ hn]
  simp only [pieces, hl, List.range_succ_eq_map, List.map_cons, List.map_map, Nat.mul_zero,
    List.drop_zero]
  congr 1
  · rw [← hb, List.take_left]
  · exact List.map_congr_left fun i _ => by simp only [Function.comp_apply, Nat.succ_eq_add_one,
      drop_block hb]

/-- Folding over the pieces is folding over the whole blocks and then over what is left. -/
theorem foldl_pieces {n : Nat} (hn : 0 < n) (f : σ → List α → σ) (s : σ) (xs : List α) :
    (pieces n xs).foldl f s =
      if leftover n xs = [] then foldBlocks n f s xs
        else f (foldBlocks n f s xs) (leftover n xs) := by
  induction xs using blockInduction hn generalizing s with
  | short xs h =>
    rw [leftover_short h, foldBlocks_short f s h]
    split
    · rename_i he
      rw [he, pieces_nil hn]
      rfl
    · rename_i he
      rw [pieces_short h he]
      rfl
  | block b xs hb ih =>
    rw [pieces_block hn hb, List.foldl_cons, ih, leftover_block hn hb, foldBlocks_block hn f s hb]

end Vfast.Blocks
