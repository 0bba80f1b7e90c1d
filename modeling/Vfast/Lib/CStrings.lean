import Vfast.Lib.Bytes

/-! C strings: texts that a memory holds up to a NUL byte, the character classes of the
C locale, and the comparison that ignores case. -/

namespace Vfast.CStrings

open Bytes

def ascii (s : String) : List UInt8 := s.toList.map fun c => UInt8.ofNat c.toNat

def isspace (c : UInt8) : Bool := c == 0x20 || (9 ≤ c && c ≤ 13)

def tolower (c : UInt8) : UInt8 := if 0x41 ≤ c && c ≤ 0x5A then c + 0x20 else c

/-- `strcasecmp(a, b) == 0`. -/
def sameText (a b : List UInt8) : Bool := a.map tolower == b.map tolower

theorem sameText_iff {a b : List UInt8} : sameText a b = true ↔ a.map tolower = b.map tolower := by
  simp [sameText]

theorem sameText_trans {a b c : List UInt8} (h1 : sameText a b = true) (h2 : sameText b c = true) :
    sameText a c = true :=
  sameText_iff.mpr ((sameText_iff.mp h1).trans (sameText_iff.mp h2))

theorem sameText_symm {a b : List UInt8} (h : sameText a b = true) : sameText b a = true :=
  sameText_iff.mpr (sameText_iff.mp h).symm

theorem sameText_length {a b : List UInt8} (h : sameText a b = true) : a.length = b.length := by
  simpa using congrArg List.length (sameText_iff.mp h)

/-- `strncasecmp(a, b, n) == 0`. -/
def sameTextN (a b : List UInt8) (n : Nat) : Bool := sameText (a.take n) (b.take n)

def Begins (a text : List UInt8) : Prop := a.map tolower <+: text.map tolower

theorem sameTextN_iff {a b : List UInt8} : sameTextN a b a.length = true ↔ Begins a b := by
  rw [sameTextN, sameText_iff, List.take_length, List.map_take, Begins, List.prefix_iff_eq_take,
    List.length_map]

theorem begins_refl (a : List UInt8) : Begins a a := List.prefix_refl _

theorem Begins.trans {a b c : List UInt8} (h : Begins a b) (h' : Begins b c) : Begins a c :=
  List.IsPrefix.trans h h'

/-- The run of characters a scan passes, and where it stops. -/
theorem split_while (keep : UInt8 → Bool) (s : List UInt8) :
    ∃ run rest, s = run ++ rest ∧ (∀ c ∈ run, keep c = true) ∧
      ∀ c ∈ rest.head?, keep c = false := by
  refine ⟨s.takeWhile keep, s.dropWhile keep, List.takeWhile_append_dropWhile.symm, ?_, ?_⟩
  · exact List.all_eq_true.mp List.all_takeWhile
  · intro c hc
    have hnot := List.head?_dropWhile_not keep s
    rw [Option.mem_def.mp hc] at hnot
    exact hnot

theorem scan_exact {keep : UInt8 → Bool} {run : List UInt8} (rest : List UInt8)
    (h : ∀ c ∈ run, keep c = true) (hr : ∀ c ∈ rest.head?, keep c = false) :
    (run ++ rest).takeWhile keep = run ∧ (run ++ rest).dropWhile keep = rest := by
  rw [List.takeWhile_append_of_pos h, List.dropWhile_append_of_pos h]
  cases rest with
  | nil => exact ⟨List.append_nil run, rfl⟩
  | cons c rest =>
    have hc := hr c rfl
    simp [hc]

/-- `strtok` with the single delimiter `d` on what is left of the text: the token, and what is left
behind the delimiter that ends it. -/
def strtok (d : UInt8) (text : List UInt8) : Option (List UInt8 × List UInt8) :=
  match text.dropWhile (· == d) with
  | [] => none
  | c :: s => some ((c :: s).takeWhile (· != d), ((c :: s).dropWhile (· != d)).tail)

theorem strtok_blank {d : UInt8} {text : List UInt8} (h : ∀ c ∈ text, c = d) :
    strtok d text = none := by
  have hnil : text.dropWhile (· == d) = [] := by
    rw [← List.append_nil text, List.dropWhile_append_of_pos fun c hc => by simpa using h c hc]
    rfl
  rw [strtok, hnil]

theorem strtok_word {d : UInt8} {blanks word rest : List UInt8} (hb : ∀ c ∈ blanks, c = d)
    (hne : word ≠ []) (hw : d ∉ word) (hr : ∀ c ∈ rest.head?, c = d) :
    strtok d (blanks ++ (word ++ rest)) = some (word, rest.tail) := by
  have hkeep : ∀ c ∈ word, (c != d) = true := by
    intro c hc
    simpa using fun he : c = d => hw (he ▸ hc)
  have hdrop : (blanks ++ (word ++ rest)).dropWhile (· == d) = word ++ rest := by
    rw [List.dropWhile_append_of_pos fun c hc => by simpa using hb c hc]
    obtain ⟨c, word, rfl⟩ := List.exists_cons_of_ne_nil hne
    have hc := hkeep c List.mem_cons_self
    rw [List.cons_append, List.dropWhile_cons_of_neg (by simpa using hc)]
  have hstop : rest.takeWhile (· != d) = [] ∧ rest.dropWhile (· != d) = rest := by
    cases rest with
    | nil => exact ⟨rfl, rfl⟩
    | cons c rest =>
      obtain rfl : c = d := hr c rfl
      simp
  obtain ⟨c, s, hcs⟩ := List.exists_cons_of_ne_nil (List.append_ne_nil_of_left_ne_nil hne rest)
  rw [strtok, hdrop, hcs]
  dsimp only
  rw [← hcs, List.takeWhile_append_of_pos hkeep, List.dropWhile_append_of_pos hkeep, hstop.1,
    hstop.2, List.append_nil]

/-- The memory holds the string `s` at `p`, its NUL included. -/
def Holds (m : Mem) : Nat → List UInt8 → Prop
  | p, [] => m p = 0
  | p, c :: s => c ≠ 0 ∧ m p = c ∧ Holds m (p + 1) s

/-- The string at `p` of a buffer that has a NUL at `len`. -/
def stringAt (m : Mem) (len p : Nat) : List UInt8 :=
  (m.read p (len - p)).takeWhile fun c => c != 0

/-- `while (*p && keep(*p)) p++`, for at most `fuel` steps. -/
def skipWhile (keep : UInt8 → Bool) (m : Mem) : (fuel p : Nat) → Nat
  | 0, p => p
  | fuel + 1, p => if m p ≠ 0 ∧ keep (m p) then skipWhile keep m fuel (p + 1) else p

section

variable {m : Mem} {p : Nat}

theorem Holds.mem {s : List UInt8} (h : Holds m p s) {i : Nat} (h1 : p ≤ i)
    (h2 : i < p + s.length) : m i ∈ s := by
  induction s generalizing p with
  | nil => exact absurd h2 (Nat.not_lt.mpr h1)
  | cons c s ih =>
    obtain ⟨-, hp, h⟩ := h
    rw [List.length_cons] at h2
    rcases Nat.eq_or_lt_of_le h1 with rfl | hlt
    · rw [hp]
      exact List.mem_cons_self
    · exact List.mem_cons_of_mem c (ih h hlt (by omega))

theorem Holds.ne_zero {s : List UInt8} (h : Holds m p s) (hs : s ≠ []) : m p ≠ 0 := by
  cases s with
  | nil => exact absurd rfl hs
  | cons c s =>
    obtain ⟨hc, hp, -⟩ := h
    rwa [hp]

theorem Holds.drop {a b : List UInt8} (h : Holds m p (a ++ b)) : Holds m (p + a.length) b := by
  induction a generalizing p with
  | nil => exact h
  | cons c a ih =>
    obtain ⟨-, -, h⟩ := h
    rw [List.length_cons, ← Nat.add_assoc, Nat.add_right_comm]
    exact ih h

/-- A memory that agrees on a string and its NUL holds it too. -/
theorem Holds.congr {m' : Mem} {s : List UInt8} (h : Holds m p s)
    (he : ∀ i, p ≤ i → i ≤ p + s.length → m' i = m i) : Holds m' p s := by
  induction s generalizing p with
  | nil => exact (he p (Nat.le_refl p) (Nat.le_refl p)).trans h
  | cons c s ih =>
    obtain ⟨hc, hp, h⟩ := h
    rw [List.length_cons] at he
    exact ⟨hc, (he p (by omega) (by omega)).trans hp,
      ih h fun i h1 h2 => he i (by omega) (by omega)⟩

theorem Holds.cut {a b : List UInt8} (h : Holds m p (a ++ b)) :
    Holds (m.write (p + a.length) [0]) p a := by
  induction a generalizing p with
  | nil => simp [Holds, write_apply]
  | cons c a ih =>
    obtain ⟨hc, hp, h⟩ := h
    refine ⟨hc, ?_, ?_⟩
    · rw [write_of_lt _ _ _ _ (by simp)]
      exact hp
    · rw [List.length_cons, ← Nat.add_assoc, Nat.add_right_comm]
      exact ih h

/-- Writes before a string do not change it. -/
theorem Holds.write_before {s : List UInt8} (h : Holds m p s) {off : Nat} {bs : List UInt8}
    (ho : off + bs.length ≤ p) : Holds (m.write off bs) p s :=
  h.congr fun i hi _ => write_of_ge m off bs i (Nat.le_trans ho hi)

/-- A string without NUL bytes that is stored with its NUL. -/
theorem holds_write {s : List UInt8} (h0 : 0 ∉ s) : Holds (m.write p (s ++ [0])) p s := by
  induction s generalizing m p with
  | nil => simp [Holds, write_apply]
  | cons c s ih =>
    obtain ⟨hc, hs⟩ := List.ne_and_not_mem_of_not_mem_cons h0
    have hsplit : m.write p ((c :: s) ++ [0]) = (m.write p [c]).write (p + 1) (s ++ [0]) :=
      write_append m p [c] (s ++ [0])
    rw [hsplit]
    refine ⟨Ne.symm hc, ?_, ih hs⟩
    rw [write_of_lt _ _ _ _ (by omega)]
    exact write_of_mem m p [c] 0 (by simp)

theorem Holds.skipWhile {keep : UInt8 → Bool} {fuel : Nat} {s : List UInt8} (h : Holds m p s)
    (hf : s.length ≤ fuel) : skipWhile keep m fuel p = p + (s.takeWhile keep).length := by
  induction s generalizing p fuel with
  | nil =>
    have hp : m p = 0 := h
    cases fuel <;> simp [CStrings.skipWhile, hp]
  | cons c s ih =>
    obtain ⟨hc, hp, h⟩ := h
    obtain ⟨fuel, rfl⟩ : ∃ k, fuel = k + 1 := Nat.exists_eq_add_one_of_ne_zero (by
      rintro rfl
      exact absurd hf (by simp))
    rw [CStrings.skipWhile, hp]
    cases hk : keep c with
    | false => simp [hk]
    | true =>
      rw [if_pos ⟨hc, rfl⟩, ih h (by simpa using hf), List.takeWhile_cons_of_pos hk,
        List.length_cons]
      omega

theorem Holds.skipWhile_append {keep : UInt8 → Bool} {fuel : Nat} {a b : List UInt8}
    (h : Holds m p (a ++ b)) (hf : (a ++ b).length ≤ fuel) (ha : ∀ c ∈ a, keep c = true)
    (hb : ∀ c ∈ b.head?, keep c = false) : CStrings.skipWhile keep m fuel p = p + a.length := by
  have hstop : b.takeWhile keep = [] := by
    cases b with
    | nil => rfl
    | cons c b => simp [hb c rfl]
  rw [h.skipWhile hf, List.takeWhile_append_of_pos ha, hstop, List.append_nil]

theorem Holds.stringAt {s : List UInt8} {len : Nat} (h : Holds m p s) (hl : p + s.length ≤ len) :
    stringAt m len p = s := by
  obtain ⟨k, rfl⟩ : ∃ k, len = p + s.length + k := ⟨len - (p + s.length), by omega⟩
  have hn : p + s.length + k - p = s.length + k := by omega
  rw [CStrings.stringAt, hn]
  clear hl hn
  induction s generalizing p with
  | nil =>
    cases k with
    | zero => rfl
    | succ k =>
      have hz : m p = 0 := h
      rw [List.length_nil, Nat.zero_add, Nat.add_comm, read_add]
      simp [Mem.read, hz]
  | cons c s ih =>
    obtain ⟨hc, hp, h⟩ := h
    have hlen : (c :: s).length + k = 1 + (s.length + k) := by simp; omega
    have hone : m.read p 1 = [c] := by simp [Mem.read, hp]
    rw [hlen, read_add, hone, List.singleton_append, List.takeWhile_cons_of_pos (by simpa using hc),
      ih h]

end

end Vfast.CStrings
