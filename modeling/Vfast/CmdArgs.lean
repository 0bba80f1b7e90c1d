import Mathlib.Data.List.Forall2
import Vfast.Lib.CStrings

/-! The console's argument splitter (`parse_args` of `cmd.c`). It works in place: an argument
is a pointer into the line, and its end is a NUL written over the quote or the blank that
follows it. Lines that render a list of words are split into exactly these words. -/

namespace Vfast.CmdArgs

open Bytes CStrings

def maxArgCount : Nat := 16

def quote : UInt8 := 0x22

/-- `while (*p && isspace(*p)) p++`. A scan stops at the NUL of the line at the latest, so the
length of the line bounds its steps. -/
def skipSpaces : Mem → Nat → Nat → Nat := skipWhile isspace

def skipWord : Mem → Nat → Nat → Nat := skipWhile fun c => !isspace c

/-- The loop over a quoted argument: `inQuotes`, the line and `p`. A quote ends the argument,
and text may follow it up to the next blank. -/
def skipQuoted : Nat → Bool → Mem → Nat → Bool × Mem × Nat
  | 0, q, m, p => (q, m, p)
  | fuel + 1, q, m, p =>
    if m p ≠ 0 ∧ (q ∨ ¬ isspace (m p)) then
      if m p = quote then skipQuoted fuel false (m.write p [0]) (p + 1)
      else skipQuoted fuel q m (p + 1)
    else (q, m, p)

/-- The main loop; `left` is `MAX_ARG_COUNT - argc`. -/
def parseLoop (len : Nat) : Nat → Bool → Mem → Nat → List Nat → Bool × List Nat × Mem
  | 0, q, m, _, argv => (q, argv, m)
  | left + 1, q, m, p, argv =>
    if m p = 0 then (q, argv, m)
    else
      let p := skipSpaces m len p
      if m p = 0 then (q, argv, m)
      else if m p = quote then
        let (q', m', p') := skipQuoted len true m (p + 1)
        parseLoop len left q' m' p' (argv ++ [p + 1])
      else
        let e := skipWord m len p
        if m e ≠ 0 then parseLoop len left q (m.write e [0]) (e + 1) (argv ++ [p])
        else parseLoop len left q m e (argv ++ [p])

/-- `parse_args` on a line of `len` characters at the start of the memory: the return value,
`argv` and the line it leaves. -/
def parseArgs (m : Mem) (len : Nat) : Int × List Nat × Mem :=
  let (q, argv, m') := parseLoop len maxArgCount false m 0 []
  (if q then -1 else 0, argv, m')

/-! ## Quoted arguments -/

def Separated (rest : List UInt8) : Prop := ∀ c ∈ rest.head?, isspace c = true

section

variable {m : Mem} {p fuel : Nat}

/-- A closed quotation that a blank follows: its end quote becomes the NUL. -/
theorem skipQuoted_closed {a rest : List UInt8} (ha : quote ∉ a) (hr : Separated rest)
    (h : Holds m p (a ++ quote :: rest)) (hf : a.length + 1 + rest.length ≤ fuel) :
    skipQuoted fuel true m p =
      (false, m.write (p + a.length) [0], p + a.length + 1) := by
  induction a generalizing p fuel with
  | nil =>
    obtain ⟨hq, hp, h⟩ := h
    obtain ⟨fuel, rfl⟩ : ∃ k, fuel = k + 1 := ⟨fuel - 1, by omega⟩
    have hcont : m p ≠ 0 ∧ (true = true ∨ ¬ isspace (m p) = true) := ⟨by rwa [hp], Or.inl rfl⟩
    rw [skipQuoted, if_pos hcont, if_pos hp]
    have hnext : m.write p [0] (p + 1) = m (p + 1) := write_of_ge _ _ _ _ (by simp)
    -- the loop goes on behind the quote, with the flag clear
    cases rest with
    | nil =>
      have h0 : m (p + 1) = 0 := h
      cases fuel <;> simp [skipQuoted, hnext, h0]
    | cons c rest =>
      obtain ⟨-, hc, -⟩ := h
      have hs : isspace c = true := hr c rfl
      cases fuel <;> simp [skipQuoted, hnext, hc, hs]
  | cons c a ih =>
    obtain ⟨hc, hp, h⟩ := h
    obtain ⟨hq, ha⟩ := List.ne_and_not_mem_of_not_mem_cons ha
    rw [List.length_cons] at hf
    obtain ⟨fuel, rfl⟩ : ∃ k, fuel = k + 1 := ⟨fuel - 1, by omega⟩
    have hcont : m p ≠ 0 ∧ (true = true ∨ ¬ isspace (m p) = true) := ⟨by rwa [hp], Or.inl rfl⟩
    rw [skipQuoted, if_pos hcont, if_neg (by rw [hp]; exact Ne.symm hq), ih ha h (by omega),
      List.length_cons]
    simp only [Nat.add_assoc, Nat.add_comm 1 a.length]

/-- What any scan of a quotation leaves: the rest of the line, which it did not write, and the
flag only if there was no quote to the end of the line. -/
theorem skipQuoted_rest {s : List UInt8} {q q' : Bool} {m' : Mem} {p' : Nat} (h : Holds m p s)
    (hf : s.length ≤ fuel) (he : skipQuoted fuel q m p = (q', m', p')) :
    p ≤ p' ∧ (∀ i, p' ≤ i → m' i = m i) ∧
      (∃ rest, Holds m' p' rest ∧ p' + rest.length = p + s.length) ∧
      (q' = true → q = true ∧ quote ∉ s ∧ m' p' = 0) := by
  induction s generalizing m p fuel q with
  | nil =>
    have hp : m p = 0 := h
    have hstop : skipQuoted fuel q m p = (q, m, p) := by
      cases fuel <;> simp [skipQuoted, hp]
    obtain ⟨rfl, rfl, rfl⟩ : q = q' ∧ m = m' ∧ p = p' := by simpa [hstop] using he
    exact ⟨Nat.le_refl p, fun i _ => rfl, ⟨[], h, rfl⟩, fun hq => ⟨hq, by simp, hp⟩⟩
  | cons c s ih =>
    have hcs := h
    obtain ⟨hc, hp, h⟩ := h
    rw [List.length_cons] at hf
    obtain ⟨fuel, rfl⟩ : ∃ k, fuel = k + 1 := ⟨fuel - 1, by omega⟩
    rw [skipQuoted] at he
    split at he
    · split at he
      · rename_i hq
        have hnext : Holds (m.write p [0]) (p + 1) s := h.write_before (by simp)
        obtain ⟨h1, h2, ⟨rest, h3, h4⟩, h5⟩ := ih hnext (by omega) he
        refine ⟨by omega, ?_, ⟨rest, h3, by rw [List.length_cons]; omega⟩, ?_⟩
        · intro i hi
          rw [h2 i hi]
          exact write_of_ge _ _ _ _ (by simp; omega)
        · intro ht
          exact absurd (h5 ht).1 Bool.false_ne_true
      · rename_i hq
        obtain ⟨h1, h2, ⟨rest, h3, h4⟩, h5⟩ := ih h (by omega) he
        refine ⟨by omega, h2, ⟨rest, h3, by rw [List.length_cons]; omega⟩, ?_⟩
        intro ht
        obtain ⟨h6, h7, h8⟩ := h5 ht
        exact ⟨h6, List.not_mem_cons_of_ne_of_not_mem (by rw [← hp]; exact Ne.symm hq) h7, h8⟩
    · rename_i hstop
      obtain ⟨rfl, rfl, rfl⟩ : q = q' ∧ m = m' ∧ p = p' := by simpa using he
      refine ⟨Nat.le_refl p, fun i _ => rfl, ⟨c :: s, hcs, rfl⟩, ?_⟩
      intro ht
      exact absurd ⟨by rwa [hp], Or.inl ht⟩ hstop

end

/-! ## Lines that render a list of words -/

/-- Text the splitter can carry: neither a NUL nor a quote. -/
def Plain (a : List UInt8) : Prop := 0 ∉ a ∧ quote ∉ a

def Blank (gap : List UInt8) : Prop := ∀ c ∈ gap, isspace c = true

/-- Text that can stand without quotes. -/
def Bare (a : List UInt8) : Prop := a ≠ [] ∧ ∀ c ∈ a, isspace c = false

instance (a : List UInt8) : Decidable (Plain a) := inferInstanceAs (Decidable (_ ∧ _))

instance (gap : List UInt8) : Decidable (Blank gap) :=
  List.decidableBAll (fun c => isspace c = true) gap

instance (a : List UInt8) : Decidable (Bare a) :=
  have := List.decidableBAll (fun c => isspace c = false) a
  inferInstanceAs (Decidable (_ ∧ _))

/-- The renderings of a word: in quotes, or bare if it is not empty and has no blank. -/
inductive Word (a : List UInt8) : List UInt8 → Prop
  | quoted : Word a (quote :: (a ++ [quote]))
  | bare : Bare a → Word a a

/-- What may follow a word: further words, each after a run of blanks, and blanks at the end. -/
def Tail : List (List UInt8) → List UInt8 → Prop
  | [], line => Blank line
  | a :: args, line => ∃ gap w rest, line = gap ++ (w ++ rest) ∧ gap ≠ [] ∧ Blank gap ∧
      Word a w ∧ Tail args rest

/-- A line that renders the words, with or without blanks before the first one. -/
def Line : List (List UInt8) → List UInt8 → Prop
  | [], line => Blank line
  | a :: args, line => ∃ gap w rest, line = gap ++ (w ++ rest) ∧ Blank gap ∧ Word a w ∧
      Tail args rest

theorem Tail.line {args : List (List UInt8)} {rest : List UInt8} (h : Tail args rest) :
    Line args rest := by
  cases args with
  | nil => exact h
  | cons a args =>
    obtain ⟨gap, w, rest, rfl, -, hg, hw, ht⟩ := h
    exact ⟨gap, w, rest, rfl, hg, hw, ht⟩

theorem Tail.separated {args : List (List UInt8)} {rest : List UInt8} (h : Tail args rest) :
    Separated rest := by
  intro c hc
  cases args with
  | nil => exact h c (List.mem_of_mem_head? hc)
  | cons a args =>
    obtain ⟨gap, w, rest, rfl, hne, hg, -⟩ := h
    cases gap with
    | nil => exact absurd rfl hne
    | cons d gap =>
      obtain rfl : d = c := by simpa using hc
      exact hg d List.mem_cons_self

theorem Line.zero_not_mem {args : List (List UInt8)} {line : List UInt8} (ha : ∀ a ∈ args, Plain a)
    (h : Line args line) : 0 ∉ line := by
  have hblank : ∀ {gap : List UInt8}, Blank gap → 0 ∉ gap := by
    intro gap hg h0
    exact absurd (hg 0 h0) (by decide)
  induction args generalizing line with
  | nil => exact hblank h
  | cons a args ih =>
    obtain ⟨gap, w, rest, rfl, hg, hw, ht⟩ := h
    have hz := (ha a List.mem_cons_self).1
    have hword : 0 ∉ w := by
      cases hw with
      | quoted => simpa [hz] using (by decide : (0 : UInt8) ≠ quote)
      | bare _ => exact hz
    have hrest := ih (fun b hb => ha b (List.mem_cons_of_mem a hb)) ht.line
    simp [hblank hg, hword, hrest]

theorem Tail.drop {args : List (List UInt8)} {c : UInt8} {rest : List UInt8}
    (h : Tail args (c :: rest)) : Line args rest := by
  cases args with
  | nil => exact fun d hd => h d (List.mem_cons_of_mem c hd)
  | cons a args =>
    obtain ⟨gap, w, rest', heq, hne, hg, hw, ht⟩ := h
    cases gap with
    | nil => exact absurd rfl hne
    | cons d gap =>
      obtain ⟨-, rfl⟩ := List.cons_eq_cons.mp heq
      exact ⟨gap, w, rest', rfl, fun e he => hg e (List.mem_cons_of_mem d he), hw, ht⟩

theorem Tail.of_nil {args : List (List UInt8)} (h : Tail args []) : args = [] := by
  cases args with
  | nil => rfl
  | cons a args =>
    obtain ⟨gap, w, rest, heq, hne, -⟩ := h
    exact absurd (List.append_eq_nil_iff.mp heq.symm).1 hne

/-! ## The main loop -/

section

variable {m : Mem} {p len left : Nat} {argv : List Nat}

theorem parseLoop_end {q : Bool} (h : m p = 0) : parseLoop len left q m p argv = (q, argv, m) := by
  cases left with
  | zero => rfl
  | succ left => rw [parseLoop, if_pos h]

theorem parseLoop_blank {q : Bool} {gap : List UInt8} (hg : Blank gap) (h : Holds m p gap)
    (hl : gap.length ≤ len) : parseLoop len left q m p argv = (q, argv, m) := by
  cases left with
  | zero => rfl
  | succ left =>
    rw [← List.append_nil gap] at h hl
    have hskip : skipSpaces m len p = p + gap.length := h.skipWhile_append hl hg (by simp)
    have hend : m (p + gap.length) = 0 := h.drop
    rw [parseLoop, hskip]
    simp [hend]

/-- One turn of the loop, from the first character that is not a blank. -/
theorem parseLoop_char {q : Bool} {gap s : List UInt8} {c : UInt8} (hg : Blank gap)
    (hc : isspace c = false) (h : Holds m p (gap ++ c :: s))
    (hl : (gap ++ c :: s).length ≤ len) :
    parseLoop len (left + 1) q m p argv =
      if c = quote then
        match skipQuoted len true m (p + gap.length + 1) with
        | (q', m', p') => parseLoop len left q' m' p' (argv ++ [p + gap.length + 1])
      else if m (skipWord m len (p + gap.length)) ≠ 0 then
        parseLoop len left q (m.write (skipWord m len (p + gap.length)) [0])
          (skipWord m len (p + gap.length) + 1) (argv ++ [p + gap.length])
      else parseLoop len left q m (skipWord m len (p + gap.length)) (argv ++ [p + gap.length]) := by
  have hskip : skipSpaces m len p = p + gap.length :=
    h.skipWhile_append hl hg fun d hd => by
      obtain rfl : c = d := by simpa using hd
      exact hc
  have hp : m p ≠ 0 := h.ne_zero (by simp)
  obtain ⟨hc0, hx, -⟩ := h.drop
  rw [parseLoop, if_neg hp, hskip]
  simp only [hx, if_neg hc0]

/-- One turn of the loop over a bare word: the character behind it becomes its NUL. -/
theorem parseLoop_bare {q : Bool} {gap w rest : List UInt8} (hg : Blank gap) (hw : Bare w)
    (hq : w.head? ≠ some quote) (hr : Separated rest) (h : Holds m p (gap ++ (w ++ rest)))
    (hl : (gap ++ (w ++ rest)).length ≤ len) :
    parseLoop len (left + 1) q m p argv =
      match rest with
      | [] => (q, argv ++ [p + gap.length], m)
      | _ :: _ => parseLoop len left q (m.write (p + gap.length + w.length) [0])
          (p + gap.length + w.length + 1) (argv ++ [p + gap.length]) := by
  obtain ⟨hne, hb⟩ := hw
  have hword := h.drop
  have hend : skipWord m len (p + gap.length) = p + gap.length + w.length := by
    apply hword.skipWhile_append
    · rw [List.length_append] at hl
      omega
    · intro d hd
      simp [hb d hd]
    · intro d hd
      simp [hr d hd]
  have htail := hword.drop
  obtain ⟨c, w', rfl⟩ := List.exists_cons_of_ne_nil hne
  have hcq : c ≠ quote := fun hc => hq (congrArg some hc)
  rw [parseLoop_char hg (hb c List.mem_cons_self) h hl, if_neg hcq, hend]
  cases rest with
  | nil =>
    have h0 : m (p + gap.length + (c :: w').length) = 0 := htail
    rw [if_neg (not_not_intro h0), parseLoop_end h0]
  | cons d rest => rw [if_pos (htail.ne_zero (by simp))]

/-- One argument of a rendered line. Either more of the line follows: the argument gets its NUL
at the character behind it, and the loop goes on behind that. Or the line ends with it. -/
theorem parseLoop_word {a : List UInt8} {args : List (List UInt8)} {line : List UInt8}
    (ha : Plain a) (hline : Line (a :: args) line) (h : Holds m p line) (hl : line.length ≤ len) :
    ∃ x, p ≤ x ∧
      ((∃ c rest, Line args rest ∧ Holds m x (a ++ c :: rest) ∧
          x + a.length + 1 + rest.length = p + line.length ∧
          parseLoop len (left + 1) false m p argv =
            parseLoop len left false (m.write (x + a.length) [0]) (x + a.length + 1)
              (argv ++ [x])) ∨
        (args = [] ∧ Holds m x a ∧ x + a.length = p + line.length ∧
          parseLoop len (left + 1) false m p argv = (false, argv ++ [x], m))) := by
  obtain ⟨gap, w, rest, rfl, hg, hw, ht⟩ := hline
  cases hw with
  | quoted =>
    have hfull : gap ++ (quote :: (a ++ [quote]) ++ rest) =
        gap ++ quote :: (a ++ quote :: rest) := by
      simp
    rw [hfull] at h hl ⊢
    obtain ⟨-, -, hword⟩ := h.drop
    have hlen : a.length + 1 + rest.length ≤ len := by
      simp only [List.length_append, List.length_cons] at hl
      omega
    refine ⟨p + gap.length + 1, by omega, .inl ⟨quote, rest, ht.line, hword, ?_, ?_⟩⟩
    · simp only [List.length_append, List.length_cons]
      omega
    · rw [parseLoop_char hg (by decide) h hl, if_pos rfl,
        skipQuoted_closed ha.2 ht.separated hword hlen]
  | bare hbare =>
    have hq : a.head? ≠ some quote := fun hc => ha.2 (List.mem_of_mem_head? hc)
    have hword := h.drop
    refine ⟨p + gap.length, by omega, ?_⟩
    cases rest with
    | nil =>
      rw [List.append_nil] at hword
      refine .inr ⟨ht.of_nil, hword, ?_, parseLoop_bare hg hbare hq ht.separated h hl⟩
      simp only [List.length_append, List.length_nil]
      omega
    | cons d rest =>
      refine .inl ⟨d, rest, ht.drop, hword, ?_, parseLoop_bare hg hbare hq ht.separated h hl⟩
      simp only [List.length_append, List.length_cons]
      omega

/-- **A rendered line is split into its words.** Each argument is a pointer into the line, and
what is behind an argument is written later without touching it. -/
theorem parseLoop_line (argv : List Nat) {args : List (List UInt8)} {line : List UInt8}
    (ha : ∀ a ∈ args, Plain a) (hleft : args.length ≤ left) (hline : Line args line)
    (h : Holds m p line) (hl : line.length ≤ len) :
    ∃ xs m', parseLoop len left false m p argv = (false, argv ++ xs, m') ∧
      (∀ i, i < p ∨ p + line.length ≤ i → m' i = m i) ∧
      List.Forall₂ (fun x a => Holds m' x a ∧ x + a.length ≤ p + line.length) xs args := by
  induction args generalizing left m p argv line with
  | nil =>
    refine ⟨[], m, ?_, fun i _ => rfl, .nil⟩
    rw [parseLoop_blank hline h hl, List.append_nil]
  | cons a args ih =>
    obtain ⟨left, rfl⟩ : ∃ k, left = k + 1 := ⟨left - 1, by simp at hleft; omega⟩
    obtain ⟨x, hx, ⟨c, rest, hrest, hw, hlen, heq⟩ | ⟨rfl, hw, hlen, heq⟩⟩ :=
      parseLoop_word (ha a List.mem_cons_self) hline h hl
    · have hcut : Holds (m.write (x + a.length) [0]) x a := hw.cut
      have hnext : Holds (m.write (x + a.length) [0]) (x + a.length + 1) rest := by
        have hd := hw.drop
        exact hd.2.2.write_before (by simp)
      obtain ⟨xs, m', hrun, hframe, hxs⟩ :=
        ih (argv ++ [x]) (fun b hb => ha b (List.mem_cons_of_mem a hb))
        (Nat.le_of_succ_le_succ hleft) hrest hnext (by omega)
      refine ⟨x :: xs, m', ?_, ?_, ?_⟩
      · rw [heq, hrun, List.append_assoc, List.singleton_append]
      · intro i hi
        rw [hframe i (by omega)]
        exact write_of_not_mem _ _ _ _ (by simp; omega)
      · rw [hlen] at hxs
        refine .cons ⟨hcut.congr ?_, by omega⟩ hxs
        intro i h1 h2
        exact hframe i (by omega)
    · refine ⟨[x], m, heq, fun i _ => rfl, .cons ⟨hw, by omega⟩ .nil⟩

/-- What is left behind a token says where the last quote of the whole line is: the scan does not
write there. -/
theorem lastQuote_back {m₁ : Mem} {p' stop x : Nat} (hle : p ≤ p')
    (hsame : ∀ i, p' ≤ i → m₁ i = m i) (hlt : p' < x) (hq : m₁ (x - 1) = quote)
    (hno : ∀ i, x ≤ i → i < stop → m₁ i ≠ quote) :
    p < x ∧ m (x - 1) = quote ∧ ∀ i, x ≤ i → i < stop → m i ≠ quote := by
  refine ⟨by omega, ?_, fun i h1 h2 => ?_⟩
  · rw [← hsame _ (by omega)]
    exact hq
  · rw [← hsame i (by omega)]
    exact hno i h1 h2

/-- A set flag at the end comes from the last argument: it was opened by a quote, and no quote
follows in the line. -/
theorem parseLoop_unclosed {s : List UInt8} {argv' : List Nat} {m' : Mem} (h : Holds m p s)
    (hl : s.length ≤ len) (hrun : parseLoop len left false m p argv = (true, argv', m')) :
    ∃ x, argv'.getLast? = some x ∧ p < x ∧ m (x - 1) = quote ∧
      ∀ i, x ≤ i → i < p + s.length → m i ≠ quote := by
  induction left generalizing m p argv s with
  | zero => simp [parseLoop] at hrun
  | succ left ih =>
    obtain ⟨gap, rest, rfl, hg, hr⟩ := split_while isspace s
    cases rest with
    | nil =>
      rw [List.append_nil] at h hl
      simp [parseLoop_blank hg h hl] at hrun
    | cons c s =>
      by_cases hc : c = quote
      · -- a quoted argument: the flag it leaves is the one at the end, or is clear
        rw [parseLoop_char hg (hr c rfl) h hl, if_pos hc] at hrun
        have hlen : (gap ++ c :: s).length = gap.length + 1 + s.length := by
          simp only [List.length_append, List.length_cons]
          omega
        rw [hlen] at hl ⊢
        obtain ⟨-, hq, hs⟩ := h.drop
        rcases he : skipQuoted len true m (p + gap.length + 1) with ⟨q', m₁, p'⟩
        rw [he] at hrun
        obtain ⟨hle, hsame, ⟨rest, hrest, hend⟩, hopen⟩ := skipQuoted_rest hs (by omega) he
        cases q' with
        | true =>
          obtain ⟨-, hns, h0⟩ := hopen rfl
          dsimp only at hrun
          rw [parseLoop_end h0] at hrun
          obtain ⟨-, rfl, -⟩ : True ∧ argv ++ [p + gap.length + 1] = argv' ∧ m₁ = m' := by
            simpa using hrun
          refine ⟨p + gap.length + 1, by simp, by omega, by rw [← hc]; exact hq, ?_⟩
          intro i h1 h2 heq
          exact hns (heq ▸ hs.mem h1 (by omega))
        | false =>
          obtain ⟨x, hx, hlt, hxq, hno⟩ := ih hrest (by omega) hrun
          rw [hend] at hno
          refine ⟨x, hx, lastQuote_back (by omega) hsame hlt hxq fun i h1 h2 => ?_⟩
          exact hno i h1 (by omega)
      · -- a bare argument leaves the flag alone
        obtain ⟨w, rest, rfl, hw, hrest⟩ := split_while (fun d => !isspace d) s
        have hbare : Bare (c :: w) := by
          refine ⟨List.cons_ne_nil c w, List.forall_mem_cons.mpr ⟨hr c rfl, fun d hd => ?_⟩⟩
          simpa using hw d hd
        have hsep : Separated rest := fun d hd => by simpa using hrest d hd
        rw [← List.cons_append] at h hl ⊢
        rw [parseLoop_bare hg hbare (by simpa using hc) hsep h hl] at hrun
        cases rest with
        | nil => simp at hrun
        | cons d rest =>
          have hnext : Holds (m.write (p + gap.length + (c :: w).length) [0])
              (p + gap.length + (c :: w).length + 1) rest := h.drop.drop.2.2.write_before (by simp)
          simp only [List.length_append, List.length_cons] at hl hnext hrun ⊢
          obtain ⟨x, hx, hlt, hxq, hno⟩ := ih hnext (by omega) hrun
          have hsame : ∀ i, p + gap.length + (w.length + 1) + 1 ≤ i →
              m.write (p + gap.length + (w.length + 1)) [0] i = m i := fun i hi =>
            write_of_ge _ _ _ _ hi
          refine ⟨x, hx, lastQuote_back (by omega) hsame hlt hxq fun i h1 h2 => ?_⟩
          exact hno i h1 (by omega)

end

/-- **Splitting inverts quoting**, and a line is refused only for a quotation that is never
closed. -/
theorem parse_args_inverts_quoting :
    (∀ (args : List (List UInt8)) (line : List UInt8) (m : Mem), (∀ a ∈ args, Plain a) →
      args.length ≤ maxArgCount → Line args line → Holds m 0 line →
      ∃ argv m', parseArgs m line.length = (0, argv, m') ∧ argv.length = args.length ∧
        List.Forall₂ (fun x a => Holds m' x a ∧ x + a.length ≤ line.length) argv args) ∧
    (∀ (line : List UInt8) (m : Mem), Holds m 0 line → (parseArgs m line.length).1 = -1 →
      ∃ x, (parseArgs m line.length).2.1.getLast? = some x ∧ 0 < x ∧ m (x - 1) = quote ∧
        ∀ i, x ≤ i → i < line.length → m i ≠ quote) := by
  constructor
  · intro args line m ha hn hline h
    obtain ⟨xs, m', hrun, -, hxs⟩ := parseLoop_line [] ha hn hline h (Nat.le_refl _)
    rw [Nat.zero_add] at hxs
    exact ⟨xs, m', by simp [parseArgs, hrun], hxs.length_eq, hxs⟩
  · intro line m h hcode
    rcases hrun : parseLoop line.length maxArgCount false m 0 [] with ⟨q, argv, m'⟩
    cases q with
    | false => simp [parseArgs, hrun] at hcode
    | true =>
      obtain ⟨x, hx, hpos, hq, hno⟩ := parseLoop_unclosed h (Nat.le_refl _) hrun
      rw [Nat.zero_add] at hno
      exact ⟨x, by simpa [parseArgs, hrun] using hx, hpos, hq, hno⟩

/-- A line as the console receives it, in a buffer that is otherwise zero. -/
def received (line : List UInt8) : Mem := Mem.write (fun _ => 0) 0 (line ++ [0])

/-- Words in quotes and bare ones, and a line whose last word is never closed. -/
theorem quoted_value_split :
    (∃ argv m', parseArgs (received (ascii " SET \"a b\" \"\"\t")) 14 = (0, argv, m') ∧
      argv.length = 3 ∧
      List.Forall₂ (fun x a => Holds m' x a ∧ x + a.length ≤ 14) argv
        [ascii "SET", ascii "a b", []]) ∧
    (∃ x, (parseArgs (received (ascii "SET \"k")) 6).2.1.getLast? = some x ∧ 0 < x ∧
      received (ascii "SET \"k") (x - 1) = quote ∧
      ∀ i, x ≤ i → i < 6 → received (ascii "SET \"k") i ≠ quote) := by
  constructor
  · apply parse_args_inverts_quoting.1 [ascii "SET", ascii "a b", []] (ascii " SET \"a b\" \"\"\t")
    · decide
    · decide
    · have hend : Tail [] (ascii "\t") := (by decide : Blank (ascii "\t"))
      exact ⟨ascii " ", ascii "SET", ascii " \"a b\" \"\"\t", rfl, by decide,
        .bare (by decide), ascii " ", quote :: (ascii "a b" ++ [quote]),
        ascii " \"\"\t", rfl, by decide, by decide, .quoted, ascii " ", quote :: ([] ++ [quote]),
        ascii "\t", rfl, by decide, by decide, .quoted, hend⟩
    · exact holds_write (by decide)
  · exact parse_args_inverts_quoting.2 (ascii "SET \"k") _ (holds_write (by decide)) (by decide)

end Vfast.CmdArgs
