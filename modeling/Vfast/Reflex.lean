import Vfast.Lib.CStrings
import Vfast.Lib.Run

/-! The console client (`vfreflex.c`) and the part of `linenoise.c` that calls it: completion of the
line that is being edited. `completion_callback` looks at the last character and at the first two
words, so it fails on lines without a word, and its completions, which replace the whole line,
drop what else was typed. -/

namespace Vfast.Reflex

open CStrings Run

def space : UInt8 := 0x20

/-- An entry of `cli_ui_data`. The entry that ends the table is not part of it. -/
structure UiEntry where
  name : List UInt8
  hint : List UInt8
  subs : Option (List (List UInt8))
  deriving DecidableEq

def setSubs : List (List UInt8) := [ascii "interval", ascii "logpkt", ascii "debug"]

def getSubs : List (List UInt8) :=
  [ascii "config", ascii "pktstats", ascii "session", ascii "show", ascii "tasks"]

def helpSubs : List (List UInt8) := [ascii "SET", ascii "GET"]

def cliUiData : List UiEntry := [
  ⟨ascii "SET", ascii " <key> <value>", some setSubs⟩,
  ⟨ascii "GET", ascii " <key>", some getSubs⟩,
  ⟨ascii "STATUS", ascii " (Check server health)", none⟩,
  ⟨ascii "HELP", ascii " [command]", some helpSubs⟩,
  ⟨ascii "EXIT", ascii " (Close console)", none⟩]

/-- What the callback does that C does not define: a read outside the line buffer, and the use of
a token that is `NULL`. -/
inductive Fault where
  | outside (index : Nat)
  | missingToken
  deriving DecidableEq

/-- `buf[i]` of a buffer that holds the line and its NUL. -/
def charAt (buf : List UInt8) (i : Nat) : Except Fault UInt8 :=
  match (buf ++ [0])[i]? with
  | some c => .ok c
  | none => .error (.outside i)

/-- The tokens that the loop over `strtok` stores, at most `n`. -/
def tokens : (n : Nat) → List UInt8 → List (List UInt8)
  | 0, _ => []
  | n + 1, text =>
    match strtok space text with
    | none => []
    | some (token, rest) => token :: tokens n rest

/-- `token_count <= 1 && buf[strlen(buf) - 1] != ' '`; `strlen` is a `size_t`. -/
def primaryLevel (tokenCount : Nat) (buf : List UInt8) : Except Fault Bool :=
  if tokenCount ≤ 1 then (charAt buf (UInt64.ofNat buf.length - 1).toNat).map (· != space)
  else .ok false

/-- The sub-commands of an entry that begin with the prefix, each as a whole line. `full_line` has
128 bytes. -/
def subLines (e : UiEntry) (subs : List (List UInt8)) (subPrefix : List UInt8) :
    List (List UInt8) :=
  (subs.filter fun sub => sameTextN subPrefix sub subPrefix.length).map fun sub =>
    (e.name ++ space :: sub).take 127

/-- The loop over the table for a sub-command; `primary` may be `NULL`. -/
def subLoop (primary : Option (List UInt8)) (subPrefix : List UInt8) :
    List UiEntry → Except Fault (List (List UInt8))
  | [] => .ok []
  | e :: ui =>
    match primary with
    | none => .error .missingToken
    | some primary =>
      if sameText primary e.name then
        match e.subs with
        | some subs => .ok (subLines e subs subPrefix)
        | none => subLoop (some primary) subPrefix ui
      else subLoop (some primary) subPrefix ui

/-- `completion_callback`: the completions it offers. -/
def completionCallback (cliUiData : List UiEntry) (buf : List UInt8) :
    Except Fault (List (List UInt8)) :=
  let tokens := tokens 2 buf
  match primaryLevel tokens.length buf with
  | .error fault => .error fault
  | .ok true =>
    .ok ((cliUiData.filter fun e => sameTextN buf e.name buf.length).map UiEntry.name)
  | .ok false => subLoop tokens[0]? (tokens[1]?.getD []) cliUiData

/-! ## Lines -/

/-- A line: blanks, a first word, a gap, a second word, and what is behind it. -/
structure Shape (line blanks word gap second rest : List UInt8) : Prop where
  eq : line = blanks ++ (word ++ (gap ++ (second ++ rest)))
  lead : ∀ c ∈ blanks, c = space
  word_ne : word ≠ []
  word_free : space ∉ word
  between : ∀ c ∈ gap, c = space
  one_word : gap = [] → second = []
  second_free : space ∉ second
  no_second : second = [] → rest = []
  behind : ∀ c ∈ rest.head?, c = space

theorem exists_shape {line : List UInt8} (h : ∃ c ∈ line, c ≠ space) :
    ∃ blanks word gap second rest, Shape line blanks word gap second rest := by
  obtain ⟨blanks, s₁, rfl, hb, h₁⟩ := split_while (· == space) line
  obtain ⟨word, s₂, rfl, hw, h₂⟩ := split_while (· != space) s₁
  obtain ⟨gap, s₃, rfl, hg, h₃⟩ := split_while (· == space) s₂
  obtain ⟨second, rest, rfl, hs, h₄⟩ := split_while (· != space) s₃
  simp only [beq_iff_eq, bne_iff_ne, beq_eq_false_iff_ne, bne_eq_false_iff_eq]
    at hb hw hg hs h₁ h₂ h₃ h₄
  refine ⟨blanks, word, gap, second, rest, rfl, hb, ?_, fun hm => hw _ hm rfl, hg, ?_,
    fun hm => hs _ hm rfl, ?_, h₄⟩
  · -- without a word nothing but blanks is left
    rintro rfl
    have hnil : gap ++ (second ++ rest) = [] := by
      cases hcase : gap ++ (second ++ rest) with
      | nil => rfl
      | cons c t =>
        rw [hcase] at h₁ h₂
        exact absurd (h₂ c rfl) (h₁ c rfl)
    obtain ⟨c, hc, hne⟩ := h
    rw [hnil, List.append_nil, List.append_nil] at hc
    exact hne (hb c hc)
  · rintro rfl
    cases second with
    | nil => rfl
    | cons c second => exact absurd (h₂ c rfl) (hs c List.mem_cons_self)
  · rintro rfl
    cases rest with
    | nil => rfl
    | cons c rest => exact absurd (h₄ c rfl) (h₃ c rfl)

section

variable {line blanks word gap second rest : List UInt8}

/-- **The tokens of a line** are its first two words. -/
theorem Shape.tokens (h : Shape line blanks word gap second rest) :
    tokens 2 line = word :: if second = [] then [] else [second] := by
  have hgap : ∀ c ∈ (gap ++ (second ++ rest)).head?, c = space := by
    intro c hc
    cases gap with
    | nil =>
      rw [h.one_word rfl, h.no_second (h.one_word rfl)] at hc
      cases hc
    | cons d gap =>
      obtain rfl : d = c := by simpa using hc
      exact h.between d List.mem_cons_self
  rw [h.eq, Reflex.tokens, strtok_word h.lead h.word_ne h.word_free hgap]
  dsimp only
  rw [Reflex.tokens]
  have htail : ∀ c ∈ gap.tail, c = space := fun c hc => h.between c (List.mem_of_mem_tail hc)
  by_cases hs : second = []
  · -- behind the first word there are only blanks
    have hblank : ∀ c ∈ (gap ++ (second ++ rest)).tail, c = space := by
      rw [hs, h.no_second hs, List.append_nil, List.append_nil]
      exact htail
    rw [strtok_blank hblank, if_pos hs]
  · have hne : gap ≠ [] := fun he => hs (h.one_word he)
    rw [List.tail_append_of_ne_nil hne, strtok_word htail hs h.second_free h.behind, if_neg hs]
    rfl

theorem Shape.ne_nil (h : Shape line blanks word gap second rest) : line ≠ [] := by
  rw [h.eq]
  simp [h.word_ne]

theorem tokens_blank (h : ∀ c ∈ line, c = space) : tokens 2 line = [] := by
  rw [tokens, strtok_blank h]

/-- `buf[strlen(buf) - 1]` is the last character of a line that is not empty. -/
theorem charAt_last (hne : line ≠ []) (hlen : line.length ≤ 4095) :
    charAt line (UInt64.ofNat line.length - 1).toNat = .ok (line.getLast hne) := by
  have hpos := List.length_pos_iff.mpr hne
  have hidx : (UInt64.ofNat line.length - 1).toNat = line.length - 1 := by
    have hof : (UInt64.ofNat line.length).toNat = line.length := by
      rw [UInt64.toNat_ofNat']
      exact Nat.mod_eq_of_lt (by omega)
    have hone : (1 : UInt64) ≤ UInt64.ofNat line.length := by
      rw [UInt64.le_iff_toNat_le, hof]
      exact hpos
    rw [UInt64.toNat_sub_of_le _ _ hone, hof]
    rfl
  rw [charAt, hidx, List.getElem?_append_left (by omega), List.getElem?_eq_getElem (by omega),
    List.getLast_eq_getElem]

/-- **The level of a line**: the first word is completed exactly if nothing follows it. -/
theorem Shape.level (h : Shape line blanks word gap second rest) (hlen : line.length ≤ 4095) :
    primaryLevel (Reflex.tokens 2 line).length line = .ok (decide (gap = [])) := by
  rw [h.tokens, primaryLevel]
  by_cases hs : second = []
  · rw [if_pos hs, if_pos (by simp), charAt_last h.ne_nil hlen]
    have hline : line = blanks ++ (word ++ gap) := by
      rw [h.eq, hs, h.no_second hs, List.append_nil, List.append_nil]
    subst hline
    by_cases hg : gap = []
    · subst hg
      have hlast : (blanks ++ (word ++ [])).getLast h.ne_nil = word.getLast h.word_ne := by
        simp [List.getLast_append_of_ne_nil, h.word_ne]
      have hne : word.getLast h.word_ne ≠ space := fun he =>
        h.word_free (he ▸ List.getLast_mem h.word_ne)
      rw [hlast]
      simpa [Except.map] using hne
    · have hlast : (blanks ++ (word ++ gap)).getLast h.ne_nil = gap.getLast hg := by
        simp [List.getLast_append_of_ne_nil, hg]
      have hblank := h.between _ (List.getLast_mem hg)
      rw [hlast, hblank]
      simp [Except.map, hg]
  · have hg : gap ≠ [] := fun he => hs (h.one_word he)
    rw [if_neg hs, if_neg (by simp), decide_eq_false hg]

end

/-! ## What is offered -/

/-- Names and sub-commands are single words, a whole line fits `full_line`, and no two entries have
the same name. -/
structure WellFormed (ui : List UiEntry) : Prop where
  name_ne : ∀ e ∈ ui, e.name ≠ []
  name_short : ∀ e ∈ ui, e.name.length ≤ 127
  name_free : ∀ e ∈ ui, space ∉ e.name
  sub_free : ∀ e ∈ ui, ∀ subs ∈ e.subs, ∀ sub ∈ subs, space ∉ sub
  fits : ∀ e ∈ ui, ∀ subs ∈ e.subs, ∀ sub ∈ subs, (e.name ++ space :: sub).length ≤ 127
  distinct : ∀ e ∈ ui, ∀ e' ∈ ui, sameText e.name e'.name → e = e'

theorem cliUiData_wellFormed : WellFormed cliUiData :=
  ⟨by decide, by decide, by decide, by decide, by decide, by decide⟩

theorem WellFormed.tail {e : UiEntry} {ui : List UiEntry} (h : WellFormed (e :: ui)) :
    WellFormed ui := by
  have hmem : ∀ {e' : UiEntry}, e' ∈ ui → e' ∈ e :: ui := List.mem_cons_of_mem e
  exact ⟨fun e' he => h.name_ne e' (hmem he), fun e' he => h.name_short e' (hmem he),
    fun e' he => h.name_free e' (hmem he), fun e' he => h.sub_free e' (hmem he),
    fun e' he => h.fits e' (hmem he),
    fun e' he e'' he' => h.distinct e' (hmem he) e'' (hmem he')⟩

/-- The line is offered for a first and a second word: a command of the first word's name, and a
sub-command that begins with the second. -/
def Offers (ui : List UiEntry) (word second line : List UInt8) : Prop :=
  ∃ e ∈ ui, sameText word e.name ∧ ∃ subs ∈ e.subs, ∃ sub ∈ subs, Begins second sub ∧
    line = e.name ++ space :: sub

theorem mem_subLines {e : UiEntry} {subs : List (List UInt8)} {second c : List UInt8}
    (hfits : ∀ sub ∈ subs, (e.name ++ space :: sub).length ≤ 127) :
    c ∈ subLines e subs second ↔ ∃ sub ∈ subs, Begins second sub ∧ c = e.name ++ space :: sub := by
  unfold subLines
  rw [List.mem_map]
  constructor
  · rintro ⟨sub, hsub, rfl⟩
    obtain ⟨hmem, hbegins⟩ := List.mem_filter.mp hsub
    exact ⟨sub, hmem, sameTextN_iff.mp hbegins, List.take_of_length_le (hfits sub hmem)⟩
  · rintro ⟨sub, hmem, hbegins, rfl⟩
    exact ⟨sub, List.mem_filter.mpr ⟨hmem, sameTextN_iff.mpr hbegins⟩,
      List.take_of_length_le (hfits sub hmem)⟩

/-- **What the loop over the table offers.** It stops at the first entry of the name, and there is
only one. -/
theorem mem_subLoop {ui : List UiEntry} (hui : WellFormed ui) (word second : List UInt8) :
    ∃ cs, subLoop (some word) second ui = .ok cs ∧ ∀ c, c ∈ cs ↔ Offers ui word second c := by
  induction ui with
  | nil => exact ⟨[], rfl, fun c => by simp [Offers]⟩
  | cons e ui ih =>
    obtain ⟨cs, hcs, hmem⟩ := ih hui.tail
    -- an entry that offers nothing is passed over
    have hskip : (sameText word e.name = true → e.subs = none) →
        ∀ c, c ∈ cs ↔ Offers (e :: ui) word second c := by
      intro hno c
      rw [hmem c]
      constructor
      · rintro ⟨e', he', hrest⟩
        exact ⟨e', List.mem_cons_of_mem e he', hrest⟩
      · rintro ⟨e', he', hname, subs, hsubs, hrest⟩
        rcases List.mem_cons.mp he' with rfl | he'
        · rw [hno hname] at hsubs
          cases hsubs
        · exact ⟨e', he', hname, subs, hsubs, hrest⟩
    rw [subLoop]
    by_cases hname : sameText word e.name = true
    · rw [if_pos hname]
      cases hsubs : e.subs with
      | none => exact ⟨cs, hcs, hskip fun _ => hsubs⟩
      | some subs =>
        refine ⟨_, rfl, fun c => ?_⟩
        rw [mem_subLines (hui.fits e List.mem_cons_self subs hsubs)]
        constructor
        · rintro ⟨sub, hsub, hbegins, rfl⟩
          exact ⟨e, List.mem_cons_self, hname, subs, hsubs, sub, hsub, hbegins, rfl⟩
        · rintro ⟨e', he', hname', subs', hsubs', sub, hsub, hrest⟩
          obtain rfl : e = e' := hui.distinct e List.mem_cons_self e' he'
            (sameText_trans (sameText_symm hname) hname')
          obtain rfl : subs = subs' := Option.some.inj (hsubs.symm.trans hsubs')
          exact ⟨sub, hsub, hrest⟩
    · rw [if_neg hname]
      exact ⟨cs, hcs, hskip fun h => absurd h hname⟩

section

variable {ui : List UiEntry} {line blanks word gap second rest : List UInt8}

/-- **What the callback offers** for a line with a word. -/
theorem Shape.callback (h : Shape line blanks word gap second rest) (hlen : line.length ≤ 4095)
    (hui : WellFormed ui) : ∃ cs, completionCallback ui line = .ok cs ∧
      ∀ c, c ∈ cs ↔ (gap = [] ∧ ∃ e ∈ ui, Begins line e.name ∧ c = e.name) ∨
        (gap ≠ [] ∧ Offers ui word second c) := by
  have hlevel := h.level hlen
  rw [h.tokens] at hlevel
  unfold completionCallback
  dsimp only
  rw [h.tokens, hlevel]
  by_cases hg : gap = []
  · rw [decide_eq_true hg]
    refine ⟨_, rfl, fun c => ?_⟩
    simp only [List.mem_map, List.mem_filter, sameTextN_iff, hg, true_and, ne_eq,
      not_true_eq_false, false_and, or_false]
    constructor
    · rintro ⟨e, ⟨he, hb⟩, rfl⟩
      exact ⟨e, he, hb, rfl⟩
    · rintro ⟨e, he, hb, rfl⟩
      exact ⟨e, ⟨he, hb⟩, rfl⟩
  · rw [decide_eq_false hg]
    have hsecond : (word :: if second = [] then [] else [second])[1]?.getD [] = second := by
      by_cases hs : second = []
      · simp [hs]
      · simp [hs]
    obtain ⟨cs, hcs, hmem⟩ := mem_subLoop hui word second
    dsimp only
    rw [hsecond]
    exact ⟨cs, hcs, fun c => by simp [hmem c, hg]⟩

/-! ## Extensions of the line -/

theorem tolower_eq_space {c : UInt8} : tolower c = space ↔ c = space := by
  unfold tolower
  split
  · rename_i h
    simp only [Bool.and_eq_true, decide_eq_true_eq, UInt8.le_iff_toNat_le] at h
    have hlow : (0x41 : UInt8).toNat = 65 := rfl
    have hhigh : (0x5A : UInt8).toNat = 90 := rfl
    have h20 : (0x20 : UInt8).toNat = 32 := rfl
    rw [space, ← UInt8.toNat_inj, ← UInt8.toNat_inj, UInt8.toNat_add]
    omega
  · exact Iff.rfl

theorem count_tolower (s : List UInt8) : (s.map tolower).count space = s.count space := by
  induction s with
  | nil => rfl
  | cons c s ih => simp [List.count_cons, ih, tolower_eq_space]

theorem Shape.count (h : Shape line blanks word gap second rest) :
    line.count space = blanks.length + gap.length + rest.count space := by
  have hall : ∀ {s : List UInt8}, (∀ c ∈ s, c = space) → s.count space = s.length := fun hs =>
    List.count_eq_length.mpr fun c hc => (hs c hc).symm
  rw [h.eq]
  simp only [List.count_append, hall h.lead, hall h.between, List.count_eq_zero.mpr h.word_free,
    List.count_eq_zero.mpr h.second_free]
  omega

/-- **An offered line extends the one that was typed** exactly if that is the two words with one
blank between them: the offered line has only one. -/
theorem Shape.begins_iff (h : Shape line blanks word gap second rest) (hg : gap ≠ [])
    {name sub : List UInt8} (hname : sameText word name = true) (hfree : space ∉ name)
    (hsub : space ∉ sub) (hsecond : Begins second sub) :
    Begins line (name ++ space :: sub) ↔ blanks = [] ∧ gap = [space] ∧ rest = [] := by
  constructor
  · intro hb
    have hcount := List.Sublist.count_le space (List.IsPrefix.sublist hb)
    rw [count_tolower, count_tolower, h.count, List.count_append, List.count_cons_self,
      List.count_eq_zero.mpr hfree, List.count_eq_zero.mpr hsub] at hcount
    have hpos := List.length_pos_iff.mpr hg
    refine ⟨List.eq_nil_of_length_eq_zero (by omega), ?_, ?_⟩
    · obtain ⟨c, rfl⟩ := List.length_eq_one_iff.mp (by omega : gap.length = 1)
      rw [h.between c List.mem_cons_self]
    · cases rest with
      | nil => rfl
      | cons c rest =>
        rw [h.behind c rfl, List.count_cons_self] at hcount
        omega
  · rintro ⟨rfl, rfl, rfl⟩
    obtain ⟨t, ht⟩ := hsecond
    refine ⟨t, ?_⟩
    rw [h.eq]
    simp only [List.nil_append, List.append_nil, List.map_append, List.map_cons,
      sameText_iff.mp hname, ← ht, List.append_assoc, List.cons_append]

/-! ## Safe lines -/

/-- The callback stays within the buffer, uses no missing token, and offers only extensions of the
line. -/
def Safe (ui : List UiEntry) (line : List UInt8) : Prop :=
  ∃ cs, completionCallback ui line = .ok cs ∧ ∀ c ∈ cs, Begins line c

/-- A line is safe if nothing is offered for a second word, or it is just the two words. -/
theorem Shape.safe_iff (h : Shape line blanks word gap second rest) (hlen : line.length ≤ 4095)
    (hui : WellFormed ui) : Safe ui line ↔
      (gap ≠ [] → (∃ c, Offers ui word second c) → blanks = [] ∧ gap = [space] ∧ rest = []) := by
  obtain ⟨cs, hcs, hmem⟩ := h.callback hlen hui
  have hiff : gap ≠ [] → ∀ c, Offers ui word second c →
      (Begins line c ↔ blanks = [] ∧ gap = [space] ∧ rest = []) := by
    rintro hg c ⟨e, he, hname, subs, hsubs, sub, hsub, hbegins, rfl⟩
    exact h.begins_iff hg hname (hui.name_free e he) (hui.sub_free e he subs hsubs sub hsub) hbegins
  constructor
  · rintro ⟨cs', hcs', hall⟩ hg ⟨c, hc⟩
    obtain rfl : cs = cs' := Except.ok.inj (hcs.symm.trans hcs')
    exact (hiff hg c hc).mp (hall c ((hmem c).mpr (.inr ⟨hg, hc⟩)))
  · intro hcond
    refine ⟨cs, hcs, fun c hc => ?_⟩
    rcases (hmem c).mp hc with ⟨-, e, -, hb, rfl⟩ | ⟨hg, ho⟩
    · exact hb
    · exact (hiff hg c ho).mpr (hcond hg ⟨c, ho⟩)

/-- A line without a word makes the callback fail. -/
theorem blank_fault (hui : ui ≠ []) (hlen : line.length ≤ 4095) (h : ∀ c ∈ line, c = space) :
    ¬ Safe ui line := by
  rintro ⟨cs, hcs, -⟩
  unfold completionCallback at hcs
  dsimp only at hcs
  rw [tokens_blank h, primaryLevel, if_pos (by simp)] at hcs
  cases line with
  | nil => cases hcs
  | cons c line =>
    have hlast := h _ (List.getLast_mem (List.cons_ne_nil c line))
    obtain ⟨e, ui, rfl⟩ := List.exists_cons_of_ne_nil hui
    rw [charAt_last (List.cons_ne_nil c line) hlen, hlast] at hcs
    cases hcs

theorem Safe.has_word (h : Safe ui line) (hui : ui ≠ []) (hlen : line.length ≤ 4095) :
    ∃ c ∈ line, c ≠ space := by
  by_contra hblank
  push Not at hblank
  exact blank_fault hui hlen hblank h

end

/-- The line that `linenoise` hands over: a C string in its buffer of 4096 bytes, of which it keeps
the last one free. -/
structure LineBuf where
  text : List UInt8
  nul : 0 ∉ text
  fits : text.length ≤ 4095

/-- **Completion is safe exactly for lines with a word that**, where a sub-command is offered,
**are just a first word, one blank and the second word.** -/
theorem completion_safe_iff (line : LineBuf) :
    Safe cliUiData line.text ↔
      ∃ blanks word gap second rest, Shape line.text blanks word gap second rest ∧
        (gap ≠ [] → (∃ c, Offers cliUiData word second c) →
          blanks = [] ∧ gap = [space] ∧ rest = []) := by
  constructor
  · intro h
    obtain ⟨blanks, word, gap, second, rest, hs⟩ := exists_shape (h.has_word (by decide) line.fits)
    exact ⟨blanks, word, gap, second, rest, hs,
      (hs.safe_iff line.fits cliUiData_wellFormed).mp h⟩
  · rintro ⟨blanks, word, gap, second, rest, hs, hcond⟩
    exact (hs.safe_iff line.fits cliUiData_wellFormed).mpr hcond

/-- **Completion fails on lines without a word and drops a third one**: on the empty line the
callback reads before the buffer, on a blank it compares a missing token, and for `set i x` it
offers `SET interval`. -/
theorem completion_unsafe :
    completionCallback cliUiData [] = .error (.outside 0xFFFFFFFFFFFFFFFF) ∧
    completionCallback cliUiData (ascii " ") = .error .missingToken ∧
    completionCallback cliUiData (ascii "set i x") = .ok [ascii "SET interval"] ∧
    ¬ Begins (ascii "set i x") (ascii "SET interval") := by
  refine ⟨rfl, rfl, rfl, ?_⟩
  unfold Begins
  decide

/-! ## The editor -/

/-- The part of `linenoiseState` that completion uses. -/
structure LineState where
  buf : List UInt8
  inCompletion : Bool
  completionIdx : Nat

/-- `completeLine` of `linenoise.c`: the state, and the key that is left for the editor (0 if there
is none). The line is replaced by `snprintf` with a `buflen` of 4095. -/
def completeLine (ui : List UiEntry) (ls : LineState) (keypressed : UInt8) :
    Except Fault (LineState × UInt8) :=
  match completionCallback ui ls.buf with
  | .error fault => .error fault
  | .ok lc =>
    if lc.length = 0 then .ok ({ ls with inCompletion := false }, 0)
    else if keypressed = 9 then
      if ls.inCompletion = false then .ok ({ ls with inCompletion := true, completionIdx := 0 }, 0)
      else .ok ({ ls with completionIdx := (ls.completionIdx + 1) % (lc.length + 1) }, 0)
    else if keypressed = 27 then .ok ({ ls with inCompletion := false }, 0)
    else
      match lc[ls.completionIdx]? with
      | some c => .ok ({ ls with buf := c.take 4094, inCompletion := false }, keypressed)
      | none => .ok ({ ls with inCompletion := false }, keypressed)

/-- The keys that completion gets: TAB, and every key while `in_completion` is set. -/
def completing (ui : List UiEntry) (typed : List UInt8) : System LineState UInt8 where
  init ls := ls.buf = typed ∧ ls.inCompletion = false
  step ls key ls' := (ls.inCompletion = true ∨ key = 9) ∧
    ∃ c, completeLine ui ls key = .ok (ls', c)

section

variable {ui : List UiEntry} {ls ls' : LineState} {key : UInt8}

/-- **What a key does to the line**: nothing, or it becomes one of the completions. -/
theorem completeLine_buf {c : UInt8} (h : completeLine ui ls key = .ok (ls', c)) :
    ls'.buf = ls.buf ∨ ∃ cs, completionCallback ui ls.buf = .ok cs ∧
      ∃ o ∈ cs, ls'.buf = o.take 4094 := by
  unfold completeLine at h
  split at h
  · cases h
  rename_i lc hlc
  split at h
  · cases h
    exact .inl rfl
  split at h
  · split at h <;> cases h <;> exact .inl rfl
  split at h
  · cases h
    exact .inl rfl
  split at h
  · rename_i o ho
    cases h
    exact .inr ⟨lc, hlc, o, List.mem_of_getElem? ho, rfl⟩
  · cases h
    exact .inl rfl

/-- The callback is all that can go wrong. -/
theorem completeLine_defined {cs : List (List UInt8)} (h : completionCallback ui ls.buf = .ok cs)
    (key : UInt8) : ∃ r, completeLine ui ls key = .ok r := by
  unfold completeLine
  rw [h]
  dsimp only
  split
  · exact ⟨_, rfl⟩
  split
  · split <;> exact ⟨_, rfl⟩
  split
  · exact ⟨_, rfl⟩
  split <;> exact ⟨_, rfl⟩

/-- An offered line is short and safe itself. -/
theorem offered_safe (hui : WellFormed ui) {line c : List UInt8} {cs : List (List UInt8)}
    (hlen : line.length ≤ 4095) (hw : ∃ c ∈ line, c ≠ space)
    (hcs : completionCallback ui line = .ok cs) (hc : c ∈ cs) : c.length ≤ 127 ∧ Safe ui c := by
  obtain ⟨blanks, word, gap, second, rest, hs⟩ := exists_shape hw
  obtain ⟨cs', hcs', hmem⟩ := hs.callback hlen hui
  obtain rfl : cs = cs' := Except.ok.inj (hcs.symm.trans hcs')
  rcases (hmem c).mp hc with ⟨-, e, he, -, rfl⟩ | ⟨-, e, he, -, subs, hsubs, sub, hsub, -, rfl⟩
  · have hshape : Shape e.name [] e.name [] [] [] :=
      ⟨by simp, by simp, hui.name_ne e he, hui.name_free e he, by simp, fun _ => rfl, by simp,
        fun _ => rfl, by simp⟩
    have hshort := hui.name_short e he
    exact ⟨hshort, (hshape.safe_iff (by omega) hui).mpr fun hg => absurd rfl hg⟩
  · have hshape : Shape (e.name ++ space :: sub) [] e.name [space] sub [] :=
      ⟨by simp, by simp, hui.name_ne e he, hui.name_free e he, by simp, by simp,
        hui.sub_free e he subs hsubs sub hsub, fun _ => rfl, by simp⟩
    have hshort := hui.fits e he subs hsubs sub hsub
    exact ⟨hshort, (hshape.safe_iff (by omega) hui).mpr fun _ _ => ⟨rfl, rfl, rfl⟩⟩

/-- The line of a run that was safe at the start: it is safe, and extends what was typed. -/
structure Extending (ui : List UiEntry) (typed : List UInt8) (ls : LineState) : Prop where
  fits : ls.buf.length ≤ 4095
  safe : Safe ui ls.buf
  begins : Begins typed ls.buf

theorem Extending.step {typed : List UInt8} {c : UInt8} (h : Extending ui typed ls)
    (hui : WellFormed ui) (hne : ui ≠ []) (hstep : completeLine ui ls key = .ok (ls', c)) :
    Extending ui typed ls' := by
  rcases completeLine_buf hstep with he | ⟨cs, hcs, o, ho, he⟩
  · exact ⟨he ▸ h.fits, he ▸ h.safe, he ▸ h.begins⟩
  · have hw := h.safe.has_word hne h.fits
    obtain ⟨hshort, hsafe⟩ := offered_safe hui h.fits hw hcs ho
    obtain ⟨cs', hcs', hall⟩ := h.safe
    obtain rfl : cs = cs' := Except.ok.inj (hcs.symm.trans hcs')
    rw [List.take_of_length_le (by omega)] at he
    rw [← he] at hshort hsafe ho
    exact ⟨by omega, hsafe, h.begins.trans (hall _ ho)⟩

/-- **Completion keeps what was typed** on a safe line: whatever keys it gets, it does not fail, and
the line begins with the text that was typed. -/
theorem completing_keeps_typed {typed : List UInt8} (hui : WellFormed ui) (hne : ui ≠ [])
    (hlen : typed.length ≤ 4095) (hsafe : Safe ui typed)
    (h : Reachable (completing ui typed) ls) :
    Begins typed ls.buf ∧ ∀ key, ∃ r, completeLine ui ls key = .ok r := by
  have hinv : Extending ui typed ls := by
    apply h.invariant (Extending ui typed)
    · rintro ls ⟨rfl, -⟩
      exact ⟨hlen, hsafe, begins_refl _⟩
    · rintro ls key ls' hi - ⟨-, c, hc⟩
      exact hi.step hui hne hc
  obtain ⟨cs, hcs, -⟩ := hinv.safe
  exact ⟨hinv.begins, fun key => completeLine_defined hcs key⟩

end

/-! ## Hints -/

/-- `hints_callback`: the hint it returns. `cmdLen` is where `strchr` finds the first blank. -/
def hintsCallback (cliUiData : List UiEntry) (buf : List UInt8) : Option (List UInt8) :=
  if buf = [] then none
  else if space ∈ buf then
    let cmdLen := (buf.takeWhile (· != space)).length
    (cliUiData.find? fun e => sameTextN buf e.name cmdLen && e.name.length == cmdLen).map
      UiEntry.hint
  else (cliUiData.find? fun e => sameText buf e.name).map UiEntry.hint

/-- **The hint is that of the command before the first blank**, if it is one; unlike completion it
does not pass over blanks at the front. -/
theorem hintsCallback_eq {ui : List UiEntry} (hui : WellFormed ui) (buf : List UInt8) :
    hintsCallback ui buf =
      (ui.find? fun e => sameText (buf.takeWhile (· != space)) e.name).map UiEntry.hint := by
  unfold hintsCallback
  by_cases hnil : buf = []
  · have hnone : ui.find? (fun e => sameText [] e.name) = none := by
      rw [List.find?_eq_none]
      intro e he hsame
      exact hui.name_ne e he (List.eq_nil_of_length_eq_zero (sameText_length hsame).symm)
    rw [if_pos hnil, hnil, List.takeWhile_nil, hnone]
    rfl
  rw [if_neg hnil]
  by_cases hsp : space ∈ buf
  · have htake : buf.take (buf.takeWhile (· != space)).length = buf.takeWhile (· != space) :=
      (List.prefix_iff_eq_take.mp (List.takeWhile_prefix _)).symm
    have hsame : (fun e : UiEntry => sameTextN buf e.name (buf.takeWhile (· != space)).length &&
        e.name.length == (buf.takeWhile (· != space)).length) =
        fun e => sameText (buf.takeWhile (· != space)) e.name := by
      funext e
      rw [Bool.eq_iff_iff, Bool.and_eq_true, beq_iff_eq, sameTextN, htake]
      constructor
      · rintro ⟨hs, hl⟩
        rwa [← hl, List.take_length] at hs
      · intro hs
        have hl := sameText_length hs
        refine ⟨?_, hl.symm⟩
        rwa [hl, List.take_length]
    rw [if_pos hsp]
    dsimp only
    rw [hsame]
  · have hall : buf.takeWhile (· != space) = buf := by
      have hkeep : ∀ c ∈ buf, (c != space) = true := by
        intro c hc
        simpa using fun he : c = space => hsp (he ▸ hc)
      rw [← List.append_nil buf, List.takeWhile_append_of_pos hkeep, List.takeWhile_nil]
    rw [if_neg hsp, hall]

end Vfast.Reflex
