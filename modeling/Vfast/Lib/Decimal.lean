import Vfast.Lib.CStrings

/-! Numbers in decimal text: `atoi`, its inverse on the numbers an `int` can hold, and the check of
`inet_pton` for addresses in dotted decimal. -/

namespace Vfast.Decimal

open CStrings

def isdigit (c : UInt8) : Bool := 0x30 ≤ c && c ≤ 0x39

/-- The number that a run of digits makes of `v`. -/
def decVal (v : Nat) (s : List UInt8) : Nat := s.foldl (fun v c => 10 * v + (c.toNat - 48)) v

def decimal (n : Nat) : List UInt8 := (Nat.toDigits 10 n).map fun c => UInt8.ofNat c.toNat

/-- The sign of a number, and what follows it. -/
def signed (s : List UInt8) : Bool × List UInt8 :=
  if s.head? = some 0x2D then (true, s.tail)
  else if s.head? = some 0x2B then (false, s.tail)
  else (false, s)

/-- `strtol` to base 10 with a `long` of 64 bits: out of range it gives the nearest bound. -/
def strtol (s : List UInt8) : Int :=
  let t := signed (s.dropWhile isspace)
  let v : Int := decVal 0 (t.2.takeWhile isdigit)
  if t.1 then max (-v) (-9223372036854775808) else min v 9223372036854775807

/-- `atoi`: the result of `strtol` cut to an `int` of 32 bits. -/
def atoi (s : List UInt8) : Int := (strtol s).bmod 4294967296

/-- One number of an address: digits, no leading zero, at most 255. -/
def isOctet (s : List UInt8) : Bool :=
  !s.isEmpty && s.all isdigit && (s.length == 1 || s.head? != some 0x30) &&
    decide (decVal 0 s ≤ 255)

/-- `inet_pton(AF_INET, ..) == 1`. -/
def inetPton (s : List UInt8) : Bool :=
  match s.splitOn 0x2E with
  | [a, b, c, d] => isOctet a && isOctet b && isOctet c && isOctet d
  | _ => false

/-! ## Digits -/

theorem isdigit_iff {c : UInt8} : isdigit c = true ↔ 48 ≤ c.toNat ∧ c.toNat ≤ 57 := by
  simp [isdigit, UInt8.le_iff_toNat_le]

theorem isspace_of_isdigit {c : UInt8} (h : isdigit c = true) : isspace c = false := by
  have hc := isdigit_iff.mp h
  have h20 : c ≠ 0x20 := by
    rintro rfl
    exact absurd hc.1 (by decide)
  simp [isspace, h20, UInt8.le_iff_toNat_le]
  omega

theorem toNat_digit {c : Char} (h : c.isDigit = true) : 48 ≤ c.toNat ∧ c.toNat ≤ 57 := by
  simpa [Char.isDigit, UInt32.le_iff_toNat_le] using h

theorem isdigit_of_mem_decimal {n : Nat} {c : UInt8} (h : c ∈ decimal n) : isdigit c = true := by
  obtain ⟨d, hd, rfl⟩ := List.mem_map.mp h
  have hd' := toNat_digit (Nat.isDigit_of_mem_toDigits (by decide) (by decide) hd)
  rw [isdigit_iff, UInt8.toNat_ofNat', Nat.mod_eq_of_lt (by omega)]
  exact hd'

theorem decVal_digits {l : List Char} (h : ∀ c ∈ l, c.isDigit = true) (v : Nat) :
    decVal v (l.map fun c => UInt8.ofNat c.toNat) = Nat.ofDigitChars 10 l v := by
  induction l generalizing v with
  | nil => rfl
  | cons c l ih =>
    have hc := toNat_digit (h c List.mem_cons_self)
    rw [List.map_cons, Nat.ofDigitChars_cons, ← ih fun d hd => h d (List.mem_cons_of_mem c hd)]
    show decVal (10 * v + ((UInt8.ofNat c.toNat).toNat - 48)) _ = _
    rw [UInt8.toNat_ofNat', Nat.mod_eq_of_lt (by omega)]
    rfl

theorem decVal_decimal (n : Nat) : decVal 0 (decimal n) = n := by
  rw [decimal, decVal_digits fun c hc => Nat.isDigit_of_mem_toDigits (by decide) (by decide) hc]
  exact Nat.ofDigitChars_ten_toDigits

theorem decimal_ne_nil (n : Nat) : decimal n ≠ [] := by
  simp [decimal, Nat.toDigits_ne_nil]

theorem length_decimal_le {n k : Nat} (hk : 0 < k) (h : n < 10 ^ k) : (decimal n).length ≤ k := by
  rw [decimal, List.length_map]
  exact (Nat.length_toDigits_le_iff (by decide) hk).mpr h

/-! ## `atoi` -/

theorem atoi_range (s : List UInt8) : -2147483648 ≤ atoi s ∧ atoi s < 2147483648 := by
  have h1 := Int.le_bmod (x := strtol s) (m := 4294967296) (by decide)
  have h2 := Int.bmod_lt (x := strtol s) (m := 4294967296) (by decide)
  rw [atoi]
  omega

/-- `atoi` reads back what is written in decimal. -/
theorem atoi_decimal {n : Nat} (h : n < 2147483648) : atoi (decimal n) = n := by
  obtain ⟨c, l, hl⟩ := List.exists_cons_of_ne_nil (decimal_ne_nil n)
  have hdig : ∀ d ∈ c :: l, isdigit d = true := fun d hd => isdigit_of_mem_decimal (hl ▸ hd)
  have hc := hdig c List.mem_cons_self
  have hgap : (c :: l).dropWhile isspace = c :: l :=
    List.dropWhile_cons_of_neg (by simp [isspace_of_isdigit hc])
  have hsign : signed (c :: l) = (false, c :: l) := by
    have h1 : c ≠ 0x2D := by rintro rfl; exact absurd hc (by decide)
    have h2 : c ≠ 0x2B := by rintro rfl; exact absurd hc (by decide)
    simp [signed, h1, h2]
  have hall : (c :: l).takeWhile isdigit = c :: l := by
    rw [← List.append_nil (c :: l), List.takeWhile_append_of_pos hdig]
    rfl
  have hval : decVal 0 (c :: l) = n := hl ▸ decVal_decimal n
  have hlong : strtol (decimal n) = n := by
    simp only [strtol, hl, hgap, hsign, hall, hval, Bool.false_eq_true, if_false]
    omega
  rw [atoi, hlong]
  exact Int.bmod_eq_of_le (by omega) (by omega)

/-! ## Dotted decimal -/

theorem pow_mul_le_decVal (v : Nat) (s : List UInt8) : 10 ^ s.length * v ≤ decVal v s := by
  induction s generalizing v with
  | nil => simp [decVal]
  | cons c s ih =>
    refine Nat.le_trans ?_ (ih (10 * v + (c.toNat - 48)))
    rw [List.length_cons, Nat.pow_succ, Nat.mul_assoc]
    exact Nat.mul_le_mul_left _ (Nat.le_add_right _ _)

theorem length_octet_le {s : List UInt8} (h : isOctet s = true) : s.length ≤ 3 := by
  simp only [isOctet, Bool.and_eq_true, Bool.or_eq_true, decide_eq_true_eq, beq_iff_eq,
    bne_iff_ne] at h
  obtain ⟨⟨⟨hne, hdig⟩, hlead⟩, hval⟩ := h
  cases s with
  | nil => exact Nat.zero_le 3
  | cons c s =>
    rcases hlead with hone | hlead
    · rw [hone]
      decide
    · -- the leading digit is at least 1, so four digits are more than 255
      have hc := isdigit_iff.mp (List.all_eq_true.mp hdig c List.mem_cons_self)
      have hc0 : c.toNat ≠ 48 := fun he => hlead (congrArg some (UInt8.toNat_inj.mp he))
      have hlow := pow_mul_le_decVal (10 * 0 + (c.toNat - 48)) s
      have hdec : decVal (10 * 0 + (c.toNat - 48)) s ≤ 255 := hval
      have hpow : 10 ^ s.length ≤ 255 :=
        Nat.le_trans (Nat.le_mul_of_pos_right _ (by omega)) (Nat.le_trans hlow hdec)
      have hlt : s.length < 3 :=
        (Nat.pow_lt_pow_iff_right (by decide : 1 < 10)).mp (Nat.lt_of_le_of_lt hpow (by decide))
      exact hlt

/-- What `inet_pton` accepts: at most fifteen bytes, digits and dots. -/
theorem inetPton_text {s : List UInt8} (h : inetPton s = true) :
    s ≠ [] ∧ s.length ≤ 15 ∧ ∀ c ∈ s, isdigit c = true ∨ c = 0x2E := by
  have hjoin : [0x2E].intercalate (s.splitOn 0x2E) = s := List.intercalate_splitOn _
  rw [inetPton] at h
  split at h
  · rename_i a b c d hs
    simp only [Bool.and_eq_true] at h
    obtain ⟨⟨⟨ha, hb⟩, hc⟩, hd⟩ := h
    rw [hs] at hjoin
    have hdig : ∀ {p : List UInt8}, isOctet p = true → ∀ x ∈ p, isdigit x = true := by
      intro p hp x hx
      simp only [isOctet, Bool.and_eq_true] at hp
      exact List.all_eq_true.mp hp.1.1.2 x hx
    have hlen := And.intro (And.intro (length_octet_le ha) (length_octet_le hb))
      (And.intro (length_octet_le hc) (length_octet_le hd))
    have hs' : s = a ++ (0x2E :: (b ++ (0x2E :: (c ++ (0x2E :: d))))) := by
      rw [← hjoin]
      simp [List.intercalate, List.intersperse]
    refine ⟨?_, ?_, ?_⟩
    · rw [hs']
      simp
    · rw [hs']
      simp only [List.length_append, List.length_cons]
      omega
    · intro x hx
      rw [hs'] at hx
      simp only [List.mem_append, List.mem_cons] at hx
      rcases hx with hx | rfl | hx | rfl | hx | rfl | hx
      · exact Or.inl (hdig ha x hx)
      · exact Or.inr rfl
      · exact Or.inl (hdig hb x hx)
      · exact Or.inr rfl
      · exact Or.inl (hdig hc x hx)
      · exact Or.inr rfl
      · exact Or.inl (hdig hd x hx)
  · cases h

end Vfast.Decimal
