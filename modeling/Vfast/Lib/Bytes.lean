import Mathlib.Algebra.Group.Nat.Defs
import Mathlib.Data.Nat.Basic
import Mathlib.Data.Fin.Basic

/-! Byte memory: a buffer is a function from offsets to bytes, with block
reads and writes and little-endian machine words of any width. The
specification of each operation is one lemma (`write_apply`, `read_write`,
`load32_of_read`, `le32_load32`); later proofs use these and never unfold. -/

namespace Vfast.Bytes

abbrev Block (n : Nat) := Fin n → UInt8

def Block.toList {n : Nat} (b : Block n) : List UInt8 := List.ofFn b

/-- The first `n` bytes of a list; bytes past its end are zero. -/
def Block.ofList (n : Nat) (bs : List UInt8) : Block n := fun i => bs.getD i 0

@[simp] theorem Block.length_toList {n : Nat} (b : Block n) : b.toList.length = n := by
  simp [Block.toList]

@[simp] theorem Block.ofList_toList {n : Nat} (b : Block n) : Block.ofList n b.toList = b := by
  funext i
  simp [Block.ofList, Block.toList]

theorem Block.toList_ofList {n : Nat} {bs : List UInt8} (h : bs.length = n) :
    (Block.ofList n bs).toList = bs := by
  subst h
  apply List.ext_getElem (by simp)
  intro i h1 h2
  simp [Block.ofList, Block.toList, h2]

theorem Block.toList_inj {n : Nat} {a b : Block n} (h : a.toList = b.toList) : a = b := by
  rw [← Block.ofList_toList a, h, Block.ofList_toList]

instance {n : Nat} : DecidableEq (Block n) := fun a b =>
  decidable_of_iff (a.toList = b.toList) ⟨Block.toList_inj, congrArg Block.toList⟩

/-! ## Memory -/

/-- Memory seen from the base address of a buffer. -/
abbrev Mem := Nat → UInt8

def Mem.read (m : Mem) (off n : Nat) : List UInt8 := (List.range n).map fun i => m (off + i)

def Mem.write (m : Mem) (off : Nat) (bs : List UInt8) : Mem :=
  fun i => if off ≤ i then bs.getD (i - off) (m i) else m i

theorem write_apply (m : Mem) (off : Nat) (bs : List UInt8) (i : Nat) :
    m.write off bs i = if off ≤ i then bs.getD (i - off) (m i) else m i := rfl

theorem write_of_lt (m : Mem) (off : Nat) (bs : List UInt8) (i : Nat) (h : i < off) :
    m.write off bs i = m i := by
  simp [write_apply, Nat.not_le.mpr h]

theorem write_of_ge (m : Mem) (off : Nat) (bs : List UInt8) (i : Nat)
    (h : off + bs.length ≤ i) : m.write off bs i = m i := by
  have hle : bs.length ≤ i - off := by omega
  simp [write_apply, List.getElem?_eq_none hle]

theorem write_of_mem (m : Mem) (off : Nat) (bs : List UInt8) (i : Nat) (h : i < bs.length) :
    m.write off bs (off + i) = bs[i] := by
  simp [write_apply, h]

theorem write_of_not_mem (m : Mem) (off : Nat) (bs : List UInt8) (i : Nat)
    (h : i < off ∨ off + bs.length ≤ i) : m.write off bs i = m i := by
  rcases h with h | h
  · exact write_of_lt m off bs i h
  · exact write_of_ge m off bs i h

@[simp] theorem write_nil (m : Mem) (off : Nat) : m.write off [] = m := by
  funext i
  exact write_of_not_mem m off [] i (by simp; omega)

@[simp] theorem length_read (m : Mem) (off n : Nat) : (m.read off n).length = n := by
  simp [Mem.read]

theorem getElem_read (m : Mem) (off n i : Nat) (h : i < (m.read off n).length) :
    (m.read off n)[i] = m (off + i) := by
  simp [Mem.read]

theorem toList_read (m : Mem) (off n : Nat) :
    Block.toList (fun i : Fin n => m (off + i)) = m.read off n := by
  apply List.ext_getElem (by simp)
  intro i h1 h2
  rw [getElem_read]
  simp [Block.toList]

theorem read_congr (m m' : Mem) (off n : Nat) (h : ∀ i, i < n → m (off + i) = m' (off + i)) :
    m.read off n = m'.read off n := by
  apply List.map_congr_left
  intro i hi
  exact h i (List.mem_range.mp hi)

theorem read_ext (m : Mem) (off : Nat) (bs : List UInt8)
    (h : ∀ (i : Nat) (hi : i < bs.length), m (off + i) = bs[i]) :
    m.read off bs.length = bs := by
  apply List.ext_getElem
  · simp
  · intro i h1 h2
    rw [getElem_read]
    exact h i h2

theorem read_apply_of_eq {m : Mem} {off n : Nat} {bs : List UInt8} (h : m.read off n = bs)
    (i : Nat) (hi : i < n) : m (off + i) = bs.getD i 0 := by
  subst h
  have hl : i < (m.read off n).length := by simpa using hi
  rw [List.getD_eq_getElem?_getD, List.getElem?_eq_getElem hl, Option.getD_some, getElem_read]

theorem apply_eq_of_read {m m' : Mem} {off n : Nat} (h : m.read off n = m'.read off n) (i : Nat)
    (hi : i < n) : m (off + i) = m' (off + i) := by
  rw [read_apply_of_eq h i hi, read_apply_of_eq (rfl : m'.read off n = _) i hi]

/-- **Read after write**, same range. -/
@[simp] theorem read_write (m : Mem) (off : Nat) (bs : List UInt8) :
    (m.write off bs).read off bs.length = bs :=
  read_ext _ _ _ fun i hi => write_of_mem m off bs i hi

theorem read_write_len (m : Mem) (off n : Nat) (bs : List UInt8) (h : bs.length = n) :
    (m.write off bs).read off n = bs := by
  subst h
  exact read_write m off bs

/-- **Frame**: a read disjoint from the written range is unchanged. -/
theorem read_write_disjoint (m : Mem) (off off' n : Nat) (bs : List UInt8)
    (h : off' + n ≤ off ∨ off + bs.length ≤ off') :
    (m.write off bs).read off' n = m.read off' n := by
  apply read_congr
  intro i hi
  apply write_of_not_mem
  omega

@[simp] theorem write_read_self (m : Mem) (off n : Nat) : m.write off (m.read off n) = m := by
  funext i
  by_cases h : off ≤ i ∧ i < off + n
  · obtain ⟨k, rfl⟩ : ∃ k, i = off + k := ⟨i - off, by omega⟩
    have hk : k < (m.read off n).length := by rw [length_read]; omega
    rw [write_of_mem m off _ k hk, getElem_read]
  · apply write_of_not_mem
    rw [length_read]
    omega

theorem write_append (m : Mem) (off : Nat) (as bs : List UInt8) :
    m.write off (as ++ bs) = (m.write off as).write (off + as.length) bs := by
  funext i
  by_cases h1 : i < off
  · rw [write_of_lt _ _ _ _ h1, write_of_lt _ _ _ _ (by omega), write_of_lt _ _ _ _ h1]
  by_cases h2 : i < off + as.length
  · obtain ⟨k, rfl⟩ : ∃ k, i = off + k := ⟨i - off, by omega⟩
    rw [write_of_mem _ _ _ k (by simp; omega), write_of_lt _ _ _ _ h2,
      write_of_mem _ _ _ k (by omega), List.getElem_append_left (by omega)]
  by_cases h3 : i < off + as.length + bs.length
  · obtain ⟨k, rfl⟩ : ∃ k, i = off + as.length + k := ⟨i - (off + as.length), by omega⟩
    rw [write_of_mem _ _ _ k (by omega), Nat.add_assoc,
      write_of_mem _ _ _ (as.length + k) (by simp; omega),
      List.getElem_append_right (by omega)]
    simp
  · rw [write_of_ge _ _ _ _ (by simp; omega), write_of_ge _ _ _ _ (by omega),
      write_of_ge _ _ _ _ (by omega)]

theorem write_write (m : Mem) (off : Nat) (as bs : List UInt8) (h : as.length ≤ bs.length) :
    (m.write off as).write off bs = m.write off bs := by
  funext i
  by_cases hi : off ≤ i ∧ i < off + bs.length
  · obtain ⟨k, rfl⟩ : ∃ k, i = off + k := ⟨i - off, by omega⟩
    rw [write_of_mem _ _ _ k (by omega), write_of_mem _ _ _ k (by omega)]
  · rw [write_of_not_mem _ _ _ _ (by omega), write_of_not_mem _ _ _ _ (by omega),
      write_of_not_mem _ _ _ _ (by omega)]

theorem write_comm (m : Mem) (off off' : Nat) (as bs : List UInt8)
    (h : off + as.length ≤ off' ∨ off' + bs.length ≤ off) :
    (m.write off as).write off' bs = (m.write off' bs).write off as := by
  funext i
  by_cases hi : off ≤ i ∧ i < off + as.length
  · obtain ⟨k, rfl⟩ : ∃ k, i = off + k := ⟨i - off, by omega⟩
    rw [write_of_not_mem _ off' _ _ (by omega), write_of_mem _ _ _ k (by omega),
      write_of_mem _ _ _ k (by omega)]
  · rw [write_of_not_mem _ off _ _ (by omega)]
    by_cases hj : off' ≤ i ∧ i < off' + bs.length
    · obtain ⟨k, rfl⟩ : ∃ k, i = off' + k := ⟨i - off', by omega⟩
      rw [write_of_mem _ _ _ k (by omega), write_of_mem _ _ _ k (by omega)]
    · rw [write_of_not_mem _ off' _ _ (by omega), write_of_not_mem _ off' _ _ (by omega),
        write_of_not_mem _ off _ _ (by omega)]

theorem read_add (m : Mem) (off a b : Nat) :
    m.read off (a + b) = m.read off a ++ m.read (off + a) b := by
  simp only [Mem.read, List.range_add, List.map_append, List.map_map]
  congr 1
  apply List.map_congr_left
  intro i _
  simp [Nat.add_assoc]

theorem take_read (m : Mem) (off n k : Nat) (h : k ≤ n) : (m.read off n).take k = m.read off k := by
  obtain ⟨j, rfl⟩ : ∃ j, n = k + j := ⟨n - k, by omega⟩
  rw [read_add, List.take_left' (by simp)]

theorem read_left {m : Mem} {off n : Nat} {a b : List UInt8} (h : m.read off n = a ++ b) :
    m.read off a.length = a := by
  have hl : n = a.length + b.length := by simpa using congrArg List.length h
  rw [← take_read m off n a.length (by omega), h, List.take_left]

theorem read_right {m : Mem} {off n : Nat} {a b : List UInt8} (h : m.read off n = a ++ b) :
    m.read (off + a.length) b.length = b := by
  have hl : n = a.length + b.length := by simpa using congrArg List.length h
  rw [hl, read_add] at h
  exact (List.append_inj h (by simp)).2

/-! ## Little-endian words -/

/-- The number with little-endian bytes `bs`. -/
def leVal : List UInt8 → Nat
  | [] => 0
  | b :: bs => b.toNat + 256 * leVal bs

def leBytes : Nat → Nat → List UInt8
  | 0, _ => []
  | n + 1, v => UInt8.ofNat v :: leBytes n (v / 256)

@[simp] theorem length_leBytes (n v : Nat) : (leBytes n v).length = n := by
  induction n generalizing v with
  | zero => rfl
  | succ n ih => simp [leBytes, ih]

theorem leVal_leBytes (n v : Nat) : leVal (leBytes n v) = v % 256 ^ n := by
  induction n generalizing v with
  | zero => simp [leBytes, leVal, Nat.mod_one]
  | succ n ih =>
    have hb : (UInt8.ofNat v).toNat = v % 256 := UInt8.toNat_ofNat'
    rw [leBytes, leVal, ih, hb, Nat.pow_succ, Nat.mul_comm (256 ^ n), Nat.mod_mul]

theorem leVal_leBytes_of_lt {n v : Nat} (h : v < 256 ^ n) : leVal (leBytes n v) = v := by
  rw [leVal_leBytes, Nat.mod_eq_of_lt h]

theorem leVal_lt (bs : List UInt8) : leVal bs < 256 ^ bs.length := by
  induction bs with
  | nil => simp [leVal]
  | cons b bs ih =>
    have hb := b.toNat_lt
    simp only [leVal, List.length_cons, Nat.pow_succ]
    omega

theorem leBytes_leVal (bs : List UInt8) : leBytes bs.length (leVal bs) = bs := by
  induction bs with
  | nil => rfl
  | cons b bs ih =>
    have hb := b.toNat_lt
    have hd : (b.toNat + 256 * leVal bs) / 256 = leVal bs := by omega
    have hm : UInt8.ofNat (b.toNat + 256 * leVal bs) = b := by
      apply UInt8.toNat_inj.mp
      rw [UInt8.toNat_ofNat']
      omega
    simp only [List.length_cons, leBytes, leVal, hd, hm, ih]

theorem leBytes_leVal_len (n : Nat) (bs : List UInt8) (h : bs.length = n) :
    leBytes n (leVal bs) = bs := by
  subst h
  exact leBytes_leVal bs

theorem leVal_reverse_leVal_reverse {n v : Nat} (h : v < 256 ^ n) :
    leVal (leBytes n (leVal (leBytes n v).reverse)).reverse = v := by
  rw [leBytes_leVal_len n _ (by simp), List.reverse_reverse, leVal_leBytes_of_lt h]

theorem leVal_reverse_lt (n v : Nat) : leVal (leBytes n v).reverse < 256 ^ n := by
  have h := leVal_lt (leBytes n v).reverse
  rwa [List.length_reverse, length_leBytes] at h

theorem leBytes_xor (n a b : Nat) :
    leBytes n (a ^^^ b) = List.zipWith (· ^^^ ·) (leBytes n a) (leBytes n b) := by
  induction n generalizing a b with
  | zero => rfl
  | succ n ih =>
    have hd : (a ^^^ b) / 256 = a / 256 ^^^ b / 256 := @Nat.xor_div_two_pow a b 8
    simp only [leBytes, List.zipWith_cons_cons, hd, ih, UInt8.ofNat_xor]

def Mem.load16 (m : Mem) (off : Nat) : UInt16 := UInt16.ofNat (leVal (m.read off 2))
def Mem.load32 (m : Mem) (off : Nat) : UInt32 := UInt32.ofNat (leVal (m.read off 4))
def Mem.load64 (m : Mem) (off : Nat) : UInt64 := UInt64.ofNat (leVal (m.read off 8))

def le16 (v : UInt16) : List UInt8 := leBytes 2 v.toNat
def le32 (v : UInt32) : List UInt8 := leBytes 4 v.toNat
def le64 (v : UInt64) : List UInt8 := leBytes 8 v.toNat

@[simp] theorem length_le16 (v : UInt16) : (le16 v).length = 2 := length_leBytes 2 _
@[simp] theorem length_le32 (v : UInt32) : (le32 v).length = 4 := length_leBytes 4 _
@[simp] theorem length_le64 (v : UInt64) : (le64 v).length = 8 := length_leBytes 8 _

theorem le32_xor (a b : UInt32) : le32 (a ^^^ b) = List.zipWith (· ^^^ ·) (le32 a) (le32 b) := by
  rw [le32, UInt32.toNat_xor, leBytes_xor]
  rfl

theorem le32_ofNat_leVal {bs : List UInt8} (h : bs.length = 4) :
    le32 (UInt32.ofNat (leVal bs)) = bs := by
  have hlt := leVal_lt bs
  rw [h] at hlt
  rw [le32, UInt32.toNat_ofNat_of_lt' hlt]
  exact leBytes_leVal_len 4 _ h

theorem ofNat_leVal_le32 (v : UInt32) : UInt32.ofNat (leVal (le32 v)) = v := by
  apply UInt32.toNat_inj.mp
  have := v.toNat_lt
  rw [le32, leVal_leBytes, UInt32.toNat_ofNat']
  omega

theorem le16_ofNat_leVal {bs : List UInt8} (h : bs.length = 2) :
    le16 (UInt16.ofNat (leVal bs)) = bs := by
  have hlt := leVal_lt bs
  rw [h] at hlt
  rw [le16, UInt16.toNat_ofNat_of_lt' hlt]
  exact leBytes_leVal_len 2 _ h

theorem ofNat_leVal_le16 (v : UInt16) : UInt16.ofNat (leVal (le16 v)) = v := by
  apply UInt16.toNat_inj.mp
  have := v.toNat_lt
  rw [le16, leVal_leBytes, UInt16.toNat_ofNat']
  omega

theorem load32_of_read (m : Mem) (off : Nat) (v : UInt32) (h : m.read off 4 = le32 v) :
    m.load32 off = v := by
  rw [Mem.load32, h, ofNat_leVal_le32]

theorem load16_of_read (m : Mem) (off : Nat) (v : UInt16) (h : m.read off 2 = le16 v) :
    m.load16 off = v := by
  rw [Mem.load16, h, le16, leVal_leBytes_of_lt v.toNat_lt, UInt16.ofNat_toNat]

theorem load64_of_read (m : Mem) (off : Nat) (v : UInt64) (h : m.read off 8 = le64 v) :
    m.load64 off = v := by
  rw [Mem.load64, h, le64, leVal_leBytes_of_lt v.toNat_lt, UInt64.ofNat_toNat]

theorem le32_load32 (m : Mem) (off : Nat) : le32 (m.load32 off) = m.read off 4 :=
  le32_ofNat_leVal (length_read m off 4)

@[simp] theorem load32_write (m : Mem) (off : Nat) (v : UInt32) :
    (m.write off (le32 v)).load32 off = v :=
  load32_of_read _ _ _ (read_write_len _ _ _ _ (by simp))

theorem load32_congr (m m' : Mem) (off : Nat) (h : ∀ i, i < 4 → m (off + i) = m' (off + i)) :
    m.load32 off = m'.load32 off := by
  rw [Mem.load32, Mem.load32, read_congr m m' off 4 h]

theorem load32_write_disjoint (m : Mem) (off off' : Nat) (bs : List UInt8)
    (h : off' + 4 ≤ off ∨ off + bs.length ≤ off') :
    (m.write off bs).load32 off' = m.load32 off' := by
  rw [Mem.load32, Mem.load32, read_write_disjoint m off off' 4 bs h]

/-! ## Byte order -/

/-- `htons` and `ntohs` of a little-endian host. -/
def bswap16 (v : UInt16) : UInt16 := UInt16.ofNat (leVal (le16 v).reverse)
/-- `htonl` and `ntohl` of a little-endian host. -/
def bswap32 (v : UInt32) : UInt32 := UInt32.ofNat (leVal (le32 v).reverse)
/-- `htonll` and `ntohll` of a little-endian host. -/
def bswap64 (v : UInt64) : UInt64 := UInt64.ofNat (leVal (le64 v).reverse)

theorem le32_bswap32 (v : UInt32) : le32 (bswap32 v) = (le32 v).reverse :=
  le32_ofNat_leVal (by simp)

@[simp] theorem bswap32_bswap32 (v : UInt32) : bswap32 (bswap32 v) = v := by
  rw [bswap32, le32_bswap32, List.reverse_reverse, ofNat_leVal_le32]

@[simp] theorem bswap16_bswap16 (v : UInt16) : bswap16 (bswap16 v) = v := by
  have hlt := leVal_reverse_lt 2 v.toNat
  apply UInt16.toNat_inj.mp
  rw [bswap16, le16, bswap16, le16, UInt16.toNat_ofNat_of_lt' hlt,
    leVal_reverse_leVal_reverse v.toNat_lt, UInt16.ofNat_toNat]

/-- A big-endian halfword: the first byte is the high one. -/
theorem toNat_bswap16_load16 (m : Mem) (off : Nat) :
    (bswap16 (m.load16 off)).toNat = (m off).toNat * 256 + (m (off + 1)).toNat := by
  have h0 := (m off).toNat_lt
  have h1 := (m (off + 1)).toNat_lt
  have hle : le16 (m.load16 off) = m.read off 2 := by
    have hlt := leVal_lt (m.read off 2)
    rw [length_read] at hlt
    rw [le16, Mem.load16, UInt16.toNat_ofNat_of_lt' hlt]
    exact leBytes_leVal_len 2 _ (by simp)
  have hr : m.read off 2 = [m off, m (off + 1)] := rfl
  rw [bswap16, hle, hr, UInt16.toNat_ofNat']
  simp only [List.reverse_cons, List.reverse_nil, List.nil_append, List.cons_append, leVal]
  omega

@[simp] theorem bswap64_bswap64 (v : UInt64) : bswap64 (bswap64 v) = v := by
  have hlt := leVal_reverse_lt 8 v.toNat
  apply UInt64.toNat_inj.mp
  rw [bswap64, le64, bswap64, le64, UInt64.toNat_ofNat_of_lt' hlt,
    leVal_reverse_leVal_reverse v.toNat_lt, UInt64.ofNat_toNat]

theorem bswap32_inj {a b : UInt32} (h : bswap32 a = bswap32 b) : a = b := by
  rw [← bswap32_bswap32 a, h, bswap32_bswap32]

end Vfast.Bytes
