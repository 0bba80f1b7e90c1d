import Vfast.InPlace
import Vfast.PolyMac

/-! `crypto_aead_lock` and `crypto_aead_unlock` down to the loops of `monocypher.c`: the block
counter in two words, whole blocks word by word, the bytes after them, the tag update by update
and its comparison in constant time. On any memory they do what the `monocypher` of
`Vfast.InPlace` does, which the functions of `crypto.c` are modelled with. -/

namespace Vfast.AeadCode

open Bytes Streams Monocypher InPlace

/-! ## The functions -/

/-- The words that `crypto_chacha20_djb` computes a block from. -/
def chachaInput (key nonce : List UInt8) (ctr : UInt64) : List UInt32 :=
  load32LeBuf chacha20Constant 4 ++ load32LeBuf key 8 ++ [ctr.toUInt32, (ctr >>> 32).toUInt32] ++
    load32LeBuf nonce 2

/-- `input[12]++; if (input[12] == 0) { input[13]++; }`. -/
def bumpCounter (input : List UInt32) : List UInt32 :=
  let input := input.set 12 (input.getD 12 0 + 1)
  if input.getD 12 0 = 0 then input.set 13 (input.getD 13 0 + 1) else input

def poolWord (input : List UInt32) (j : Nat) : UInt32 :=
  (chacha20Rounds (.ofList input)).toList.getD j 0 + input.getD j 0

/-- The state of the loop over whole blocks; no plain text is `NULL`. -/
structure Djb where
  mem : Mem
  input : List UInt32
  cipherText : Nat
  plainText : Option Nat

def Djb.storeWord (s : Djb) (m : Mem) (j : Nat) : Mem :=
  let p := poolWord s.input j
  match s.plainText with
  | some plainText =>
    m.write (s.cipherText + 4 * j) (le32 (p ^^^ m.load32 (plainText + 4 * j)))
  | none => m.write (s.cipherText + 4 * j) (le32 p)

def Djb.block (s : Djb) : Djb where
  mem := (List.range 16).foldl s.storeWord s.mem
  input := bumpCounter s.input
  cipherText := s.cipherText + 64
  plainText := s.plainText.map (· + 64)

def Djb.storeByte (s : Djb) (tmp : List UInt8) (m : Mem) (i : Nat) : Mem :=
  let p := match s.plainText with
    | some plainText => m (plainText + i)
    | none => 0
  m.write (s.cipherText + i) [tmp.getD i 0 ^^^ p]

def cryptoChacha20Djb (m : Mem) (cipherText : Nat) (plainText : Option Nat) (textSize : Nat)
    (key nonce : List UInt8) (ctr : UInt64) : Mem × UInt64 :=
  let s := Nat.repeat Djb.block (textSize / 64)
    ⟨m, chachaInput key nonce ctr, cipherText, plainText⟩
  let textSize := textSize % 64
  let m :=
    if textSize > 0 then
      let tmp := ((List.range 16).map (poolWord s.input)).flatMap le32
      (List.range textSize).foldl (s.storeByte tmp) s.mem
    else s.mem
  (m, (s.input.getD 12 0).toUInt64 + ((s.input.getD 13 0).toUInt64 <<< (32 : UInt64)) +
    (if textSize > 0 then 1 else 0))

def load64Le (bs : List UInt8) (off : Nat) : UInt64 := UInt64.ofNat (leVal ((bs.drop off).take 8))

def neq0 (diff : UInt64) : Int :=
  let half := (diff >>> 32) ||| diff.toUInt32.toUInt64
  let eq0 := (1 : UInt64) &&& ((half - 1) >>> 32)
  (eq0.toNat : Int) - 1

def x16 (a b : List UInt8) : UInt64 :=
  (load64Le a 0 ^^^ load64Le b 0) ||| (load64Le a 8 ^^^ load64Le b 8)

def cryptoVerify16 (a b : List UInt8) : Int := neq0 (x16 a b)

structure AeadCtx where
  counter : UInt64
  key : List UInt8
  nonce : List UInt8

def cryptoAeadInitX (key : Block 32) (nonce : Block 24) : AeadCtx where
  counter := 0
  key := cryptoChacha20H key.toList (nonce.toList.take 16)
  nonce := nonce.toList.drop 16

/-- What the stack holds where a function keeps its buffers. -/
structure Stack where
  authKey : Mem
  chunk : Block 16

def AeadCtx.authKey (ctx : AeadCtx) (stack : Stack) : List UInt8 :=
  (cryptoChacha20Djb stack.authKey 0 none 64 ctx.key ctx.nonce ctx.counter).1.read 0 64

def cryptoAeadWrite (stack : Stack) (ctx : AeadCtx) (m : Mem) (cipherText mac : Nat)
    (ad : List UInt8) (plainText textSize : Nat) : AeadCtx × Mem :=
  let authKey := ctx.authKey stack
  let m := (cryptoChacha20Djb m cipherText (some plainText) textSize ctx.key ctx.nonce
    (ctx.counter + 1)).1
  let m := m.write mac (PolyMac.lockAuth (authKey.take 32) ad (m.read cipherText textSize)
    stack.chunk)
  ({ ctx with key := authKey.drop 32 }, m)

/-- `crypto_aead_read`: the result, the context and the memory. -/
def cryptoAeadRead (stack : Stack) (ctx : AeadCtx) (m : Mem) (plainText mac : Nat) (ad : List UInt8)
    (cipherText textSize : Nat) : Int × AeadCtx × Mem :=
  let authKey := ctx.authKey stack
  let realMac := PolyMac.lockAuth (authKey.take 32) ad (m.read cipherText textSize) stack.chunk
  let mismatch := cryptoVerify16 (m.read mac 16) realMac
  if mismatch = 0 then
    let m := (cryptoChacha20Djb m plainText (some cipherText) textSize ctx.key ctx.nonce
      (ctx.counter + 1)).1
    (mismatch, { ctx with key := authKey.drop 32 }, m)
  else (mismatch, ctx, m)

def cryptoAeadLock (stack : Stack) (m : Mem) (cipherText mac : Nat) (key : Block 32)
    (nonce : Block 24) (ad : List UInt8) (plainText textSize : Nat) : Mem :=
  (cryptoAeadWrite stack (cryptoAeadInitX key nonce) m cipherText mac ad plainText textSize).2

/-- `crypto_aead_unlock`: the result and the memory. -/
def cryptoAeadUnlock (stack : Stack) (m : Mem) (plainText mac : Nat) (key : Block 32)
    (nonce : Block 24) (ad : List UInt8) (cipherText textSize : Nat) : Int × Mem :=
  let (mismatch, _, m) :=
    cryptoAeadRead stack (cryptoAeadInitX key nonce) m plainText mac ad cipherText textSize
  (mismatch, m)

/-! ## The counter -/

theorem chachaInput_words (key nonce : List UInt8) :
    ∃ k0 k1 k2 k3 k4 k5 k6 k7 k8 k9 k10 k11 n0 n1, ∀ ctr : UInt64, chachaInput key nonce ctr =
      [k0, k1, k2, k3, k4, k5, k6, k7, k8, k9, k10, k11,
        ctr.toUInt32, (ctr >>> 32).toUInt32, n0, n1] :=
  ⟨_, _, _, _, _, _, _, _, _, _, _, _, _, _, fun _ => rfl⟩

theorem counter_words (ctr : UInt64) :
    (ctr + 1).toUInt32 = ctr.toUInt32 + 1 ∧
    ((ctr + 1) >>> 32).toUInt32 =
      if ctr.toUInt32 + 1 = 0 then (ctr >>> 32).toUInt32 + 1 else (ctr >>> 32).toUInt32 := by
  have hc := ctr.toNat_lt
  have h1 : (1 : UInt64).toNat = 1 := rfl
  have h1' : (1 : UInt32).toNat = 1 := rfl
  have hlow : (ctr.toUInt32 + 1).toNat = (ctr.toNat + 1) % 0x100000000 := by
    rw [UInt32.toNat_add, UInt64.toNat_toUInt32, h1']
    omega
  have hzero : ctr.toUInt32 + 1 = 0 ↔ (ctr.toNat + 1) % 0x100000000 = 0 := by
    rw [← UInt32.toNat_inj, hlow]
    rfl
  constructor
  · rw [← UInt32.toNat_inj, hlow, UInt64.toNat_toUInt32, UInt64.toNat_add, h1]
    omega
  · rw [← UInt32.toNat_inj, PolyMac.toNat_high, UInt64.toNat_add, h1]
    split
    · rename_i hz
      rw [hzero] at hz
      rw [UInt32.toNat_add, PolyMac.toNat_high, h1']
      omega
    · rename_i hz
      rw [hzero] at hz
      rw [PolyMac.toNat_high]
      omega

theorem bumpCounter_chachaInput (key nonce : List UInt8) (ctr : UInt64) :
    bumpCounter (chachaInput key nonce ctr) = chachaInput key nonce (ctr + 1) := by
  obtain ⟨hlow, hhigh⟩ := counter_words ctr
  obtain ⟨k0, k1, k2, k3, k4, k5, k6, k7, k8, k9, k10, k11, n0, n1, hin⟩ :=
    chachaInput_words key nonce
  rw [hin, hin, hlow, hhigh]
  simp only [bumpCounter, List.set_cons_succ, List.set_cons_zero, List.getD_cons_succ,
    List.getD_cons_zero]
  split <;> rfl

theorem counter_join (ctr : UInt64) :
    ctr.toUInt32.toUInt64 + ((ctr >>> 32).toUInt32.toUInt64 <<< (32 : UInt64)) = ctr := by
  have hc := ctr.toNat_lt
  apply UInt64.toNat_inj.mp
  have h32 : 2 ^ ((32 : UInt64).toNat % 64) = 0x100000000 := rfl
  rw [UInt64.toNat_add, UInt64.toNat_shiftLeft, UInt32.toNat_toUInt64, UInt32.toNat_toUInt64,
    UInt64.toNat_toUInt32, PolyMac.toNat_high, Nat.shiftLeft_eq, h32]
  omega

/-! ## The key stream -/

theorem chacha20Block_eq (key nonce : List UInt8) (ctr : UInt64) :
    chacha20Block key nonce ctr =
      ((List.range 16).map (poolWord (chachaInput key nonce ctr))).flatMap le32 := by
  have hwords : List.zipWith (· + ·) (chacha20Rounds (.ofList (chachaInput key nonce ctr))).toList
      (chachaInput key nonce ctr) = (List.range 16).map (poolWord (chachaInput key nonce ctr)) := by
    obtain ⟨k0, k1, k2, k3, k4, k5, k6, k7, k8, k9, k10, k11, n0, n1, hin⟩ :=
      chachaInput_words key nonce
    rw [hin]
    rfl
  rw [← hwords]
  rfl

theorem flatMap_le32_word (ws : List UInt32) (j : Nat) (hj : j < ws.length) :
    ((ws.flatMap le32).drop (4 * j)).take 4 = le32 (ws.getD j 0) := by
  induction ws generalizing j with
  | nil => simp at hj
  | cons w ws ih =>
    rw [List.flatMap_cons]
    cases j with
    | zero =>
      rw [Nat.mul_zero, List.drop_zero, List.take_left' (length_le32 w)]
      rfl
    | succ j =>
      have hlen := length_le32 w
      rw [Nat.mul_add, Nat.mul_one, Nat.add_comm, ← List.drop_drop, List.drop_left' hlen,
        ih j (by simpa using hj)]
      rfl

/-- Four bytes of the key stream are one word of a block. -/
theorem keyStream_word (key nonce : List UInt8) (ctr : UInt64) (n j : Nat) (hj : j < 16) :
    [keyStream key nonce ctr (64 * n + 4 * j), keyStream key nonce ctr (64 * n + 4 * j + 1),
      keyStream key nonce ctr (64 * n + 4 * j + 2), keyStream key nonce ctr (64 * n + 4 * j + 3)] =
    le32 (poolWord (chachaInput key nonce (ctr + UInt64.ofNat n)) j) := by
  have hbyte : ∀ k, k < 4 → keyStream key nonce ctr (64 * n + 4 * j + k) =
      (le32 (poolWord (chachaInput key nonce (ctr + UInt64.ofNat n)) j)).getD k 0 := by
    intro k hk
    have hw := flatMap_le32_word
      ((List.range 16).map (poolWord (chachaInput key nonce (ctr + UInt64.ofNat n)))) j (by simpa)
    rw [← chacha20Block_eq] at hw
    have hget :
        ((List.range 16).map (poolWord (chachaInput key nonce (ctr + UInt64.ofNat n)))).getD j 0 =
          poolWord (chachaInput key nonce (ctr + UInt64.ofNat n)) j := by
      simp [List.getD_eq_getElem?_getD, hj]
    rw [hget] at hw
    have hdiv : (64 * n + 4 * j + k) / 64 = n := by omega
    have hmod : (64 * n + 4 * j + k) % 64 = 4 * j + k := by omega
    rw [keyStream, hdiv, hmod, ← hw]
    simp [List.getD_eq_getElem?_getD, hk]
  have h0 := hbyte 0 (by decide)
  have h1 := hbyte 1 (by decide)
  have h2 := hbyte 2 (by decide)
  have h3 := hbyte 3 (by decide)
  rw [Nat.add_zero] at h0
  rw [h0, h1, h2, h3]
  rfl

/-! ## The loops -/

theorem onMem_append (ks : Nat → UInt8) (as bs : List Nat) (pos src dst : Nat) (m : Mem) :
    chacha20.onMem (ks, pos) (as ++ bs) src dst m =
      chacha20.onMem (ks, pos + as.sum) bs (src + as.sum) (dst + as.sum)
        (chacha20.onMem (ks, pos) as src dst m) := by
  induction as generalizing pos src dst m with
  | nil => rfl
  | cons n as ih =>
    have hstep : (chacha20.step (ks, pos) (m.read src n)).1 = (ks, pos + n) := by
      simp [chacha20]
    rw [List.cons_append, Piecewise.onMem, hstep, ih, Piecewise.onMem, hstep, List.sum_cons]
    simp only [Nat.add_assoc]

theorem onMem_replicate_succ (ks : Nat → UInt8) (k n pos src dst : Nat) (m : Mem) :
    chacha20.onMem (ks, pos) (List.replicate (k + 1) n) src dst m =
      (chacha20.onMem (ks, pos) (List.replicate k n) src dst m).write (dst + k * n)
        (chacha20Piece ks (pos + k * n)
          ((chacha20.onMem (ks, pos) (List.replicate k n) src dst m).read (src + k * n) n)) := by
  rw [List.replicate_succ', onMem_append, List.sum_replicate_nat]
  rfl

theorem words_onMem {key nonce : List UInt8} {ctr : UInt64} {n : Nat} {s : Djb} {plainText : Nat}
    (hi : s.input = chachaInput key nonce (ctr + UInt64.ofNat n))
    (hp : s.plainText = some plainText) (m : Mem) (k : Nat) (hk : k ≤ 16) :
    (List.range k).foldl s.storeWord m =
      chacha20.onMem (keyStream key nonce ctr, 64 * n) (List.replicate k 4) plainText s.cipherText
        m := by
  induction k with
  | zero => rfl
  | succ k ih =>
    rw [List.range_succ, List.foldl_append, ih (by omega), onMem_replicate_succ, List.foldl_cons,
      List.foldl_nil, Nat.mul_comm k 4]
    have hword := keyStream_word key nonce ctr n k (by omega)
    rw [chacha20Piece, if_pos (by simp), hword, ofNat_leVal_le32]
    simp only [Djb.storeWord, hp, hi, Mem.load32]

/-- **Whole blocks.** After `n` of them the counter stands at `ctr + n`. -/
theorem blocks_onMem (key nonce : List UInt8) (ctr : UInt64) (m : Mem)
    (cipherText plainText n : Nat) :
    Nat.repeat Djb.block n ⟨m, chachaInput key nonce ctr, cipherText, some plainText⟩ =
      ⟨chacha20.onMem (keyStream key nonce ctr, 0) (List.replicate (16 * n) 4)
          plainText cipherText m,
        chachaInput key nonce (ctr + UInt64.ofNat n), cipherText + 64 * n,
        some (plainText + 64 * n)⟩ := by
  induction n with
  | zero =>
    have h0 : ctr + UInt64.ofNat 0 = ctr := UInt64.add_zero ctr
    rw [h0]
    rfl
  | succ n ih =>
    have hctr : ctr + UInt64.ofNat n + 1 = ctr + UInt64.ofNat (n + 1) := by
      rw [UInt64.ofNat_add, UInt64.add_assoc]
      rfl
    rw [Nat.repeat, ih, Djb.block, Djb.mk.injEq]
    refine ⟨?_, ?_, by simp only; omega, by simp only [Option.map_some]; congr 1⟩
    · rw [words_onMem rfl rfl _ 16 (Nat.le_refl 16), Nat.mul_add, List.replicate_add, onMem_append,
        List.sum_replicate_nat, show 16 * n * 4 = 64 * n by omega, Nat.zero_add]
    · rw [bumpCounter_chachaInput, hctr]

theorem bytes_onMem {key nonce : List UInt8} {ctr : UInt64} {n : Nat} {s : Djb} {plainText : Nat}
    {tmp : List UInt8} (ht : tmp = chacha20Block key nonce (ctr + UInt64.ofNat n))
    (hp : s.plainText = some plainText) (m : Mem) (k : Nat) (hk : k ≤ 64) :
    (List.range k).foldl (s.storeByte tmp) m =
      chacha20.onMem (keyStream key nonce ctr, 64 * n) (List.replicate k 1) plainText s.cipherText
        m := by
  induction k with
  | zero => rfl
  | succ k ih =>
    rw [List.range_succ, List.foldl_append, ih (by omega), onMem_replicate_succ, List.foldl_cons,
      List.foldl_nil, Nat.mul_one]
    have hdiv : (64 * n + k) / 64 = n := by omega
    have hmod : (64 * n + k) % 64 = k := by omega
    have hks : keyStream key nonce ctr (64 * n + k) = tmp.getD k 0 := by
      rw [keyStream, hdiv, hmod, ht]
    simp [Djb.storeByte, hp, chacha20Piece, Mem.read, hks]

theorem counter_text (key nonce : List UInt8) (ctr : UInt64) (textSize : Nat) :
    ((chachaInput key nonce (ctr + UInt64.ofNat (textSize / 64))).getD 12 0).toUInt64 +
        (((chachaInput key nonce (ctr + UInt64.ofNat (textSize / 64))).getD 13 0).toUInt64 <<<
          (32 : UInt64)) + (if textSize % 64 > 0 then 1 else 0) =
      ctr + UInt64.ofNat ((textSize + 63) / 64) := by
  obtain ⟨k0, k1, k2, k3, k4, k5, k6, k7, k8, k9, k10, k11, n0, n1, hin⟩ :=
    chachaInput_words key nonce
  have hrest : UInt64.ofNat (textSize / 64) + (if textSize % 64 > 0 then 1 else 0) =
      UInt64.ofNat ((textSize + 63) / 64) := by
    by_cases h : textSize % 64 > 0
    · rw [if_pos h, show (textSize + 63) / 64 = textSize / 64 + 1 by omega, UInt64.ofNat_add]
      rfl
    · rw [if_neg h, show (textSize + 63) / 64 = textSize / 64 by omega, UInt64.add_zero]
  rw [← hrest, ← UInt64.add_assoc, hin]
  simp only [List.getD_cons_succ, List.getD_cons_zero, counter_join]

/-- **`crypto_chacha20_djb`** is the cipher over the text, and returns the next counter. -/
theorem cryptoChacha20Djb_eq (m : Mem) (cipherText plainText textSize : Nat)
    (key nonce : List UInt8) (ctr : UInt64) :
    cryptoChacha20Djb m cipherText (some plainText) textSize key nonce ctr =
      (chacha20.onMem (keyStream key nonce ctr, 0) (wordSizes textSize) plainText cipherText m,
        ctr + UInt64.ofNat ((textSize + 63) / 64)) := by
  unfold cryptoChacha20Djb
  rw [blocks_onMem]
  dsimp only
  rw [counter_text, Prod.mk.injEq]
  refine ⟨?_, rfl⟩
  rw [wordSizes, onMem_append, List.sum_replicate_nat,
    show 16 * (textSize / 64) * 4 = 64 * (textSize / 64) by omega, Nat.zero_add]
  split
  · exact bytes_onMem (chacha20Block_eq _ _ _).symm rfl _ _ (by omega)
  · rename_i h
    rw [show textSize % 64 = 0 by omega]
    rfl

theorem words_stream {s : Djb} (hp : s.plainText = none) (m : Mem) (k : Nat) :
    (List.range k).foldl s.storeWord m =
      m.write s.cipherText (((List.range k).map (poolWord s.input)).flatMap le32) := by
  induction k with
  | zero => simp
  | succ k ih =>
    have hlen : (((List.range k).map (poolWord s.input)).flatMap le32).length = 4 * k := by
      rw [List.length_flatMap]
      simp [Function.comp_def, Nat.mul_comm]
    rw [List.range_succ, List.foldl_append, ih, List.foldl_cons, List.foldl_nil, List.map_append,
      List.flatMap_append, write_append, hlen]
    simp [Djb.storeWord, hp]

theorem AeadCtx.authKey_eq (ctx : AeadCtx) (stack : Stack) :
    ctx.authKey stack = chacha20Block ctx.key ctx.nonce ctx.counter := by
  have hblock : (cryptoChacha20Djb stack.authKey 0 none 64 ctx.key ctx.nonce ctx.counter).1 =
      stack.authKey.write 0 (chacha20Block ctx.key ctx.nonce ctx.counter) := by
    rw [chacha20Block_eq]
    exact words_stream (s := ⟨_, chachaInput ctx.key ctx.nonce ctx.counter, 0, none⟩) rfl
      stack.authKey 16
  have hlen : (chacha20Block ctx.key ctx.nonce ctx.counter).length = 64 := by
    rw [chacha20Block_eq, List.length_flatMap]
    simp [Function.comp_def]
  rw [AeadCtx.authKey, hblock, read_write_len _ _ _ _ hlen]

/-! ## The comparison -/

/-- The two halves of a word are or-ed, and one is taken from that: it borrows from bit 32 on
only where there was nothing. -/
theorem neq0_eq (diff : UInt64) : neq0 diff = if diff = 0 then 0 else -1 := by
  have hd := diff.toNat_lt
  have hhalf : ((diff >>> 32) ||| diff.toUInt32.toUInt64).toNat < 0x100000000 ∧
      (((diff >>> 32) ||| diff.toUInt32.toUInt64).toNat = 0 ↔ diff = 0) := by
    rw [UInt64.toNat_or, Limbs.toNat_shiftRight_32, UInt32.toNat_toUInt64, UInt64.toNat_toUInt32,
      Nat.or_eq_zero_iff, ← UInt64.toNat_inj]
    refine ⟨Nat.or_lt_two_pow (n := 32) (by omega) (by omega), ?_⟩
    have h0 : (0 : UInt64).toNat = 0 := rfl
    omega
  obtain ⟨hlt, hzero⟩ := hhalf
  unfold neq0
  dsimp only
  generalize (diff >>> 32) ||| diff.toUInt32.toUInt64 = half at hlt hzero ⊢
  have h1 : (1 : UInt64).toNat = 1 := rfl
  have hbit : ((1 : UInt64) &&& ((half - 1) >>> 32)).toNat =
      (half - 1).toNat / 0x100000000 % 2 := by
    rw [UInt64.toNat_and, Limbs.toNat_shiftRight_32, h1, Nat.and_comm, Nat.and_one_is_mod]
  rw [hbit, UInt64.toNat_sub, h1]
  by_cases h : diff = 0
  · have hz := hzero.mpr h
    rw [if_pos h, hz]
    rfl
  · have hz : half.toNat ≠ 0 := fun he => h (hzero.mp he)
    rw [if_neg h, show (2 ^ 64 - 1 + half.toNat) % 2 ^ 64 / 0x100000000 % 2 = 0 by omega]
    rfl

theorem load64Le_inj {a b : List UInt8} (ha : a.length = 16) (hb : b.length = 16)
    (h0 : load64Le a 0 = load64Le b 0) (h8 : load64Le a 8 = load64Le b 8) : a = b := by
  have hload : ∀ {bs : List UInt8} {off : Nat}, off + 8 ≤ bs.length →
      le64 (load64Le bs off) = (bs.drop off).take 8 := by
    intro bs off h
    have hl : ((bs.drop off).take 8).length = 8 := by
      rw [List.length_take, List.length_drop]
      omega
    have hlt := leVal_lt ((bs.drop off).take 8)
    rw [hl] at hlt
    rw [le64, load64Le, UInt64.toNat_ofNat_of_lt' hlt, leBytes_leVal_len 8 _ hl]
  have hsplit : ∀ {bs : List UInt8}, bs.length = 16 →
      bs = le64 (load64Le bs 0) ++ le64 (load64Le bs 8) := by
    intro bs h
    rw [hload (by omega), hload (by omega), List.drop_zero]
    have hd : (bs.drop 8).take 8 = bs.drop 8 := List.take_of_length_le (by simp [h])
    rw [hd, List.take_append_drop]
  rw [hsplit ha, hsplit hb, h0, h8]

/-- **The tags are compared as a whole.** -/
theorem cryptoVerify16_eq {a b : List UInt8} (ha : a.length = 16) (hb : b.length = 16) :
    cryptoVerify16 a b = if a = b then 0 else -1 := by
  have hx : x16 a b = 0 ↔ a = b := by
    rw [x16, UInt64.or_eq_zero_iff, UInt64.xor_eq_zero_iff, UInt64.xor_eq_zero_iff]
    exact ⟨fun h => load64Le_inj ha hb h.1 h.2, fun h => by rw [h]; exact ⟨rfl, rfl⟩⟩
  rw [cryptoVerify16, neq0_eq]
  exact if_congr hx rfl rfl

/-! ## The AEAD -/

/-- The tag that `lock_auth` computes under the first block. -/
theorem tag_eq (key : Block 32) (nonce : Block 24) (stack : Stack) (ad cipherText : List UInt8) :
    PolyMac.lockAuth (((cryptoAeadInitX key nonce).authKey stack).take 32) ad cipherText
      stack.chunk = (textTag key nonce ad cipherText).toList := by
  rw [AeadCtx.authKey_eq, textTag, PolyMac.toList_lockAuth _ _ _ stack.chunk]
  rfl

theorem cryptoAeadLock_eq (stack : Stack) (m : Mem) (cipherText mac : Nat) (key : Block 32)
    (nonce : Block 24) (ad : List UInt8) (plainText textSize : Nat) :
    cryptoAeadLock stack m cipherText mac key nonce ad plainText textSize =
      monocypher.lock m cipherText mac key nonce ad plainText textSize := by
  unfold cryptoAeadLock cryptoAeadWrite
  dsimp only
  rw [cryptoChacha20Djb_eq, tag_eq]
  rfl

theorem cryptoAeadUnlock_eq (stack : Stack) (m : Mem) (plainText mac : Nat) (key : Block 32)
    (nonce : Block 24) (ad : List UInt8) (cipherText textSize : Nat) :
    cryptoAeadUnlock stack m plainText mac key nonce ad cipherText textSize =
      match monocypher.unlock m plainText mac key nonce ad cipherText textSize with
      | some m' => (0, m')
      | none => (-1, m) := by
  unfold cryptoAeadUnlock cryptoAeadRead StreamAead.unlock
  dsimp only
  have hmac : monocypher.mac = textTag := rfl
  rw [tag_eq, cryptoVerify16_eq (length_read _ _ _) (Block.length_toList _), hmac]
  by_cases h : m.read mac 16 = (textTag key nonce ad (m.read cipherText textSize)).toList
  · rw [if_pos h, if_pos rfl, cryptoChacha20Djb_eq, if_pos h]
    rfl
  · rw [if_neg h, if_neg (by decide), if_neg h]

/-! ## XChaCha20-Poly1305 -/

def xorText (key : Block 32) (nonce : Block 24) (text : List UInt8) : List UInt8 :=
  text.mapIdx fun j b => textStream key nonce j ^^^ b

/-- The tag: Poly1305 of the padded texts and their sizes, keyed by the first half of block 0. -/
def aeadTag (key : Block 32) (nonce : Block 24) (ad cipherText : List UInt8) : List UInt8 :=
  PolyMac.poly1305 ((chacha20Block (subKey key nonce) (nonce.toList.drop 16) 0).take 32)
    (PolyMac.lockMessage ad cipherText)

theorem toList_textTag (key : Block 32) (nonce : Block 24) (ad cipherText : List UInt8) :
    (textTag key nonce ad cipherText).toList = aeadTag key nonce ad cipherText := by
  rw [textTag, PolyMac.toList_lockAuth _ _ _ (fun _ => 0), PolyMac.lockAuth_eq]
  rfl

theorem onBytes_monocypher (key : Block 32) (nonce : Block 24) (text : List UInt8) :
    chacha20.onBytes (textStream key nonce, 0) (wordSizes text.length) text =
      xorText key nonce text := by
  rw [chacha20_eq, xorStream_onBytes _ _ (sum_wordSizes _)]
  simp only [Nat.zero_add]
  rfl

/-- **The AEAD.** Wherever the output may lie, and whatever the stack holds, locking leaves the
ciphertext and its tag; unlocking compares the tag first, and then leaves the plaintext or
touches nothing. -/
theorem crypto_aead_spec (stack : Stack) (m : Mem) (key : Block 32) (nonce : Block 24)
    (ad : List UInt8) {src dst textSize : Nat} (mac : Nat)
    (h : dst ≤ src ∨ src + textSize ≤ dst) :
    cryptoAeadLock stack m dst mac key nonce ad src textSize =
      (m.write dst (xorText key nonce (m.read src textSize))).write mac
        (aeadTag key nonce ad (xorText key nonce (m.read src textSize))) ∧
    cryptoAeadUnlock stack m dst mac key nonce ad src textSize =
      if m.read mac 16 = aeadTag key nonce ad (m.read src textSize) then
        (0, m.write dst (xorText key nonce (m.read src textSize)))
      else (-1, m) := by
  have hbytes := onBytes_monocypher key nonce (m.read src textSize)
  rw [length_read] at hbytes
  constructor
  · rw [cryptoAeadLock_eq, monocypher.lock_eq m mac key nonce ad h]
    simp only [StreamAead.aead, monocypher, length_read, hbytes, toList_textTag]
  · rw [cryptoAeadUnlock_eq, monocypher.unlock_eq m mac key nonce ad h]
    simp only [StreamAead.aead, monocypher, length_read, hbytes, toList_textTag, toList_read]
    by_cases ht : m.read mac 16 = aeadTag key nonce ad (m.read src textSize)
    · rw [if_pos ht, if_pos ht, Option.map_some]
    · rw [if_neg ht, if_neg ht, Option.map_none]

theorem crypto_aead_in_place :
    cryptoAeadUnlock ⟨fun _ => 9, fun _ => 9⟩ (fun _ => 7) 40 110 (fun _ => 1) (fun _ => 2) []
        40 70 =
      if Mem.read (fun _ => 7) 110 16 =
          aeadTag (fun _ => 1) (fun _ => 2) [] (List.replicate 70 7) then
        (0, Mem.write (fun _ => 7) 40 (xorText (fun _ => 1) (fun _ => 2) (List.replicate 70 7)))
      else (-1, fun _ => 7) :=
  (crypto_aead_spec ⟨fun _ => 9, fun _ => 9⟩ (fun _ => 7) (fun _ => 1) (fun _ => 2) [] 110
    (Or.inl (Nat.le_refl 40))).2

end Vfast.AeadCode
