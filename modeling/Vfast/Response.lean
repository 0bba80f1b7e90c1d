import Vfast.Lib.CStrings

/-! The console's response buffer (`cmd_resp_printf` and the colour wrappers of `cmd.c`). What
it should hold is the concatenation of everything printed, cut to the buffer. The wrappers keep
to that for every size; `cmd_resp_printf` takes the free space through an `int` and only does
for sizes an `int` can hold. -/

namespace Vfast.Response

open Bytes CStrings

/-- `cmd_resp_t`; the memory is seen from `buf`. -/
structure CmdResp where
  buf : Mem
  size : Nat
  offset : Nat

def toInt (n : Nat) : Int := (n : Int).bmod (2 ^ 32)

def toSize (i : Int) : Nat := (i % 0x10000000000000000).toNat

/-- `vsnprintf` at `off` with the limit `n`, where the formatted text is `text`: the memory and
the result. -/
def vsnprintf (m : Mem) (off n : Nat) (text : List UInt8) : Mem × Int :=
  (if n = 0 then m else m.write off (text.take (n - 1) ++ [0]), text.length)

/-- `cmd_resp_printf`; it is undefined where `available - 1` overflows. -/
def cmdRespPrintf (r : CmdResp) (text : List UInt8) : Option CmdResp :=
  if r.size ≤ r.offset then some r
  else
    let available := toInt (r.size - r.offset)
    let (buf, written) := vsnprintf r.buf r.offset (toSize available) text
    if 0 < written then
      if written < available then some { r with buf, offset := toSize (r.offset + written) }
      else if available = -0x80000000 then none
      else some { r with buf, offset := toSize (r.offset + (available - 1)) }
    else some { r with buf }

/-- `cmd_resp_printf_internal`, which `cmd_resp_print_raw` calls with the format `%s`. -/
def cmdRespPrintfInternal (r : CmdResp) (text : List UInt8) : CmdResp :=
  if r.size = 0 ∨ r.size - 1 ≤ r.offset then r
  else
    let available := r.size - r.offset
    let (buf, n) := vsnprintf r.buf r.offset available text
    if 0 < n then
      let written := if available ≤ toSize n then available - 1 else toSize n
      let offset := r.offset + written
      { r with buf := buf.write offset [0], offset }
    else { r with buf }

def cRed : List UInt8 := ascii "\x01\x1b[91m\x02"
def cGreen : List UInt8 := ascii "\x01\x1b[92m\x02"
def cCyan : List UInt8 := ascii "\x01\x1b[96m\x02"
def cReset : List UInt8 := ascii "\x01\x1b[0m\x02"

/-- The colour wrappers: the colour, the text and the reset, each printed on its own. -/
def coloured (colour : List UInt8) (r : CmdResp) (text : List UInt8) : CmdResp :=
  [colour, text, cReset].foldl cmdRespPrintfInternal r

def cmdRespRed : CmdResp → List UInt8 → CmdResp := coloured cRed
def cmdRespGreen : CmdResp → List UInt8 → CmdResp := coloured cGreen
def cmdRespCyan : CmdResp → List UInt8 → CmdResp := coloured cCyan

/-- A call of one of the four functions, with the text its format gives. -/
inductive Call where
  | printf (text : List UInt8)
  | red (text : List UInt8)
  | green (text : List UInt8)
  | cyan (text : List UInt8)

def Call.text : Call → List UInt8
  | .printf text | .red text | .green text | .cyan text => text

def Call.run (r : CmdResp) : Call → Option CmdResp
  | .printf text => cmdRespPrintf r text
  | .red text => some (cmdRespRed r text)
  | .green text => some (cmdRespGreen r text)
  | .cyan text => some (cmdRespCyan r text)

def Call.pieces : Call → List (List UInt8)
  | .printf text => [text]
  | .red text => [cRed, text, cReset]
  | .green text => [cGreen, text, cReset]
  | .cyan text => [cCyan, text, cReset]

/-- The results of `vsnprintf` are not negative as an `int`. -/
def Call.Formatted (c : Call) : Prop := c.text.length < 2 ^ 31

instance (c : Call) : Decidable c.Formatted := inferInstanceAs (Decidable (_ < _))

/-! ## The text a response shows -/

/-- The response shows `s`: `s` fits, a NUL follows it, and the bytes past the buffer are those
of `m`. -/
structure Shows (m : Mem) (size : Nat) (r : CmdResp) (s : List UInt8) : Prop where
  size_eq : r.size = size
  offset_eq : r.offset = s.length
  fits : s.length < size
  text : r.buf.read 0 s.length = s
  nul : r.buf s.length = 0
  beyond : ∀ i, size ≤ i → r.buf i = m i

def shown (size : Nat) (s text : List UInt8) : List UInt8 := (s ++ text).take (size - 1)

section

variable {m : Mem} {size : Nat} {r : CmdResp} {s text : List UInt8}

theorem shown_eq (h : s.length < size) :
    shown size s text = s ++ text.take (size - 1 - s.length) := by
  rw [shown, List.take_append, List.take_of_length_le (by omega)]

/-- A text that fits, stored with its NUL behind what is shown. -/
theorem Shows.append (h : Shows m size r s) (text : List UInt8)
    (hfits : s.length + text.length < size) :
    Shows m size ⟨r.buf.write s.length (text ++ [0]), r.size, s.length + text.length⟩
      (s ++ text) := by
  refine ⟨h.size_eq, List.length_append.symm, by rwa [List.length_append], ?_, ?_, ?_⟩
  · rw [List.length_append, read_add, Nat.zero_add, write_append]
    rw [read_write_disjoint _ _ _ _ _ (.inl (by omega)),
      read_write_disjoint _ _ _ _ _ (.inl (by omega)),
      h.text, read_write_disjoint _ _ _ _ _ (.inl (Nat.le_refl _)), read_write]
  · rw [List.length_append, write_append]
    exact write_of_mem _ (s.length + text.length) [0] 0 (by simp)
  · intro i hi
    refine (write_of_ge _ _ _ _ ?_).trans (h.beyond i hi)
    rw [List.length_append, List.length_singleton]
    omega

/-- What `vsnprintf` stores in the free space of a buffer. -/
theorem Shows.vsnprintf {buf : Mem} (h : Shows m size ⟨buf, size, s.length⟩ s) {off : Nat}
    (ho : off = s.length + min (size - s.length - 1) text.length) :
    Shows m size ⟨(vsnprintf buf s.length (size - s.length) text).1, size, off⟩
      (shown size s text) := by
  have hfits := h.fits
  have hstored := h.append (text.take (size - s.length - 1)) (by
    rw [List.length_take]
    omega)
  rw [List.length_take, ← ho] at hstored
  rw [shown_eq hfits, Response.vsnprintf, if_neg (by omega), Nat.sub_right_comm size 1]
  exact hstored

theorem Shows.terminate (h : Shows m size r s) :
    Shows m size { r with buf := r.buf.write r.offset [0] } s := by
  have hfits := h.fits
  refine ⟨h.size_eq, h.offset_eq, hfits, ?_, ?_, ?_⟩
  · exact (read_write_disjoint _ _ _ _ _ (.inl (by rw [h.offset_eq]; omega))).trans h.text
  · rw [h.offset_eq]
    exact write_of_mem _ s.length [0] 0 (by simp)
  · intro i hi
    refine (write_of_ge _ _ _ _ ?_).trans (h.beyond i hi)
    rw [h.offset_eq, List.length_singleton]
    omega

theorem toSize_nat {n : Nat} (h : n < 2 ^ 64) : toSize (n : Int) = n := by
  unfold toSize
  omega

theorem toInt_of_lt {n : Nat} (h : n < 2 ^ 31) : toInt n = n := by
  unfold toInt
  rw [Int.bmod_def]
  omega

/-- **The internal printer appends and cuts**, for every size. -/
theorem Shows.internal (h : Shows m size r s) (ht : text.length < 2 ^ 31) :
    Shows m size (cmdRespPrintfInternal r text) (shown size s text) := by
  obtain ⟨buf, size', off⟩ := r
  obtain rfl : size' = size := h.size_eq
  obtain rfl : off = s.length := h.offset_eq
  have hfits := h.fits
  have hn : toSize text.length = text.length := toSize_nat (by omega)
  unfold cmdRespPrintfInternal
  by_cases hfull : size' - 1 ≤ s.length
  · -- nothing is printed into a full buffer
    rw [if_pos (.inr hfull), shown_eq hfits, Nat.sub_eq_zero_of_le hfull, List.take_zero,
      List.append_nil]
    exact h
  · have hopen : ¬ (size' = 0 ∨ size' - 1 ≤ s.length) := by omega
    rw [if_neg hopen]
    by_cases hpos : 0 < (text.length : Int)
    · have hoff : s.length + (if size' - s.length ≤ toSize text.length then size' - s.length - 1
          else toSize text.length) = s.length + min (size' - s.length - 1) text.length := by
        rw [hn]
        split <;> omega
      have hstored := (h.vsnprintf hoff).terminate
      simpa only [Response.vsnprintf, if_pos hpos] using hstored
    · have hoff : s.length = s.length + min (size' - s.length - 1) text.length := by omega
      have hstored := h.vsnprintf hoff
      simpa only [Response.vsnprintf, if_neg hpos] using hstored

theorem cmdRespPrintf_eq {buf : Mem} {off : Nat} (hoff : off < size) (hsize : size < 2 ^ 31) :
    cmdRespPrintf ⟨buf, size, off⟩ text =
      some ⟨(Response.vsnprintf buf off (size - off) text).1, size,
        off + min (size - off - 1) text.length⟩ := by
  have hint : toInt (size - off) = (size - off : Nat) := toInt_of_lt (by omega)
  have hn : toSize (size - off : Nat) = size - off := toSize_nat (by omega)
  unfold cmdRespPrintf
  simp only [Response.vsnprintf, hint, hn, if_neg (Nat.not_le.mpr hoff)]
  split
  · split
    · have hnew : toSize (off + text.length) = off + min (size - off - 1) text.length := by
        unfold toSize
        omega
      rw [hnew]
    · have hnew : toSize (off + ((size - off : Nat) - 1)) =
          off + min (size - off - 1) text.length := by
        unfold toSize
        omega
      rw [if_neg (by omega), hnew]
  · have hnew : off + min (size - off - 1) text.length = off := by omega
    rw [hnew]

/-- **`cmd_resp_printf` appends and cuts** where the size is an `int`. -/
theorem Shows.printf (h : Shows m size r s) (hsize : size < 2 ^ 31) :
    ∃ r', cmdRespPrintf r text = some r' ∧ Shows m size r' (shown size s text) := by
  obtain ⟨buf, size', off⟩ := r
  obtain rfl : size' = size := h.size_eq
  obtain rfl : off = s.length := h.offset_eq
  exact ⟨_, cmdRespPrintf_eq h.fits hsize, h.vsnprintf rfl⟩

end

/-! ## Sequences of calls -/

def runCalls (r : CmdResp) (calls : List Call) : Option CmdResp := calls.foldlM Call.run r

def printed (calls : List Call) : List UInt8 := (calls.flatMap Call.pieces).flatten

/-- Responses of the size are truncated concatenations: whatever is printed into a zeroed
buffer, it holds the first bytes of that and a NUL, and nothing behind the buffer changes. -/
def Concatenates (size : Nat) : Prop :=
  ∀ (m : Mem) (calls : List Call), (∀ i, i < size → m i = 0) → (∀ c ∈ calls, c.Formatted) →
    ∃ r, runCalls ⟨m, size, 0⟩ calls = some r ∧ r.offset ≤ size - 1 ∧ r.buf r.offset = 0 ∧
      r.buf.read 0 r.offset = (printed calls).take (size - 1) ∧
      ∀ i, size ≤ i → r.buf i = m i

section

variable {m : Mem} {size : Nat} {r : CmdResp} {s : List UInt8}

theorem shown_nil (h : s.length < size) : shown size s [] = s := by
  rw [shown_eq h, List.take_nil, List.append_nil]

/-- Cutting once or after each text is the same. -/
theorem shown_shown (a b : List UInt8) : shown size (shown size s a) b = shown size s (a ++ b) := by
  have hcut : ∀ t : List UInt8, (t.take (size - 1) ++ b).take (size - 1) =
      (t ++ b).take (size - 1) := by
    intro t
    rw [List.take_append, List.take_append, List.take_take, Nat.min_self, List.length_take]
    congr 2
    omega
  unfold shown
  rw [hcut, List.append_assoc]

theorem Shows.internals (h : Shows m size r s) {pieces : List (List UInt8)}
    (ht : ∀ t ∈ pieces, t.length < 2 ^ 31) :
    Shows m size (pieces.foldl cmdRespPrintfInternal r) (shown size s pieces.flatten) := by
  induction pieces generalizing r s with
  | nil =>
    rw [List.flatten_nil, shown_nil h.fits]
    exact h
  | cons t pieces ih =>
    have hfirst := h.internal (ht t List.mem_cons_self)
    have hrest := ih hfirst fun u hu => ht u (List.mem_cons_of_mem t hu)
    rwa [shown_shown] at hrest

theorem Shows.coloured (h : Shows m size r s) {colour text : List UInt8}
    (hc : colour.length < 2 ^ 31) (ht : text.length < 2 ^ 31) :
    Shows m size (coloured colour r text) (shown size s [colour, text, cReset].flatten) := by
  apply h.internals
  simp only [List.forall_mem_cons]
  exact ⟨hc, ht, by decide, by simp⟩

theorem Shows.call (h : Shows m size r s) (hsize : size < 2 ^ 31) {c : Call} (hc : c.Formatted) :
    ∃ r', c.run r = some r' ∧ Shows m size r' (shown size s c.pieces.flatten) := by
  cases c with
  | printf text =>
    rw [Call.pieces, List.flatten_singleton]
    exact h.printf hsize
  | red text => exact ⟨_, rfl, h.coloured (by decide) hc⟩
  | green text => exact ⟨_, rfl, h.coloured (by decide) hc⟩
  | cyan text => exact ⟨_, rfl, h.coloured (by decide) hc⟩

theorem Shows.calls (h : Shows m size r s) (hsize : size < 2 ^ 31) {calls : List Call}
    (hc : ∀ c ∈ calls, c.Formatted) :
    ∃ r', runCalls r calls = some r' ∧ Shows m size r' (shown size s (printed calls)) := by
  induction calls generalizing r s with
  | nil => exact ⟨r, rfl, by rwa [printed, List.flatMap_nil, List.flatten_nil, shown_nil h.fits]⟩
  | cons c calls ih =>
    obtain ⟨r₁, hrun, h₁⟩ := h.call hsize (hc c List.mem_cons_self)
    obtain ⟨r₂, hrest, h₂⟩ := ih h₁ fun d hd => hc d (List.mem_cons_of_mem c hd)
    refine ⟨r₂, ?_, ?_⟩
    · rw [runCalls, List.foldlM_cons, hrun]
      exact hrest
    · rw [shown_shown] at h₂
      rwa [printed, List.flatMap_cons, List.flatten_append]

end

/-- A first text that does not fit the free space as an `int`: what the offset becomes. -/
theorem printf_offset {size : Nat} {m : Mem} {text : List UInt8} {r : CmdResp} (hs : 0 < size)
    (hpos : 0 < text.length) (hlong : toInt size ≤ text.length)
    (h : cmdRespPrintf ⟨m, size, 0⟩ text = some r) : r.offset = toSize (toInt size - 1) := by
  unfold cmdRespPrintf at h
  have hwritten : 0 < (text.length : Int) := by omega
  simp only [vsnprintf, Nat.sub_zero, if_neg (Nat.not_le.mpr hs), if_pos hwritten,
    if_neg (Int.not_lt.mpr hlong)] at h
  split at h
  · cases h
  · obtain rfl := Option.some.inj h
    simp

/-- **Responses are truncated concatenations exactly if an `int` holds the size.** -/
theorem responses_concatenate_iff (size : Nat) (h1 : 1 ≤ size) (h2 : size < 2 ^ 64) :
    Concatenates size ↔ size ≤ 2 ^ 31 - 1 := by
  constructor
  · intro h
    by_contra hbig
    -- one text as long as the space that `cmd_resp_printf` sees, or of one byte if it sees none
    have hrange : -0x80000000 ≤ toInt size ∧ toInt size < 0x80000000 := by
      unfold toInt
      rw [Int.bmod_def]
      omega
    let text : List UInt8 := List.replicate (max 1 (toInt size).toNat) 0x61
    have hlen : text.length = max 1 (toInt size).toNat := List.length_replicate
    obtain ⟨r, hrun, -, -, hread, -⟩ := h (fun _ => 0) [.printf text] (fun _ _ => rfl) (by
      intro c hc
      obtain rfl := List.mem_singleton.mp hc
      rw [Call.Formatted, Call.text]
      omega)
    have hprint : cmdRespPrintf ⟨fun _ => 0, size, 0⟩ text = some r := by
      simpa [runCalls, Call.run] using hrun
    have hoff := printf_offset h1 (by omega) (by omega) hprint
    have htotal : r.offset = min (size - 1) text.length := by
      simpa [printed, Call.pieces] using congrArg List.length hread
    unfold toSize at hoff
    omega
  · intro hsize m calls h0 hc
    have hstart : Shows m size ⟨m, size, 0⟩ [] :=
      ⟨rfl, rfl, h1, rfl, h0 0 h1, fun _ _ => rfl⟩
    obtain ⟨r, hrun, hr⟩ := hstart.calls (by omega) hc
    have hfits := hr.fits
    refine ⟨r, hrun, ?_, ?_, ?_, hr.beyond⟩
    · rw [hr.offset_eq]
      omega
    · rw [hr.offset_eq]
      exact hr.nul
    · rw [hr.offset_eq]
      exact hr.text

theorem server_responses_concatenate : Concatenates 4096 :=
  (responses_concatenate_iff 4096 (by decide) (by decide)).mpr (by decide)

/-- In a buffer of two gigabytes the first `cmd_resp_printf` sets the offset far past the end,
and the next one prints nothing. -/
theorem large_buffer_loses_text :
    ∃ r, runCalls ⟨fun _ => 0, 0x80000001, 0⟩ [.printf (ascii "ok"), .printf (ascii "!")] = some r ∧
      r.offset = 0xFFFFFFFF80000000 ∧ r.buf.read 0 3 = ascii "ok" ++ [0] ∧
      ¬ Concatenates 0x80000001 := by
  have hrun : runCalls ⟨fun _ => 0, 0x80000001, 0⟩ [.printf (ascii "ok"), .printf (ascii "!")] =
      some ⟨Mem.write (fun _ => 0) 0 (ascii "ok" ++ [0]), 0x80000001, 0xFFFFFFFF80000000⟩ :=
    rfl
  refine ⟨_, hrun, rfl, by decide, ?_⟩
  intro h
  obtain ⟨r, hr, hoff, -⟩ := h (fun _ => 0) [.printf (ascii "ok"), .printf (ascii "!")]
    (fun _ _ => rfl) (by decide)
  rw [hrun] at hr
  obtain rfl := Option.some.inj hr
  exact absurd hoff (by decide)

end Vfast.Response
