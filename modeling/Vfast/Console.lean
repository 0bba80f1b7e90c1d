import Vfast.Dispatch

/-! The console's exchange over its socket: `cmd_transport_send`, `cmd_transport_recv` and the
connections of `cmd_server_worker` (`cmd.c`), and a turn of the client's loop (`vfreflex.c`). A
message is a header of twelve bytes and a payload. Either end may stop short in either part; a
command then does not run at all, or its answer is not shown, but no part of a line is ever run
and no part of an answer is shown. -/

namespace Vfast.Console

open Bytes CStrings CmdArgs Response Dispatch

def afuinxMagic : UInt32 := 0x56465354

def afuinxVersion : UInt16 := 1

def maxRespBuf : Nat := 4096

structure AfuinxHeader where
  magic : UInt32
  type : UInt16
  version : UInt16
  length : UInt32
  deriving DecidableEq

def AfuinxHeader.bytes (h : AfuinxHeader) : List UInt8 :=
  le32 h.magic ++ (le16 h.type ++ (le16 h.version ++ le32 h.length))

def AfuinxHeader.ofBytes (bs : List UInt8) : AfuinxHeader :=
  ⟨UInt32.ofNat (leVal (bs.take 4)), UInt16.ofNat (leVal ((bs.drop 4).take 2)),
    UInt16.ofNat (leVal ((bs.drop 6).take 2)), UInt32.ofNat (leVal (bs.drop 8))⟩

/-- How many bytes the kernel takes in the two `send`s of a message. One that times out or meets a
closed socket takes less than it is given. -/
structure Takes where
  header : Nat
  payload : Nat

/-- `cmd_transport_send`: the return code and the bytes that the peer gets. -/
def cmdTransportSend (t : Takes) (type : UInt16) (data : Option (List UInt8)) (len : UInt32) :
    Int × List UInt8 :=
  let hdr := (AfuinxHeader.mk afuinxMagic type afuinxVersion len).bytes
  let sent := hdr.take t.header
  if sent.length ≠ hdr.length then (-1, sent)
  else
    match data with
    | none => (0, sent)
    | some data =>
      if len = 0 then (0, sent)
      else
        let body := (data.take len.toNat).take t.payload
        (if body.length ≠ len.toNat then -1 else 0, sent ++ body)

/-- `recv` with `MSG_WAITALL`: the bytes it waits for and those left, none if the peer closes or
the time is over before they are there. -/
def recvAll (n : Nat) (s : List UInt8) : Option (List UInt8 × List UInt8) :=
  if n ≤ s.length then some (s.take n, s.drop n) else none

/-- `cmd_transport_recv` on the bytes that arrive; `calloc` tells whether there is memory for the
payload. -/
def cmdTransportRecv (calloc : Bool) (s : List UInt8) :
    Option (AfuinxHeader × Option (List UInt8)) := do
  let r ← recvAll 12 s
  let hdr := AfuinxHeader.ofBytes r.1
  if hdr.magic ≠ afuinxMagic then none
  else if hdr.length = 0 then some (hdr, none)
  else if maxRespBuf < hdr.length.toNat then none
  else if !calloc then none
  else (recvAll hdr.length.toNat r.2).map fun p => (hdr, some p.1)

section

variable {α : Type}

structure Prints (α : Type) where
  help : List UInt8 → List Call
  handler : CmdEntry α → List (List UInt8) → List Call

def commandCalls (b : Prints α) (table : List (CmdEntry α)) (input : Option (List UInt8)) :
    List Call :=
  match cmdDispatch (some table) input maxRespBuf with
  | .ret _ calls => calls
  | .groupHelp group => b.help group
  | .run e args => b.handler e args

def notRegistered : List UInt8 := ascii "ERR: Command table not registered."

def respBuf (b : Prints α) (gTable : Option (List (CmdEntry α))) (input : Option (List UInt8)) :
    Option Mem :=
  match gTable with
  | none => some (vsnprintf (fun _ => 0) 0 maxRespBuf notRegistered).1
  | some table =>
    (runCalls ⟨fun _ => 0, maxRespBuf, 0⟩ (commandCalls b table input)).map CmdResp.buf

/-- A connection of `cmd_server_worker`: the command that is dispatched, and the bytes of the
answer. Without a registered table nothing is dispatched, but there is an answer. -/
def serve (b : Prints α) (gTable : Option (List (CmdEntry α))) (calloc : Bool) (t : Takes)
    (arrives : List UInt8) : Option (Option (List UInt8)) × List UInt8 :=
  match cmdTransportRecv calloc arrives with
  | none => (none, [])
  | some (_, payload) =>
    let ran := gTable.map fun _ => payload
    match respBuf b gTable payload with
    | none => (ran, [])
    | some buf =>
      let text := stringAt buf maxRespBuf 0
      (ran, (cmdTransportSend t 1 (some text) (UInt32.ofNat text.length)).2)

def reflexShow (calloc : Bool) (arrives : List UInt8) : List UInt8 :=
  match cmdTransportRecv calloc arrives with
  | some (_, some res) => res.takeWhile (· != 0) ++ [0x0A]
  | _ => []

/-- What a turn of the client's loop meets: whether `cmd_transport_connect` succeeds, what the
`send`s of the two ends take, and whether their `calloc`s get memory. -/
structure Link where
  connects : Bool
  client : Takes
  server : Takes
  clientCalloc : Bool
  serverCalloc : Bool

/-- What a turn does: whether the loop goes on, the command that the server dispatches, and what
goes to `stdout` and to `stderr`. -/
structure Turn where
  goesOn : Bool
  ran : Option (Option (List UInt8))
  out : List UInt8
  err : List UInt8

def leaves (line : List UInt8) : Bool :=
  sameText line (ascii "exit") || sameText line (ascii "quit")

def connectError : List UInt8 := ascii "Error: Could not connect to engine at /tmp/vfast.sock\n"

/-- A turn of the client's loop, with the server at the other end. The client does not look at the
result of its `cmd_transport_send`. -/
def exchange (b : Prints α) (gTable : Option (List (CmdEntry α))) (link : Link)
    (line : List UInt8) : Turn :=
  if line = [] then ⟨true, none, [], []⟩
  else if leaves line then ⟨false, none, [], []⟩
  else if link.connects then
    let sent := (cmdTransportSend link.client 0 (some line) (UInt32.ofNat line.length)).2
    let served := serve b gTable link.serverCalloc link.server sent
    ⟨true, served.1, reflexShow link.clientCalloc served.2, []⟩
  else ⟨true, none, [], connectError⟩

end

/-! ## Messages -/

theorem length_bytes (h : AfuinxHeader) : h.bytes.length = 12 := by
  simp [AfuinxHeader.bytes]

theorem ofBytes_bytes (h : AfuinxHeader) : AfuinxHeader.ofBytes h.bytes = h := by
  obtain ⟨magic, type, version, length⟩ := h
  have h1 : List.take 4 (le32 magic ++ (le16 type ++ (le16 version ++ le32 length))) = le32 magic :=
    List.take_left' (length_le32 magic)
  have h2 : List.drop 4 (le32 magic ++ (le16 type ++ (le16 version ++ le32 length))) =
      le16 type ++ (le16 version ++ le32 length) := List.drop_left' (length_le32 magic)
  have h3 : List.drop 2 (le16 type ++ (le16 version ++ le32 length)) =
      le16 version ++ le32 length :=
    List.drop_left' (length_le16 type)
  have h4 : List.drop 2 (le16 version ++ le32 length) = le32 length :=
    List.drop_left' (length_le16 version)
  have h6 : ∀ l : List UInt8, l.drop 6 = (l.drop 4).drop 2 := fun l => by rw [List.drop_drop]
  have h8 : ∀ l : List UInt8, l.drop 8 = ((l.drop 4).drop 2).drop 2 := fun l => by
    rw [List.drop_drop, List.drop_drop]
  rw [AfuinxHeader.ofBytes, AfuinxHeader.bytes, h6, h8, h1, h2, h3, h4,
    List.take_left' (length_le16 type), List.take_left' (length_le16 version), ofNat_leVal_le32,
    ofNat_leVal_le32, ofNat_leVal_le16, ofNat_leVal_le16]

theorem bytes_ofBytes {bs : List UInt8} (h : bs.length = 12) :
    (AfuinxHeader.ofBytes bs).bytes = bs := by
  have h6 : bs.drop 6 = (bs.drop 4).drop 2 := by rw [List.drop_drop]
  have h8 : bs.drop 8 = ((bs.drop 4).drop 2).drop 2 := by rw [List.drop_drop, List.drop_drop]
  rw [AfuinxHeader.bytes, AfuinxHeader.ofBytes]
  dsimp only
  rw [le32_ofNat_leVal (by simp [h]), le32_ofNat_leVal (by simp [h]),
    le16_ofNat_leVal (by simp [h]), le16_ofNat_leVal (by simp [h]), h6, h8,
    List.take_append_drop, List.take_append_drop, List.take_append_drop]

theorem recvAll_iff {n : Nat} {s a rest : List UInt8} :
    recvAll n s = some (a, rest) ↔ s = a ++ rest ∧ a.length = n := by
  rw [recvAll]
  constructor
  · intro h
    split at h
    · obtain ⟨rfl, rfl⟩ := Prod.mk.inj (Option.some.inj h)
      exact ⟨(List.take_append_drop n s).symm, by simpa using by assumption⟩
    · cases h
  · rintro ⟨rfl, rfl⟩
    rw [if_pos (by simp), List.take_left, List.drop_left]

/-- **What is received is a message**: the magic, a length of at most `MAX_RESP_BUF` and as many
bytes behind it. -/
theorem cmdTransportRecv_iff {calloc : Bool} {s : List UInt8} {hdr : AfuinxHeader}
    {payload : Option (List UInt8)} :
    cmdTransportRecv calloc s = some (hdr, payload) ↔
      hdr.magic = afuinxMagic ∧ hdr.length.toNat ≤ maxRespBuf ∧ payload ≠ some [] ∧
        (payload.getD []).length = hdr.length.toNat ∧ (payload ≠ none → calloc = true) ∧
          ∃ rest, s = hdr.bytes ++ (payload.getD [] ++ rest) := by
  constructor
  · intro h
    rw [cmdTransportRecv] at h
    obtain ⟨⟨bs, rest⟩, hr, hrun⟩ := Option.bind_eq_some_iff.mp h
    obtain ⟨rfl, hlen⟩ := recvAll_iff.mp hr
    dsimp only at hrun
    split at hrun
    · cases hrun
    · rename_i hmagic
      split at hrun
      · rename_i hzero
        obtain ⟨rfl, rfl⟩ := Prod.mk.inj (Option.some.inj hrun)
        refine ⟨Decidable.not_not.mp hmagic, ?_, nofun, ?_, fun h => absurd rfl h, rest, ?_⟩
        · rw [hzero]
          exact Nat.zero_le _
        · rw [hzero]
          rfl
        · rw [bytes_ofBytes hlen]
          rfl
      · rename_i hlength
        split at hrun
        · cases hrun
        · rename_i hmax
          split at hrun
          · cases hrun
          · rename_i hcalloc
            obtain ⟨⟨body, left⟩, hbody, he⟩ := Option.map_eq_some_iff.mp hrun
            obtain ⟨rfl, rfl⟩ := Prod.mk.inj he
            obtain ⟨rfl, hblen⟩ := recvAll_iff.mp hbody
            refine ⟨Decidable.not_not.mp hmagic, Nat.not_lt.mp hmax, ?_, hblen, fun _ => ?_, left,
              ?_⟩
            · rintro hnil
              obtain rfl := Option.some.inj hnil
              exact hlength (UInt32.toNat_inj.mp hblen.symm)
            · simpa using hcalloc
            · rw [bytes_ofBytes hlen]
              rfl
  · rintro ⟨hmagic, hmax, hne, hplen, hcalloc, rest, rfl⟩
    have hfirst : recvAll 12 (hdr.bytes ++ (payload.getD [] ++ rest)) =
        some (hdr.bytes, payload.getD [] ++ rest) := recvAll_iff.mpr ⟨rfl, length_bytes hdr⟩
    rw [cmdTransportRecv, hfirst]
    show (if (AfuinxHeader.ofBytes hdr.bytes).magic ≠ afuinxMagic then _ else _) = _
    rw [ofBytes_bytes, if_neg (Decidable.not_not.mpr hmagic)]
    cases payload with
    | none => rw [if_pos (UInt32.toNat_inj.mp hplen.symm)]
    | some body =>
      have hbody : recvAll hdr.length.toNat (body ++ rest) = some (body, rest) :=
        recvAll_iff.mpr ⟨rfl, hplen⟩
      have hlength : hdr.length ≠ 0 := by
        intro h0
        rw [h0] at hplen
        exact hne (congrArg some (List.eq_nil_of_length_eq_zero hplen))
      rw [if_neg hlength, if_neg (Nat.not_lt.mpr hmax), hcalloc nofun, Option.getD_some, hbody]
      rfl

theorem sent_eq (t : Takes) (type : UInt16) {data : List UInt8} (hlen : data.length < 2 ^ 32) :
    (cmdTransportSend t type (some data) (UInt32.ofNat data.length)).2 =
      if 12 ≤ t.header then
        (AfuinxHeader.mk afuinxMagic type afuinxVersion (UInt32.ofNat data.length)).bytes ++
          data.take t.payload
      else
        (AfuinxHeader.mk afuinxMagic type afuinxVersion (UInt32.ofNat data.length)).bytes.take
          t.header := by
  have hnat : (UInt32.ofNat data.length).toNat = data.length := UInt32.toNat_ofNat_of_lt' hlen
  generalize hb : (AfuinxHeader.mk afuinxMagic type afuinxVersion
    (UInt32.ofNat data.length)).bytes = hdr
  have hhdr : hdr.length = 12 := by rw [← hb, length_bytes]
  rw [cmdTransportSend]
  dsimp only
  rw [hb, List.length_take, hhdr]
  by_cases hh : 12 ≤ t.header
  · rw [if_neg (by omega), if_pos hh, List.take_of_length_le (by omega)]
    split
    · rename_i hzero
      have hnil : data = [] := by
        rw [hzero] at hnat
        exact List.eq_nil_of_length_eq_zero hnat.symm
      rw [hnil, List.take_nil, List.append_nil]
    · rw [hnat, List.take_of_length_le (Nat.le_refl data.length)]
  · rw [if_pos (by omega), if_neg hh]

/-- The message `data` reaches a receiver with this much memory. -/
def Arrives (t : Takes) (calloc : Bool) (data : List UInt8) : Prop :=
  12 ≤ t.header ∧ data.length ≤ t.payload ∧ data.length ≤ maxRespBuf ∧
    (data ≠ [] → calloc = true)

instance (t : Takes) (calloc : Bool) (data : List UInt8) : Decidable (Arrives t calloc data) :=
  inferInstanceAs (Decidable (_ ∧ _))

/-- **A message arrives whole or not at all.** -/
theorem recv_sent (t : Takes) (calloc : Bool) (type : UInt16) {data : List UInt8}
    (hlen : data.length < 2 ^ 32) :
    cmdTransportRecv calloc (cmdTransportSend t type (some data) (UInt32.ofNat data.length)).2 =
      if Arrives t calloc data then
        some (⟨afuinxMagic, type, afuinxVersion, UInt32.ofNat data.length⟩,
          if data = [] then none else some data)
      else none := by
  have hnat : (UInt32.ofNat data.length).toNat = data.length := UInt32.toNat_ofNat_of_lt' hlen
  have hdata : (if data = [] then none else some data).getD [] = data := by
    split
    · rename_i hnil
      exact hnil.symm
    · rfl
  rw [sent_eq t type hlen]
  by_cases hh : 12 ≤ t.header
  · rw [if_pos hh]
    by_cases ha : Arrives t calloc data
    · obtain ⟨-, hp, hmax, hcalloc⟩ := ha
      rw [if_pos ⟨hh, hp, hmax, hcalloc⟩, List.take_of_length_le hp]
      refine cmdTransportRecv_iff.mpr ⟨rfl, ?_, ?_, ?_, fun hsome => hcalloc fun hnil => ?_, [], ?_⟩
      · rw [hnat]
        exact hmax
      · split
        · nofun
        · rename_i hne
          exact fun he => hne (Option.some.inj he)
      · rw [hdata, hnat]
      · exact hsome (if_pos hnil)
      · rw [hdata, List.append_nil]
    · rw [if_neg ha]
      -- what the header promises is too much, not all there, or does not fit in memory
      refine Option.eq_none_iff_forall_ne_some.mpr fun r hr => ?_
      obtain ⟨-, hmax, hne, hplen, hcalloc, rest, hs⟩ := cmdTransportRecv_iff.mp hr
      obtain ⟨hhdr, hbody⟩ := List.append_inj hs (by rw [length_bytes, length_bytes])
      have hsame := congrArg AfuinxHeader.ofBytes hhdr
      rw [ofBytes_bytes, ofBytes_bytes] at hsame
      have hl := congrArg List.length hbody
      rw [← hsame, hnat] at hplen hmax
      rw [List.length_take, List.length_append, hplen] at hl
      refine ha ⟨hh, by omega, hmax, fun hnil => hcalloc fun hnone => hnil ?_⟩
      rw [hnone] at hplen
      exact List.eq_nil_of_length_eq_zero hplen.symm
  · rw [if_neg hh, if_neg fun h => hh h.1, cmdTransportRecv, recvAll, if_neg]
    · rfl
    · rw [List.length_take, length_bytes]
      omega

/-! ## Answers -/

section

variable {α : Type} {b : Prints α} {gTable : Option (List (CmdEntry α))}

/-- The text of an answer: what the command prints, cut to the buffer, up to a NUL. -/
def replyText (b : Prints α) (gTable : Option (List (CmdEntry α))) (input : Option (List UInt8)) :
    List UInt8 :=
  match gTable with
  | none => notRegistered
  | some table =>
    ((printed (commandCalls b table input)).take (maxRespBuf - 1)).takeWhile (· != 0)

/-- The texts that a command prints are ones that `vsnprintf` can count. -/
def Formats (b : Prints α) (gTable : Option (List (CmdEntry α))) (input : Option (List UInt8)) :
    Prop :=
  ∀ table ∈ gTable, ∀ c ∈ commandCalls b table input, c.Formatted

theorem length_replyText_le (b : Prints α) (gTable : Option (List (CmdEntry α)))
    (input : Option (List UInt8)) : (replyText b gTable input).length ≤ maxRespBuf := by
  cases gTable with
  | none => exact (by decide : notRegistered.length ≤ maxRespBuf)
  | some table =>
    rw [replyText]
    refine Nat.le_trans (List.takeWhile_prefix _).length_le ?_
    rw [List.length_take]
    exact Nat.le_trans (Nat.min_le_left _ _) (Nat.sub_le _ _)

theorem replyText_clean (input : Option (List UInt8)) :
    (replyText b gTable input).takeWhile (· != 0) = replyText b gTable input := by
  cases gTable with
  | none => exact (by decide : notRegistered.takeWhile (· != 0) = notRegistered)
  | some table =>
    have hall := List.all_eq_true.mp (List.all_takeWhile (p := fun c : UInt8 => c != 0)
      (l := (printed (commandCalls b table input)).take (maxRespBuf - 1)))
    have hpass := (scan_exact [] hall nofun).1
    rwa [List.append_nil] at hpass

theorem takeWhile_append_nul (s rest : List UInt8) :
    (s ++ 0 :: rest).takeWhile (· != 0) = s.takeWhile (· != 0) := by
  induction s with
  | nil => rfl
  | cons c s ih => rw [List.cons_append, List.takeWhile_cons, List.takeWhile_cons, ih]

/-- `strlen` finds what a response shows. -/
theorem stringAt_of_shows {m : Mem} {size : Nat} {r : CmdResp} {s : List UInt8}
    (h : Shows m size r s) : stringAt r.buf size 0 = s.takeWhile (· != 0) := by
  obtain ⟨k, hk⟩ : ∃ k, size = s.length + (1 + k) := ⟨size - s.length - 1, by have := h.fits; omega⟩
  have hread : r.buf.read 0 size = s ++ 0 :: r.buf.read (s.length + 1) k := by
    rw [hk, read_add, h.text, read_add, Nat.zero_add]
    show s ++ ([r.buf (s.length + 0)] ++ _) = _
    rw [Nat.add_zero, h.nul]
    rfl
  rw [CStrings.stringAt, Nat.sub_zero, hread, takeWhile_append_nul]

theorem respBuf_text {input : Option (List UInt8)} (hb : Formats b gTable input) :
    ∃ buf, respBuf b gTable input = some buf ∧
      stringAt buf maxRespBuf 0 = replyText b gTable input := by
  have hstart : Shows (fun _ => 0) maxRespBuf ⟨fun _ => 0, maxRespBuf, 0⟩ [] :=
    ⟨rfl, rfl, by decide, rfl, rfl, fun _ _ => rfl⟩
  cases gTable with
  | none =>
    refine ⟨_, rfl, ?_⟩
    have hshows := hstart.append notRegistered (by decide)
    have htext := stringAt_of_shows hshows
    have hclean : notRegistered.takeWhile (· != 0) = notRegistered := by decide
    rw [List.nil_append, hclean] at htext
    exact htext
  | some table =>
    obtain ⟨r, hrun, hshows⟩ := hstart.calls (by decide) (hb table rfl)
    refine ⟨r.buf, ?_, ?_⟩
    · rw [respBuf, hrun]
      rfl
    · rw [stringAt_of_shows hshows]
      rfl

theorem shown_eq (t : Takes) (calloc : Bool) (input : Option (List UInt8)) :
    reflexShow calloc (cmdTransportSend t 1 (some (replyText b gTable input))
        (UInt32.ofNat (replyText b gTable input).length)).2 =
      if Arrives t calloc (replyText b gTable input) ∧ replyText b gTable input ≠ [] then
        replyText b gTable input ++ [0x0A]
      else [] := by
  have hlen : (replyText b gTable input).length < 2 ^ 32 :=
    Nat.lt_of_le_of_lt (length_replyText_le b gTable input) (by decide)
  rw [reflexShow, recv_sent t calloc 1 hlen]
  by_cases ha : Arrives t calloc (replyText b gTable input)
  · rw [if_pos ha]
    by_cases hnil : replyText b gTable input = []
    · rw [if_pos hnil, if_neg fun h => h.2 hnil]
    · rw [if_neg hnil, if_pos ⟨ha, hnil⟩]
      dsimp only
      rw [replyText_clean]
  · rw [if_neg ha, if_neg fun h => ha h.1]

/-- **A command line is run whole or not at all, and its answer is shown whole or not at all.**
Whatever the `send`s and `calloc`s of the two ends get, the server dispatches the line that was
typed or nothing; the client prints the first 4095 bytes of what the command printed, or nothing.
`exit` and `quit` end the loop and reach no server. -/
theorem console_exchange (link : Link) {line : List UInt8} (hb : Formats b gTable (some line))
    (hlen : line.length < 2 ^ 32) :
    exchange b gTable link line =
      if line = [] then ⟨true, none, [], []⟩
      else if leaves line then ⟨false, none, [], []⟩
      else if link.connects = false then ⟨true, none, [], connectError⟩
      else if Arrives link.client link.serverCalloc line then
        ⟨true, gTable.map fun _ => some line,
          if Arrives link.server link.clientCalloc (replyText b gTable (some line)) ∧
              replyText b gTable (some line) ≠ [] then
            replyText b gTable (some line) ++ [0x0A]
          else [], []⟩
      else ⟨true, none, [], []⟩ := by
  obtain ⟨buf, hbuf, htext⟩ := respBuf_text hb
  rw [exchange]
  by_cases hnil : line = []
  · rw [if_pos hnil, if_pos hnil]
  rw [if_neg hnil, if_neg hnil]
  by_cases hq : leaves line = true
  · rw [if_pos hq, if_pos hq]
  rw [if_neg hq, if_neg hq]
  cases hconn : link.connects with
  | false => rfl
  | true =>
    rw [if_pos rfl, if_neg Bool.true_eq_false.mp]
    dsimp only
    rw [serve, recv_sent link.client link.serverCalloc 0 hlen]
    by_cases ha : Arrives link.client link.serverCalloc line
    · rw [if_pos ha, if_pos ha, if_neg hnil]
      dsimp only
      rw [hbuf]
      dsimp only
      rw [htext, shown_eq]
    · rw [if_neg ha, if_neg ha]
      rfl

theorem unknown_command_answered :
    exchange (⟨fun _ => [], fun _ _ => []⟩ : Prints Leaf) (some cmdTable)
        ⟨true, ⟨12, 4096⟩, ⟨12, 4096⟩, true, true⟩ (ascii "bye") =
      ⟨true, some (some (ascii "bye")),
        cRed ++ ascii "ERR: Unknown command 'bye'" ++ cReset ++ [0x0A], []⟩ := by
  have hcalls : commandCalls (⟨fun _ => [], fun _ _ => []⟩ : Prints Leaf) cmdTable
      (some (ascii "bye")) = [.red (ascii "ERR: Unknown command 'bye'")] := by
    rfl
  have hreply : replyText (⟨fun _ => [], fun _ _ => []⟩ : Prints Leaf) (some cmdTable)
      (some (ascii "bye")) = cRed ++ ascii "ERR: Unknown command 'bye'" ++ cReset := by
    rw [replyText, hcalls]
    decide
  have hb : Formats (⟨fun _ => [], fun _ _ => []⟩ : Prints Leaf) (some cmdTable)
      (some (ascii "bye")) := by
    intro table ht c hc
    obtain rfl := Option.some.inj ht
    rw [hcalls] at hc
    obtain rfl := List.mem_singleton.mp hc
    decide
  rw [console_exchange _ hb (by decide), hreply, if_neg (by decide), if_neg (by decide),
    if_neg (by decide), if_pos (by decide), if_pos (by decide)]
  rfl

end

/-- **The server runs whole messages only.** Whatever bytes arrive, a command is dispatched exactly
if a table is registered, the bytes begin with a header of the magic and a length of at most 4096
and as many bytes follow, and there is memory for these; what stands behind them plays no part. -/
theorem serve_runs_iff {α : Type} (b : Prints α) (gTable : Option (List (CmdEntry α)))
    (calloc : Bool) (t : Takes) (arrives : List UInt8) (payload : Option (List UInt8)) :
    (serve b gTable calloc t arrives).1 = some payload ↔
      gTable.isSome = true ∧ (payload ≠ none → calloc = true) ∧
      ∃ hdr : AfuinxHeader, ∃ rest, hdr.magic = afuinxMagic ∧ hdr.length.toNat ≤ maxRespBuf ∧
        payload ≠ some [] ∧ (payload.getD []).length = hdr.length.toNat ∧
        arrives = hdr.bytes ++ (payload.getD [] ++ rest) := by
  have hran : (serve b gTable calloc t arrives).1 = some payload ↔
      gTable.isSome = true ∧ ∃ hdr, cmdTransportRecv calloc arrives = some (hdr, payload) := by
    rw [serve]
    cases hr : cmdTransportRecv calloc arrives with
    | none => simp
    | some r =>
      obtain ⟨hdr, p⟩ := r
      dsimp only
      cases respBuf b gTable p <;> cases gTable <;> simp
  rw [hran]
  constructor
  · rintro ⟨htable, hdr, hr⟩
    obtain ⟨hmagic, hmax, hne, hlen, hcalloc, rest, hs⟩ := cmdTransportRecv_iff.mp hr
    exact ⟨htable, hcalloc, hdr, rest, hmagic, hmax, hne, hlen, hs⟩
  · rintro ⟨htable, hcalloc, hdr, rest, hmagic, hmax, hne, hlen, hs⟩
    exact ⟨htable, hdr, cmdTransportRecv_iff.mpr ⟨hmagic, hmax, hne, hlen, hcalloc, rest, hs⟩⟩

end Vfast.Console
