import Mathlib.Algebra.Group.Int.Defs
import Vfast.Lib.Decimal
import Vfast.Lib.Lines

/-! The configuration file (`option.c`). The options that loading a file can leave are exactly
the valid ones: every check of the loader holds of what it returns, whatever the file, and every
valid record is what some file loads. -/

namespace Vfast.Options

open Bytes CStrings Decimal Lines

/-- `vpn_option_t`, without the master key, which the key file fills. -/
structure VpnOption where
  tunName : Block 16
  mtu : Int
  ioRingDepth : Int
  ioPoolSize : Int
  disableIpv6 : Bool
  udpBacklog : Int
  daemonize : Bool
  logMaxSize : Int
  cfile : List UInt8
  logfile : List UInt8
  pidfile : List UInt8
  keyfile : List UInt8
  remoteHost : Block 64
  remotePort : Int
  username : Option (List UInt8)
  password : Block 64
  tunIp : Block 32
  poolNetwork : Block 32
  poolSize : Int
  localPort : Int

def strncpy {n : Nat} (dst : Block n) (src : List UInt8) (k : Nat) : Block n := fun i =>
  if i.val < k then src.getD i 0 else dst i

/-- `dst[sizeof(dst) - 1] = '\0'`. -/
def terminate {n : Nat} (dst : Block n) : Block n := fun i => if i.val + 1 = n then 0 else dst i

def VpnOption.static : VpnOption where
  tunName := fun _ => 0
  mtu := 0
  ioRingDepth := 0
  ioPoolSize := 0
  disableIpv6 := false
  udpBacklog := 0
  daemonize := false
  logMaxSize := 0
  cfile := []
  logfile := []
  pidfile := []
  keyfile := []
  remoteHost := fun _ => 0
  remotePort := 0
  username := none
  password := fun _ => 0
  tunIp := fun _ => 0
  poolNetwork := fun _ => 0
  poolSize := 0
  localPort := 0

def defaultLogFile : List UInt8 := ascii "./vfast.log"

def defaultKeyFile : List UInt8 := ascii "./vfast.key"

def vfOptionInit (opt : VpnOption) : VpnOption :=
  { opt with
    tunName := terminate (strncpy opt.tunName (ascii "tun0") 15)
    mtu := 1400
    ioRingDepth := 4096
    ioPoolSize := 2048
    udpBacklog := 20
    disableIpv6 := true
    daemonize := false
    cfile := ascii "./config.conf"
    pidfile := ascii "/var/run/vfast.pid"
    logfile := defaultLogFile
    keyfile := defaultKeyFile
    remoteHost := strncpy opt.remoteHost (ascii "127.0.0.1") 63
    remotePort := 9999
    username := none
    password := fun _ => 0
    tunIp := strncpy opt.tunIp (ascii "10.0.0.1") 31
    poolNetwork := strncpy opt.poolNetwork (ascii "10.0.0.0") 31
    poolSize := 65536
    localPort := 9999 }

/-! ## Lines -/

/-- The key and the value of a piece of the file, none if it is skipped. -/
def splitLine (buf : List UInt8) : Option (List UInt8 × List UInt8) :=
  let p := (buf.takeWhile (· != 0)).dropWhile isspace
  if p.head? = some 0x23 ∨ p = [] then none
  else
    let p := p.takeWhile fun c => c != 0x0D && c != newline
    match p.dropWhile fun c => !isspace c with
    | [] => none
    | _ :: q =>
      if q.dropWhile isspace = [] then none
      else some (p.takeWhile fun c => !isspace c, q.dropWhile isspace)

inductive Key
  | tunname | tunip | mtu | disableIpv6 | port | remoteHost | remotePort | username | password
  | udpBacklog | ioRingDepth | ioPoolSize | poolNetwork | poolSize | daemonize | logMaxSize
  | logfile | keyfile | pidfile | daemonizeAgain
  deriving DecidableEq

def keys : List (String × Key) :=
  [("tunname", .tunname), ("tunip", .tunip), ("mtu", .mtu), ("disable-ipv6", .disableIpv6),
    ("port", .port), ("local_port", .port), ("remote-host", .remoteHost),
    ("remote-port", .remotePort), ("username", .username), ("password", .password),
    ("udp-backlog", .udpBacklog), ("io-ring-depth", .ioRingDepth), ("io-pool-size", .ioPoolSize),
    ("pool-network", .poolNetwork), ("pool-size", .poolSize), ("daemonize", .daemonize),
    ("log-max-size", .logMaxSize), ("logfile", .logfile), ("keyfile", .keyfile),
    ("pidfile", .pidfile), ("daemonize", .daemonizeAgain)]

/-- The chain of `strcasecmp`s. -/
def keyOf (first : List UInt8) : Option Key :=
  (keys.find? fun k => sameText first (ascii k.1)).map (·.2)

def yesnotoi (s : List UInt8) : Int :=
  if sameText s (ascii "yes") then 1 else if sameText s (ascii "no") then 0 else -1

def isValidIpv4 (ip : List UInt8) : Bool := !ip.isEmpty && inetPton ip

/-- What `goto loaderr` reports, or the options with the value stored. -/
abbrev Outcome := Except (List UInt8) VpnOption

section

variable (second : List UInt8)

/-- An integer option: it is stored and then checked, and a failed check ends the program. -/
def setInt (ok : Int → Bool) (err : String) (store : Int → VpnOption) : Outcome :=
  if ok (atoi second) then .ok (store (atoi second)) else .error (ascii err)

def setFlag (err : String) (store : Bool → VpnOption) : Outcome :=
  if yesnotoi second = -1 then .error (ascii err) else .ok (store (yesnotoi second != 0))

/-- A file that is opened once to see that it can be. `fopen` is `none` if the file opens and
`strerror(errno)` otherwise; the message goes through a buffer of 1152 bytes. -/
def setFile (fopen : List UInt8 → Option (List UInt8)) (err : String)
    (store : List UInt8 → VpnOption) : Outcome :=
  if second = [] then .ok (store second)
  else
    match fopen second with
    | none => .ok (store second)
    | some reason => .error ((ascii err ++ reason).take 1151)

end

/-- `1 <= d` and `(d & (d - 1)) == 0`. -/
def isPow2 (d : Int) : Bool := decide (1 ≤ d) && (d.toNat &&& (d.toNat - 1)) == 0

/-- The branch of a key. -/
def assign (fopen : List UInt8 → Option (List UInt8)) (first second : List UInt8)
    (opt : VpnOption) : Key → Outcome
  | .tunname => .ok { opt with tunName := terminate (strncpy opt.tunName second 15) }
  | .tunip =>
    if isValidIpv4 second then
      .ok { opt with tunIp := terminate (strncpy opt.tunIp second 31) }
    else .error (ascii "Invalid tunip format")
  | .mtu =>
    setInt second (fun v => 576 ≤ v && v ≤ 9000) "Invalid MTU value (range 576-9000)"
      fun v => { opt with mtu := v }
  | .disableIpv6 =>
    setFlag second "disable-ipv6 must be 'yes' or 'no'" fun v => { opt with disableIpv6 := v }
  | .port =>
    setInt second (fun v => 1 ≤ v && v ≤ 65535) "Invalid local port"
      fun v => { opt with localPort := v }
  | .remoteHost =>
    if isValidIpv4 second then
      .ok { opt with remoteHost := terminate (strncpy opt.remoteHost second 63) }
    else
      .error ((ascii "Invalid IPv4 address for '" ++ first ++ ascii "': " ++ second).take 1151)
  | .remotePort =>
    setInt second (fun v => 1 ≤ v && v ≤ 65535) "Invalid remote port"
      fun v => { opt with remotePort := v }
  | .username => .ok { opt with username := some second }
  | .password => .ok { opt with password := terminate (strncpy opt.password second 63) }
  | .udpBacklog =>
    setInt second (fun v => 1 ≤ v) "Invalid udp-backlog value"
      fun v => { opt with udpBacklog := v }
  | .ioRingDepth =>
    setInt second isPow2 "io-ring-depth must be a power of two"
      fun v => { opt with ioRingDepth := v }
  | .ioPoolSize =>
    setInt second (fun v => 1024 ≤ v && v ≤ 4096) "Invalid io-pool-size"
      fun v => { opt with ioPoolSize := v }
  -- the last byte of the field is not written
  | .poolNetwork => .ok { opt with poolNetwork := strncpy opt.poolNetwork second 31 }
  | .poolSize =>
    setInt second (fun v => 1 ≤ v) "Invalid pool-size" fun v => { opt with poolSize := v }
  | .daemonize =>
    setFlag second "daemonize must be 'yes' or 'no'" fun v => { opt with daemonize := v }
  | .logMaxSize =>
    setInt second (fun v => 5 ≤ v && v ≤ 4000) "log-max-size must be between 5 MB and 4000 MB"
      fun v => { opt with logMaxSize := v }
  | .logfile =>
    setFile second fopen "Can't open the log file: " fun s => { opt with logfile := s }
  | .keyfile =>
    setFile second fopen "Can't open the key file: " fun s => { opt with keyfile := s }
  | .pidfile => .ok { opt with pidfile := second }
  -- never reached: the earlier branch of the same name is
  | .daemonizeAgain =>
    setFlag second "argument must be 'yes' or 'no'" fun v => { opt with daemonize := v }

def applySetting (fopen : List UInt8 → Option (List UInt8)) (opt : VpnOption)
    (s : List UInt8 × List UInt8) : Outcome :=
  match keyOf s.1 with
  | none => .ok opt
  | some k => assign fopen s.1 s.2 opt k

def confLine (fopen : List UInt8 → Option (List UInt8)) (opt : VpnOption) (buf : List UInt8) :
    Outcome :=
  match splitLine buf with
  | none => .ok opt
  | some s => applySetting fopen opt s

/-- The loop. The buffer has room for `CONFIG_READ_LEN` bytes and the NUL. -/
def confLines (fopen : List UInt8 → Option (List UInt8)) (opt : VpnOption) (file : List UInt8) :
    Outcome :=
  (reads 1024 file).foldlM (confLine fopen) opt

def loaderr (err : List UInt8) : List UInt8 := ascii "Config Error: " ++ err ++ [newline]

/-- `vf_option_conf`; an error is what the program prints before it exits. -/
def vfOptionConf (fopen : List UInt8 → Option (List UInt8)) (opt : VpnOption) (cfile : List UInt8) :
    (file : Option (List UInt8)) → Outcome
  | none => .error (ascii "Error opening config file: " ++ cfile ++ [newline])
  | some file => (confLines fopen opt file).mapError loaderr

/-! ## The values a line can hold -/

structure Value (n : Nat) (s : List UInt8) : Prop where
  ne : s ≠ []
  head : ∀ c ∈ s.head?, isspace c = false
  clean : ∀ c ∈ s, c ≠ 0 ∧ c ≠ 0x0D ∧ c ≠ newline
  short : s.length ≤ n

theorem value_iff {n : Nat} {s : List UInt8} :
    (s.isEmpty = false ∧ s.head?.all (fun c => !isspace c) = true ∧
      s.all (fun c => c != 0 && c != 0x0D && c != newline) = true ∧ s.length ≤ n) ↔ Value n s := by
  simp only [List.isEmpty_eq_false_iff, Option.all_eq_true, List.all_eq_true, Bool.and_eq_true,
    Bool.not_eq_true', bne_iff_ne, and_assoc]
  exact ⟨fun h => ⟨h.1, h.2.1, h.2.2.1, h.2.2.2⟩, fun h => ⟨h.ne, h.head, h.clean, h.short⟩⟩

instance (n : Nat) (s : List UInt8) : Decidable (Value n s) := decidable_of_iff _ value_iff

theorem Value.mono {n n' : Nat} {s : List UInt8} (h : Value n s) (hn : n ≤ n') : Value n' s :=
  { h with short := Nat.le_trans h.short hn }

/-- A value that is cut is a value. -/
theorem Value.take {n k : Nat} {s : List UInt8} (h : Value n s) (hk : 0 < k) :
    Value k (s.take k) := by
  obtain ⟨k, rfl⟩ : ∃ j, k = j + 1 := ⟨k - 1, by omega⟩
  obtain ⟨c, s, rfl⟩ := List.exists_cons_of_ne_nil h.ne
  exact ⟨by simp, h.head, fun d hd => h.clean d (List.mem_of_mem_take hd), List.length_take_le _ _⟩

theorem value_of_ipv4 {s : List UInt8} (h : isValidIpv4 s = true) : Value 15 s := by
  simp only [isValidIpv4, Bool.and_eq_true] at h
  obtain ⟨hne, hlen, hchars⟩ := inetPton_text h.2
  refine ⟨hne, fun c hc => ?_, fun c hc => ?_, hlen⟩
  · rcases hchars c (List.mem_of_mem_head? hc) with hd | rfl
    · exact isspace_of_isdigit hd
    · decide
  · refine ⟨?_, ?_, ?_⟩ <;> rintro rfl <;> rcases hchars _ hc with h | h <;> revert h <;> decide

theorem value_decimal {n : Nat} (h : n < 2147483648) : Value 10 (decimal n) := by
  refine ⟨decimal_ne_nil n, fun c hc => ?_, fun c hc => ?_,
    length_decimal_le (by decide) (by omega)⟩
  · exact isspace_of_isdigit (isdigit_of_mem_decimal (List.mem_of_mem_head? hc))
  · have hd := isdigit_of_mem_decimal hc
    refine ⟨?_, ?_, ?_⟩ <;> rintro rfl <;> revert hd <;> decide

/-- What is read off a piece: the value is one, and there was room for both words. -/
theorem splitLine_value {buf first second : List UInt8} (h : splitLine buf = some (first, second)) :
    Value (buf.length - (first.length + 1)) second ∧ first.length + 1 ≤ buf.length := by
  rw [splitLine] at h
  dsimp only at h
  generalize hp : (buf.takeWhile (· != 0)).dropWhile isspace = p at h
  generalize hl : p.takeWhile (fun c => c != 0x0D && c != newline) = l at h
  split at h
  · cases h
  · split at h
    · cases h
    · rename_i d q hq
      split at h
      · cases h
      · rename_i hne
        obtain ⟨rfl, rfl⟩ := Prod.mk.inj (Option.some.inj h)
        have hsplit : l.takeWhile (fun c => !isspace c) ++ d :: q = l := by
          rw [← hq, List.takeWhile_append_dropWhile]
        have hsuffix : q.dropWhile isspace <:+ q := List.dropWhile_suffix _
        have hlen : l.length ≤ buf.length := by
          rw [← hl, ← hp]
          exact Nat.le_trans (List.takeWhile_prefix _).length_le
            (Nat.le_trans (List.dropWhile_suffix _).length_le (List.takeWhile_prefix _).length_le)
        have hlens := congrArg List.length hsplit
        rw [List.length_append, List.length_cons] at hlens
        refine ⟨⟨hne, fun c hc => ?_, fun c hc => ?_, ?_⟩, by omega⟩
        · have hnot := List.head?_dropWhile_not isspace q
          rwa [Option.mem_def.mp hc] at hnot
        · have hcl : c ∈ l := hsplit ▸ List.mem_append_right _
            (List.mem_cons_of_mem d (hsuffix.subset hc))
          have hcut := List.all_eq_true.mp List.all_takeWhile c (hl ▸ hcl)
          have hcp : c ∈ p := (List.takeWhile_prefix _).subset (hl ▸ hcl)
          have hnul : (c != 0) = true := List.all_eq_true.mp List.all_takeWhile c
            ((List.dropWhile_suffix _).subset (hp ▸ hcp))
          simp only [Bool.and_eq_true, bne_iff_ne] at hcut hnul
          exact ⟨hnul, hcut⟩
        · have := hsuffix.length_le
          omega

/-! ## Valid options -/

def Field {n : Nat} (b : Block n) (s : List UInt8) : Prop := b = Block.ofList n s ∧ s.length < n

/-- What the rest of the program may take for granted. -/
structure Valid (fopen : List UInt8 → Option (List UInt8)) (opt : VpnOption) : Prop where
  tunName : ∃ s, Value 15 s ∧ Field opt.tunName s
  mtu : 576 ≤ opt.mtu ∧ opt.mtu ≤ 9000
  ioRingDepth : ∃ k, k ≤ 30 ∧ opt.ioRingDepth = 2 ^ k
  ioPoolSize : 1024 ≤ opt.ioPoolSize ∧ opt.ioPoolSize ≤ 4096
  udpBacklog : 1 ≤ opt.udpBacklog ∧ opt.udpBacklog < 2147483648
  logMaxSize : opt.logMaxSize = 0 ∨ 5 ≤ opt.logMaxSize ∧ opt.logMaxSize ≤ 4000
  logfile : opt.logfile = defaultLogFile ∨ Value 1016 opt.logfile ∧ fopen opt.logfile = none
  pidfile : Value 1016 opt.pidfile
  keyfile : opt.keyfile = defaultKeyFile ∨ Value 1016 opt.keyfile ∧ fopen opt.keyfile = none
  remoteHost : ∃ s, isValidIpv4 s = true ∧ Field opt.remoteHost s
  remotePort : 1 ≤ opt.remotePort ∧ opt.remotePort ≤ 65535
  username : ∀ s ∈ opt.username, Value 1015 s
  password : ∃ s, (s = [] ∨ Value 63 s) ∧ Field opt.password s
  tunIp : ∃ s, isValidIpv4 s = true ∧ Field opt.tunIp s
  poolNetwork : ∃ s, Value 31 s ∧ Field opt.poolNetwork s
  poolSize : 1 ≤ opt.poolSize ∧ opt.poolSize < 2147483648
  localPort : 1 ≤ opt.localPort ∧ opt.localPort ≤ 65535

theorem field_strncpy {n : Nat} {b : Block (n + 1)} (hb : b (Fin.last n) = 0) (s : List UInt8) :
    Field (strncpy b s n) (s.take n) := by
  refine ⟨funext fun i => ?_, by rw [List.length_take]; omega⟩
  rw [strncpy, Block.ofList]
  rcases Nat.lt_or_ge i.val n with hi | hi
  · rw [if_pos hi]
    simp [List.getD_eq_getElem?_getD, hi]
  · obtain rfl : i = Fin.last n := Fin.ext (Nat.le_antisymm (Nat.lt_succ_iff.mp i.isLt) hi)
    rw [if_neg (Nat.not_lt.mpr hi), hb]
    simp [List.getD_eq_getElem?_getD]

theorem field_terminate {n : Nat} (b : Block (n + 1)) (s : List UInt8) :
    Field (terminate (strncpy b s n)) (s.take n) := by
  have h := field_strncpy (b := terminate b) (if_pos rfl) s
  have he : terminate (strncpy b s n) = strncpy (terminate b) s n := by
    funext i
    simp only [terminate, strncpy]
    split <;> split <;> first | rfl | omega
  rwa [he]

theorem Field.last {n : Nat} {b : Block (n + 1)} {s : List UInt8} (h : Field b s) :
    b (Fin.last n) = 0 := by
  rw [h.1, Block.ofList, List.getD_eq_getElem?_getD,
    List.getElem?_eq_none (show s.length ≤ (Fin.last n).val from Nat.lt_succ_iff.mp h.2)]
  rfl

theorem isPow2_iff {d : Int} (hd : d < 2147483648) :
    isPow2 d = true ↔ ∃ k, k ≤ 30 ∧ d = 2 ^ k := by
  rw [isPow2, Bool.and_eq_true, decide_eq_true_eq, beq_iff_eq]
  constructor
  · rintro ⟨hpos, hand⟩
    obtain ⟨k, hk⟩ := (Nat.and_sub_one_eq_zero_iff_isPowerOfTwo (by omega)).mp hand
    have hlt : 2 ^ k < 2 ^ 31 := by omega
    have hk' := (Nat.pow_lt_pow_iff_right (by decide : 1 < 2)).mp hlt
    refine ⟨k, by omega, ?_⟩
    rw [← Int.toNat_of_nonneg (by omega : 0 ≤ d), hk]
    exact Int.natCast_pow 2 k
  · rintro ⟨k, -, rfl⟩
    have hnat : ((2 : Int) ^ k).toNat = 2 ^ k := by
      rw [show (2 : Int) ^ k = ((2 ^ k : Nat) : Int) from (Int.natCast_pow 2 k).symm]
      exact Int.toNat_natCast _
    have hpos : 0 < 2 ^ k := Nat.two_pow_pos k
    refine ⟨by omega, ?_⟩
    rw [hnat]
    exact (Nat.and_sub_one_eq_zero_iff_isPowerOfTwo (by omega)).mpr ⟨k, rfl⟩

/-! ## What is loaded is valid -/

section

variable {fopen : List UInt8 → Option (List UInt8)} {opt opt' : VpnOption}
  {first second : List UInt8} {k : Key}

theorem keyOf_name (h : keyOf first = some k) :
    ∃ name, (name, k) ∈ keys ∧ first.length = (ascii name).length := by
  obtain ⟨⟨name, k⟩, hf, rfl⟩ := Option.map_eq_some_iff.mp h
  have hsame : sameText first (ascii name) = true :=
    List.find?_some (p := fun k : String × Key => sameText first (ascii k.1)) hf
  exact ⟨name, List.mem_of_find?_eq_some hf, sameText_length hsame⟩

/-- The room that a key of one name leaves for its value. -/
theorem Value.behind (name : String) (hkeys : ∀ n, (n, k) ∈ keys → n = name)
    (hk : keyOf first = some k) (hval : Value (1024 - (first.length + 1)) second) :
    Value (1024 - ((ascii name).length + 1)) second := by
  obtain ⟨n, hn, hlen⟩ := keyOf_name hk
  rw [hkeys n hn] at hlen
  exact hlen ▸ hval

theorem setInt_ok {ok : Int → Bool} {err : String} {store : Int → VpnOption}
    (h : setInt second ok err store = .ok opt') :
    ok (atoi second) = true ∧ opt' = store (atoi second) := by
  rw [setInt] at h
  split at h
  · exact ⟨by assumption, (Except.ok.inj h).symm⟩
  · cases h

theorem setFlag_ok {err : String} {store : Bool → VpnOption}
    (h : setFlag second err store = .ok opt') : opt' = store (yesnotoi second != 0) := by
  rw [setFlag] at h
  split at h
  · cases h
  · exact (Except.ok.inj h).symm

theorem setFile_ok {err : String} {store : List UInt8 → VpnOption} (hne : second ≠ [])
    (h : setFile second fopen err store = .ok opt') :
    opt' = store second ∧ fopen second = none := by
  rw [setFile, if_neg hne] at h
  split at h
  · exact ⟨(Except.ok.inj h).symm, by assumption⟩
  · cases h

theorem field_of_fits {n : Nat} (b : Block (n + 1)) {s : List UInt8} (hs : s.length ≤ n) :
    Field (terminate (strncpy b s n)) s := by
  have h := field_terminate b s
  rwa [List.take_of_length_le hs] at h

theorem assign_valid (hk : keyOf first = some k) (hval : Value (1024 - (first.length + 1)) second)
    (hv : Valid fopen opt) (h : assign fopen first second opt k = .ok opt') :
    Valid fopen opt' := by
  have hr := atoi_range second
  cases k with
  | tunname =>
    obtain rfl := Except.ok.inj h
    exact { hv with tunName := ⟨_, hval.take (by decide), field_terminate _ _⟩ }
  | tunip =>
    rw [assign] at h
    split at h
    · rename_i hip
      obtain rfl := Except.ok.inj h
      have hlen := (value_of_ipv4 hip).short
      exact { hv with tunIp := ⟨second, hip, field_of_fits _ (by omega)⟩ }
    · cases h
  | mtu =>
    rw [assign] at h
    obtain ⟨hok, rfl⟩ := setInt_ok h
    exact { hv with mtu := by simpa using hok }
  | disableIpv6 =>
    rw [assign] at h
    obtain rfl := setFlag_ok h
    exact { hv with }
  | port =>
    rw [assign] at h
    obtain ⟨hok, rfl⟩ := setInt_ok h
    exact { hv with localPort := by simpa using hok }
  | remoteHost =>
    rw [assign] at h
    split at h
    · rename_i hip
      obtain rfl := Except.ok.inj h
      have hlen := (value_of_ipv4 hip).short
      exact { hv with remoteHost := ⟨second, hip, field_of_fits _ (by omega)⟩ }
    · cases h
  | remotePort =>
    rw [assign] at h
    obtain ⟨hok, rfl⟩ := setInt_ok h
    exact { hv with remotePort := by simpa using hok }
  | username =>
    obtain rfl := Except.ok.inj h
    have hs := hval.behind "username" (by simp [keys]) hk
    exact { hv with username := fun s he => Option.some.inj he ▸ hs }
  | password =>
    obtain rfl := Except.ok.inj h
    exact { hv with
      password := ⟨_, Or.inr (hval.take (by decide)), field_terminate _ _⟩ }
  | udpBacklog =>
    rw [assign] at h
    obtain ⟨hok, rfl⟩ := setInt_ok h
    exact { hv with udpBacklog := ⟨by simpa using hok, hr.2⟩ }
  | ioRingDepth =>
    rw [assign] at h
    obtain ⟨hok, rfl⟩ := setInt_ok h
    exact { hv with ioRingDepth := (isPow2_iff hr.2).mp hok }
  | ioPoolSize =>
    rw [assign] at h
    obtain ⟨hok, rfl⟩ := setInt_ok h
    exact { hv with ioPoolSize := by simpa using hok }
  | poolNetwork =>
    obtain rfl := Except.ok.inj h
    -- the terminating zero is the one that was there before
    obtain ⟨s, -, hs⟩ := hv.poolNetwork
    exact { hv with poolNetwork := ⟨_, hval.take (by decide), field_strncpy hs.last _⟩ }
  | poolSize =>
    rw [assign] at h
    obtain ⟨hok, rfl⟩ := setInt_ok h
    exact { hv with poolSize := ⟨by simpa using hok, hr.2⟩ }
  | daemonize =>
    rw [assign] at h
    obtain rfl := setFlag_ok h
    exact { hv with }
  | logMaxSize =>
    rw [assign] at h
    obtain ⟨hok, rfl⟩ := setInt_ok h
    exact { hv with logMaxSize := Or.inr (by simpa using hok) }
  | logfile =>
    rw [assign] at h
    obtain ⟨rfl, hopens⟩ := setFile_ok hval.ne h
    exact { hv with logfile := Or.inr ⟨hval.behind "logfile" (by simp [keys]) hk, hopens⟩ }
  | keyfile =>
    rw [assign] at h
    obtain ⟨rfl, hopens⟩ := setFile_ok hval.ne h
    exact { hv with keyfile := Or.inr ⟨hval.behind "keyfile" (by simp [keys]) hk, hopens⟩ }
  | pidfile =>
    obtain rfl := Except.ok.inj h
    exact { hv with pidfile := hval.behind "pidfile" (by simp [keys]) hk }
  | daemonizeAgain =>
    rw [assign] at h
    obtain rfl := setFlag_ok h
    exact { hv with }

/-- The configuration file's name is not an option. -/
theorem assign_cfile (h : assign fopen first second opt k = .ok opt') :
    opt'.cfile = opt.cfile := by
  cases k <;> simp only [assign, setInt, setFlag, setFile] at h <;> (repeat' split at h) <;>
    first | cases h; rfl | cases h

theorem confLine_valid {buf : List UInt8} (hbuf : buf.length ≤ 1024) (hv : Valid fopen opt)
    (h : confLine fopen opt buf = .ok opt') : Valid fopen opt' ∧ opt'.cfile = opt.cfile := by
  rw [confLine] at h
  split at h
  · cases h
    exact ⟨hv, rfl⟩
  · rename_i s hs
    obtain ⟨hval, -⟩ := splitLine_value hs
    rw [applySetting] at h
    split at h
    · cases h
      exact ⟨hv, rfl⟩
    · rename_i k hk
      exact ⟨assign_valid hk (hval.mono (by omega)) hv h, assign_cfile h⟩

/-- The checks hold after any number of lines. -/
theorem foldl_confLine_valid {pieces : List (List UInt8)} (hp : ∀ l ∈ pieces, l.length ≤ 1024)
    (hv : Valid fopen opt) (h : pieces.foldlM (confLine fopen) opt = .ok opt') :
    Valid fopen opt' ∧ opt'.cfile = opt.cfile := by
  induction pieces generalizing opt with
  | nil =>
    cases h
    exact ⟨hv, rfl⟩
  | cons l pieces ih =>
    rw [List.foldlM_cons] at h
    cases hl : confLine fopen opt l with
    | error e =>
      rw [hl] at h
      cases h
    | ok o =>
      rw [hl] at h
      obtain ⟨ho, hoc⟩ := confLine_valid (hp l List.mem_cons_self) hv hl
      obtain ⟨hv', hc⟩ := ih (fun m hm => hp m (List.mem_cons_of_mem l hm)) ho h
      exact ⟨hv', hc.trans hoc⟩

/-- The defaults pass every check. -/
theorem init_valid : Valid fopen (vfOptionInit .static) where
  tunName := ⟨ascii "tun0", by decide +kernel, field_of_fits _ (by decide)⟩
  mtu := by decide
  ioRingDepth := ⟨12, by decide, by decide⟩
  ioPoolSize := by decide
  udpBacklog := by decide
  logMaxSize := Or.inl rfl
  logfile := Or.inl rfl
  pidfile := by decide +kernel
  keyfile := Or.inl rfl
  remoteHost := ⟨ascii "127.0.0.1", by decide, field_strncpy rfl _⟩
  remotePort := by decide
  username := fun s hs => nomatch hs
  password := ⟨[], Or.inl rfl, rfl, by decide⟩
  tunIp := ⟨ascii "10.0.0.1", by decide, field_strncpy rfl _⟩
  poolNetwork := ⟨ascii "10.0.0.0", by decide +kernel, field_strncpy rfl _⟩
  poolSize := by decide
  localPort := by decide

/-! ## Files -/

/-- A key: what stands before the first blank of a line that is not a comment. -/
structure Word (s : List UInt8) : Prop where
  ne : s ≠ []
  hash : s.head? ≠ some 0x23
  clean : ∀ c ∈ s, isspace c = false ∧ c ≠ 0

theorem word_iff {s : List UInt8} :
    (s.isEmpty = false ∧ s.head?.all (fun c => c != 0x23) = true ∧
      s.all (fun c => !isspace c && c != 0) = true) ↔ Word s := by
  simp only [List.isEmpty_eq_false_iff, Option.all_eq_true, List.all_eq_true, Bool.and_eq_true,
    Bool.not_eq_true', bne_iff_ne]
  exact ⟨fun h => ⟨h.1, fun he => h.2.1 _ he rfl, h.2.2⟩,
    fun h => ⟨h.ne, fun c hc he => h.hash (he ▸ hc), h.clean⟩⟩

instance (s : List UInt8) : Decidable (Word s) := decidable_of_iff _ word_iff

/-- A line as a person writes it, without its newline. White space may stand before a key and
separates it from its value, and a carriage return may end the line. -/
inductive Entry
  | blank (gap : List UInt8)
  | comment (gap text : List UInt8)
  | setting (gap key sep value tail : List UInt8)

def Entry.text : Entry → List UInt8
  | .blank gap => gap
  | .comment gap text => gap ++ 0x23 :: text
  | .setting gap key sep value tail => gap ++ (key ++ (sep ++ (value ++ tail)))

def Entry.sets : Entry → Option (List UInt8 × List UInt8)
  | .setting _ key _ value _ => some (key, value)
  | _ => none

def Entry.Shaped : Entry → Prop
  | .blank gap => ∀ c ∈ gap, isspace c = true
  | .comment gap _ => ∀ c ∈ gap, isspace c = true
  | .setting gap key sep value tail =>
    (∀ c ∈ gap, isspace c = true) ∧ Word key ∧ sep ≠ [] ∧
      (∀ c ∈ sep, isspace c = true ∧ c ≠ 0x0D) ∧ Value 1024 value ∧ ∀ c ∈ tail.head?, c = 0x0D

structure Entry.Wf (e : Entry) : Prop where
  shaped : e.Shaped
  line : newline ∉ e.text
  fits : e.text.length ≤ 1024

def render (doc : List Entry) : List UInt8 := doc.flatMap fun e => e.text ++ [newline]

theorem ne_zero_of_isspace {c : UInt8} (h : isspace c = true) : (c != 0) = true := by
  rw [bne_iff_ne]
  rintro rfl
  exact absurd h (by decide)

theorem cut_of_not_isspace {c : UInt8} (h : isspace c = false) :
    (c != 0x0D && c != newline) = true := by
  rw [Bool.and_eq_true, bne_iff_ne, bne_iff_ne]
  refine ⟨?_, ?_⟩ <;> rintro rfl <;> revert h <;> decide

/-- A line that sets a key. The end of the line is cut off, and nothing before it is lost. -/
theorem splitLine_setting {gap key sep value tail : List UInt8} {n : Nat}
    (hgap : ∀ c ∈ gap, isspace c = true) (hkey : Word key) (hne : sep ≠ [])
    (hsep : ∀ c ∈ sep, isspace c = true ∧ c ≠ 0x0D ∧ c ≠ newline) (hval : Value n value)
    (htail : ∀ c ∈ tail.head?, c = 0x0D ∨ c = newline) :
    splitLine (gap ++ (key ++ (sep ++ (value ++ tail)))) = some (key, value) := by
  have hkeynul : ∀ c ∈ key, (c != 0) = true := fun c hc => bne_iff_ne.mpr (hkey.clean c hc).2
  have hvalnul : ∀ c ∈ value, (c != 0) = true := fun c hc => bne_iff_ne.mpr (hval.clean c hc).1
  have hstr : (gap ++ (key ++ (sep ++ (value ++ tail)))).takeWhile (· != 0) =
      gap ++ (key ++ (sep ++ (value ++ tail.takeWhile (· != 0)))) := by
    rw [List.takeWhile_append_of_pos fun c hc => ne_zero_of_isspace (hgap c hc),
      List.takeWhile_append_of_pos hkeynul,
      List.takeWhile_append_of_pos fun c hc => ne_zero_of_isspace (hsep c hc).1,
      List.takeWhile_append_of_pos hvalnul]
  obtain ⟨d, key', hd⟩ := List.exists_cons_of_ne_nil hkey.ne
  obtain ⟨e, sep', he⟩ := List.exists_cons_of_ne_nil hne
  have hblank : ∀ c ∈ sep', isspace c = true := fun c hc =>
    (hsep c (he ▸ List.mem_cons_of_mem e hc)).1
  have hgapped := (scan_exact (key ++ (sep ++ (value ++ tail.takeWhile (· != 0)))) hgap
    (by
      intro c hc
      rw [hd] at hc
      obtain rfl := Option.some.inj hc
      exact (hkey.clean _ (hd ▸ List.mem_cons_self)).1)).2
  have hcut : (key ++ (sep ++ (value ++ tail.takeWhile (· != 0)))).takeWhile
      (fun c => c != 0x0D && c != newline) = key ++ (sep ++ value) := by
    rw [← List.append_assoc sep, ← List.append_assoc key]
    refine (scan_exact _ (fun c hc => ?_) fun c hc => ?_).1
    · rcases List.mem_append.mp hc with hc | hc
      · exact cut_of_not_isspace (hkey.clean c hc).1
      · rw [Bool.and_eq_true, bne_iff_ne, bne_iff_ne]
        rcases List.mem_append.mp hc with hc | hc
        · exact (hsep c hc).2
        · exact (hval.clean c hc).2
    · rw [List.head?_takeWhile, Option.mem_def, Option.filter_eq_some_iff] at hc
      rcases htail c hc.1 with rfl | rfl <;> rfl
  have hkeep : ∀ c ∈ key, (!isspace c) = true := fun c hc => by simp [(hkey.clean c hc).1]
  have hword := scan_exact (sep ++ value) hkeep (by
      intro c hc
      rw [he] at hc
      obtain rfl := Option.some.inj hc
      simp [(hsep _ (he ▸ List.mem_cons_self)).1])
  have hvalue := (scan_exact value hblank hval.head).2
  rw [splitLine]
  dsimp only
  rw [hstr, hgapped, if_neg, hcut, hword.1, hword.2, he]
  · dsimp only [List.cons_append]
    rw [hvalue, if_neg hval.ne]
  · rintro (h | h)
    · exact hkey.hash (by rw [hd] at h ⊢; exact h)
    · rw [hd] at h
      cases h

theorem splitLine_blank {gap : List UInt8} (hgap : ∀ c ∈ gap, isspace c = true) :
    splitLine gap = none := by
  have hnul : ∀ c ∈ gap, (c != 0) = true := fun c hc => ne_zero_of_isspace (hgap c hc)
  have hall := (scan_exact [] hnul fun c hc => nomatch hc).1
  have hdrop := (scan_exact [] hgap fun c hc => nomatch hc).2
  rw [List.append_nil] at hall hdrop
  rw [splitLine]
  dsimp only
  rw [hall, hdrop, if_pos (Or.inr rfl)]

theorem splitLine_comment (gap text : List UInt8)
    (hgap : ∀ c ∈ gap, isspace c = true) : splitLine (gap ++ 0x23 :: text) = none := by
  have hstr : (gap ++ 0x23 :: text).takeWhile (· != 0) =
      gap ++ 0x23 :: text.takeWhile (· != 0) := by
    rw [List.takeWhile_append_of_pos fun c hc => ne_zero_of_isspace (hgap c hc)]
    rfl
  have hdrop := (scan_exact (0x23 :: text.takeWhile (· != 0)) hgap (by
    intro c hc
    obtain rfl := Option.some.inj hc
    rfl)).2
  rw [splitLine]
  dsimp only
  rw [hstr, hdrop, if_pos (Or.inl List.head?_cons)]

/-- A line is read as what it sets, with its newline or without it. -/
theorem splitLine_entry {e : Entry} (he : e.Shaped) (hline : newline ∉ e.text) (ending : List UInt8)
    (hend : ∀ c ∈ ending, c = newline) : splitLine (e.text ++ ending) = e.sets := by
  cases e with
  | blank gap =>
    refine splitLine_blank fun c hc => ?_
    rcases List.mem_append.mp hc with hc | hc
    · exact he c hc
    · rw [hend c hc]
      rfl
  | comment gap text =>
    rw [Entry.text, List.append_assoc]
    exact splitLine_comment gap (text ++ ending) he
  | setting gap key sep value tail =>
    obtain ⟨hgap, hkey, hne, hsep, hval, htail⟩ := he
    simp only [Entry.text, List.mem_append, not_or] at hline
    simp only [Entry.text, List.append_assoc]
    refine splitLine_setting hgap hkey hne (fun c hc => ?_) hval fun c hc => ?_
    · exact ⟨(hsep c hc).1, (hsep c hc).2, fun hn => hline.2.2.1 (hn ▸ hc)⟩
    · rw [List.head?_append, Option.mem_def, Option.or_eq_some_iff] at hc
      rcases hc with hc | ⟨-, hc⟩
      · exact Or.inl (htail c hc)
      · exact Or.inr (hend c (List.mem_of_mem_head? hc))

theorem foldlM_singleton {α : Type} (f : VpnOption → α → Outcome) (a : α) :
    [a].foldlM f opt = f opt a := by
  rw [List.foldlM_cons]
  cases f opt a <;> rfl

theorem confLine_eq (buf : List UInt8) :
    confLine fopen opt buf = (splitLine buf).toList.foldlM (applySetting fopen) opt := by
  rw [confLine]
  cases splitLine buf with
  | none => rfl
  | some s => exact (foldlM_singleton (applySetting fopen) s).symm

theorem confLines_append {a : List UInt8} (ha : Closed a) (b : List UInt8) :
    confLines fopen opt (a ++ b) = confLines fopen opt a >>= fun o => confLines fopen o b := by
  rw [confLines, reads_append ha, List.foldlM_append]
  rfl

/-- A line of the file. One that fills the buffer leaves its newline for the next piece, which is
blank. -/
theorem confLines_entry {e : Entry} (he : e.Wf) :
    confLines fopen opt (e.text ++ [newline]) =
      e.sets.toList.foldlM (applySetting fopen) opt := by
  rcases Nat.lt_or_eq_of_le he.fits with hlt | hfull
  · rw [confLines, reads_line he.line (Nat.lt_succ_iff.mp hlt), foldlM_singleton, confLine_eq,
      splitLine_entry he.shaped he.line [newline] (by simp)]
  · have hread := reads_full [newline] he.line hfull
    have hsets := splitLine_entry he.shaped he.line [] (fun c hc => nomatch hc)
    rw [List.append_nil] at hsets
    have hblank : ∀ o, (reads 1024 [newline]).foldlM (confLine fopen) o = .ok o := fun o => rfl
    rw [confLines, hread, List.foldlM_cons, confLine_eq, hsets]
    simp only [hblank]
    cases e.sets.toList.foldlM (applySetting fopen) opt <;> rfl

theorem closed_render (doc : List Entry) : Closed (render doc) := by
  induction doc with
  | nil => exact fun c hc => nomatch hc
  | cons e doc ih =>
    rw [render, List.flatMap_cons]
    exact (closed_line e.text).append ih

/-- A file is the sequence of its settings. -/
theorem confLines_render {doc : List Entry} (hdoc : ∀ e ∈ doc, e.Wf) :
    confLines fopen opt (render doc) =
      (doc.filterMap Entry.sets).foldlM (applySetting fopen) opt := by
  induction doc generalizing opt with
  | nil => rfl
  | cons e doc ih =>
    have hrest := fun o => @ih o fun d hd => hdoc d (List.mem_cons_of_mem e hd)
    rw [render, List.flatMap_cons, confLines_append (closed_line e.text),
      confLines_entry (hdoc e List.mem_cons_self)]
    simp only [render] at hrest
    simp only [hrest]
    rw [List.filterMap_cons]
    cases e.sets with
    | none => rfl
    | some s => simp [List.foldlM_cons]

/-- A comment that fills the buffer ends there, whatever follows it. -/
theorem confLines_long {text : List UInt8} (htext : newline ∉ text) (hlong : text.length = 1023)
    (rest : List UInt8) :
    confLines fopen opt (0x23 :: text ++ rest) = confLines fopen opt rest := by
  have hline : newline ∉ 0x23 :: text := by
    simpa using ⟨by decide, htext⟩
  have hlen : (0x23 :: text).length = 1024 := by rw [List.length_cons, hlong]
  have hskip : splitLine (0x23 :: text) = none := splitLine_comment [] text (fun c hc => nomatch hc)
  rw [confLines, reads_full rest hline hlen, List.foldlM_cons, confLine_eq, hskip]
  rfl

end

/-! ## What can be loaded -/

/-- A configuration file is read line by line as it is written: blank lines and comments are
skipped, and each other line of at most 1024 bytes sets its key to the text behind it, whatever
the case of the key, the white space around it and the end of the line. A longer comment hides
no more than its first 1024 bytes: what follows them is read as a line of its own. -/
theorem conf_document (fopen : List UInt8 → Option (List UInt8)) (opt : VpnOption)
    (cfile : List UInt8) {doc : List Entry} (hdoc : ∀ e ∈ doc, e.Wf) {text : List UInt8}
    (htext : newline ∉ text) (hlong : text.length = 1023) (rest : List UInt8) :
    vfOptionConf fopen opt cfile (some (render doc)) =
        ((doc.filterMap Entry.sets).foldlM (applySetting fopen) opt).mapError loaderr ∧
      vfOptionConf fopen opt cfile (some (render doc ++ (0x23 :: text ++ rest))) =
        ((doc.filterMap Entry.sets).foldlM (applySetting fopen) opt >>= fun o =>
          confLines fopen o rest).mapError loaderr := by
  rw [vfOptionConf, vfOptionConf, confLines_append (closed_render doc), confLines_render hdoc]
  simp only [confLines_long htext hlong]
  exact ⟨trivial, trivial⟩

def sampleDoc : List Entry :=
  [.comment [] (ascii " vfast"), .blank [],
    .setting [0x20] (ascii "MTU") [0x09] (ascii "1500 ") [0x0D]]

theorem sampleDoc_wf : ∀ e ∈ sampleDoc, e.Wf := by
  intro e he
  simp only [sampleDoc, List.mem_cons, List.not_mem_nil, or_false] at he
  rcases he with rfl | rfl | rfl
  · exact ⟨(fun _ hc => nomatch hc), by decide, by decide⟩
  · exact ⟨(fun _ hc => nomatch hc), by decide, by decide⟩
  · exact ⟨⟨by decide +kernel, by decide +kernel, by decide, by decide +kernel, by decide +kernel,
      by decide +kernel⟩, by decide, by decide⟩

theorem conf_document_port :
    (vfOptionConf (fun _ => none) (vfOptionInit .static) []
        (some (render sampleDoc ++
          (0x23 :: List.replicate 1023 0x78 ++ ascii "port 80")))).toOption.map
      (fun o => (o.mtu, o.localPort)) = some (1500, 80) := by
  have htext : newline ∉ List.replicate 1023 0x78 := fun h =>
    absurd (List.eq_of_mem_replicate h) (by decide)
  rw [(conf_document (fun _ => none) (vfOptionInit .static) [] sampleDoc_wf htext
    List.length_replicate (ascii "port 80")).2]
  decide +kernel

/-- Some file of whole lines takes the options `a` to `b`. -/
def Loads (fopen : List UInt8 → Option (List UInt8)) (a b : VpnOption) : Prop :=
  ∃ file, Closed file ∧ confLines fopen a file = .ok b

section

variable {fopen : List UInt8 → Option (List UInt8)} {opt a b c : VpnOption}

theorem Loads.refl (a : VpnOption) : Loads fopen a a :=
  ⟨[], (fun _ hc => nomatch hc), rfl⟩

theorem Loads.trans (h : Loads fopen a b) (h' : Loads fopen b c) : Loads fopen a c := by
  obtain ⟨f, hf, hab⟩ := h
  obtain ⟨g, hg, hbc⟩ := h'
  refine ⟨f ++ g, hf.append hg, ?_⟩
  rw [confLines_append hf, hab]
  exact hbc

theorem word_of_mem {k : String × Key} (hk : k ∈ keys) : Word (ascii k.1) := by
  have hall : ∀ k ∈ keys, Word (ascii k.1) := by decide +kernel
  exact hall k hk

theorem Loads.set (name : String) (k : Key) (hk : (name, k) ∈ keys)
    (hof : keyOf (ascii name) = some k) {v : List UInt8}
    (hv : Value (1024 - ((ascii name).length + 1)) v)
    (h : assign fopen (ascii name) v a k = .ok b) : Loads fopen a b := by
  have hword := word_of_mem hk
  have hn : newline ∉ ascii name := fun hc => absurd (hword.clean _ hc).1 (by decide)
  have hlen : (ascii name).length + 1 ≤ 1024 := by
    have hpos := List.length_pos_iff.mpr hv.ne
    have hshort := hv.short
    omega
  have hwf : (Entry.setting [] (ascii name) [0x20] v []).Wf := by
    refine ⟨⟨by simp, hword, by simp, by decide +kernel, hv.mono (Nat.sub_le _ _), by simp⟩, ?_, ?_⟩
    · have hvn : newline ∉ v := fun hc => (hv.clean _ hc).2.2 rfl
      have h20 : newline ≠ 0x20 := by decide
      simp [Entry.text, hn, hvn, h20]
    · have hshort := hv.short
      simp only [Entry.text, List.nil_append, List.append_nil, List.length_append,
        List.length_cons, List.length_nil]
      omega
  refine ⟨_, closed_line (Entry.setting [] (ascii name) [0x20] v []).text, ?_⟩
  rw [confLines_entry hwf]
  show [(ascii name, v)].foldlM (applySetting fopen) a = .ok b
  rw [foldlM_singleton, applySetting, hof]
  exact h

theorem Loads.int (name : String) (k : Key) (hk : (name, k) ∈ keys)
    (hof : keyOf (ascii name) = some k) (hroom : 10 ≤ 1024 - ((ascii name).length + 1)) {m : Int}
    (h0 : 0 ≤ m) (h1 : m < 2147483648)
    (h : ∀ v, atoi v = m → assign fopen (ascii name) v a k = .ok b) : Loads fopen a b := by
  have hlt : m.toNat < 2147483648 := by omega
  have hread : atoi (decimal m.toNat) = m := (atoi_decimal hlt).trans (Int.toNat_of_nonneg h0)
  exact Loads.set name k hk hof ((value_decimal hlt).mono hroom) (h _ hread)

theorem Loads.flag (name : String) (k : Key) (hk : (name, k) ∈ keys)
    (hof : keyOf (ascii name) = some k) (hroom : 3 ≤ 1024 - ((ascii name).length + 1)) (m : Bool)
    (h : ∀ v, yesnotoi v = (if m then 1 else 0) → assign fopen (ascii name) v a k = .ok b) :
    Loads fopen a b := by
  have hval : Value 3 (ascii (if m then "yes" else "no")) := by
    cases m <;> exact by decide +kernel
  refine Loads.set name k hk hof (hval.mono hroom) (h _ ?_)
  cases m <;> decide

theorem Field.eq {n : Nat} {x y : Block n} {s : List UInt8} (hx : Field x s) (hy : Field y s) :
    x = y := hx.1.trans hy.1.symm

/-! The steps to a valid record, one for each option. An option that has no value to write (no
user name, no password, no limit for the log, a default file) is left as it is. -/

theorem loads_texts (hv : Valid fopen opt) (o : VpnOption)
    (hpool : o.poolNetwork (Fin.last 31) = 0) :
    Loads fopen o
      { o with
        tunName := opt.tunName
        tunIp := opt.tunIp
        remoteHost := opt.remoteHost
        poolNetwork := opt.poolNetwork
        pidfile := opt.pidfile } := by
  obtain ⟨tn, htn, hftn⟩ := hv.tunName
  obtain ⟨ti, hti, hfti⟩ := hv.tunIp
  obtain ⟨rh, hrh, hfrh⟩ := hv.remoteHost
  obtain ⟨pn, hpn, hfpn⟩ := hv.poolNetwork
  have htiv := value_of_ipv4 hti
  have hrhv := value_of_ipv4 hrh
  have tunName : ∀ o, Loads fopen o { o with tunName := opt.tunName } := fun o =>
    Loads.set "tunname" .tunname (by decide) (by decide) (htn.mono (by decide))
      (by rw [assign, (field_of_fits o.tunName htn.short).eq hftn])
  have tunIp : ∀ o, Loads fopen o { o with tunIp := opt.tunIp } := fun o =>
    Loads.set "tunip" .tunip (by decide) (by decide) (htiv.mono (by decide))
      (by rw [assign, if_pos hti, (field_of_fits o.tunIp (htiv.mono (by decide)).short).eq hfti])
  have remoteHost : ∀ o, Loads fopen o { o with remoteHost := opt.remoteHost } := fun o =>
    Loads.set "remote-host" .remoteHost (by decide) (by decide) (hrhv.mono (by decide))
      (by rw [assign, if_pos hrh,
        (field_of_fits o.remoteHost (hrhv.mono (by decide)).short).eq hfrh])
  have poolNetwork : ∀ o, o.poolNetwork (Fin.last 31) = 0 →
      Loads fopen o { o with poolNetwork := opt.poolNetwork } := by
    intro o ho
    have hf := field_strncpy ho pn
    rw [List.take_of_length_le hpn.short] at hf
    exact Loads.set "pool-network" .poolNetwork (by decide) (by decide) (hpn.mono (by decide))
      (by rw [assign, hf.eq hfpn])
  have pidfile : ∀ o, Loads fopen o { o with pidfile := opt.pidfile } := fun o =>
    Loads.set "pidfile" .pidfile (by decide) (by decide) hv.pidfile rfl
  exact (poolNetwork o hpool).trans ((tunName _).trans ((tunIp _).trans ((remoteHost _).trans
    (pidfile _))))

theorem loads_numbers (hv : Valid fopen opt) (o : VpnOption) :
    Loads fopen o
      { o with
        mtu := opt.mtu
        ioRingDepth := opt.ioRingDepth
        ioPoolSize := opt.ioPoolSize
        disableIpv6 := opt.disableIpv6
        udpBacklog := opt.udpBacklog
        daemonize := opt.daemonize
        remotePort := opt.remotePort
        poolSize := opt.poolSize
        localPort := opt.localPort } := by
  have mtu : ∀ o, Loads fopen o { o with mtu := opt.mtu } := fun o =>
    Loads.int "mtu" .mtu (by decide) (by decide) (by decide) (m := opt.mtu)
      (by have := hv.mtu; omega) (by have := hv.mtu; omega)
      (fun v hm => by rw [assign, setInt, hm, if_pos (by simp [hv.mtu])])
  have ioRingDepth : ∀ o, Loads fopen o { o with ioRingDepth := opt.ioRingDepth } := by
    intro o
    obtain ⟨k, hk, hd⟩ := hv.ioRingDepth
    have hcast : ((2 ^ k : Nat) : Int) = 2 ^ k := Int.natCast_pow 2 k
    have hle : 2 ^ k ≤ 2 ^ 30 := Nat.pow_le_pow_right (by decide) hk
    have hlt : opt.ioRingDepth < 2147483648 := by omega
    exact Loads.int "io-ring-depth" .ioRingDepth (by decide) (by decide) (by decide)
      (m := opt.ioRingDepth) (hd ▸ hcast ▸ Int.natCast_nonneg (2 ^ k)) hlt
      (fun v hm => by rw [assign, setInt, hm, if_pos ((isPow2_iff hlt).mpr ⟨k, hk, hd⟩)])
  have ioPoolSize : ∀ o, Loads fopen o { o with ioPoolSize := opt.ioPoolSize } := fun o =>
    Loads.int "io-pool-size" .ioPoolSize (by decide) (by decide) (by decide) (m := opt.ioPoolSize)
      (by have := hv.ioPoolSize; omega) (by have := hv.ioPoolSize; omega)
      (fun v hm => by rw [assign, setInt, hm, if_pos (by simp [hv.ioPoolSize])])
  have disableIpv6 : ∀ o, Loads fopen o { o with disableIpv6 := opt.disableIpv6 } := fun o =>
    Loads.flag "disable-ipv6" .disableIpv6 (by decide) (by decide) (by decide) opt.disableIpv6
      (fun v hm => by rw [assign, setFlag, hm]; cases opt.disableIpv6 <;> rfl)
  have udpBacklog : ∀ o, Loads fopen o { o with udpBacklog := opt.udpBacklog } := fun o =>
    Loads.int "udp-backlog" .udpBacklog (by decide) (by decide) (by decide) (m := opt.udpBacklog)
      (by have := hv.udpBacklog; omega) (by have := hv.udpBacklog; omega)
      (fun v hm => by rw [assign, setInt, hm, if_pos (by simp [hv.udpBacklog])])
  have daemonize : ∀ o, Loads fopen o { o with daemonize := opt.daemonize } := fun o =>
    Loads.flag "daemonize" .daemonize (by decide) (by decide) (by decide) opt.daemonize
      (fun v hm => by rw [assign, setFlag, hm]; cases opt.daemonize <;> rfl)
  have remotePort : ∀ o, Loads fopen o { o with remotePort := opt.remotePort } := fun o =>
    Loads.int "remote-port" .remotePort (by decide) (by decide) (by decide) (m := opt.remotePort)
      (by have := hv.remotePort; omega) (by have := hv.remotePort; omega)
      (fun v hm => by rw [assign, setInt, hm, if_pos (by simp [hv.remotePort])])
  have poolSize : ∀ o, Loads fopen o { o with poolSize := opt.poolSize } := fun o =>
    Loads.int "pool-size" .poolSize (by decide) (by decide) (by decide) (m := opt.poolSize)
      (by have := hv.poolSize; omega) (by have := hv.poolSize; omega)
      (fun v hm => by rw [assign, setInt, hm, if_pos (by simp [hv.poolSize])])
  have localPort : ∀ o, Loads fopen o { o with localPort := opt.localPort } := fun o =>
    Loads.int "port" .port (by decide) (by decide) (by decide) (m := opt.localPort)
      (by have := hv.localPort; omega) (by have := hv.localPort; omega)
      (fun v hm => by rw [assign, setInt, hm, if_pos (by simp [hv.localPort])])
  exact (mtu o).trans ((ioRingDepth _).trans ((ioPoolSize _).trans ((disableIpv6 _).trans
    ((udpBacklog _).trans ((daemonize _).trans ((remotePort _).trans ((poolSize _).trans
    (localPort _))))))))

theorem loads_optional (hv : Valid fopen opt) (o : VpnOption) (hlog : o.logMaxSize = 0)
    (hlogfile : o.logfile = defaultLogFile) (hkeyfile : o.keyfile = defaultKeyFile)
    (huser : o.username = none) (hpass : o.password = fun _ => 0) :
    Loads fopen o
      { o with
        logMaxSize := opt.logMaxSize
        logfile := opt.logfile
        keyfile := opt.keyfile
        username := opt.username
        password := opt.password } := by
  have logMaxSize : Loads fopen o { o with logMaxSize := opt.logMaxSize } := by
    rcases hv.logMaxSize with h0 | hm
    · rw [h0, ← hlog]
      exact Loads.refl o
    · exact Loads.int "log-max-size" .logMaxSize (by decide) (by decide) (by decide)
        (m := opt.logMaxSize) (by omega) (by omega)
        (fun v he => by rw [assign, setInt, he, if_pos (by simp [hm])])
  have logfile : ∀ o, o.logfile = defaultLogFile →
      Loads fopen o { o with logfile := opt.logfile } := by
    intro o ho
    rcases hv.logfile with h0 | ⟨hval, hopens⟩
    · rw [h0, ← ho]
      exact Loads.refl o
    · exact Loads.set "logfile" .logfile (by decide) (by decide) hval
        (by rw [assign, setFile, if_neg hval.ne, hopens])
  have keyfile : ∀ o, o.keyfile = defaultKeyFile →
      Loads fopen o { o with keyfile := opt.keyfile } := by
    intro o ho
    rcases hv.keyfile with h0 | ⟨hval, hopens⟩
    · rw [h0, ← ho]
      exact Loads.refl o
    · exact Loads.set "keyfile" .keyfile (by decide) (by decide) hval
        (by rw [assign, setFile, if_neg hval.ne, hopens])
  have username : ∀ o, o.username = none → Loads fopen o { o with username := opt.username } := by
    intro o ho
    cases hu : opt.username with
    | none =>
      rw [← ho]
      exact Loads.refl o
    | some s => exact Loads.set "username" .username (by decide) (by decide) (hv.username s hu) rfl
  have password : ∀ o, o.password = (fun _ => 0) →
      Loads fopen o { o with password := opt.password } := by
    intro o ho
    obtain ⟨s, hs, hf⟩ := hv.password
    rcases hs with rfl | hs
    · rw [hf.1, show Block.ofList 64 [] = o.password from ho.symm]
      exact Loads.refl o
    · exact Loads.set "password" .password (by decide) (by decide) (hs.mono (by decide))
        (by rw [assign, (field_of_fits o.password hs.short).eq hf])
  refine logMaxSize.trans ((logfile _ ?_).trans ((keyfile _ ?_).trans ((username _ ?_).trans
    (password _ ?_))))
  exacts [hlogfile, hkeyfile, huser, hpass]

end

/-- The options that the program can run with are the valid ones. Whatever the configuration file
holds, the loader exits or returns options that pass every check, with each text terminated in
its field; and each valid record is what some file gives. -/
theorem conf_loads_iff (fopen : List UInt8 → Option (List UInt8)) (cfile : List UInt8)
    (opt : VpnOption) :
    (∃ file, vfOptionConf fopen { vfOptionInit .static with cfile := cfile } cfile (some file) =
        .ok opt) ↔
      Valid fopen opt ∧ opt.cfile = cfile := by
  constructor
  · rintro ⟨file, h⟩
    have hlines : confLines fopen { vfOptionInit .static with cfile := cfile } file = .ok opt := by
      rw [vfOptionConf] at h
      cases hc : confLines fopen { vfOptionInit .static with cfile := cfile } file with
      | error e =>
        rw [hc] at h
        cases h
      | ok o =>
        rw [hc] at h
        exact congrArg Except.ok (Except.ok.inj h)
    have hstart : Valid fopen { vfOptionInit .static with cfile := cfile } :=
      { (init_valid : Valid fopen (vfOptionInit .static)) with }
    exact foldl_confLine_valid (fun l hl => length_le_of_mem_reads hl) hstart hlines
  · rintro ⟨hv, rfl⟩
    have hloads : Loads fopen { vfOptionInit .static with cfile := opt.cfile } opt :=
      (loads_optional hv _ rfl rfl rfl rfl rfl).trans
        ((loads_texts hv _ rfl).trans (loads_numbers hv _))
    obtain ⟨file, -, hfile⟩ := hloads
    refine ⟨file, ?_⟩
    rw [vfOptionConf, hfile]
    rfl

end Vfast.Options
