import Vfast.Lib.Bytes

/-! The key file: `--keygen` writes it, both ends load their master key from it. Every system call
may fail, so the outcomes are arguments. A file that is there is never written again, so the first
key that was written is the one that every later load returns; but nor is a file that was left
behind short. -/

namespace Vfast.KeyFile

open Bytes

structure File where
  bytes : List UInt8
  mode : Nat
  regular : Bool
  deriving DecidableEq

/-- What the system calls of `vfast_cmd_keygen` do. `getrandom` is `none` if it returns fewer bytes;
`write` is the number of bytes written, or `none` if it fails. -/
structure GenEnv where
  getrandom : Option (Block 32)
  umask : Nat
  canOpen : Bool
  canChmod : Bool
  write : Option Nat
  canUnlink : Bool

inductive Exit where
  | success
  | failure
  deriving DecidableEq

def ownerOnly : Nat := 0o600

def vfGenerateKey (env : GenEnv) : Option (Block 32) := env.getrandom

/-- `unlink(key_file)`, of a file that was just created. -/
def unlink (env : GenEnv) (file : File) : Option File := if env.canUnlink then none else some file

/-- `vfast_cmd_keygen`: the file afterwards and the exit status. -/
def vfastCmdKeygen (env : GenEnv) (disk : Option File) : Option File × Exit :=
  match vfGenerateKey env with
  | none => (disk, .failure)
  | some tmpKey =>
    match disk with
    -- `O_EXCL`
    | some file => (some file, .failure)
    | none =>
      if env.canOpen then
        let file : File := ⟨[], ownerOnly ^^^ (ownerOnly &&& env.umask), true⟩
        if env.canChmod then
          let file := { file with mode := ownerOnly }
          let file := { file with bytes := tmpKey.toList.take (env.write.getD 0) }
          if env.write ≠ some 32 then (unlink env file, .failure)
          else (some file, .success)
        else (unlink env file, .failure)
      else (none, .failure)

structure LoadEnv where
  canOpen : Bool
  canStat : Bool
  canRead : Bool

/-- `vfast_load_key`: the return code and `out_key`, which is wiped if the file is short. -/
def vfastLoadKey (env : LoadEnv) (disk : Option File) (outKey : Block 32) : Int × Block 32 :=
  match disk with
  | none => (-1, outKey)
  | some file =>
    if env.canOpen then
      if !env.canStat || !file.regular then (-1, outKey)
      else
        let data := file.bytes.take 32
        if !env.canRead || data.length ≠ 32 then (-1, fun _ => 0)
        else (0, Block.ofList 32 data)
    else (-1, outKey)

/-! ## Generating -/

/-- A key is drawn and every call works. -/
def GenEnv.writes (env : GenEnv) : Option (Block 32) :=
  if env.canOpen ∧ env.canChmod ∧ env.write = some 32 then env.getrandom else none

def keyFile (key : Block 32) : File := ⟨key.toList, ownerOnly, true⟩

theorem take_key (key : Block 32) : key.toList.take 32 = key.toList :=
  List.take_of_length_le (Nat.le_of_eq (Block.length_toList key))

theorem keygen_some (env : GenEnv) (file : File) :
    vfastCmdKeygen env (some file) = (some file, .failure) := by
  rw [vfastCmdKeygen]
  cases vfGenerateKey env <;> rfl

/-- Without a file the key is written as a whole, or what was created is removed. -/
theorem keygen_none (env : GenEnv) (hu : env.canUnlink = true) :
    vfastCmdKeygen env none =
      match env.writes with
      | some key => (some (keyFile key), .success)
      | none => (none, .failure) := by
  obtain ⟨getrandom, umask, canOpen, canChmod, write, canUnlink⟩ := env
  cases hu
  cases getrandom with
  | none => simp [vfastCmdKeygen, vfGenerateKey, GenEnv.writes]
  | some key =>
    cases canOpen with
    | false => simp [vfastCmdKeygen, vfGenerateKey, GenEnv.writes]
    | true =>
      cases canChmod with
      | false => simp [vfastCmdKeygen, vfGenerateKey, GenEnv.writes, unlink]
      | true =>
        by_cases hw : write = some 32
        · subst hw
          simp [vfastCmdKeygen, vfGenerateKey, GenEnv.writes, keyFile, take_key]
        · simp [vfastCmdKeygen, vfGenerateKey, GenEnv.writes, unlink, hw]

/-- Calls of `--keygen`, one after the other: the file and the exit statuses. -/
def keygens : Option File → List GenEnv → Option File × List Exit
  | disk, [] => (disk, [])
  | disk, env :: envs =>
    let r := vfastCmdKeygen env disk
    let s := keygens r.1 envs
    (s.1, r.2 :: s.2)

theorem keygens_some (file : File) (envs : List GenEnv) :
    keygens (some file) envs = (some file, List.replicate envs.length .failure) := by
  induction envs with
  | nil => rfl
  | cons env envs ih => rw [keygens, keygen_some, ih, List.length_cons, List.replicate_succ]

/-- The first key that can be written is the one in the file, and its call is the only one that
succeeds. -/
theorem keygens_none {envs : List GenEnv} (hu : ∀ env ∈ envs, env.canUnlink = true) :
    (keygens none envs).1 = (envs.findSome? GenEnv.writes).map keyFile ∧
      (keygens none envs).2.count .success = (keygens none envs).1.toList.length := by
  induction envs with
  | nil => exact ⟨rfl, rfl⟩
  | cons env envs ih =>
    rw [keygens, keygen_none env (hu env List.mem_cons_self), List.findSome?_cons]
    cases env.writes with
    | none => exact ih fun e he => hu e (List.mem_cons_of_mem env he)
    | some key =>
      rw [keygens_some]
      refine ⟨rfl, ?_⟩
      rw [List.count_cons_self, List.count_replicate]
      rfl

/-! ## Loading -/

/-- A load succeeds on a regular file of 32 bytes or more, and returns the first 32. -/
theorem load_iff (env : LoadEnv) (disk : Option File) (outKey : Block 32) :
    (vfastLoadKey env disk outKey).1 = 0 ↔
      (env.canOpen ∧ env.canStat ∧ env.canRead) ∧
      ∃ file, disk = some file ∧ file.regular = true ∧ 32 ≤ file.bytes.length := by
  cases disk with
  | none => simp [vfastLoadKey]
  | some file =>
    rw [vfastLoadKey]
    by_cases hl : 32 ≤ file.bytes.length
    · cases env.canOpen <;> cases env.canStat <;> cases env.canRead <;> cases hr : file.regular <;>
        simp [hr, hl]
    · cases env.canOpen <;> cases env.canStat <;> cases env.canRead <;> cases hr : file.regular <;>
        simp [hr, hl]

theorem load_keyFile {env : LoadEnv} (he : env.canOpen ∧ env.canStat ∧ env.canRead)
    (key outKey : Block 32) : vfastLoadKey env (some (keyFile key)) outKey = (0, key) := by
  obtain ⟨ho, hs, hr⟩ := he
  simp [vfastLoadKey, keyFile, ho, hs, hr, take_key]

/-- **Runs of the key file.** However often `--keygen` is called and whatever fails in it, the file
is absent or holds the first key that could be written, for its owner only; one call has succeeded
then, and every load that can read the file returns that key. A short file that was left behind
stays: no later `--keygen` replaces it and no load accepts it. -/
theorem key_file_runs (envs : List GenEnv) :
    ((∀ env ∈ envs, env.canUnlink = true) →
      (keygens none envs).1 = (envs.findSome? GenEnv.writes).map keyFile ∧
      (keygens none envs).2.count .success = (keygens none envs).1.toList.length ∧
      ∀ key, envs.findSome? GenEnv.writes = some key → ∀ (env : LoadEnv) (outKey : Block 32),
        env.canOpen ∧ env.canStat ∧ env.canRead →
          vfastLoadKey env (keygens none envs).1 outKey = (0, key)) ∧
    ∀ file : File, file.bytes.length < 32 →
      keygens (some file) envs = (some file, List.replicate envs.length .failure) ∧
      ∀ (env : LoadEnv) (outKey : Block 32), (vfastLoadKey env (some file) outKey).1 ≠ 0 := by
  refine ⟨fun hu => ?_, fun file hl => ⟨keygens_some file envs, fun env outKey h => ?_⟩⟩
  · obtain ⟨hfile, hcount⟩ := keygens_none hu
    refine ⟨hfile, hcount, fun key hkey env outKey he => ?_⟩
    rw [hfile, hkey]
    exact load_keyFile he key outKey
  · obtain ⟨-, f, hf, -, hle⟩ := (load_iff env (some file) outKey).mp h
    cases hf
    exact absurd hle (Nat.not_le.mpr hl)

/-- The disk is full in the first call. The second writes the key, the third does not replace it. -/
def threeCalls : List GenEnv :=
  [⟨some fun _ => 1, 0o022, true, true, some 7, true⟩,
    ⟨some fun _ => 2, 0o022, true, true, some 32, true⟩,
    ⟨some fun _ => 3, 0o022, true, true, some 32, true⟩]

theorem threeCalls_load : vfastLoadKey ⟨true, true, true⟩ (keygens none threeCalls).1 (fun _ => 0) =
    (0, fun _ => 2) :=
  ((key_file_runs threeCalls).1 (by decide)).2.2 (fun _ => 2) rfl ⟨true, true, true⟩ (fun _ => 0)
    ⟨rfl, rfl, rfl⟩

end Vfast.KeyFile
