import Vfast.CmdArgs
import Vfast.Response

/-! The console's dispatch (`cmd_dispatch` of `cmd.c`, `cmd_handle_set` and `cmd_handle_get` of
`cmdengine.c`). Root commands and sub-commands stand in one flat table. The sub-dispatchers
filter it by group, `cmd_dispatch` does not, so it runs a sub-command that is called by its bare
name. -/

namespace Vfast.Dispatch

open Bytes CStrings CmdArgs Response

/-- A handler of a table: one of the two sub-dispatchers, or a function that runs no other
handler. -/
inductive Handler (α : Type) where
  | set
  | get
  | leaf (f : α)
  deriving DecidableEq

/-- `cmd_entry_t`, without the help text. The entry that ends a table is not part of it. -/
structure CmdEntry (α : Type) where
  group : Option (List UInt8)
  name : List UInt8
  usage : Option (List UInt8)
  minArgc : Int
  handler : Option (Handler α)
  deriving DecidableEq

/-- What a dispatcher does: it returns a code after some calls on the response, it prints the
help of a group and returns 0, or it returns what the handler of an entry returns. -/
inductive Outcome (α : Type) where
  | ret (code : Int) (calls : List Call)
  | groupHelp (group : List UInt8)
  | run (e : CmdEntry α) (args : List (List UInt8))

section

variable {α : Type}

/-- `printf` of the C library for a `%s` without a string. -/
def nullText : List UInt8 := ascii "(null)"

def arguments (line : List UInt8) : Option (List (List UInt8)) :=
  match parseArgs (received line) line.length with
  | (code, argv, m) => if code ≠ 0 then none else some (argv.map (stringAt m line.length))

def command (table : List (CmdEntry α)) (name : List UInt8) : Option (CmdEntry α) :=
  table.find? fun e => sameText name e.name

/-- `cmd_dispatch` from the arguments on. -/
def dispatchArgs (table : List (CmdEntry α)) (args : List (List UInt8)) : Outcome α :=
  match args with
  | [] => .ret (-1) []
  | name :: _ =>
    match command table name with
    | none => .ret (-1) [.red (ascii "ERR: Unknown command '" ++ name.take 32 ++ ascii "'")]
    | some e =>
      if e.handler.isNone then
        .ret 0 [.red (ascii "ERR: Command '" ++ e.name ++ ascii "' has no executor. Try 'HELP " ++
          e.name ++ ascii "' for details.")]
      else if args.length < e.minArgc then
        .ret 0 [.red (ascii "ERR: Usage: " ++ e.name ++ ascii " " ++ e.usage.getD nullText)]
      else .run e args

/-- `cmd_dispatch`; `maxLen` is the size of the response buffer. -/
def cmdDispatch (gTable : Option (List (CmdEntry α))) (input : Option (List UInt8))
    (maxLen : Nat) : Outcome α :=
  match gTable, input with
  | some table, some line =>
    if maxLen = 0 then .ret (-1) []
    else
      match arguments line with
      | none => .ret (-1) [.red (ascii "ERR: Unbalanced quotes in command line")]
      | some args => dispatchArgs table args
  | _, _ => .ret (-1) []

def subcommand (table : List (CmdEntry α)) (group key : List UInt8) : Option (CmdEntry α) :=
  table.find? fun e => e.group.any (sameText · group) && sameText key e.name

/-- The body that `cmd_handle_set` and `cmd_handle_get` share. -/
def subDispatch (group noUsage hint : List UInt8) (table : List (CmdEntry α))
    (args : List (List UInt8)) : Outcome α :=
  match args with
  | _ :: key :: _ =>
    match subcommand table group key with
    | none =>
      .ret (-1) [.red (ascii "ERR: Unknown " ++ group ++ ascii " key '" ++ key ++
        ascii "'. Use 'HELP " ++ group ++ ascii "' to " ++ hint)]
    | some e =>
      if e.handler.isNone then
        .ret 0 [.red (ascii "ERR: " ++ group ++ ascii " " ++ key ++
          ascii " logic is not implemented.")]
      else if args.length < e.minArgc then
        .ret 0 [.red (ascii "ERR: Usage: " ++ group ++ ascii " " ++ e.name ++ ascii " " ++
          e.usage.getD noUsage)]
      else .run e args
  | _ => .groupHelp group

def setGroup : List UInt8 := ascii "SET"
def getGroup : List UInt8 := ascii "GET"

def cmdHandleSet (table : List (CmdEntry α)) (args : List (List UInt8)) : Outcome α :=
  subDispatch setGroup nullText (ascii "see options.") table args

/-- `cmd_handle_get`; `ctx` says whether there is a context. -/
def cmdHandleGet (table : List (CmdEntry α)) (ctx : Bool) (args : List (List UInt8)) : Outcome α :=
  if ctx = false then .ret (-1) []
  else subDispatch getGroup [] (ascii "list valid keys.") table args

/-- The entries whose handlers are executed for an input, with their arguments: the one that
`cmd_dispatch` runs, and the ones that an executed sub-dispatcher runs. The registered table is
the one that the sub-dispatchers search. -/
inductive Executed (table : List (CmdEntry α)) (ctx : Bool) (input : Option (List UInt8))
    (maxLen : Nat) : CmdEntry α → List (List UInt8) → Prop
  | dispatch {e : CmdEntry α} {args : List (List UInt8)} :
    cmdDispatch (some table) input maxLen = .run e args → Executed table ctx input maxLen e args
  | set {e e' : CmdEntry α} {args args' : List (List UInt8)} :
    Executed table ctx input maxLen e args → e.handler = some .set →
    cmdHandleSet table args = .run e' args' → Executed table ctx input maxLen e' args'
  | get {e e' : CmdEntry α} {args args' : List (List UInt8)} :
    Executed table ctx input maxLen e args → e.handler = some .get →
    cmdHandleGet table ctx args = .run e' args' → Executed table ctx input maxLen e' args'

/-! ## What is executed -/

/-- The checks that both levels make before they call a handler. -/
def CmdEntry.Callable (e : CmdEntry α) (args : List (List UInt8)) : Prop :=
  e.handler.isSome ∧ e.minArgc ≤ args.length

/-- The entry is the command of the first argument, and can be called. -/
def Selects (table : List (CmdEntry α)) (args : List (List UInt8)) (e : CmdEntry α) : Prop :=
  (∃ name ∈ args[0]?, command table name = some e) ∧ e.Callable args

/-- The entry is the sub-command of the second argument in a group, and can be called. -/
def SelectsIn (table : List (CmdEntry α)) (group : List UInt8) (args : List (List UInt8))
    (e : CmdEntry α) : Prop :=
  (∃ key ∈ args[1]?, subcommand table group key = some e) ∧ e.Callable args

def CmdEntry.dispatches (ctx : Bool) (e : CmdEntry α) : Option (List UInt8) :=
  match e.handler with
  | some .set => some setGroup
  | some .get => if ctx then some getGroup else none
  | _ => none

variable {table : List (CmdEntry α)} {ctx : Bool} {input : Option (List UInt8)} {maxLen : Nat}
  {args args' : List (List UInt8)} {e e' : CmdEntry α} {group : List UInt8}

theorem checked_run {calls calls' : List Call} :
    (if e.handler.isNone then Outcome.ret 0 calls
      else if (args.length : Int) < e.minArgc then .ret 0 calls'
      else .run e args) = .run e' args' ↔ e = e' ∧ args = args' ∧ e.Callable args := by
  unfold CmdEntry.Callable
  cases hh : e.handler with
  | none => simp
  | some h =>
    by_cases hargc : (args.length : Int) < e.minArgc
    · simp [hargc]
    · simp [hargc, Int.not_lt.mp hargc]

theorem dispatchArgs_run :
    dispatchArgs table args = .run e args' ↔ args' = args ∧ Selects table args e := by
  rcases args with _ | ⟨name, rest⟩
  · simp [dispatchArgs, Selects]
  · cases hc : command table name with
    | none => simp [dispatchArgs, Selects, hc]
    | some e₀ =>
      simp only [dispatchArgs, hc, checked_run]
      constructor
      · rintro ⟨rfl, rfl, hcall⟩
        exact ⟨rfl, ⟨name, rfl, hc⟩, hcall⟩
      · rintro ⟨rfl, ⟨name', hname, he⟩, hcall⟩
        obtain rfl : name = name' := by simpa using hname
        obtain rfl : e₀ = e := by simpa [hc] using he
        exact ⟨rfl, rfl, hcall⟩

theorem subDispatch_run {noUsage hint : List UInt8} :
    subDispatch group noUsage hint table args = .run e args' ↔
      args' = args ∧ SelectsIn table group args e := by
  rcases args with _ | ⟨name, _ | ⟨key, rest⟩⟩
  · simp [subDispatch, SelectsIn]
  · simp [subDispatch, SelectsIn]
  · cases hs : subcommand table group key with
    | none => simp [subDispatch, SelectsIn, hs]
    | some e₀ =>
      simp only [subDispatch, hs, checked_run]
      constructor
      · rintro ⟨rfl, rfl, hc⟩
        exact ⟨rfl, ⟨key, rfl, hs⟩, hc⟩
      · rintro ⟨rfl, ⟨key', hkey, he⟩, hc⟩
        obtain rfl : key = key' := by simpa using hkey
        obtain rfl : e₀ = e := by simpa [hs] using he
        exact ⟨rfl, rfl, hc⟩

theorem cmdDispatch_run : cmdDispatch (some table) input maxLen = .run e args ↔
    maxLen ≠ 0 ∧ (∃ line ∈ input, arguments line = some args) ∧ Selects table args e := by
  cases input with
  | none => simp [cmdDispatch]
  | some line =>
    by_cases hlen : maxLen = 0
    · simp [cmdDispatch, hlen]
    · cases hargs : arguments line with
      | none => simp [cmdDispatch, hlen, hargs]
      | some args₀ =>
        simp only [cmdDispatch, hlen, hargs, if_false, dispatchArgs_run]
        constructor
        · rintro ⟨rfl, hs⟩
          exact ⟨hlen, ⟨line, rfl, hargs⟩, hs⟩
        · rintro ⟨-, ⟨line', hline, hargs'⟩, hs⟩
          obtain rfl : line = line' := by simpa using hline
          obtain rfl : args₀ = args := by simpa [hargs] using hargs'
          exact ⟨rfl, hs⟩

/-- A sub-dispatcher runs the entry that the arguments select in its group. -/
theorem Executed.sub (h : Executed table ctx input maxLen e args) (hg : group ∈ e.dispatches ctx)
    (hs : SelectsIn table group args e') : Executed table ctx input maxLen e' args := by
  unfold CmdEntry.dispatches at hg
  split at hg
  · rename_i hh
    obtain rfl : setGroup = group := by simpa using hg
    exact .set h hh (subDispatch_run.mpr ⟨rfl, hs⟩)
  · rename_i hh
    cases ctx with
    | false => simp at hg
    | true =>
      obtain rfl : getGroup = group := by simpa using hg
      exact .get h hh (subDispatch_run.mpr ⟨rfl, hs⟩)
  · simp at hg

/-- **Invariant rule** for executed entries: what holds of the one that `cmd_dispatch` selects, and
is handed on by every sub-dispatcher, holds of each of them. -/
theorem Executed.invariant (h : Executed table ctx input maxLen e args)
    (inv : CmdEntry α → List (List UInt8) → Prop)
    (h0 : ∀ e args, cmdDispatch (some table) input maxLen = .run e args → inv e args)
    (hsub : ∀ e e' args group, inv e args → group ∈ e.dispatches ctx →
      SelectsIn table group args e' → inv e' args) : inv e args := by
  induction h with
  | dispatch h => exact h0 _ _ h
  | set _ hh hrun ih =>
    obtain ⟨rfl, hs⟩ := subDispatch_run.mp hrun
    exact hsub _ _ _ setGroup ih (by simp [CmdEntry.dispatches, hh]) hs
  | get _ hh hrun ih =>
    cases ctx with
    | false => simp [cmdHandleGet] at hrun
    | true =>
      obtain ⟨rfl, hs⟩ := subDispatch_run.mp hrun
      exact hsub _ _ _ getGroup ih (by simp [CmdEntry.dispatches, hh]) hs

/-! ## Rendered lines -/

theorem arguments_line {line : List UInt8} (ha : ∀ a ∈ args, Plain a)
    (hn : args.length ≤ maxArgCount) (hline : Line args line) : arguments line = some args := by
  have hheld : Holds (received line) 0 line := holds_write (hline.zero_not_mem ha)
  obtain ⟨argv, m, hrun, -, hargv⟩ := parseLoop_line [] ha hn hline hheld (Nat.le_refl _)
  have hread : argv.map (stringAt m line.length) = args := by
    rw [← List.forall₂_eq_eq_eq]
    refine List.forall₂_map_left_iff.mpr (hargv.imp ?_)
    intro x a hx
    exact hx.1.stringAt (by omega)
  simp [arguments, parseArgs, hrun, hread]

/-- **A rendered command line is dispatched as its words.** -/
theorem cmdDispatch_line {line : List UInt8} (ha : ∀ a ∈ args, Plain a)
    (hn : args.length ≤ maxArgCount) (hline : Line args line) (hmax : maxLen ≠ 0) :
    cmdDispatch (some table) (some line) maxLen = dispatchArgs table args := by
  simp only [cmdDispatch, if_neg hmax, arguments_line ha hn hline]

/-! ## Sub-commands and their groups -/

def Names (args : List (List UInt8)) (group name : List UInt8) : Prop :=
  (∃ a ∈ args[0]?, sameText a group) ∧ ∃ a ∈ args[1]?, sameText a name

/-- Sub-commands run only under their group, with enough arguments. -/
def Guarded (table : List (CmdEntry α)) (ctx : Bool) (input : Option (List UInt8))
    (maxLen : Nat) : Prop :=
  ∀ e args, Executed table ctx input maxLen e args → ∀ group ∈ e.group,
    Names args group e.name ∧ e.minArgc ≤ args.length

/-- The arguments that select no sub-command past its group: the entry of the first argument is
a root command, or the sub-command that the arguments name; and where it is a sub-dispatcher that
finds something to call, the first argument names its group, and it does not lead to another
group. -/
def Grouped (table : List (CmdEntry α)) (ctx : Bool) (args : List (List UInt8)) : Prop :=
  ∀ e, Selects table args e →
    (∀ group ∈ e.group, Names args group e.name) ∧
    ∀ group ∈ e.dispatches ctx, ∀ e', SelectsIn table group args e' →
      (∃ a ∈ args[0]?, sameText a group) ∧
      ∀ group' ∈ e'.dispatches ctx, ∀ e'', SelectsIn table group' args e'' → group' = group

theorem command_found {name : List UInt8} (h : command table name = some e) :
    e ∈ table ∧ sameText name e.name := by
  refine ⟨List.mem_of_find?_eq_some h, ?_⟩
  have hp := List.find?_some h
  exact hp

theorem SelectsIn.found (h : SelectsIn table group args e) :
    e ∈ table ∧ (∃ g ∈ e.group, sameText g group) ∧ ∃ a ∈ args[1]?, sameText a e.name := by
  obtain ⟨⟨key, hkey, hfind⟩, -⟩ := h
  have hp := List.find?_some hfind
  rw [Bool.and_eq_true, Option.any_eq_true] at hp
  exact ⟨List.mem_of_find?_eq_some hfind, hp.1, key, hkey, hp.2⟩

/-- Only the two groups are dispatched, and no argument names both. -/
theorem dispatches_eq {a group' : List UInt8} (h : group ∈ e.dispatches ctx)
    (h' : group' ∈ e'.dispatches ctx) (ha : sameText a group) (ha' : sameText a group') :
    group' = group := by
  have hboth : ∀ {e : CmdEntry α} {g : List UInt8}, g ∈ e.dispatches ctx →
      g = setGroup ∨ g = getGroup := by
    intro e g hg
    unfold CmdEntry.dispatches at hg
    split at hg
    · simp_all
    · cases ctx <;> simp_all
    · simp_all
  have hsame := sameText_trans (sameText_symm ha) ha'
  rcases hboth h with rfl | rfl <;> rcases hboth h' with rfl | rfl <;>
    first | rfl | exact absurd hsame (by decide)

/-- **Sub-commands run only under their group exactly for grouped arguments.** -/
theorem subcommands_guarded_iff (table : List (CmdEntry α)) (ctx : Bool)
    (input : Option (List UInt8)) (maxLen : Nat) :
    Guarded table ctx input maxLen ↔
      (maxLen ≠ 0 → ∀ line ∈ input, ∀ args ∈ arguments line, Grouped table ctx args) := by
  constructor
  · intro h hlen line hline args hargs e he
    have hexec : Executed table ctx input maxLen e args :=
      .dispatch (cmdDispatch_run.mpr ⟨hlen, ⟨line, hline, hargs⟩, he⟩)
    -- the first argument names the group of whatever is executed in a group
    have hnames : ∀ {e group}, Executed table ctx input maxLen e args →
        SelectsIn table group args e → ∃ a ∈ args[0]?, sameText a group := by
      intro e group hex hsel
      obtain ⟨-, ⟨g, hg, hsame⟩, -⟩ := hsel.found
      obtain ⟨a, ha, hag⟩ := (h e args hex g hg).1.1
      exact ⟨a, ha, sameText_trans hag hsame⟩
    refine ⟨fun group hg => (h e args hexec group hg).1, ?_⟩
    intro group hg e' he'
    have hexec' := hexec.sub hg he'
    obtain ⟨a, ha, hag⟩ := hnames hexec' he'
    refine ⟨⟨a, ha, hag⟩, ?_⟩
    intro group' hg' e'' he''
    obtain ⟨a', ha', hag'⟩ := hnames (hexec'.sub hg' he'') he''
    obtain rfl : a = a' := Option.some.inj (ha.symm.trans ha')
    exact dispatches_eq hg hg' hag hag'
  · intro h e args hexec
    -- every executed entry is selected by the first argument, or in a group that it names
    have hinv := hexec.invariant (fun e args => Grouped table ctx args ∧
      (Selects table args e ∨ ∃ e₀ group, Selects table args e₀ ∧ group ∈ e₀.dispatches ctx ∧
        SelectsIn table group args e)) (by
      intro e args hrun
      obtain ⟨hlen, ⟨line, hline, hargs⟩, hsel⟩ := cmdDispatch_run.mp hrun
      exact ⟨h hlen line hline args hargs, .inl hsel⟩) (by
      rintro e e' args group ⟨hgr, hsel | ⟨e₀, group₀, hsel₀, hg₀, hsel⟩⟩ hg he'
      · exact ⟨hgr, .inr ⟨e, group, hsel, hg, he'⟩⟩
      · obtain rfl := ((hgr e₀ hsel₀).2 group₀ hg₀ e hsel).2 group hg e' he'
        exact ⟨hgr, .inr ⟨e₀, group, hsel₀, hg₀, he'⟩⟩)
    obtain ⟨hgr, hsel | ⟨e₀, group, hsel₀, hg₀, hsel⟩⟩ := hinv
    · intro g hg
      exact ⟨(hgr e hsel).1 g hg, hsel.2.2⟩
    · intro g hg
      obtain ⟨-, ⟨g', hg', hsame⟩, hkey⟩ := hsel.found
      obtain rfl : g = g' := Option.some.inj (hg.symm.trans hg')
      obtain ⟨a, ha, hag⟩ := ((hgr e₀ hsel₀).2 group hg₀ e hsel).1
      exact ⟨⟨⟨a, ha, sameText_trans hag (sameText_symm hsame)⟩, hkey⟩, hsel.2.2⟩

end

/-! ## The table of the repository -/

inductive Leaf where
  | status | help | setIslogptk | setIsdebug | getReassStats | getConfig | getSessions
  | getSessionBysid | getTaskPool
  deriving DecidableEq

def cmdTable : List (CmdEntry Leaf) := [
  ⟨none, ascii "STATUS", some [], 1, some (.leaf .status)⟩,
  ⟨none, ascii "SET", some (ascii "<key> <val>"), 1, some .set⟩,
  ⟨none, ascii "GET", some (ascii "<key>"), 1, some .get⟩,
  ⟨none, ascii "HELP", some (ascii "[command]"), 1, some (.leaf .help)⟩,
  ⟨none, ascii "EXIT", some [], 1, none⟩,
  ⟨some setGroup, ascii "interval", some (ascii "<val>"), 3, none⟩,
  ⟨some setGroup, ascii "logpkt", some (ascii "<1|0>"), 3, some (.leaf .setIslogptk)⟩,
  ⟨some setGroup, ascii "debug", some (ascii "<1|0>"), 3, some (.leaf .setIsdebug)⟩,
  ⟨some getGroup, ascii "pktstats", some [], 2, some (.leaf .getReassStats)⟩,
  ⟨some getGroup, ascii "config", some [], 2, some (.leaf .getConfig)⟩,
  ⟨some getGroup, ascii "session", some [], 2, some (.leaf .getSessions)⟩,
  ⟨some getGroup, ascii "show", some (ascii "<sid>"), 3, some (.leaf .getSessionBysid)⟩,
  ⟨some getGroup, ascii "tasks", some [], 2, some (.leaf .getTaskPool)⟩]

/-- In `cmd_table` the names differ, no sub-command has the name of its group, the sub-dispatchers
have the names of the groups they dispatch, and no sub-command is a sub-dispatcher. -/
theorem cmdTable_facts :
    (∀ e ∈ cmdTable, ∀ e' ∈ cmdTable, sameText e.name e'.name → e = e') ∧
    (∀ e ∈ cmdTable, ∀ group ∈ e.group, sameText e.name group = false) ∧
    (∀ e ∈ cmdTable, ∀ group ∈ e.dispatches true, sameText e.name group) ∧
    ∀ e ∈ cmdTable, e.group.isSome → e.dispatches true = none := by
  refine ⟨by decide, by decide, by decide, by decide⟩

/-- With the table of the repository, exactly the lines whose first argument is the name of a
sub-command, with enough arguments for it, run a sub-command past its group. -/
theorem cmdTable_grouped_iff (args : List (List UInt8)) :
    Grouped cmdTable true args ↔
      ∀ e ∈ cmdTable, e.group.isSome → e.Callable args → ∀ a ∈ args[0]?, ¬ sameText a e.name := by
  obtain ⟨hdistinct, hown, hroot, hleaf⟩ := cmdTable_facts
  constructor
  · intro h e he hg hcall a ha hname
    obtain ⟨group, hgroup⟩ := Option.isSome_iff_exists.mp hg
    have hcmd : command cmdTable a = some e := by
      have hsome : (command cmdTable a).isSome := List.find?_isSome.mpr ⟨e, he, hname⟩
      obtain ⟨e₀, he₀⟩ := Option.isSome_iff_exists.mp hsome
      obtain ⟨hmem₀, hname₀⟩ := command_found he₀
      have heq := hdistinct e₀ hmem₀ e he (sameText_trans (sameText_symm hname₀) hname)
      rw [he₀, heq]
    obtain ⟨⟨a', ha', hsame⟩, -⟩ := (h e ⟨⟨a, ha, hcmd⟩, hcall⟩).1 group hgroup
    obtain rfl : a = a' := Option.some.inj (ha.symm.trans ha')
    have hnot := hown e he group hgroup
    rw [sameText_trans (sameText_symm hname) hsame] at hnot
    exact Bool.noConfusion hnot
  · rintro h e ⟨⟨a, ha, hcmd⟩, hcall⟩
    obtain ⟨he, hname⟩ := command_found hcmd
    constructor
    · intro group hgroup
      exact absurd hname (h e he (Option.isSome_of_mem hgroup) hcall a ha)
    · intro group hgroup e' he'
      refine ⟨⟨a, ha, sameText_trans hname (hroot e he group hgroup)⟩, ?_⟩
      intro group' hgroup'
      obtain ⟨hmem, ⟨g, hg, -⟩, -⟩ := he'.found
      rw [hleaf e' hmem (Option.isSome_of_mem hg)] at hgroup'
      cases hgroup'

/-- `logpkt x 1` switches packet logging on: the entry of the group `SET` is executed although the
first argument is not `SET`. -/
theorem bare_subcommand_executed :
    (∃ e, Executed cmdTable true (some (ascii "logpkt x 1")) 4096 e
        [ascii "logpkt", ascii "x", ascii "1"] ∧
      e.group = some setGroup ∧ e.handler = some (.leaf .setIslogptk)) ∧
    ¬ Guarded cmdTable true (some (ascii "logpkt x 1")) 4096 := by
  have hexec : Executed cmdTable true (some (ascii "logpkt x 1")) 4096
      ⟨some setGroup, ascii "logpkt", some (ascii "<1|0>"), 3, some (.leaf .setIslogptk)⟩
      [ascii "logpkt", ascii "x", ascii "1"] := .dispatch rfl
  refine ⟨⟨_, hexec, rfl, rfl⟩, ?_⟩
  intro h
  obtain ⟨⟨a, ha, hsame⟩, -⟩ := (h _ _ hexec setGroup rfl).1
  obtain rfl : ascii "logpkt" = a := by simpa using ha
  exact absurd hsame (by decide)

end Vfast.Dispatch
