import Vfast.Console

/-! The switches of the console (`cmdengine.c`): `SET logpkt` and `SET debug`, behind the dispatch
of whole command lines. Over any lines that arrive, a switch is what the last line said that ran
its handler with a value it knows, and the level of the log follows the debug switch. -/

namespace Vfast.Switches

open Bytes CStrings Response Dispatch
open Console (maxRespBuf)

/-! ## The handlers -/

inductive LogLevel where
  | trace
  | info
  deriving DecidableEq

/-- The switches of `cmd_engine_t`, and `L.level` of `log.c`. -/
structure CmdEngine where
  islogptk : Bool
  isdebug : Bool
  level : LogLevel
  deriving DecidableEq

/-- `cmdengine`, and the level of a static `L`. -/
def cmdengine : CmdEngine := ⟨false, true, .trace⟩

def switchValue (val : List UInt8) : Option Bool :=
  if val = ascii "1" ∨ sameText val (ascii "on") ∨ sameText val (ascii "true") then some true
  else if val = ascii "0" ∨ sameText val (ascii "off") ∨ sameText val (ascii "false") then
    some false
  else none

def stateText (enable : Bool) : List UInt8 :=
  if enable then ascii "ENABLED" else ascii "DISABLED"

/-- The body that `cmd_set_islogptk` and `cmd_set_isdebug` share: the switches, the return code and
the calls on the response. `ctx` says whether there is a context. -/
def setSwitch (key label : List UInt8) (load : CmdEngine → Bool)
    (put : Bool → CmdEngine → CmdEngine)
    (ctx : Bool) (engine : CmdEngine) (args : List (List UInt8)) : CmdEngine × Int × List Call :=
  if ctx = false then (engine, -1, [.red (ascii "ERR: System internal error: context is NULL.")])
  else
    match args with
    | _ :: _ :: val :: _ =>
      match switchValue val with
      | none =>
        (engine, 0, [.red (ascii "ERR: Invalid value '" ++ val ++
          ascii "'. Expected: 1, 0, on, off, true, or false.")])
      | some enable =>
        if load engine = enable then
          (engine, 0, [.green (ascii "OK: " ++ label ++ ascii " is already " ++ stateText enable ++
            ascii ".")])
        else
          (put enable engine, 0, [.green (ascii "OK: " ++ label ++ ascii " changed to " ++
            stateText enable ++ ascii ".")])
    | _ =>
      (engine, 0, [.red (ascii "ERR: Missing parameter. Usage: SET " ++ key ++
        ascii " <1|0|on|off>")])

def cmdSetIslogptk : Bool → CmdEngine → List (List UInt8) → CmdEngine × Int × List Call :=
  setSwitch (ascii "logpkt") (ascii "Raw packet logging") CmdEngine.islogptk
    fun enable engine => { engine with islogptk := enable }

/-- `cmd_set_isdebug`, which also sets the level of the log. -/
def cmdSetIsdebug : Bool → CmdEngine → List (List UInt8) → CmdEngine × Int × List Call :=
  setSwitch (ascii "debug") (ascii "Debug mode") CmdEngine.isdebug
    fun enable engine =>
      { engine with isdebug := enable, level := if enable then .trace else .info }

/-! ## Command lines -/

/-- The handler that a dispatcher comes to, with its arguments; `depth` bounds the dispatchers
that call one another. -/
def resolve : (depth : Nat) → Outcome Leaf → Option (Leaf × List (List UInt8))
  | depth + 1, .run e args =>
    match e.handler with
    | some .set => resolve depth (cmdHandleSet cmdTable args)
    | some .get => resolve depth (cmdHandleGet cmdTable true args)
    | some (.leaf f) => some (f, args)
    | none => none
  | _, _ => none

def handlerOf (line : List UInt8) : Option (Leaf × List (List UInt8)) :=
  resolve 2 (cmdDispatch (some cmdTable) (some line) maxRespBuf)

/-- What a handler does to the switches. The others only read them. -/
def effect (engine : CmdEngine) (args : List (List UInt8)) : Leaf → CmdEngine
  | .setIslogptk => (cmdSetIslogptk true engine args).1
  | .setIsdebug => (cmdSetIsdebug true engine args).1
  | _ => engine

def request (engine : CmdEngine) (line : List UInt8) : CmdEngine :=
  match handlerOf line with
  | some (f, args) => effect engine args f
  | none => engine

theorem selectsIn_leaf {group : List UInt8} {args : List (List UInt8)} {e : CmdEntry Leaf}
    (h : SelectsIn cmdTable group args e) : e.dispatches true = none := by
  obtain ⟨hmem, ⟨g, hg, -⟩, -⟩ := h.found
  exact cmdTable_facts.2.2.2 e hmem (Option.isSome_of_mem hg)

theorem resolve_leaf {e : CmdEntry Leaf} {f : Leaf} (h : e.handler = some (.leaf f)) (depth : Nat)
    (args : List (List UInt8)) : resolve (depth + 1) (.run e args) = some (f, args) := by
  rw [resolve, h]

/-- What is resolved is what is executed. -/
theorem resolve_executed {line : List UInt8} {f : Leaf} {args : List (List UInt8)} (depth : Nat)
    {out : Outcome Leaf}
    (hout : ∀ e args, out = .run e args → Executed cmdTable true (some line) maxRespBuf e args)
    (h : resolve depth out = some (f, args)) :
    ∃ e, Executed cmdTable true (some line) maxRespBuf e args ∧ e.handler = some (.leaf f) := by
  induction depth generalizing out with
  | zero => exact nomatch h
  | succ depth ih =>
    cases out with
    | ret code calls => exact nomatch h
    | groupHelp group => exact nomatch h
    | run e args₀ =>
      have hexec := hout e args₀ rfl
      rw [resolve] at h
      split at h
      · rename_i hh
        exact ih (fun e' args' hr => .set hexec hh hr) h
      · rename_i hh
        exact ih (fun e' args' hr => .get hexec hh hr) h
      · rename_i g hh
        cases h
        exact ⟨e, hexec, hh⟩
      · exact nomatch h

/-- **The handler that a line runs**, in the terms of the dispatchers. -/
theorem handlerOf_iff {line : List UInt8} {f : Leaf} {args : List (List UInt8)} :
    handlerOf line = some (f, args) ↔
      ∃ e, Executed cmdTable true (some line) maxRespBuf e args ∧ e.handler = some (.leaf f) := by
  constructor
  · exact resolve_executed 2 fun e args hr => .dispatch hr
  · rintro ⟨e, hexec, hleaf⟩
    -- a dispatcher is run by `cmd_dispatch` only, so the calls are two deep at most
    have hroot : ∀ {e₀ args₀}, Executed cmdTable true (some line) maxRespBuf e₀ args₀ →
        e₀.dispatches true ≠ none →
        cmdDispatch (some cmdTable) (some line) maxRespBuf = .run e₀ args₀ := by
      intro e₀ args₀ h₀ hd
      cases h₀ with
      | dispatch hr => exact hr
      | set _ _ hr => exact absurd (selectsIn_leaf (subDispatch_run.mp hr).2) hd
      | get _ _ hr => exact absurd (selectsIn_leaf (subDispatch_run.mp hr).2) hd
    rw [handlerOf]
    cases hexec with
    | dispatch hr =>
      rw [hr]
      exact resolve_leaf hleaf 1 args
    | @set e₀ _ args₀ _ h₀ hh hr =>
      rw [hroot h₀ (by rw [CmdEntry.dispatches, hh]; exact Option.some_ne_none _), resolve, hh]
      show resolve 1 (cmdHandleSet cmdTable args₀) = some (f, args)
      rw [hr]
      exact resolve_leaf hleaf 0 args
    | @get e₀ _ args₀ _ h₀ hh hr =>
      rw [hroot h₀ (by rw [CmdEntry.dispatches, hh]; exact Option.some_ne_none _), resolve, hh]
      show resolve 1 (cmdHandleGet cmdTable true args₀) = some (f, args)
      rw [hr]
      exact resolve_leaf hleaf 0 args

/-! ## One line -/

def assigned (f : Leaf) (line : List UInt8) : Option Bool :=
  match handlerOf line with
  | some (g, args) => if g = f then args[2]?.bind switchValue else none
  | none => none

section Switch

variable {key label : List UInt8} {load : CmdEngine → Bool} {put : Bool → CmdEngine → CmdEngine}

theorem setSwitch_fst (engine : CmdEngine) (args : List (List UInt8)) :
    (setSwitch key label load put true engine args).1 =
      match args[2]?.bind switchValue with
      | some enable => if load engine = enable then engine else put enable engine
      | none => engine := by
  rcases args with _ | ⟨a, _ | ⟨b, _ | ⟨val, rest⟩⟩⟩
  · rfl
  · rfl
  · rfl
  · have hval : (a :: b :: val :: rest)[2]?.bind switchValue = switchValue val := rfl
    rw [hval]
    simp only [setSwitch, Bool.true_eq_false, if_false]
    cases switchValue val with
    | none => rfl
    | some enable =>
      dsimp only
      split <;> rfl

/-- Whatever the switch was, it is then what the handler was told. -/
theorem load_setSwitch (hput : ∀ b engine, load (put b engine) = b) (engine : CmdEngine)
    (args : List (List UInt8)) :
    load (setSwitch key label load put true engine args).1 =
      (args[2]?.bind switchValue).getD (load engine) := by
  rw [setSwitch_fst]
  cases args[2]?.bind switchValue with
  | none => rfl
  | some enable =>
    dsimp only
    split
    · assumption
    · exact hput enable engine

theorem setSwitch_keeps (P : CmdEngine → Prop) {engine : CmdEngine} (h : P engine)
    (hput : ∀ b, P (put b engine)) (args : List (List UInt8)) :
    P (setSwitch key label load put true engine args).1 := by
  rw [setSwitch_fst]
  cases args[2]?.bind switchValue with
  | none => exact h
  | some enable =>
    dsimp only
    split
    · exact h
    · exact hput enable

end Switch

theorem islogptk_request (engine : CmdEngine) (line : List UInt8) :
    (request engine line).islogptk = (assigned .setIslogptk line).getD engine.islogptk := by
  rw [request, assigned]
  cases handlerOf line with
  | none => rfl
  | some r =>
    obtain ⟨f, args⟩ := r
    cases f with
    | setIslogptk => exact load_setSwitch (fun _ _ => rfl) engine args
    | setIsdebug =>
      exact setSwitch_keeps (fun e => e.islogptk = engine.islogptk) rfl (fun _ => rfl) args
    | _ => rfl

theorem isdebug_request (engine : CmdEngine) (line : List UInt8) :
    (request engine line).isdebug = (assigned .setIsdebug line).getD engine.isdebug := by
  rw [request, assigned]
  cases handlerOf line with
  | none => rfl
  | some r =>
    obtain ⟨f, args⟩ := r
    cases f with
    | setIsdebug => exact load_setSwitch (fun _ _ => rfl) engine args
    | setIslogptk =>
      exact setSwitch_keeps (fun e => e.isdebug = engine.isdebug) rfl (fun _ => rfl) args
    | _ => rfl

def Leveled (engine : CmdEngine) : Prop :=
  engine.level = if engine.isdebug then .trace else .info

theorem leveled_default : Leveled cmdengine := rfl

theorem leveled_put (engine : CmdEngine) (enable : Bool) :
    Leveled { engine with isdebug := enable, level := if enable then .trace else .info } := rfl

theorem Leveled.request {engine : CmdEngine} (h : Leveled engine) (line : List UInt8) :
    Leveled (request engine line) := by
  rw [Switches.request]
  cases handlerOf line with
  | none => exact h
  | some r =>
    obtain ⟨f, args⟩ := r
    cases f with
    | setIsdebug => exact setSwitch_keeps Leveled h (leveled_put engine) args
    | setIslogptk => exact setSwitch_keeps Leveled h (fun _ => h) args
    | _ => exact h

/-! ## Runs -/

/-- A field that every line sets or keeps is what the last line said that set it. -/
theorem field_requests {load : CmdEngine → Bool} {f : Leaf}
    (h : ∀ engine line, load (request engine line) = (assigned f line).getD (load engine))
    (lines : List (List UInt8)) (engine : CmdEngine) :
    load (lines.foldl request engine) =
      (lines.filterMap (assigned f)).getLast?.getD (load engine) := by
  induction lines generalizing engine with
  | nil => rfl
  | cons line lines ih =>
    rw [List.foldl_cons, ih, h, List.filterMap_cons]
    cases assigned f line with
    | none => rfl
    | some b =>
      dsimp only
      rw [List.getLast?_cons]
      rfl

theorem Leveled.requests {engine : CmdEngine} (h : Leveled engine) (lines : List (List UInt8)) :
    Leveled (lines.foldl Switches.request engine) := by
  induction lines generalizing engine with
  | nil => exact h
  | cons line lines ih => exact ih (h.request line)

/-- **The switches after any command lines.** Each is what the last line said whose dispatch ran
its handler with a known value, and else its default; no other line changes it, whatever the
dispatchers made of it. The level of the log is trace if and only if the debug switch is on. -/
theorem switches_follow_lines (lines : List (List UInt8)) :
    (lines.foldl request cmdengine).islogptk =
      (lines.filterMap (assigned .setIslogptk)).getLast?.getD false ∧
    (lines.foldl request cmdengine).isdebug =
      (lines.filterMap (assigned .setIsdebug)).getLast?.getD true ∧
    Leveled (lines.foldl request cmdengine) ∧
    ∀ f line enable, assigned f line = some enable ↔
      ∃ e args, Executed cmdTable true (some line) maxRespBuf e args ∧
        e.handler = some (.leaf f) ∧ args[2]?.bind switchValue = some enable := by
  refine ⟨field_requests islogptk_request lines cmdengine,
    field_requests isdebug_request lines cmdengine,
    leveled_default.requests lines, fun f line enable => ⟨fun h => ?_, ?_⟩⟩
  · rw [assigned] at h
    cases hr : handlerOf line with
    | none =>
      rw [hr] at h
      exact nomatch h
    | some r =>
      obtain ⟨g, args⟩ := r
      obtain ⟨e, hexec, hleaf⟩ := handlerOf_iff.mp hr
      rw [hr] at h
      dsimp only at h
      split at h
      · rename_i hg
        exact ⟨e, args, hexec, hg ▸ hleaf, h⟩
      · exact nomatch h
  · rintro ⟨e, args, hexec, hleaf, hval⟩
    rw [assigned, handlerOf_iff.mpr ⟨e, hexec, hleaf⟩]
    exact (if_pos rfl).trans hval

-- a value that is not known and the help of the group change nothing
example : [ascii "SET debug off", ascii "set Debug maybe", ascii "SET"].foldl request cmdengine =
    ⟨false, false, .info⟩ := by decide +kernel

end Vfast.Switches
