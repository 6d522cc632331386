import ReviewRota.CommandLine.Grammar

/-!
# Invocations

What the words of a command line amount to.

* `Invocation`: a command, the values of its options and its operands.
* `Stop`: why a command line is no invocation.
* `Invocation.ofArguments`: reads a command line.

An option takes its value from the same word or from the next one. Options may stand at any place
that knows them, but only once at each; of the values of a general option, the innermost counts.
-/

namespace ReviewRota.CommandLine

/-- Why a command line is not carried out. -/
inductive Stop where
  /-- It asks for help or for the version. -/
  | help
  | misuse
  deriving DecidableEq, Repr

/-- A command with what belongs to it. -/
structure Invocation where
  verb : Verb
  /-- Values of options, the innermost first. -/
  values : List (Opt × String)
  operands : List String
  deriving DecidableEq, Repr

/-- The value of an option. -/
def Invocation.value? (invocation : Invocation) (option : Opt) : Option String :=
  invocation.values.lookup option

/-! ## One level -/

/-- What was read at one level. -/
structure Draft where
  values : List (Opt × String) := []
  /-- The last option, if its value may come in a word of its own and is not yet checked. -/
  pending : Option (Opt × Option String) := none
  operands : List String := []

namespace Draft

/-- Records the value of an option that has none yet. -/
def record (draft : Draft) (option : Opt) (value : String) : Except Stop Draft :=
  if (draft.values.lookup option).isSome || !option.accepts value then .error .misuse
  else .ok { draft with values := draft.values ++ [(option, value)] }

/-- Checks the option that is pending. -/
def settle (draft : Draft) : Except Stop Draft :=
  match draft.pending with
  | none => .ok draft
  | some (_, none) => .error .misuse
  | some (option, some value) => { draft with pending := none }.record option value

/-- Whether the next word can be the value of the option before it. -/
def awaits (draft : Draft) : Option Opt :=
  match draft.pending with
  | some (option, none) => some option
  | _ => none

/-- Records an option with the value from its own word, if there was one. -/
def give (draft : Draft) (option : Opt) (value : Option String) : Except Stop Draft := do
  let draft ← draft.settle
  match value with
  | some value => if option.isSwitch then .error .misuse else draft.record option value
  | none =>
    if option.isSwitch then draft.record option "true"
    else pure { draft with pending := some (option, none) }

/-- Stops for a text that was asked for, unless the option before is wrong. -/
def interrupt (draft : Draft) : Except Stop Draft := do
  let _ ← draft.settle
  .error .help

end Draft

/-! ## Words that are options -/

/-- Reads an option by its name. -/
def readLong (isRoot : Bool) (level : Level) (draft : Draft) (word : List Char) :
    Except Stop Draft :=
  let (name, rest) := word.span (· != '=')
  let name := String.ofList name
  let value := rest.tail?.map String.ofList
  if name = "help" ∨ (isRoot ∧ name = "version") then
    if value.isSome then .error .misuse else draft.interrupt
  else
    match level.options.find? (·.long == name) with
    | some option => draft.give option value
    | none => .error .misuse

/-- Reads options by their letters. A letter whose option has a value takes the rest of the word as
that value, without an equals sign before it. -/
def readShort (isRoot : Bool) (level : Level) (draft : Draft) : List Char → Except Stop Draft
  | [] => .ok draft
  | letter :: rest =>
    if letter = 'h' ∨ (isRoot ∧ letter = 'V') then draft.interrupt
    else
      match level.options.find? (·.short? == some letter) with
      | none => .error .misuse
      | some option =>
        if option.isSwitch then do
          readShort isRoot level (← draft.give option none) rest
        else
          match rest with
          | [] => draft.give option none
          | '=' :: value => draft.give option (some (String.ofList value))
          | value => draft.give option (some (String.ofList value))

/-- Reads a word that starts with a hyphen, if it is an option. -/
def readOption? (isRoot : Bool) (level : Level) (draft : Draft) (word : String) :
    Option (Except Stop Draft) :=
  match word.toList with
  | '-' :: '-' :: rest => some (readLong isRoot level draft rest)
  | ['-'] => none
  | '-' :: rest => some (readShort isRoot level draft rest)
  | _ => none

/-! ## Command lines -/

/-- Reads a word that is no option. -/
def readOperand (level : Level) (draft : Draft) (word : String) : Except Stop Draft :=
  match level with
  | .branch _ => .error .misuse
  | .leaf verb => do
    let draft ← draft.settle
    if verb.takesOperand draft.operands then
      pure { draft with operands := draft.operands ++ [word] }
    else .error .misuse

/-- The values of a level that was read to its end. Where the settings file is not named, the
variable that names it must not be empty. -/
def closeDraft (variableValue : Option String) (draft : Draft) : Except Stop Draft := do
  let draft ← draft.settle
  if (draft.values.lookup .config).isNone && variableValue == some "" then .error .misuse
  else pure draft

/-- The invocation at the end of a command line. -/
def complete (level : Level) (draft : Draft) : Except Stop Invocation :=
  match level with
  | .branch _ => .error .misuse
  | .leaf verb =>
    if draft.operands.length < verb.fewest ∨
        verb.required.any (fun option => (draft.values.lookup option).isNone) then
      .error .misuse
    else .ok ⟨verb, draft.values, draft.operands⟩

/-- Reads words from some level on; after two hyphens alone, `literal` holds and no word is an
option. -/
def readWords (variableValue : Option String) (isRoot : Bool) (level : Level) (draft : Draft)
    (literal : Bool) : List String → Except Stop Invocation
  | [] => do complete level (← closeDraft variableValue draft)
  | word :: words =>
    let command := if literal || draft.awaits.isSome then none else some word
    match command >>= level.child? with
    | some child => do
      let inner ← readWords variableValue false child {} false words
      let outer ← closeDraft variableValue draft
      pure { inner with values := inner.values ++ outer.values }
    | none =>
      if command = some "help" ∧ level.hasHelp then
        .error (if level.isDescribed words then .help else .misuse)
      else if literal then do
        readWords variableValue isRoot level (← readOperand level draft word) true words
      else if word = "--" then
        readWords variableValue isRoot level draft true words
      else
        match readOption? isRoot level draft word, draft.awaits with
        | some read, _ => do
          readWords variableValue isRoot level (← read) false words
        | none, some option =>
          readWords variableValue isRoot level
            { draft with pending := some (option, some word) } false words
        | none, none => do
          readWords variableValue isRoot level (← readOperand level draft word) false words

/-- Reads a command line, where a variable may name the settings file. -/
def Invocation.ofArguments (variableValue : Option String) (arguments : List String) :
    Except Stop Invocation :=
  readWords variableValue true Level.root {} false arguments

end ReviewRota.CommandLine
