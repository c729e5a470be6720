import CodeMarkup.Command

namespace CodeMarkup

/-!
# Arguments

A call names a command and a path.  Options may stand before the command, if every command knows
them, or after it, before or after the path.  An option is given at most once on either side of the
command; if it is given on both sides, the later value counts.  After `--` every argument is a path.

* `Request.ofArguments?`: what the arguments ask for; none if they are no proper call.
-/

/-- What the arguments ask for. -/
inductive Request where
  /-- The version of the program. -/
  | version
  /-- A command. -/
  | invoke (invocation : Invocation)

/-! ### Items -/

/-- One item of a call. -/
inductive Item where
  /-- `--name` -/
  | flag (name : String)
  /-- `--name=value`, or `--name value` if the option takes a value. -/
  | setting (name value : String)
  /-- An option that takes a value and has none; no more is read after it. -/
  | incomplete
  /-- `-abc` -/
  | letters (row : List Char)
  /-- The mark after which no options follow. -/
  | ending
  /-- Anything else. -/
  | word (text : String)

namespace Item

/-- Whether an option takes a value. -/
def takesValue (name : String) : Bool :=
  ["config", "entry", "format"].contains name

/-- Whether an argument may be the value of the option before it. -/
def isValue (text : String) : Bool :=
  text == "-" || text.toList.head? != some '-'

/-- The item that one argument makes, unless it is an option with the value after it. -/
def ofArgument (text : String) : Item :=
  match text.toList with
  | '-' :: '-' :: rest =>
    let name := String.ofList (rest.takeWhile (· != '='))
    match rest.dropWhile (· != '=') with
    | _ :: value => .setting name (String.ofList value)
    | [] => .flag name
  | '-' :: c :: rest => .letters (c :: rest)
  | _ => .word text

/-- The items of a call from one argument on.  `awaiting` is the option before it, if that still has
    to get its value. -/
def ofArguments (awaiting : Option String) : List String → List Item
  | [] => if awaiting.isSome then [.incomplete] else []
  | text :: rest =>
    match awaiting with
    | some name =>
      if isValue text then .setting name text :: ofArguments none rest else [.incomplete]
    | none =>
      if text == "--" then .ending :: rest.map .word
      else
        match ofArgument text with
        | .flag name =>
          if takesValue name then ofArguments (some name) rest
          else .flag name :: ofArguments none rest
        | item => item :: ofArguments none rest

end Item

/-! ### Preferences -/

namespace Preferences

/-- Preferences with a flag that every command knows. -/
def setFlag? (preferences : Preferences) (name : String) : Option Preferences :=
  match name with
  | "verbose" => some preferences
  | "assign-across-blank-lines" =>
    if preferences.acrossBlankLines then none
    else some { preferences with acrossBlankLines := true }
  | "ignore-annotations" =>
    if preferences.ignoreAnnotations then none
    else some { preferences with ignoreAnnotations := true }
  | _ => none

/-- Preferences with an option that every command knows. -/
def setValue? (preferences : Preferences) (name value : String) : Option Preferences :=
  if name == "config" && preferences.settings.isNone then
    some { preferences with settings := some value }
  else none

/-- Preferences from before a command with those from after it. -/
def followedBy (before after : Preferences) : Preferences where
  settings := after.settings <|> before.settings
  acrossBlankLines := before.acrossBlankLines || after.acrossBlankLines
  ignoreAnnotations := before.ignoreAnnotations || after.ignoreAnnotations

end Preferences

/-! ### Commands -/

/-- What stands after the name of a command. -/
structure Operands where
  /-- The preferences. -/
  preferences : Preferences := {}
  /-- The entry point of a parse. -/
  entry : Option EntryPoint := none
  /-- The form of the output. -/
  format : Option OutputFormat := none
  /-- The file. -/
  path : Option String := none

namespace Operands

/-- Operands with an option and its value. -/
def setValue? (operands : Operands) (name value : String) : Option Operands := do
  match name with
  | "entry" =>
    if operands.entry.isSome then none
    else return { operands with entry := some (← EntryPoint.ofText? value) }
  | "format" =>
    if operands.format.isSome then none
    else return { operands with format := some (← OutputFormat.ofName? value) }
  | _ =>
    return { operands with preferences := ← operands.preferences.setValue? name value }

/-- Operands with one more item. -/
def add? (operands : Operands) : Item → Option Operands
  | .flag name => do
    return { operands with preferences := ← operands.preferences.setFlag? name }
  | .setting name value => operands.setValue? name value
  | .incomplete => none
  | .letters row => if row.all (· == 'v') then some operands else none
  | .ending => some operands
  | .word text =>
    if operands.path.isSome then none else some { operands with path := some text }

/-- The command with a name. -/
def command? (operands : Operands) (name : String) : Option Command := do
  let path ← operands.path
  let format := operands.format.getD .text
  match name, operands.entry, operands.format with
  | "parse", entry, _ => return .parse path (entry.getD .compilationUnit) format
  | "comments", none, _ => return .comments path format
  | "schema", none, _ => return .schema path format
  | "dedent", none, none => return .dedent path
  | _, _, _ => none

end Operands

namespace Request

/-- A command, after the preferences before it. -/
def invoke? (before : Preferences) (name : String) (items : List Item) : Option Request := do
  let operands ← items.foldlM Operands.add? {}
  let command ← operands.command? name
  return .invoke ⟨before.followedBy operands.preferences, command⟩

/-- What the items of a call ask for, after the preferences before them.  The version is told as
    soon as it is asked for. -/
def ofItems? (before : Preferences) : List Item → Option Request
  | [] => none
  | .word name :: rest => invoke? before name rest
  | .letters row :: rest =>
    match row.dropWhile (· == 'v') with
    | [] => ofItems? before rest
    | c :: _ => if c == 'V' then some .version else none
  | .flag name :: rest => do
    if name == "version" then return .version
    else ofItems? (← before.setFlag? name) rest
  | .setting name value :: rest => do ofItems? (← before.setValue? name value) rest
  | .incomplete :: _ => none
  | .ending :: _ => none

/-- What the arguments of a call ask for. -/
def ofArguments? (arguments : List String) : Option Request :=
  ofItems? {} (Item.ofArguments none arguments)

end Request

/-! ### Outcomes -/

/-- How a call ends. -/
inductive Outcome where
  /-- The arguments are no proper call. -/
  | misused
  /-- The command fails. -/
  | failed (failure : Failure)
  /-- The command prints lines. -/
  | printed (lines : List String)

namespace Outcome

/-- The exit status. -/
def status : Outcome → Nat
  | .misused => 2
  | .failed _ => 1
  | .printed _ => 0

/-- What is printed. -/
def output : Outcome → String
  | .printed lines => unlines lines
  | _ => ""

end Outcome

/-- The line that tells the version. -/
def versionLine : String :=
  "xapi 0.1.0"

/-- Runs a call. -/
def runArguments {m : Type → Type} [Monad m] (read : String → m Lookup) (arguments : List String) :
    m Outcome := do
  match Request.ofArguments? arguments with
  | none => return .misused
  | some .version => return .printed [versionLine]
  | some (.invoke invocation) =>
    match ← (invocation.run read).run with
    | .ok lines => return .printed lines
    | .error failure => return .failed failure

end CodeMarkup
