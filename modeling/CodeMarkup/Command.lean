import CodeMarkup.Command.Directory
import CodeMarkup.Command.Path
import CodeMarkup.Dedent
import CodeMarkup.Listing.Comments
import CodeMarkup.Listing.Schema
import CodeMarkup.Schema.Compile
import CodeMarkup.Settings

namespace CodeMarkup

/-!
# Commands

A command reads one file and prints what it finds there: the tree with its comments, the comments,
the schema that a definition document defines, or the lines without their common indentation.  How
files are read is a parameter, so a command is a function of the files alone.

* `Invocation.run`: the lines that a command prints, or why it fails.
-/

/-- What a command does, and to which file. -/
inductive Command where
  /-- Shows the tree. -/
  | parse (path : String) (entry : EntryPoint) (format : OutputFormat)
  /-- Lists the comments. -/
  | comments (path : String) (format : OutputFormat)
  /-- Compiles a definition document. -/
  | schema (path : String) (format : OutputFormat)
  /-- Takes the common indentation away. -/
  | dedent (path : String)

/-- What a call says apart from the command. -/
structure Preferences where
  /-- The settings file to use instead of the one next to the source. -/
  settings : Option String := none
  /-- Whether comments go to nodes across blank lines, whatever the settings say. -/
  acrossBlankLines : Bool := false
  /-- Whether nodes begin after their annotations, whatever the settings say. -/
  ignoreAnnotations : Bool := false

/-- A command with its preferences. -/
structure Invocation where
  /-- The preferences. -/
  preferences : Preferences
  /-- The command. -/
  command : Command

/-! ### Failures -/

/-- Why a command fails. -/
inductive Failure where
  /-- The source cannot be read. -/
  | unreadSource (path : String)
  /-- The settings file cannot be read. -/
  | unreadSettings (path : String)
  /-- The settings file is malformed. -/
  | badSettings (path : String)
  /-- The source does not parse. -/
  | parse (source : Source) (error : ParseError)
  /-- The source is no valid definition. -/
  | schema (error : SchemaError)

namespace Failure

/-- The failure in words. -/
def message : Failure → String
  | .unreadSource path => "Failed to read '" ++ path ++ "'"
  | .unreadSettings path => "failed to read config '" ++ path ++ "'"
  | .badSettings path => "failed to parse config '" ++ path ++ "'"
  | .parse source error => error.message source
  | .schema error => error.fault.message

/-- The code of the failure. -/
def code? : Failure → Option String
  | .unreadSource _ => none
  | .unreadSettings _ => some "xapi::config::io"
  | .badSettings _ => some "xapi::config::parse"
  | .parse _ _ => some "xapi::parse"
  | .schema _ => some "xapi::schema"

/-- The bytes at fault, each with a note. -/
def labels : Failure → List (Span × String)
  | .parse _ error => [(error.span, "here")]
  | .schema error => [(error.span, "here")]
  | _ => []

end Failure

/-! ### Running -/

section Running

variable {m : Type → Type} [Monad m] (read : String → m Lookup)

/-- The source at a path. -/
def readSource (path : String) : ExceptT Failure m Source := do
  match ← read path with
  | .text contents => return .ofText contents
  | _ => throw (.unreadSource path)

/-- The options of a settings file with known contents. -/
def settingsOf (path contents : String) : ExceptT Failure m MergeOptions :=
  match Settings.read? contents with
  | some options => return options
  | none => throw (.badSettings path)

/-- The name of the settings file next to a source. -/
def settingsName : String :=
  "xapi.toml"

/-- The options of the settings file that was asked for, or else of the one next to the source,
    which may be missing. -/
def settingsFor (path : String) (settings : Option String) : ExceptT Failure m MergeOptions := do
  let file := settings.getD (pathIn (folderOf path) settingsName)
  match ← read file with
  | .text contents => settingsOf file contents
  | .missing => if settings.isSome then throw (.unreadSettings file) else return {}
  | .unreadable => throw (.unreadSettings file)

/-- The options for a source: preferences go before settings, and settings before defaults. -/
def mergeOptionsFor (path : String) (preferences : Preferences) :
    ExceptT Failure m MergeOptions := do
  let options ← settingsFor read path preferences.settings
  return {
    acrossBlankLines := options.acrossBlankLines || preferences.acrossBlankLines
    annotationsBegin := options.annotationsBegin && !preferences.ignoreAnnotations }

/-- A parse of a source. -/
def orParseFailure {α : Type} (source : Source) : Except ParseError α → ExceptT Failure m α
  | .ok value => return value
  | .error error => throw (.parse source error)

/-- The schema of the tag that is the whole of a source, and the tree. -/
def compileSource (source : Source) : ExceptT Failure m (Schema × Tree) := do
  let tree ← orParseFailure source (source.parse .tag)
  match tree.compileSchema tree.root with
  | .ok schema => return (schema, tree)
  | .error error => throw (.schema error)

/-- The lines that a command prints. -/
def Invocation.run (invocation : Invocation) : ExceptT Failure m (List String) := do
  match invocation.command with
  | .parse path entry format =>
    let source ← readSource read path
    let options ← mergeOptionsFor read path invocation.preferences
    let tree ← orParseFailure source (source.parseWithComments entry options)
    match format with
    | .text => return tree.outline
    | .json => return [tree.toJson.render]
  | .comments path format =>
    let source ← readSource read path
    return source.comments.map (·.listing format)
  | .schema path format =>
    let source ← readSource read path
    let (schema, tree) ← compileSource source
    match format with
    | .text => return schema.listing tree
    | .json => return [(schema.toJson tree).render]
  | .dedent path =>
    let source ← readSource read path
    return (CodeMarkup.dedent source.chars).map String.ofList

end Running

end CodeMarkup
