import CodeMarkup.Attribution
import CodeMarkup.Settings.Document

namespace CodeMarkup.Settings

/-!
# Settings

A settings file has one section, `comments`, with two toggles for the attribution of comments.  The
section is a table, written with a header, with dotted keys or on one line, or an array of the
toggles in a fixed order.  A toggle that is not given keeps its default; anything else in the file
is refused.

* `read?`: the options that a file gives.
-/

/-- The toggles of the section. -/
inductive Toggle where
  | acrossBlankLines
  | annotationsBegin
  deriving DecidableEq

namespace Toggle

/-- The toggles in the order in which an array gives them. -/
def all : List Toggle :=
  [.acrossBlankLines, .annotationsBegin]

/-- The key of a toggle. -/
def key : Toggle → String
  | .acrossBlankLines => "assign-across-blank-lines"
  | .annotationsBegin => "annotations-as-node-start"

/-- The toggle with a key. -/
def ofKey? (key : String) : Option Toggle :=
  all.find? (·.key == key)

/-- Options with a toggle set. -/
def set (toggle : Toggle) (value : Bool) (options : MergeOptions) : MergeOptions :=
  match toggle with
  | .acrossBlankLines => { options with acrossBlankLines := value }
  | .annotationsBegin => { options with annotationsBegin := value }

end Toggle

/-- The name of the section. -/
def sectionName : String :=
  "comments"

/-- Sets the toggle at the end of a key. -/
def setEntry (options : MergeOptions) (entry : Entry) : Option MergeOptions :=
  match entry with
  | ([key], .boolean value) => do return (← Toggle.ofKey? key).set value options
  | _ => none

/-- The options that the entries of the section give. -/
def ofEntries? (entries : List Entry) : Option MergeOptions :=
  entries.foldlM setEntry {}

/-- Sets toggles in order.  Items after the last toggle count for nothing. -/
def setItems (options : MergeOptions) : List Toggle → List Value → Option MergeOptions
  | toggle :: toggles, .boolean value :: items => setItems (toggle.set value options) toggles items
  | _ :: _, _ :: _ => none
  | _, _ => some options

/-- The options that a value of the whole section gives. -/
def ofValue? : Value → Option MergeOptions
  | .table entries => ofEntries? entries
  | .array items => setItems {} Toggle.all items
  | _ => none

/-- The entries of statements that open no table, with keys that agree with each other. -/
def assigned? (statements : List Statement) : Option (List Entry) := do
  let entries ← statements.mapM fun statement => match statement with
    | .assign entry => some entry
    | _ => none
  if areDistinct entries then return entries else none

/-- An entry of the section, without the section's name in its key. -/
def inSection? : Entry → Option Entry
  | (name :: path, value) => if name = sectionName then some (path, value) else none
  | _ => none

/-- The options that the statements of a document give. -/
def ofStatements? (statements : List Statement) : Option MergeOptions := do
  match statements with
  | .header path :: rest =>
    if path = [sectionName] then ofEntries? (← assigned? rest) else none
  | [.assign ([name], value)] => if name = sectionName then ofValue? value else none
  | _ => ofEntries? (← (← assigned? statements).mapM inSection?)

/-- The options that a settings file gives. -/
def read? (text : String) : Option MergeOptions :=
  (statements? text.toList).bind ofStatements?

end CodeMarkup.Settings
