import CodeMarkup.Settings.Scalar

namespace CodeMarkup.Settings

/-!
# Documents of settings

A document is a row of statements, one on a line: a header opens a table, and a key gets a value.
Comments, blank lines and blanks around keys and values count for nothing.

Readers take a text to what they have read and what follows it.

* `value?`: a value, with arrays and tables nested in it.
* `statements?`: a whole document.
-/

/-- A value.  Scalars other than booleans are all alike. -/
inductive Value where
  | boolean (value : Bool)
  | scalar
  | array (items : List Value)
  | table (entries : List (List String × Value))

/-- A key, as the names between its dots, and its value. -/
abbrev Entry := List String × Value

/-- A statement of a document. -/
inductive Statement where
  /-- `[name]` -/
  | header (path : List String)
  /-- `[[name]]` -/
  | arrayHeader (path : List String)
  /-- `name = value` -/
  | assign (entry : Entry)

/-! ### Gaps -/

/-- A text after the blanks at its head. -/
def dropSpaces (text : List Char) : List Char :=
  text.dropWhile fun c => c == ' ' || c == '\t'

/-- A text after the comment at its head, if there is one. -/
def dropComment : List Char → List Char
  | '#' :: rest => rest.dropWhile isPlain
  | text => text

/-- A text after the end of the line at its head.  The end of the text ends a line too. -/
def afterLine? : List Char → Option (List Char)
  | [] => some []
  | '\n' :: rest => some rest
  | '\r' :: '\n' :: rest => some rest
  | _ => none

/-- A text after blanks, comments and ends of lines.  `inComment` tells whether it starts in a
    comment. -/
def dropGap (inComment : Bool) : List Char → List Char
  | [] => []
  | '\n' :: rest => dropGap false rest
  | '\r' :: '\n' :: rest => dropGap false rest
  | c :: rest =>
    if inComment then if isPlain c then dropGap true rest else c :: rest
    else if c == '#' then dropGap true rest
    else if c == ' ' || c == '\t' then dropGap false rest
    else c :: rest

/-! ### Rows -/

/-- Items with a separator between them, at most `bound` of them. -/
def separated {α : Type} (separator : Char) (item : List Char → Option (α × List Char)) :
    Nat → List Char → Option (List α × List Char)
  | 0, _ => none
  | bound + 1, text => do
    let (first, rest) ← item text
    match rest with
    | c :: after =>
      if c = separator then
        let (others, rest) ← separated separator item bound after
        return (first :: others, rest)
      else return ([first], rest)
    | [] => return ([first], [])

/-- Items up to the closing bracket of an array, with gaps around them and a comma after each but
    possibly the last; at most `bound` of them. -/
def arrayItems {α : Type} (item : List Char → Option (α × List Char)) :
    Nat → List Char → Option (List α × List Char)
  | 0, _ => none
  | bound + 1, text =>
    match dropGap false text with
    | ']' :: rest => some ([], rest)
    | text => do
      let (first, rest) ← item text
      match dropGap false rest with
      | ']' :: rest => return ([first], rest)
      | ',' :: rest =>
        let (others, rest) ← arrayItems item bound rest
        return (first :: others, rest)
      | _ => none

/-! ### Keys -/

/-- Whether a character may stand in a name without quotes. -/
def isBare (c : Char) : Bool :=
  isDigit c || ('a' ≤ c && c ≤ 'z') || ('A' ≤ c && c ≤ 'Z') || c == '_' || c == '-'

/-- One name of a key, with blanks around it. -/
def keyName? (text : List Char) : Option (String × List Char) := do
  let (name, rest) ← match dropSpaces text with
    | '"' :: rest => basicString? rest
    | '\'' :: rest => literalString? rest
    | text =>
      let name := text.takeWhile isBare
      if name.isEmpty then none else some (name, text.dropWhile isBare)
  return (String.ofList name, dropSpaces rest)

/-- A key: names with dots between them. -/
def key? (text : List Char) : Option (List String × List Char) :=
  separated '.' keyName? (text.length + 1) text

/-- Whether no key of a table is another one or leads into another one. -/
def areDistinct : List Entry → Bool
  | [] => true
  | (path, _) :: rest =>
    rest.all (fun other => !path.isPrefixOf other.1 && !other.1.isPrefixOf path)
      && areDistinct rest

/-! ### Values -/

/-- How many arrays and tables may be nested. -/
def maxDepth : Nat :=
  79

/-- Whether a character may stand in a number, a date or a word. -/
def isWordChar (c : Char) : Bool :=
  isBare c || c == '+' || c == '.' || c == ':'

/-- A scalar without quotes.  A time may follow a date after a blank. -/
def word? (text : List Char) : Option (Value × List Char) :=
  let word := text.takeWhile isWordChar
  let rest := text.dropWhile isWordChar
  if word == "true".toList then some (.boolean true, rest)
  else if word == "false".toList then some (.boolean false, rest)
  else if isNumber word then some (.scalar, rest)
  else
    match rest with
    | ' ' :: after =>
      let long := word ++ ' ' :: after.takeWhile isWordChar
      if isDateTime long then some (.scalar, after.dropWhile isWordChar)
      else if isDateTime word then some (.scalar, rest)
      else none
    | _ => if isDateTime word then some (.scalar, rest) else none

/-- A key and its value, given a reader for the value. -/
def entry? (value : List Char → Option (Value × List Char)) (text : List Char) :
    Option (Entry × List Char) := do
  let (path, rest) ← key? text
  match rest with
  | '=' :: rest =>
    let (value, rest) ← value (dropSpaces rest)
    return ((path, value), rest)
  | _ => none

/-- The entries of a table on one line, after the opening brace. -/
def tableEntries? (value : List Char → Option (Value × List Char)) (text : List Char) :
    Option (List Entry × List Char) := do
  match dropSpaces text with
  | '}' :: rest => return ([], rest)
  | text =>
    let item (text : List Char) : Option (Entry × List Char) := do
      let (entry, rest) ← entry? value text
      return (entry, dropSpaces rest)
    let (entries, rest) ← separated ',' item (text.length + 1) text
    match rest with
    | '}' :: rest => if areDistinct entries then return (entries, rest) else none
    | _ => none

/-- A value, with at most `depth` arrays and tables around each other in it. -/
def value? (depth : Nat) (text : List Char) : Option (Value × List Char) :=
  match depth, text with
  | _, '"' :: '"' :: '"' :: rest => do return (.scalar, ← afterBlock? '"' rest)
  | _, '\'' :: '\'' :: '\'' :: rest => do return (.scalar, ← afterBlock? '\'' rest)
  | _, '"' :: rest => do return (.scalar, (← basicString? rest).2)
  | _, '\'' :: rest => do return (.scalar, (← literalString? rest).2)
  | depth + 1, '[' :: rest => do
    let (items, rest) ← arrayItems (value? depth) (rest.length + 1) rest
    return (.array items, rest)
  | depth + 1, '{' :: rest => do
    let (entries, rest) ← tableEntries? (value? depth) rest
    return (.table entries, rest)
  | _, text => word? text

/-! ### Statements -/

/-- A statement, which does not start with a blank. -/
def statement? : List Char → Option (Statement × List Char)
  | '[' :: '[' :: rest => do
    let (path, rest) ← key? rest
    match rest with
    | ']' :: ']' :: rest => return (.arrayHeader path, rest)
    | _ => none
  | '[' :: rest => do
    let (path, rest) ← key? rest
    match rest with
    | ']' :: rest => return (.header path, rest)
    | _ => none
  | text => do
    let (entry, rest) ← entry? (value? maxDepth) text
    return (.assign entry, rest)

/-- A line with at most one statement on it. -/
def line? (text : List Char) : Option (Option Statement × List Char) := do
  let text := dropSpaces text
  match afterLine? (dropComment text) with
  | some rest => return (none, rest)
  | none =>
    let (statement, rest) ← statement? text
    return (some statement, ← afterLine? (dropComment (dropSpaces rest)))

/-- The statements of at most `bound` lines. -/
def lines? : Nat → List Char → Option (List Statement)
  | 0, _ => none
  | _, [] => some []
  | bound + 1, text => do
    let (statement, rest) ← line? text
    return statement.toList ++ (← lines? bound rest)

/-- The statements of a document, which may start with a byte order mark. -/
def statements? (text : List Char) : Option (List Statement) :=
  match text with
  | '\uFEFF' :: rest => lines? (rest.length + 1) rest
  | _ => lines? (text.length + 1) text

end CodeMarkup.Settings
