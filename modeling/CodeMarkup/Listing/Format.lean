namespace CodeMarkup

/-!
# Forms of output
-/

/-- How a command prints what it has found. -/
inductive OutputFormat where
  /-- Lines for a reader. -/
  | text
  /-- Json for a program. -/
  | json
  deriving DecidableEq

namespace OutputFormat

/-- The form with a name. -/
def ofName? : String → Option OutputFormat
  | "text" => some .text
  | "json" => some .json
  | _ => none

/-- What is said of a name that no form has. -/
def unknownMessage (name : String) : String :=
  "unknown format '" ++ name ++ "': expected 'text' or 'json'"

end OutputFormat

/-- Lines as one text; each of them ends with a line feed. -/
def unlines (lines : List String) : String :=
  String.join (lines.map (· ++ "\n"))

end CodeMarkup
