import CodeMarkup.Text.Join

namespace CodeMarkup

/-!
# Json

Json values and their compact text.  The members of an object are written in the order of their
keys, and characters other than quotes, backslashes and controls stand for themselves.
-/

/-- A json value; numbers are natural here. -/
inductive JsonValue where
  | null
  | bool (value : Bool)
  | number (value : Nat)
  | string (text : String)
  | array (items : List JsonValue)
  | object (members : List (String × JsonValue))

namespace JsonValue

/-- The digits of a number below 256, two of them. -/
def hexByte (n : Nat) : List Char :=
  [Nat.digitChar (n / 16), Nat.digitChar (n % 16)]

/-- One character of a string. -/
def escapedChar (c : Char) : List Char :=
  match c with
  | '"' => ['\\', '"']
  | '\\' => ['\\', '\\']
  | '\x08' => ['\\', 'b']
  | '\t' => ['\\', 't']
  | '\n' => ['\\', 'n']
  | '\x0c' => ['\\', 'f']
  | '\r' => ['\\', 'r']
  | c => if c.toNat < 32 then ['\\', 'u', '0', '0'] ++ hexByte c.toNat else [c]

/-- A string with its quotes. -/
def renderString (text : String) : String :=
  String.ofList ('"' :: text.toList.flatMap escapedChar ++ ['"'])

/-- The members of an object in the order of their keys, separated by commas. -/
def joinMembers (members : List (String × String)) : String :=
  joinWith "," ((members.mergeSort fun a b => a.1 ≤ b.1).map fun member =>
    renderString member.1 ++ ":" ++ member.2)

mutual

/-- The text of a value. -/
def render : JsonValue → String
  | .null => "null"
  | .bool value => if value then "true" else "false"
  | .number value => toString value
  | .string text => renderString text
  | .array items => "[" ++ joinWith "," (renderAll items) ++ "]"
  | .object members => "\x7b" ++ joinMembers (renderMembers members) ++ "\x7d"

/-- The texts of values. -/
def renderAll : List JsonValue → List String
  | [] => []
  | value :: rest => value.render :: renderAll rest

/-- The texts of the values of members. -/
def renderMembers : List (String × JsonValue) → List (String × String)
  | [] => []
  | (key, value) :: rest => (key, value.render) :: renderMembers rest

end

/-- A value that may be absent. -/
def ofOption {α : Type} (f : α → JsonValue) : Option α → JsonValue
  | some a => f a
  | none => .null

end JsonValue

end CodeMarkup
