import CodeMarkup.Text.Hidden

namespace CodeMarkup

/-!
# Quoted text

The form in which a text is shown between double quotes.  NUL, tab, carriage return, line feed, the
double quote and the backslash have short escapes, every other hidden character is spelled by its
number in lower-case hexadecimal, and everything else stands for itself.
-/

/-- One character as it stands between the quotes. -/
def quotedChar (c : Char) : List Char :=
  match c with
  | '\x00' => ['\\', '0']
  | '\t' => ['\\', 't']
  | '\r' => ['\\', 'r']
  | '\n' => ['\\', 'n']
  | '"' => ['\\', '"']
  | '\\' => ['\\', '\\']
  | c =>
    if isHidden c then ['\\', 'u', '{'] ++ Nat.toDigits 16 c.toNat ++ ['}'] else [c]

/-- A text with its quotes. -/
def quoted (text : String) : String :=
  String.ofList ('"' :: text.toList.flatMap quotedChar ++ ['"'])

end CodeMarkup
