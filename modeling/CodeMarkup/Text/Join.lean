namespace CodeMarkup

/-!
# Joined texts
-/

/-- Texts in a row, with a separator between them. -/
def joinWith (separator : String) : List String → String
  | [] => ""
  | [text] => text
  | text :: rest => text ++ separator ++ joinWith separator rest

end CodeMarkup
