namespace CodeMarkup

/-!
# Delimited text

The text between the delimiters of literals and block comments.  Each function splits a text that
starts just after the opening delimiter into the part before the closing one and what follows; the
closing delimiter itself, if there is one, heads the second part.  Tokens and comments are found by
separate passes, and both pass over literals with these functions.

* `spanQuoted`: strings and characters, which end with their line.
* `spanTemplate`: templates, in which `${` opens an interpolation with nested braces.
* `spanBlock`: block comments.
-/

/-- The body of a string or character literal: up to the quote, a line feed or the end.  A backslash
    takes the next character along, whatever it is. -/
def spanQuoted (quote : Char) : List Char → List Char × List Char
  | [] => ([], [])
  | '\\' :: c :: text => ('\\' :: c :: (spanQuoted quote text).1, (spanQuoted quote text).2)
  | c :: text =>
    if c = '\n' ∨ c = quote then ([], c :: text)
    else (c :: (spanQuoted quote text).1, (spanQuoted quote text).2)

/-- The body of a template: up to a backtick outside interpolations, or the end.  `depth` counts the
    open braces of interpolations: `${` always adds one, plain braces count only inside. -/
def spanTemplate : Nat → List Char → List Char × List Char
  | _, [] => ([], [])
  | depth, '\\' :: c :: text =>
    ('\\' :: c :: (spanTemplate depth text).1, (spanTemplate depth text).2)
  | depth, '$' :: '{' :: text =>
    ('$' :: '{' :: (spanTemplate (depth + 1) text).1, (spanTemplate (depth + 1) text).2)
  | 0, c :: text =>
    if c = '`' then ([], c :: text) else (c :: (spanTemplate 0 text).1, (spanTemplate 0 text).2)
  | depth + 1, c :: text =>
    let inner := if c = '{' then depth + 2 else if c = '}' then depth else depth + 1
    (c :: (spanTemplate inner text).1, (spanTemplate inner text).2)

/-- The body of a block comment: up to the first `*/`, or the end. -/
def spanBlock : List Char → List Char × List Char
  | [] => ([], [])
  | '*' :: '/' :: text => ([], '*' :: '/' :: text)
  | c :: text => (c :: (spanBlock text).1, (spanBlock text).2)

/-! ### Nothing is lost -/

theorem spanQuoted_append (quote : Char) (text : List Char) :
    (spanQuoted quote text).1 ++ (spanQuoted quote text).2 = text := by
  fun_induction spanQuoted quote text <;> simp_all

theorem spanTemplate_append (depth : Nat) (text : List Char) :
    (spanTemplate depth text).1 ++ (spanTemplate depth text).2 = text := by
  fun_induction spanTemplate depth text <;> simp_all

theorem spanBlock_append (text : List Char) :
    (spanBlock text).1 ++ (spanBlock text).2 = text := by
  fun_induction spanBlock text <;> simp_all

/-- Where the body of a block comment stops before the end, `*/` follows. -/
theorem spanBlock_rest_eq {text : List Char} (h : (spanBlock text).2 ≠ []) :
    ∃ rest, (spanBlock text).2 = '*' :: '/' :: rest := by
  fun_induction spanBlock text <;> simp_all

theorem length_spanBlock_le (text : List Char) :
    (spanBlock text).2.length ≤ text.length := by
  have h := congrArg List.length (spanBlock_append text)
  simp only [List.length_append] at h
  omega

theorem length_spanQuoted_le (quote : Char) (text : List Char) :
    (spanQuoted quote text).2.length ≤ text.length := by
  have h := congrArg List.length (spanQuoted_append quote text)
  simp only [List.length_append] at h
  omega

theorem length_spanTemplate_le (depth : Nat) (text : List Char) :
    (spanTemplate depth text).2.length ≤ text.length := by
  have h := congrArg List.length (spanTemplate_append depth text)
  simp only [List.length_append] at h
  omega

end CodeMarkup
