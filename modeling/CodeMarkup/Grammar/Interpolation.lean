import CodeMarkup.Span

namespace CodeMarkup

/-!
# Interpolations

The places of the expressions in the text of a template.  Outside an expression a backslash takes
the next character along; inside, only braces count.
-/

/-- Where the search for interpolations stands. -/
inductive TemplateMode where
  /-- In plain text. -/
  | plain
  /-- In an expression that starts at `origin`, with open braces. -/
  | inside (origin depth : Nat)

/-- The spans of the expressions in a text that starts at `offset`, in order.  An expression that is
    not closed gives `none`, and is the last. -/
def interpolationsFrom : Nat → TemplateMode → List Char → List (Option Span)
  | _, .plain, [] => []
  | offset, .plain, '\\' :: c :: text => interpolationsFrom (offset + 1 + c.utf8Size) .plain text
  | offset, .plain, '$' :: '{' :: text =>
    interpolationsFrom (offset + 2) (.inside (offset + 2) 1) text
  | offset, .plain, c :: text => interpolationsFrom (offset + c.utf8Size) .plain text
  | _, .inside _ _, [] => [none]
  | offset, .inside origin depth, c :: text =>
    if c = '{' then interpolationsFrom (offset + 1) (.inside origin (depth + 1)) text
    else if c = '}' then
      if depth ≤ 1 then some ⟨origin, offset⟩ :: interpolationsFrom (offset + 1) .plain text
      else interpolationsFrom (offset + 1) (.inside origin (depth - 1)) text
    else interpolationsFrom (offset + c.utf8Size) (.inside origin depth) text

/-- The spans of the expressions in the text of a template. -/
def interpolations (raw : List Char) : List (Option Span) :=
  interpolationsFrom 0 .plain raw

end CodeMarkup
