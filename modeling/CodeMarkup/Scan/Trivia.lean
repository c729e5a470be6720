import CodeMarkup.Scan.Delimited
import CodeMarkup.Text.Blank

namespace CodeMarkup

/-!
# Between tokens

Blanks and comments, which tokens leave out.  A line comment runs to the line feed, a block comment
to the first `*/`; one that is never closed is a fault of the text.
-/

/-- The blanks and comments at the head of a text. -/
structure Gap where
  /-- Complete blanks and comments. -/
  trivia : List Char
  /-- The block comment after them that is not closed, or nothing. -/
  unclosed : List Char
  /-- What follows. -/
  rest : List Char

namespace Gap

/-- The gap with more in front. -/
def push (gap : Gap) (front : List Char) : Gap :=
  { gap with trivia := front ++ gap.trivia }

/-- Takes blanks and comments from the head of a text. -/
def scan (text : List Char) : Gap :=
  match text with
  | [] => ⟨[], [], []⟩
  | '/' :: '/' :: text =>
    (scan (text.dropWhile (· ≠ '\n'))).push ('/' :: '/' :: text.takeWhile (· ≠ '\n'))
  | '/' :: '*' :: text =>
    if (spanBlock text).2.isEmpty then ⟨[], '/' :: '*' :: text, []⟩
    else (scan ((spanBlock text).2.drop 2)).push ('/' :: '*' :: (spanBlock text).1 ++ ['*', '/'])
  | c :: text => if isBlank c then (scan text).push [c] else ⟨[], [], c :: text⟩
termination_by text.length
decreasing_by
  · have := (List.dropWhile_suffix (fun c => decide (c ≠ '\n')) (l := text)).length_le
    simp only [List.length_cons]
    omega
  · have := length_spanBlock_le text
    simp only [List.length_drop, List.length_cons]
    omega
  · simp

/-- What is taken, what is not closed and what is left make up the text. -/
theorem scan_append (text : List Char) :
    (scan text).trivia ++ (scan text).unclosed ++ (scan text).rest = text := by
  fun_induction scan text with
  | case1 => rfl
  | case2 text ih =>
    simp only [push, List.append_assoc, List.cons_append] at ih ⊢
    rw [ih, List.takeWhile_append_dropWhile]
  | case3 text h => simp
  | case4 text h ih =>
    have happ := spanBlock_append text
    obtain ⟨rest, hrest⟩ := spanBlock_rest_eq (by simpa using h)
    simp only [push, List.append_assoc, List.cons_append, List.nil_append] at ih ⊢
    rw [ih]
    rw [hrest] at happ ⊢
    simpa using happ
  | case5 c text _ _ hc ih =>
    simp only [push, List.append_assoc, List.cons_append, List.nil_append] at ih ⊢
    rw [ih]
  | case6 => rfl

end Gap

end CodeMarkup
