import CodeMarkup.Scan.Delimited
import CodeMarkup.Source

namespace CodeMarkup

/-!
# Comments

Comments are found by a pass of their own over the text, which knows just enough of tokens not to
take `//` inside a literal for a comment.  The pass is total: a literal or comment that is not
closed runs to the end.

* `Stretch.scan`: the comment, literal or character at the head of a text.
* `Source.comments`: all comments of a source, in order.
-/

/-- The forms of a comment. -/
inductive CommentKind where
  /-- `// text` -/
  | line
  /-- `/* text */` -/
  | block
  /-- `/** text */` -/
  | doc
  deriving DecidableEq, Inhabited

/-- The name of a form. -/
def CommentKind.name : CommentKind → String
  | .line => "line"
  | .block => "block"
  | .doc => "doc"

/-- A comment and its place. -/
structure Comment where
  /-- The form. -/
  kind : CommentKind
  /-- The text between the delimiters. -/
  content : String
  /-- The bytes it covers, delimiters included. -/
  span : Span
  /-- The positions it covers. -/
  extent : Extent
  deriving DecidableEq, Inhabited

/-- A stretch of text as the search for comments sees it. -/
inductive Stretch where
  /-- A literal, or a single character of anything else. -/
  | code (text rest : List Char)
  /-- A comment, split into opening, content and closing. -/
  | comment (kind : CommentKind) (opening content closing rest : List Char)

namespace Stretch

/-- The characters of a stretch. -/
def text : Stretch → List Char
  | .code text _ => text
  | .comment _ opening content closing _ => opening ++ content ++ closing

/-- The characters after it. -/
def rest : Stretch → List Char
  | .code _ rest => rest
  | .comment _ _ _ _ rest => rest

/-- A literal that starts with a quote, given its body; the character that ended the body, a quote
    or a line feed, belongs to it. -/
def literal (quote : Char) (body : List Char × List Char) : Stretch :=
  .code (quote :: body.1 ++ body.2.take 1) (body.2.drop 1)

/-- A block comment, given its opening and the text after it. -/
def blockComment (kind : CommentKind) (opening text : List Char) : Stretch :=
  .comment kind opening (spanBlock text).1 ((spanBlock text).2.take 2) ((spanBlock text).2.drop 2)

/-- Whether a character ends a line comment. -/
def endsLine (c : Char) : Bool :=
  c == '\n' || c == '\r'

/-- The stretch that starts with a character.  `/**` opens a documentation comment, except that
    `/**/` is an empty block comment. -/
def scan (c : Char) (text : List Char) : Stretch :=
  match c, text with
  | '`', text => literal c (spanTemplate 0 text)
  | '"', text => literal c (spanQuoted c text)
  | '\'', text => literal c (spanQuoted c text)
  | '/', '/' :: text =>
    .comment .line ['/', '/'] (text.takeWhile (!endsLine ·)) [] (text.dropWhile (!endsLine ·))
  | '/', '*' :: '*' :: '/' :: text => blockComment .block ['/', '*'] ('*' :: '/' :: text)
  | '/', '*' :: '*' :: text => blockComment .doc ['/', '*', '*'] text
  | '/', '*' :: text => blockComment .block ['/', '*'] text
  | c, text => .code [c] text

theorem literal_append {quote : Char} {body : List Char × List Char} {text : List Char}
    (h : body.1 ++ body.2 = text) :
    (literal quote body).text ++ (literal quote body).rest = quote :: text := by
  simp only [literal, Stretch.text, Stretch.rest, List.cons_append, List.append_assoc,
    List.take_append_drop, h]

theorem blockComment_append (kind : CommentKind) (opening text : List Char) :
    (blockComment kind opening text).text ++ (blockComment kind opening text).rest
      = opening ++ text := by
  simp [blockComment, Stretch.text, Stretch.rest, spanBlock_append]

/-- A stretch and what follows it make up the text. -/
theorem scan_append (c : Char) (text : List Char) :
    (scan c text).text ++ (scan c text).rest = c :: text := by
  unfold scan
  split
  · exact literal_append (spanTemplate_append _ _)
  · exact literal_append (spanQuoted_append _ _)
  · exact literal_append (spanQuoted_append _ _)
  · simp [Stretch.text, Stretch.rest, List.takeWhile_append_dropWhile]
  · exact blockComment_append _ _ _
  · exact blockComment_append _ _ _
  · exact blockComment_append _ _ _
  · rfl

/-- A stretch has at least one character. -/
theorem scan_text_pos (c : Char) (text : List Char) : 0 < (scan c text).text.length := by
  unfold scan
  split <;> simp [Stretch.text, literal, blockComment]

theorem length_scan_rest_lt (c : Char) (text : List Char) :
    (scan c text).rest.length < (c :: text).length := by
  have happ := congrArg List.length (scan_append c text)
  have hpos := scan_text_pos c text
  rw [List.length_append] at happ
  omega

end Stretch

namespace Source

/-- The comments of the part of the source that starts at `offset`. -/
def commentsFrom (source : Source) (offset : Nat) (text : List Char) : List Comment :=
  match text with
  | [] => []
  | c :: text =>
    let stretch := Stretch.scan c text
    let span : Span := ⟨offset, offset + byteLength stretch.text⟩
    let later := commentsFrom source span.stop stretch.rest
    match stretch with
    | .code _ _ => later
    | .comment kind _ content _ _ =>
      ⟨kind, String.ofList content, span, source.extent span⟩ :: later
termination_by text.length
decreasing_by exact Stretch.length_scan_rest_lt _ _

/-- The comments of a source, in order. -/
def comments (source : Source) : List Comment :=
  source.commentsFrom 0 source.chars

end Source

end CodeMarkup
