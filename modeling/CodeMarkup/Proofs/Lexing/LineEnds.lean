import CodeMarkup.Proofs.Lexing.CommentTexts

namespace CodeMarkup

/-!
# Where line comments end

The pass over tokens skips a line comment up to a line feed; the search for comments ends it at a
carriage return as well, and goes on with what follows as if it were code.  The two see the same
extent unless a carriage return stands inside the comment.

* `Source.lineTail`: what is left of a line from an offset on.
* `lineContents`, `Source.skippedLines`: the line comments that the pass over tokens skips.
* `Source.ReachLineEnds`: line comments with at most a carriage return before the end of the line.
* `IsTrivia.reachLineEnds_iff`: the two passes side by side in one gap.
* `Source.lineComments_reach_iff`: when every line comment of a source reaches the end of its line.
-/

/-- What stands between an offset of a source and the next line feed, or the end. -/
def Source.lineTail (source : Source) (offset : Nat) : List Char :=
  ((source.slice? ⟨offset, source.size⟩).getD []).takeWhile (· ≠ '\n')

/-- The contents of the line comments among blanks and comments, each up to its line feed. -/
def lineContents (gap : List Char) : List (List Char) :=
  match gap with
  | [] => []
  | '/' :: '/' :: text =>
    text.takeWhile (· ≠ '\n') :: lineContents (text.dropWhile (· ≠ '\n'))
  | '/' :: '*' :: text => lineContents ((spanBlock text).2.drop 2)
  | _ :: text => lineContents text
termination_by gap.length
decreasing_by
  · have := (List.dropWhile_suffix (fun c => decide (c ≠ '\n')) (l := text)).length_le
    simp only [List.length_cons]
    omega
  · have := length_spanBlock_le text
    simp only [List.length_drop, List.length_cons]
    omega
  · simp

/-- The contents of the line comments in the gaps before tokens. -/
def Source.skippedLines (source : Source) (offset : Nat) (tokens : List Token) :
    List (List Char) :=
  (gapsBefore offset tokens).flatMap fun gap => lineContents ((source.slice? gap).getD [])

/-- Comments of which each line comment reaches the end of its line, but for a carriage return. -/
def Source.ReachLineEnds (source : Source) (comments : List Comment) : Prop :=
  ∀ comment ∈ comments, comment.kind = .line →
    source.lineTail comment.span.stop = [] ∨ source.lineTail comment.span.stop = ['\r']

variable {source : Source} {offset : Nat} {after gap : List Char}

/-! ### Lines -/

theorem takeWhile_line {line rest : List Char} (hline : '\n' ∉ line)
    (hend : ∀ c ∈ rest.head?, c = '\n') :
    (line ++ rest).takeWhile (· ≠ '\n') = line ∧ (line ++ rest).dropWhile (· ≠ '\n') = rest := by
  have hall : ∀ c ∈ line, decide (c ≠ '\n') = true := by
    intro c hc
    rw [decide_eq_true_eq]
    rintro rfl
    exact hline hc
  rw [List.takeWhile_append_of_pos hall, List.dropWhile_append_of_pos hall]
  cases rest with
  | nil => exact ⟨List.append_nil _, rfl⟩
  | cons c rest =>
    cases hend c rfl
    exact ⟨List.append_nil _, rfl⟩

theorem Source.lineTail_eq {text : List Char} (h : source.HasText ⟨offset, source.size⟩ text) :
    source.lineTail offset = text.takeWhile (· ≠ '\n') := by
  rw [lineTail, slice?_eq_some h]
  rfl

/-- A line, cut before its first carriage return. -/
theorem exists_eq_append_return (line : List Char) :
    ∃ body tail, line = body ++ tail ∧ '\r' ∉ body ∧ ∀ c ∈ tail.head?, c = '\r' := by
  refine ⟨line.takeWhile (· ≠ '\r'), line.dropWhile (· ≠ '\r'),
    List.takeWhile_append_dropWhile.symm, fun hmem => ?_, head?_dropWhile_ne line⟩
  exact absurd (List.mem_takeWhile_imp hmem) (by decide)

/-- Only the last character of a line may be a carriage return. -/
theorem not_mem_dropLast_iff {body tail : List Char} (hbody : '\r' ∉ body)
    (htail : ∀ c ∈ tail.head?, c = '\r') :
    '\r' ∉ (body ++ tail).dropLast ↔ tail = [] ∨ tail = ['\r'] := by
  cases tail with
  | nil =>
    rw [List.append_nil]
    exact ⟨fun _ => .inl rfl, fun _ hmem => hbody ((List.dropLast_sublist _).mem hmem)⟩
  | cons c more =>
    cases htail c rfl
    cases more with
    | nil => simp [hbody]
    | cons d more => simp [List.dropLast_append_of_ne_nil, List.dropLast_cons_of_ne_nil]

/-! ### Gaps -/

theorem lineContents_blank {c : Char} {more : List Char} (hc : isBlank c = true) :
    lineContents (c :: more) = lineContents more := by
  have hslash : c ≠ '/' := by
    rintro rfl
    exact absurd hc (by decide)
  rw [lineContents.eq_4 _ _ (fun _ h => absurd h hslash) fun _ h => absurd h hslash]

theorem lineContents_line {content more : List Char} (hcontent : '\n' ∉ content)
    (hend : ∀ c ∈ (more ++ after).head?, c = '\n') :
    lineContents ('/' :: '/' :: (content ++ more)) = content :: lineContents more := by
  have hmore : ∀ c ∈ more.head?, c = '\n' := by
    cases more with
    | nil => nofun
    | cons d more => exact hend
  obtain ⟨htake, hdrop⟩ := takeWhile_line hcontent hmore
  rw [lineContents, htake, hdrop]

theorem lineContents_block {content more : List Char} (hcontent : ¬ ['*', '/'] <:+: content) :
    lineContents ('/' :: '*' :: (content ++ '*' :: '/' :: more)) = lineContents more := by
  rw [lineContents, spanBlock_of_not_infix hcontent more]
  rfl

theorem Source.reachLineEnds_cons {comment : Comment} {comments : List Comment} :
    source.ReachLineEnds (comment :: comments)
      ↔ (comment.kind = .line → source.lineTail comment.span.stop = []
          ∨ source.lineTail comment.span.stop = ['\r']) ∧ source.ReachLineEnds comments :=
  List.forall_mem_cons

/-- One line comment, which the pass over tokens skips up to its line feed.  The search reaches the
    end of the line, and goes on there, unless a carriage return stands inside. -/
theorem Source.reachLineEnds_line {content rest : List Char} (hcontent : '\n' ∉ content)
    (hend : ∀ c ∈ rest.head?, c = '\n')
    (htext : source.HasText ⟨offset, source.size⟩ ('/' :: '/' :: content ++ rest)) :
    source.ReachLineEnds (source.commentsFrom offset ('/' :: '/' :: content ++ rest))
      ↔ '\r' ∉ content.dropLast
        ∧ source.ReachLineEnds
          (source.commentsFrom (offset + byteLength ('/' :: '/' :: content)) rest) := by
  obtain ⟨body, tail, rfl, hbody, htail⟩ := exists_eq_append_return content
  have hfeeds : '\n' ∉ body ∧ '\n' ∉ tail := by simpa [not_or] using hcontent
  -- the search ends the comment before the carriage return, or with the line
  have hends : ∀ c ∈ (tail ++ rest).head?, Stretch.endsLine c = true := by
    intro c hc
    cases tail with
    | nil =>
      rw [hend c hc]
      rfl
    | cons d tail =>
      rw [htail c hc]
      rfl
  have hscan := Stretch.scan_line ⟨hfeeds.1, hbody⟩ hends
  have hstop : offset + byteLength ('/' :: '/' :: body)
      = offset + byteLength (['/', '/'] ++ body ++ []) := by simp
  have happ : '/' :: '/' :: (body ++ tail) ++ rest = '/' :: '/' :: body ++ (tail ++ rest) := by simp
  have hbytes : offset + byteLength ('/' :: '/' :: (body ++ tail))
      = offset + byteLength ('/' :: '/' :: body) + byteLength tail := by
    simp only [byteLength, byteLength_append]
    omega
  rw [happ] at htext ⊢
  have hlineTail := (lineTail_eq htext.split.2).trans (takeWhile_line hfeeds.2 hend).1
  -- a single carriage return is passed over like a blank
  have hplain : tail = [] ∨ tail = ['\r'] → ∀ c ∈ tail, isPlain c = true := by
    rintro (rfl | rfl) c hc
    · cases hc
    · rw [List.mem_singleton.1 hc]
      decide
  rw [List.cons_append, List.cons_append, commentsFrom_comment hscan hstop, reachLineEnds_cons,
    not_mem_dropLast_iff hbody htail, hbytes, hlineTail]
  constructor
  · rintro ⟨hfirst, hothers⟩
    rw [commentsFrom_plain (hplain (hfirst rfl))] at hothers
    exact ⟨hfirst rfl, hothers⟩
  · rintro ⟨htails, hothers⟩
    rw [commentsFrom_plain (hplain htails)]
    exact ⟨fun _ => htails, hothers⟩

/-- **Side by side.**  Up to the first line comment with a carriage return inside, the search for
    comments stops where the pass over tokens does; and this comment breaks both conditions. -/
theorem IsTrivia.reachLineEnds_iff (h : IsTrivia after gap)
    (htext : source.HasText ⟨offset, source.size⟩ (gap ++ after)) :
    source.ReachLineEnds (source.commentsFrom offset (gap ++ after))
      ↔ (∀ content ∈ lineContents gap, '\r' ∉ content.dropLast)
        ∧ source.ReachLineEnds (source.commentsFrom (offset + byteLength gap) after) := by
  induction h generalizing offset with
  | nil => simp [lineContents, byteLength]
  | @blank c more hc hmore ih =>
    have hcode := Stretch.scan_plain (isPlain_of_isBlank hc) (more ++ after)
    have htext' : source.HasText ⟨offset, source.size⟩ ([c] ++ (more ++ after)) := htext
    rw [List.cons_append, Source.commentsFrom_code hcode, ih htext'.split.2, lineContents_blank hc,
      Nat.add_assoc, ← byteLength_append]
    rfl
  | @line content more hcontent hend hmore ih =>
    have happ : '/' :: '/' :: (content ++ more) = '/' :: '/' :: content ++ more := rfl
    rw [lineContents_line hcontent hend, List.forall_mem_cons, and_assoc]
    rw [happ, List.append_assoc] at htext ⊢
    rw [Source.reachLineEnds_line hcontent hend htext, ih htext.split.2, byteLength_append,
      Nat.add_assoc]
  | @block content more hcontent hmore ih =>
    obtain ⟨kind, inner, hscan, hwritten, -⟩ := Stretch.scan_block hcontent (more ++ after)
    have hline : kind ≠ .line := by
      rintro rfl
      cases hwritten
    have happ : '/' :: '*' :: (content ++ '*' :: '/' :: more)
        = '/' :: '*' :: (content ++ ['*', '/']) ++ more := by simp
    have hwhole : '/' :: '*' :: (content ++ ['*', '/']) ++ (more ++ after)
        = '/' :: '*' :: (content ++ '*' :: '/' :: (more ++ after)) := by simp
    have hstop : offset + byteLength ('/' :: '*' :: (content ++ ['*', '/']))
        = offset + byteLength (kind.opening ++ inner ++ kind.closing) := by rw [hwritten]
    rw [lineContents_block hcontent]
    rw [happ, List.append_assoc] at htext ⊢
    rw [hwhole, Source.commentsFrom_comment hscan hstop, Source.reachLineEnds_cons,
      ih htext.split.2, byteLength_append, Nat.add_assoc]
    exact ⟨And.right, fun hothers => ⟨fun hkind => absurd hkind hline, hothers⟩⟩

/-! ### Whole texts -/

theorem Source.skippedLines_cons {token : Token} {tokens : List Token}
    (h : source.HasText ⟨offset, token.span.start⟩ gap) :
    source.skippedLines offset (token :: tokens)
      = lineContents gap ++ source.skippedLines token.span.stop tokens := by
  rw [skippedLines, gapsBefore, List.flatMap_cons, slice?_eq_some h]
  rfl

/-- Along a run over a text, all line comments reach the ends of their lines if and only if none
    that the run skips has a carriage return inside. -/
theorem Lexes.reachLineEnds_iff {text : List Char} {tokens : List Token}
    (h : Lexes offset text tokens) (htext : source.HasText ⟨offset, source.size⟩ text) :
    source.ReachLineEnds (source.commentsFrom offset text)
      ↔ ∀ content ∈ source.skippedLines offset tokens, '\r' ∉ content.dropLast := by
  induction h with
  | @mark offset text trivia hgap =>
    obtain ⟨rfl, htrivia⟩ := Gap.scan_closed hgap
    rw [htrivia.reachLineEnds_iff htext, Source.skippedLines_cons htext.split.1]
    simp [Source.commentsFrom, Source.ReachLineEnds, Source.skippedLines, gapsBefore]
  | @token offset start stop text trivia after rest kind tokens hgap hlexeme hne hstart hstop
      hrest ih =>
    have hcomment := Gap.not_startsComment_rest text (by rw [hgap])
    have hspelled := Lexeme.scan_append after
    rw [hgap] at hcomment
    rw [hlexeme] at hspelled
    dsimp only at hcomment hspelled
    obtain ⟨rfl, htrivia⟩ := Gap.scan_closed hgap
    have hafter := htext.split.2
    rw [← hspelled] at hafter
    have hback := hafter.split.2
    rw [← hstart, ← hstop] at hback
    have hfront := htext.split.1
    rw [← hstart] at hfront
    -- the search passes over the token, and goes on where the run does
    rw [htrivia.reachLineEnds_iff htext, Lexeme.commentsFrom_eq hlexeme hne hcomment, ← hstart,
      ← hstop, ih hback, Source.skippedLines_cons hfront, List.forall_mem_append]

/-- A line comment stops at the end of its line, or before a carriage return. -/
theorem Comment.IsFound.lineTail_cases {comment : Comment} (h : comment.IsFound source)
    (hkind : comment.kind = .line) :
    source.lineTail comment.span.stop = [] ∨ ∃ more,
      source.HasText ⟨comment.span.stop, source.size⟩ ('\r' :: more)
        ∧ source.lineTail comment.span.stop = '\r' :: more.takeWhile (· ≠ '\n') := by
  obtain ⟨closing, rest, hends, -, hrest, -⟩ := h.written
  have hlineTail := Source.lineTail_eq hrest
  rw [hkind] at hends
  cases rest with
  | nil => exact .inl hlineTail
  | cons c rest =>
    have hc := hends.2 c rfl
    simp only [Stretch.endsLine, Bool.or_eq_true, beq_iff_eq] at hc
    rcases hc with rfl | rfl
    · exact .inl hlineTail
    · exact .inr ⟨rest, hrest, hlineTail⟩

/-- With a line feed after every carriage return, no line comment stops too early. -/
theorem Source.AreFound.reachLineEnds {comments : List Comment}
    (h : source.AreFound offset comments) (hreturns : returnsPaired source.chars = true) :
    source.ReachLineEnds comments := by
  intro comment hmem hkind
  rcases (h.found comment hmem).2.lineTail_cases hkind with hnil | ⟨more, hmore, hlineTail⟩
  · exact .inl hnil
  · obtain ⟨before, after, hchars, -, -⟩ := hmore
    rw [hchars, List.append_assoc] at hreturns
    have hpaired := returnsPaired_of_append _ hreturns
    simp only [List.cons_append, returnsPaired, bne_self_eq_false, Bool.false_or, beq_iff_eq,
      Bool.and_eq_true] at hpaired
    rw [hlineTail]
    cases more with
    | nil => exact .inr rfl
    | cons d more =>
      cases Option.some.inj hpaired.1
      exact .inr rfl

/-- **Line comments in both passes.**  In a source that has tokens, what is left of the line after
    a line comment is nothing or starts with a carriage return.  All line comments reach the ends of
    their lines, but for a single carriage return, if and only if no line comment that the pass over
    tokens skips has a carriage return before its last character; and so they do if carriage returns
    stand before line feeds only. -/
theorem Source.lineComments_reach_iff (source : Source) (tokens : List Token)
    (h : source.tokens = .ok tokens) :
    (∀ comment ∈ source.comments, comment.kind = .line →
      source.lineTail comment.span.stop = []
        ∨ (source.lineTail comment.span.stop).head? = some '\r')
    ∧ ((∀ comment ∈ source.comments, comment.kind = .line →
        source.lineTail comment.span.stop = [] ∨ source.lineTail comment.span.stop = ['\r'])
      ↔ ∀ content ∈ source.skippedLines 0 tokens, '\r' ∉ content.dropLast)
    ∧ (returnsPaired source.chars = true → ∀ comment ∈ source.comments, comment.kind = .line →
      source.lineTail comment.span.stop = [] ∨ source.lineTail comment.span.stop = ['\r']) := by
  have htext := source.hasText_chars
  have hall := source.commentsFrom_areFound 0 source.chars htext
  refine ⟨fun comment hmem hkind => ?_, (lexes_of_tokensFrom h).reachLineEnds_iff htext,
    hall.reachLineEnds⟩
  rcases (hall.found comment hmem).2.lineTail_cases hkind with hnil | ⟨more, -, hlineTail⟩
  · exact .inl hnil
  · exact .inr (by rw [hlineTail]; rfl)

/-- A carriage return inside a line comment.  The search goes on behind it, where it takes the rest
    of the line and the token after the line for a block comment. -/
theorem lineComments_reach_iff_loneReturn :
    (Source.ofText "// a\r/* b\nx").tokens.toOption
        = some [⟨.identifier "x", ⟨10, 11⟩⟩, ⟨.eof, ⟨11, 11⟩⟩]
      ∧ (Source.ofText "// a\r/* b\nx").comments.map (fun comment => (comment.kind, comment.span))
        = [(.line, ⟨0, 4⟩), (.block, ⟨5, 11⟩)]
      ∧ ¬ ∀ comment ∈ (Source.ofText "// a\r/* b\nx").comments, comment.kind = .line →
        (Source.ofText "// a\r/* b\nx").lineTail comment.span.stop = []
          ∨ (Source.ofText "// a\r/* b\nx").lineTail comment.span.stop = ['\r'] := by
  have htokens : (Source.ofText "// a\r/* b\nx").tokens.toOption
      = some [⟨.identifier "x", ⟨10, 11⟩⟩, ⟨.eof, ⟨11, 11⟩⟩] := by decide +kernel
  refine ⟨htokens, by decide +kernel, fun hreach => ?_⟩
  cases h : (Source.ofText "// a\r/* b\nx").tokens with
  | error error =>
    rw [h] at htokens
    cases htokens
  | ok tokens =>
    rw [h] at htokens
    cases htokens
    have hlines := (Source.lineComments_reach_iff _ _ h).2.1.1 hreach
    exact absurd (hlines " a\r/* b".toList (by decide +kernel)) (by decide)

end CodeMarkup
