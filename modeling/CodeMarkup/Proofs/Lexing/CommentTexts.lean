import CodeMarkup.Proofs.Lexing.Comments

namespace CodeMarkup

/-!
# The texts of comments

What the search for comments finds in any text, whether or not the text has tokens.  Here a comment
may be left open: then the text ends in it.

* `CommentKind.Ends`: how a comment of some form may end, given what follows it.
* `OpensDoc`: the texts that open a documentation comment.
* `Stretch.scan_eq_comment`: the form of a comment at the head of a text.
* `Source.commentsFrom_areFound`: what holds of the comments found from an offset on.
* `Source.comments_wellFormed`: the comments of a source are well-formed and in order.
-/

/-- How a comment may end before a text: a line comment with its line, another one with its closing
    or with the text. -/
def CommentKind.Ends : CommentKind → List Char → List Char → Prop
  | .line, closing, rest => closing = [] ∧ ∀ c ∈ rest.head?, Stretch.endsLine c = true
  | .block, closing, rest | .doc, closing, rest =>
    closing = ['*', '/'] ∨ closing = [] ∧ rest = []

/-- A text that opens a documentation comment: `/**/` is a block comment instead. -/
def OpensDoc (written : List Char) : Prop :=
  ['/', '*', '*'] <+: written ∧ ¬ ['/', '*', '*', '/'] <+: written

namespace Stretch

/-- A line comment stops where its line ends. -/
theorem head?_dropWhile_endsLine (text : List Char) :
    ∀ c ∈ (text.dropWhile (!endsLine ·)).head?, endsLine c = true := by
  intro c hc
  have h := List.head?_dropWhile_not (!endsLine ·) text
  rw [Option.mem_def.1 hc] at h
  simpa using h

/-- The body of a block comment, and how it ends. -/
theorem blockComment_eq {kind found : CommentKind}
    {opening text opening' content closing rest : List Char}
    (h : blockComment kind opening text = .comment found opening' content closing rest)
    (hkind : kind ≠ .line) :
    found = kind ∧ opening' = opening ∧ kind.Admits content ∧ kind.Ends closing rest := by
  have hends : ((spanBlock text).2.take 2 = ['*', '/']
      ∨ (spanBlock text).2.take 2 = [] ∧ (spanBlock text).2.drop 2 = []) := by
    by_cases hopen : (spanBlock text).2 = []
    · rw [hopen]
      exact .inr ⟨rfl, rfl⟩
    · obtain ⟨more, hmore⟩ := spanBlock_rest_eq hopen
      rw [hmore]
      exact .inl rfl
  have hbody := not_infix_spanBlock text
  unfold blockComment at h
  injection h with hfound hopening hcontent hclosing hrest
  subst hfound hopening hcontent hclosing hrest
  refine ⟨rfl, rfl, ?_⟩
  cases kind with
  | line => exact absurd rfl hkind
  | block | doc => exact ⟨hbody, hends⟩

/-- **A comment at the head of a text** has the delimiters of its form and a content without its
    end, and only a documentation comment is written like one. -/
theorem scan_eq_comment {c : Char} {text opening content closing rest : List Char}
    {kind : CommentKind} (h : scan c text = .comment kind opening content closing rest) :
    opening = kind.opening ∧ kind.Admits content ∧ kind.Ends closing rest
      ∧ (kind = .doc ↔ OpensDoc (opening ++ content ++ closing)) := by
  have happ := scan_append c text
  rw [h, Stretch.text, Stretch.rest] at happ
  -- what a comment starts with is what the text starts with
  have hstarts : ∀ {front}, front <+: opening ++ content ++ closing → front <+: c :: text :=
    fun hfront => happ ▸ hfront.trans (List.prefix_append _ _)
  unfold scan at h
  split at h
  · cases h
  · cases h
  · cases h
  · -- two slashes: the content stops before the first end of a line
    injection h with hkind hopening hcontent hclosing hrest
    subst hkind hopening hcontent hclosing hrest
    refine ⟨rfl, ⟨fun hmem => ?_, fun hmem => ?_⟩, ⟨rfl, head?_dropWhile_endsLine _⟩,
      iff_of_false (by decide) fun hdoc => ?_⟩
    · exact absurd (List.mem_takeWhile_imp hmem) (by decide)
    · exact absurd (List.mem_takeWhile_imp hmem) (by decide)
    · simpa using hdoc.1
  · -- an empty block comment
    obtain ⟨rfl, rfl, hadmits, hends⟩ := blockComment_eq h (by decide)
    refine ⟨rfl, hadmits, hends, iff_of_false (by decide) fun hdoc => ?_⟩
    injection h with _ _ hcontent hclosing
    subst hcontent hclosing
    exact absurd ⟨[], rfl⟩ hdoc.2
  · next text hslash =>
    obtain ⟨rfl, rfl, hadmits, hends⟩ := blockComment_eq h (by decide)
    refine ⟨rfl, hadmits, hends,
      iff_of_true rfl ⟨⟨content ++ closing, by simp⟩, fun hslashed => ?_⟩⟩
    -- a slash after the two stars would have made it an empty block comment
    obtain ⟨more, hmore⟩ := hstarts hslashed
    simp only [List.cons_append, List.nil_append, List.cons.injEq, true_and] at hmore
    exact hslash more hmore.symm
  · next text hslash hstar =>
    obtain ⟨rfl, rfl, hadmits, hends⟩ := blockComment_eq h (by decide)
    refine ⟨rfl, hadmits, hends, iff_of_false (by decide) fun hdoc => ?_⟩
    -- a second star would have opened a documentation comment
    obtain ⟨more, hmore⟩ := hstarts hdoc.1
    simp only [List.cons_append, List.nil_append, List.cons.injEq, true_and] at hmore
    exact (hstar more hmore.symm).elim
  · cases h

end Stretch

/-! ### Whole texts -/

/-- A comment that was found in a source. -/
structure Comment.IsFound (source : Source) (comment : Comment) : Prop where
  start_lt : comment.span.start < comment.span.stop
  extent_eq : comment.extent = source.extent comment.span
  admits : comment.kind.Admits comment.content.toList
  written : ∃ closing rest, comment.kind.Ends closing rest
    ∧ source.HasText comment.span (comment.kind.opening ++ comment.content.toList ++ closing)
    ∧ source.HasText ⟨comment.span.stop, source.size⟩ rest
    ∧ (comment.kind = .doc
      ↔ OpensDoc (comment.kind.opening ++ comment.content.toList ++ closing))

/-- Comments that were found from an offset on, one after another. -/
structure Source.AreFound (source : Source) (offset : Nat) (comments : List Comment) : Prop where
  found : ∀ comment ∈ comments, offset ≤ comment.span.start ∧ comment.IsFound source
  apart : comments.Pairwise fun a b => a.span.stop ≤ b.span.start

theorem Source.AreFound.mono {source : Source} {offset earlier : Nat} {comments : List Comment}
    (h : source.AreFound offset comments) (hle : earlier ≤ offset) :
    source.AreFound earlier comments := by
  refine ⟨fun comment hmem => ?_, h.apart⟩
  obtain ⟨hstart, hfound⟩ := h.found comment hmem
  exact ⟨Nat.le_trans hle hstart, hfound⟩

theorem Source.AreFound.cons {source : Source} {comment : Comment} {comments : List Comment}
    (hfirst : comment.IsFound source) (h : source.AreFound comment.span.stop comments) :
    source.AreFound comment.span.start (comment :: comments) := by
  have hlater := h.mono (Nat.le_of_lt hfirst.start_lt)
  refine ⟨fun other hmem => ?_, List.pairwise_cons.2 ⟨fun other hmem => ?_, h.apart⟩⟩
  · rcases List.mem_cons.1 hmem with rfl | hmem
    · exact ⟨Nat.le_refl _, hfirst⟩
    · exact hlater.found other hmem
  · exact (h.found other hmem).1

/-- A comment at the head of what is left of a source. -/
theorem Stretch.isFound {source : Source} {offset : Nat} {c : Char}
    {text opening content closing rest : List Char} {kind : CommentKind}
    (h : scan c text = .comment kind opening content closing rest)
    (htext : source.HasText ⟨offset, source.size⟩ ((scan c text).text ++ (scan c text).rest)) :
    Comment.IsFound source ⟨kind, String.ofList content,
      ⟨offset, offset + byteLength (scan c text).text⟩,
      source.extent ⟨offset, offset + byteLength (scan c text).text⟩⟩ := by
  obtain ⟨rfl, hadmits, hends, hdoc⟩ := scan_eq_comment h
  have hpos : 0 < byteLength (scan c text).text :=
    byteLength_pos (List.ne_nil_of_length_pos (scan_text_pos c text))
  obtain ⟨hwritten, hrest⟩ := htext.split
  refine ⟨Nat.lt_add_of_pos_right hpos, rfl, ?_, closing, rest, hends, ?_, ?_, ?_⟩
  · rwa [String.toList_ofList]
  · rw [h] at hwritten ⊢
    rwa [String.toList_ofList]
  · rw [h] at hrest ⊢
    exact hrest
  · rwa [String.toList_ofList]

/-- **The search.**  From a stretch to the next, what is found are comments, one after another. -/
theorem Source.commentsFrom_areFound (source : Source) (offset : Nat) (text : List Char)
    (htext : source.HasText ⟨offset, source.size⟩ text) :
    source.AreFound offset (source.commentsFrom offset text) := by
  fun_induction commentsFrom source offset text with
  | case1 offset => exact ⟨List.forall_mem_nil _, .nil⟩
  | case2 offset c text stretch span later taken rest hscan ih =>
    rw [← Stretch.scan_append c text] at htext
    exact (ih htext.split.2).mono (Nat.le_add_right _ _)
  | case3 offset c text stretch span later kind opening content closing rest hscan ih =>
    rw [← Stretch.scan_append c text] at htext
    exact .cons (Stretch.isFound hscan htext) (ih htext.split.2)

/-- **Comments are well-formed in any text.**  Every comment of a source has a span with characters
    in it, which lies between characters, and the extent of this span.  At the span stands the
    opening of its form, a content without the end of its form and the closing, except that a
    comment other than a line comment may lack the closing where the source ends in it; and the
    form is that of a documentation comment if and only if the text opens one.  The comments stand
    one after another and begin at later and later positions. -/
theorem Source.comments_wellFormed (source : Source) :
    (∀ comment ∈ source.comments,
      comment.span.start < comment.span.stop ∧ comment.span.stop ≤ source.size
      ∧ source.IsBoundary comment.span.start ∧ source.IsBoundary comment.span.stop
      ∧ comment.extent = source.extent comment.span
      ∧ comment.kind.Admits comment.content.toList
      ∧ ∃ written, source.slice? comment.span = some written
        ∧ (written = comment.kind.opening ++ comment.content.toList ++ comment.kind.closing
          ∨ comment.kind ≠ .line ∧ written = comment.kind.opening ++ comment.content.toList
            ∧ comment.span.stop = source.size)
        ∧ (comment.kind = .doc
          ↔ ['/', '*', '*'] <+: written ∧ ¬ ['/', '*', '*', '/'] <+: written))
    ∧ source.comments.Pairwise fun a b =>
      a.span.stop ≤ b.span.start ∧ a.extent.first < b.extent.first := by
  have hall := source.commentsFrom_areFound 0 source.chars source.hasText_chars
  refine ⟨fun comment hmem => ?_, ?_⟩
  · have hfound := (hall.found comment hmem).2
    obtain ⟨closing, rest, hends, htext, hrest, hdoc⟩ := hfound.written
    have hspan := htext.hasSpan
    refine ⟨hfound.start_lt, hspan.stop_boundary.le_size, hspan.start_boundary,
      hspan.stop_boundary, hfound.extent_eq, hfound.admits, _, slice?_eq_some htext, ?_, hdoc⟩
    cases hkind : comment.kind with
    | line =>
      rw [hkind] at hends
      exact .inl (by rw [hends.1]; rfl)
    | block | doc =>
      rw [hkind] at hends
      rcases hends with rfl | ⟨rfl, rfl⟩
      · exact .inl rfl
      -- nothing follows a comment that is not closed
      · obtain ⟨_, _, _, _, hstop⟩ := hrest
        exact .inr ⟨by decide, List.append_nil _, hstop.symm⟩
  · refine hall.apart.imp_of_mem fun {a b} ha hb hle => ⟨hle, ?_⟩
    have hfirst := (hall.found a ha).2
    have hsecond := (hall.found b hb).2
    obtain ⟨_, _, _, htext, -⟩ := hfirst.written
    obtain ⟨_, _, _, htext', -⟩ := hsecond.written
    rw [hfirst.extent_eq, hsecond.extent_eq, extent_first, extent_first]
    exact htext.hasSpan.start_boundary.position_lt_position
      (Nat.lt_of_lt_of_le hfirst.start_lt hle) htext'.hasSpan.start_boundary.le_size

-- delimiters that overlap: nothing between them, nothing but the end, and no end
example : (Source.ofText "/**/ /***/ /*/").comments.map (fun comment =>
    (comment.kind, comment.content)) = [(.block, ""), (.doc, ""), (.block, "/")] := by
  decide +kernel

end CodeMarkup
