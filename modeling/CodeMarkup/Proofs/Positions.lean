import Mathlib.Data.List.Induction
import CodeMarkup.Proofs.ErrorPositions

namespace CodeMarkup

/-!
# Positions of offsets

A position as the numbers of line feeds and of characters that start before an offset, whatever the
offset is.  Positions keep the order of the offsets between characters, so the extents of two spans
are one inside the other if and only if the spans are.

* `placed`, `Source.startsBefore`: the characters of a text with the offsets at which they start,
  and those of a source that start before an offset.
* `feeds`, `sinceFeeds`: the line feeds among characters, and the characters after all of these.
* `Source.position_eq_counts`: the position of an offset counts these.
* `Source.contains_iff_extent_contains`: containment of spans and of their extents.
* `Source.position_embeds`: positions embed offsets.
-/

/-- The characters of a text that starts at an offset, with the offsets at which they start. -/
def placed (offset : Nat) : List Char → List (Nat × Char)
  | [] => []
  | c :: text => (offset, c) :: placed (offset + c.utf8Size) text

/-- Where the line feeds among characters stand. -/
def feeds (items : List (Nat × Char)) : List Nat :=
  (items.filter (·.2 = '\n')).map Prod.fst

/-- Those of the characters that start after all line feeds among them. -/
def sinceFeeds (items : List (Nat × Char)) : List (Nat × Char) :=
  items.filter fun item => (feeds items).all (· < item.1)

/-- The characters of a source that start before an offset, in their places. -/
def Source.startsBefore (source : Source) (offset : Nat) : List (Nat × Char) :=
  (placed 0 source.chars).filter (·.1 < offset)

/-! ### Characters in their places -/

theorem le_of_mem_placed {offset : Nat} {text : List Char} {item : Nat × Char}
    (h : item ∈ placed offset text) : offset ≤ item.1 := by
  induction text generalizing offset with
  | nil => cases h
  | cons c text ih =>
    rcases List.mem_cons.1 h with rfl | hlater
    · exact Nat.le_refl _
    · have hle := ih hlater
      omega

theorem lt_of_mem_placed {offset : Nat} {text : List Char} {item : Nat × Char}
    (h : item ∈ placed offset text) : item.1 < offset + byteLength text := by
  induction text generalizing offset with
  | nil => cases h
  | cons c text ih =>
    have hc := c.utf8Size_pos
    rw [byteLength]
    rcases List.mem_cons.1 h with rfl | hlater
    · show offset < _
      omega
    · have hlt := ih hlater
      omega

theorem placed_concat (offset : Nat) (text : List Char) (c : Char) :
    placed offset (text ++ [c]) = placed offset text ++ [(offset + byteLength text, c)] := by
  induction text generalizing offset with
  | nil => simp [placed, byteLength]
  | cons d text ih => simp [placed, byteLength, ih, Nat.add_assoc]

/-- The characters that start before an offset are those at the head of the text. -/
theorem filter_placed (offset n : Nat) (text : List Char) :
    (placed offset text).filter (·.1 < n)
      = placed offset (text.take (charsBefore offset n text)) := by
  induction text generalizing offset with
  | nil => rfl
  | cons c text ih =>
    by_cases hn : offset < n
    · simp [placed, charsBefore, hn, ih]
    · -- the characters that follow start later still
      have hnone : (placed offset (c :: text)).filter (·.1 < n) = [] := by
        rw [List.filter_eq_nil_iff]
        intro item hitem
        have hle := le_of_mem_placed hitem
        simp only [decide_eq_true_eq]
        omega
      rw [hnone, charsBefore, if_neg hn, List.take_zero]
      rfl

/-- Going through a text passes the characters that start before the offset. -/
theorem Position.advance_after_take (n : Nat) (front text : List Char) (offset : Nat) :
    (after front).advance text (n - offset)
      = after (front ++ text.take (charsBefore offset n text)) := by
  induction text generalizing front offset with
  | nil => simp [advance]
  | cons c text ih =>
    by_cases hn : offset < n
    · obtain ⟨k, hk⟩ : ∃ k, n - offset = k + 1 := ⟨n - offset - 1, by omega⟩
      have hrest : k + 1 - c.utf8Size = n - (offset + c.utf8Size) := by omega
      rw [hk, advance, next_after, hrest, ih, charsBefore, if_pos hn, List.take_succ_cons,
        List.append_assoc, List.singleton_append]
    · have hzero : n - offset = 0 := by omega
      rw [hzero, charsBefore, if_neg hn]
      simp [advance]

/-! ### Counting -/

theorem count_eq_length_feeds (offset : Nat) (text : List Char) :
    text.count '\n' = (feeds (placed offset text)).length := by
  induction text generalizing offset with
  | nil => rfl
  | cons c text ih =>
    by_cases hc : c = '\n'
    · simpa [placed, feeds, hc] using ih (offset + '\n'.utf8Size)
    · simpa [placed, feeds, hc] using ih (offset + c.utf8Size)

/-- A line feed at the end leaves no character after it. -/
theorem sinceFeeds_concat_feed {items : List (Nat × Char)} {offset : Nat}
    (h : ∀ item ∈ items, item.1 < offset) : sinceFeeds (items ++ [(offset, '\n')]) = [] := by
  rw [sinceFeeds, List.filter_eq_nil_iff]
  intro item hitem hall
  have hmem : offset ∈ feeds (items ++ [(offset, '\n')]) := by simp [feeds]
  have hlt : offset < item.1 := by simpa using List.all_eq_true.1 hall offset hmem
  rcases List.mem_append.1 hitem with hfront | hend
  · have hback := h item hfront
    omega
  · rw [List.mem_singleton.1 hend] at hlt
    exact Nat.lt_irrefl _ hlt

/-- Any other character at the end is one more of its line. -/
theorem sinceFeeds_concat {items : List (Nat × Char)} {offset : Nat} {c : Char}
    (h : ∀ item ∈ items, item.1 < offset) (hc : c ≠ '\n') :
    sinceFeeds (items ++ [(offset, c)]) = sinceFeeds items ++ [(offset, c)] := by
  have hfeeds : feeds (items ++ [(offset, c)]) = feeds items := by simp [feeds, hc]
  have hlast : (feeds items).all (· < offset) = true := by
    rw [List.all_eq_true]
    intro feed hfeed
    obtain ⟨item, hitem, rfl⟩ := List.mem_map.1 hfeed
    simpa using h item (List.mem_filter.1 hitem).1
  rw [sinceFeeds, hfeeds, List.filter_append, List.filter_cons_of_pos (by exact hlast)]
  rfl

/-- The induction adds one character at the end of the text. -/
theorem length_takeWhile_eq_sinceFeeds (text : List Char) :
    (text.reverse.takeWhile (· != '\n')).length = (sinceFeeds (placed 0 text)).length := by
  induction text using List.reverseRecOn with
  | nil => rfl
  | append_singleton text c ih =>
    have hbefore : ∀ item ∈ placed 0 text, item.1 < byteLength text := by
      intro item hitem
      simpa using lt_of_mem_placed hitem
    rw [placed_concat, Nat.zero_add]
    by_cases hc : c = '\n'
    · rw [hc, sinceFeeds_concat_feed hbefore]
      simp
    · rw [sinceFeeds_concat hbefore hc, List.length_append, ← ih]
      simp [hc]

namespace Source

variable {source : Source}

/-- **A position counts what stands before its offset**, be this inside a character or past the
    end. -/
theorem position_eq_counts (source : Source) (offset : Nat) :
    source.position offset
      = ⟨(feeds (source.startsBefore offset)).length + 1,
        (sinceFeeds (source.startsBefore offset)).length + 1⟩ := by
  have hafter := Position.advance_after_take offset [] source.chars 0
  rw [Nat.sub_zero, List.nil_append] at hafter
  have hposition : source.position offset
      = .after (source.chars.take (charsBefore 0 offset source.chars)) := hafter
  rw [hposition, startsBefore, filter_placed, ← count_eq_length_feeds,
    ← length_takeWhile_eq_sinceFeeds]
  rfl

theorem position_min_size (source : Source) (offset : Nat) :
    source.position (min offset source.size) = source.position offset :=
  Position.advance_min _ _ _

/-! ### Order -/

/-- Boundaries and their positions are in one order. -/
theorem position_lt_position_iff {a b : Nat} (ha : source.IsBoundary a) (hb : source.IsBoundary b) :
    source.position a < source.position b ↔ a < b := by
  constructor
  · intro hlt
    refine Nat.lt_of_not_le fun hle => ?_
    have hback := source.position_le_position hle
    exact Position.lt_irrefl _ (Position.lt_of_lt_of_le hlt hback)
  · intro hlt
    exact ha.position_lt_position hlt hb.le_size

theorem position_le_position_iff {a b : Nat} (ha : source.IsBoundary a) (hb : source.IsBoundary b) :
    source.position a ≤ source.position b ↔ a ≤ b := by
  constructor
  · intro hle
    refine Nat.le_of_not_lt fun hlt => ?_
    have hback := hb.position_lt_position hlt ha.le_size
    exact Position.lt_irrefl _ (Position.lt_of_le_of_lt hle hback)
  · exact source.position_le_position

/-- The last position of a span that is not empty is the one of its last character, which starts at
    a boundary after all others before the end of the span. -/
theorem exists_extent_last {span : Span} (h : source.HasSpan span) (hlt : span.start < span.stop) :
    ∃ last, source.IsBoundary last ∧ span.start ≤ last ∧ last < span.stop
      ∧ (∀ offset, source.IsBoundary offset → offset < span.stop → offset ≤ last)
      ∧ (source.extent span).last = source.position last := by
  obtain ⟨hbefore, hboundary, hmax⟩ := h.stop_boundary.lastStart (by omega)
  have hstart := hmax span.start h.start_boundary hlt
  refine ⟨_, hboundary, hstart, hbefore, hmax, ?_⟩
  rw [extent, if_neg (by rw [Span.isEmpty, beq_iff_eq]; omega)]
  dsimp only
  rw [Nat.max_eq_left hstart]

/-- **A span contains another if and only if its extent does.**  Both are not empty. -/
theorem contains_iff_extent_contains {outer inner : Span} (ho : source.HasSpan outer)
    (hi : source.HasSpan inner) (houter : outer.start < outer.stop)
    (hinner : inner.start < inner.stop) :
    outer.contains inner = true ↔ (source.extent outer).contains (source.extent inner) = true := by
  obtain ⟨last, hlast, _, hstop, hmax, heq⟩ := exists_extent_last ho houter
  obtain ⟨last', hlast', _, hstop', hmax', heq'⟩ := exists_extent_last hi hinner
  -- the last character of one span is no later than that of the other if its end is not
  have hends : last' ≤ last ↔ inner.stop ≤ outer.stop := by
    constructor
    · intro hle
      refine Nat.le_of_not_lt fun hlt => ?_
      have hback := hmax' outer.stop ho.stop_boundary hlt
      omega
    · intro hle
      exact hmax last' hlast' (by omega)
  simp only [Span.contains, Extent.contains, extent_first, heq, heq', Bool.and_eq_true,
    decide_eq_true_eq, position_le_position_iff ho.start_boundary hi.start_boundary,
    position_le_position_iff hlast' hlast, hends]

/-- **Positions embed offsets.**  The position of an offset counts the line feeds before it and the
    characters since the last of them that start before it, where an offset past the end stands for
    the end; the lookup among the starts of lines finds the same.  On offsets between characters,
    positions increase strictly, and of two spans that are not empty one contains the other if and
    only if its extent does. -/
theorem position_embeds (source : Source) :
    (∀ offset,
      source.position offset
          = ⟨(feeds (source.startsBefore (min offset source.size))).length + 1,
            (sinceFeeds (source.startsBefore (min offset source.size))).length + 1⟩
        ∧ Checked.position source offset = some (source.position offset))
      ∧ (∀ a b, source.IsBoundary a → source.IsBoundary b → a < b →
        source.position a < source.position b)
      ∧ ∀ outer inner : Span, source.HasSpan outer → source.HasSpan inner →
        outer.start < outer.stop → inner.start < inner.stop →
        (outer.contains inner = true
          ↔ (source.extent outer).contains (source.extent inner) = true) := by
  refine ⟨fun offset => ⟨?_, Checked.position_eq source offset⟩, ?_, ?_⟩
  · rw [← position_min_size, position_eq_counts]
  · intro a b ha hb hlt
    exact (position_lt_position_iff ha hb).2 hlt
  · intro outer inner ho hi houter hinner
    exact contains_iff_extent_contains ho hi houter hinner

/-- In two lines with a character of two bytes on each, an offset inside the second of these has the
    position of the next character, one past the end is moved there, and the second line contains
    its last two characters. -/
theorem position_embeds_accented :
    (Source.ofText "é\naéb").position 5 = ⟨2, 3⟩
      ∧ (Source.ofText "é\naéb").position 20 = ⟨2, 4⟩
      ∧ (Source.ofText "é\naéb").position 4 < (Source.ofText "é\naéb").position 6
      ∧ ((Source.ofText "é\naéb").extent ⟨3, 7⟩).contains ((Source.ofText "é\naéb").extent ⟨4, 7⟩)
        = true := by
  obtain ⟨hcounts, hlt, hcontains⟩ := position_embeds (Source.ofText "é\naéb")
  have hthree : (Source.ofText "é\naéb").IsBoundary 3 :=
    ⟨['é', '\n'], ['a', 'é', 'b'], by decide, by decide⟩
  have hfour : (Source.ofText "é\naéb").IsBoundary 4 :=
    ⟨['é', '\n', 'a'], ['é', 'b'], by decide, by decide⟩
  have hsix : (Source.ofText "é\naéb").IsBoundary 6 :=
    ⟨['é', '\n', 'a', 'é'], ['b'], by decide, by decide⟩
  have hseven : (Source.ofText "é\naéb").IsBoundary 7 :=
    ⟨['é', '\n', 'a', 'é', 'b'], [], by decide, by decide⟩
  refine ⟨?_, ?_, hlt 4 6 hfour hsix (by decide), ?_⟩
  · rw [(hcounts 5).1]
    decide
  · rw [(hcounts 20).1]
    decide
  · exact (hcontains ⟨3, 7⟩ ⟨4, 7⟩ ⟨by decide, hthree, hseven⟩ ⟨by decide, hfour, hseven⟩
      (by decide) (by decide)).1 (by decide)

end Source

end CodeMarkup
