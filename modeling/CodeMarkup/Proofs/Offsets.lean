import CodeMarkup.Source

namespace CodeMarkup

/-!
# Offsets into a source

Which offsets fall between characters, what text stands at a span, and how positions follow offsets.

* `Source.IsBoundary`, `Source.HasSpan`, `Source.HasText`: an offset between two characters, a span
  whose ends are such offsets, and the text at a span.
* `Source.slice?_eq_some`, `Source.hasText_of_slice?`: cutting out a span gives the text that stands
  there, and only that.
* `Source.position_le_position`, `Source.IsBoundary.position_lt_position`: a later offset has no
  earlier position, and from a boundary on it has a later one.
* `Source.extent_contains`: the extent of a span contains the extents of the spans inside it.
-/

/-! ### The order of positions -/

namespace Position

theorem le_iff {p q : Position} :
    p ≤ q ↔ p.line < q.line ∨ (p.line = q.line ∧ p.column ≤ q.column) :=
  Iff.rfl

theorem le_refl (p : Position) : p ≤ p := by
  rw [le_iff]
  omega

theorem le_trans {p q r : Position} (h : p ≤ q) (h' : q ≤ r) : p ≤ r := by
  rw [le_iff] at *
  omega

theorem le_total (p q : Position) : p ≤ q ∨ q ≤ p := by
  rw [le_iff, le_iff]
  omega

theorem le_antisymm {p q : Position} (h : p ≤ q) (h' : q ≤ p) : p = q := by
  rw [le_iff] at h h'
  cases p
  cases q
  simp only [mk.injEq]
  dsimp only at h h'
  omega

theorem lt_iff {p q : Position} :
    p < q ↔ p.line < q.line ∨ (p.line = q.line ∧ p.column < q.column) :=
  Iff.rfl

theorem le_of_lt {p q : Position} (h : p < q) : p ≤ q := by
  rw [lt_iff] at h
  rw [le_iff]
  omega

theorem lt_irrefl (p : Position) : ¬p < p := by
  rw [lt_iff]
  omega

theorem lt_of_le_of_ne {p q : Position} (h : p ≤ q) (hne : p ≠ q) : p < q := by
  rw [le_iff] at h
  rw [lt_iff]
  have hcolumn : p.line = q.line → p.column ≠ q.column := by
    intro hline hcolumn
    cases p
    cases q
    simp_all
  omega

theorem lt_of_lt_of_le {p q r : Position} (h : p < q) (h' : q ≤ r) : p < r := by
  rw [lt_iff] at *
  rw [le_iff] at h'
  omega

theorem lt_of_le_of_lt {p q r : Position} (h : p ≤ q) (h' : q < r) : p < r := by
  rw [lt_iff] at *
  rw [le_iff] at h
  omega

instance : @Trans Position Position Position LE.le LE.le LE.le :=
  ⟨le_trans⟩

instance : @Trans Position Position Position LE.le LT.lt LT.lt :=
  ⟨lt_of_le_of_lt⟩

instance : @Trans Position Position Position LT.lt LE.le LT.lt :=
  ⟨lt_of_lt_of_le⟩

/-- One more character leads to a later position. -/
theorem lt_next (p : Position) (c : Char) : p < p.next c := by
  rw [lt_iff]
  unfold next
  split
  · exact Or.inl (Nat.lt_succ_self _)
  · exact Or.inr ⟨rfl, Nat.lt_succ_self _⟩

theorem le_next (p : Position) (c : Char) : p ≤ p.next c :=
  le_of_lt (p.lt_next c)

theorem le_advance (p : Position) (text : List Char) (offset : Nat) :
    p ≤ p.advance text offset := by
  induction text generalizing p offset with
  | nil => exact le_refl p
  | cons c text ih =>
    cases offset with
    | zero => exact le_refl p
    | succ offset => exact le_trans (le_next p c) (ih _ _)

theorem advance_le_advance (p : Position) (text : List Char) {a b : Nat} (h : a ≤ b) :
    p.advance text a ≤ p.advance text b := by
  induction text generalizing p a b with
  | nil => exact le_refl p
  | cons c text ih =>
    cases a with
    | zero => exact le_advance p _ b
    | succ a =>
      -- the later offset is not zero either, so both go past the same character
      obtain ⟨b, rfl⟩ : ∃ n, b = n + 1 := ⟨b - 1, by omega⟩
      exact ih (p.next c) (by omega)

end Position

/-! ### Cutting at byte offsets -/

theorem byteLength_pos {text : List Char} (h : text ≠ []) : 0 < byteLength text := by
  cases text with
  | nil => exact absurd rfl h
  | cons c text =>
    have hc := c.utf8Size_pos
    rw [byteLength]
    omega

/-- From a place between two characters, more of the text leads to a later position. -/
theorem Position.advance_lt_advance (p : Position) (before : List Char) {after : List Char}
    {offset : Nat} (hafter : after ≠ []) (hlt : byteLength before < offset) :
    p.advance (before ++ after) (byteLength before) < p.advance (before ++ after) offset := by
  obtain ⟨offset, rfl⟩ : ∃ n, offset = n + 1 := ⟨offset - 1, by omega⟩
  induction before generalizing p offset with
  | nil =>
    cases after with
    | nil => exact absurd rfl hafter
    | cons c after => exact lt_of_lt_of_le (p.lt_next c) (le_advance _ _ _)
  | cons c before ih =>
    -- the recursion is on a number of bytes, of which a character has at least one
    have hc := c.utf8Size_pos
    rw [byteLength] at hlt ⊢
    obtain ⟨n, hn⟩ : ∃ n, c.utf8Size + byteLength before = n + 1 :=
      ⟨c.utf8Size + byteLength before - 1, by omega⟩
    obtain ⟨m, hm⟩ : ∃ m, offset + 1 - c.utf8Size = m + 1 := ⟨offset - c.utf8Size, by omega⟩
    rw [hn, List.cons_append, advance, advance, ← hn, Nat.add_sub_cancel_left, hm]
    exact ih _ _ (by omega)

theorem byteLength_mono {a b : List Char} (h : a <+: b) : byteLength a ≤ byteLength b := by
  obtain ⟨rest, rfl⟩ := h
  simp

theorem dropBytes_append (before after : List Char) :
    dropBytes (before ++ after) (byteLength before) = some after := by
  induction before with
  | nil => rw [List.nil_append, byteLength, dropBytes.eq_def]
  | cons c before ih =>
    -- the recursion is on a number of bytes, of which a character has at least one
    obtain ⟨n, hn⟩ : ∃ n, byteLength (c :: before) = n + 1 :=
      ⟨byteLength (c :: before) - 1, by have := byteLength_pos (List.cons_ne_nil c before); omega⟩
    have hc : n + 1 = c.utf8Size + byteLength before := by rw [← hn, byteLength]
    rw [hn, List.cons_append, dropBytes, if_pos (by omega), hc, Nat.add_sub_cancel_left, ih]

theorem takeBytes_append (text after : List Char) :
    takeBytes (text ++ after) (byteLength text) = some text := by
  induction text with
  | nil => rw [List.nil_append, byteLength, takeBytes.eq_def]
  | cons c text ih =>
    obtain ⟨n, hn⟩ : ∃ n, byteLength (c :: text) = n + 1 :=
      ⟨byteLength (c :: text) - 1, by have := byteLength_pos (List.cons_ne_nil c text); omega⟩
    have hc : n + 1 = c.utf8Size + byteLength text := by rw [← hn, byteLength]
    rw [hn, List.cons_append, takeBytes, if_pos (by omega), hc, Nat.add_sub_cancel_left, ih]
    rfl

theorem dropBytes_eq_some {text after : List Char} {n : Nat} (h : dropBytes text n = some after) :
    ∃ before, text = before ++ after ∧ byteLength before = n := by
  fun_induction dropBytes text n with
  | case1 text =>
    cases h
    exact ⟨[], rfl, rfl⟩
  | case2 => cases h
  | case3 c text n hle ih =>
    obtain ⟨before, rfl, hlength⟩ := ih h
    refine ⟨c :: before, rfl, ?_⟩
    rw [byteLength, hlength]
    omega
  | case4 => cases h

theorem takeBytes_eq_some {text front : List Char} {n : Nat} (h : takeBytes text n = some front) :
    ∃ back, text = front ++ back ∧ byteLength front = n := by
  fun_induction takeBytes text n generalizing front with
  | case1 text =>
    cases h
    exact ⟨text, rfl, rfl⟩
  | case2 => cases h
  | case3 c text n hle ih =>
    obtain ⟨rest, hrest, rfl⟩ := Option.map_eq_some_iff.1 h
    obtain ⟨back, rfl, hlength⟩ := ih hrest
    refine ⟨back, rfl, ?_⟩
    rw [byteLength, hlength]
    omega
  | case4 => cases h

theorem widthBefore_append (before after : List Char) (c : Char) :
    widthBefore (before ++ c :: after) (byteLength before + c.utf8Size) = c.utf8Size := by
  induction before with
  | nil =>
    rw [List.nil_append, byteLength, Nat.zero_add, widthBefore, if_neg (Nat.lt_irrefl _),
      if_pos rfl]
  | cons d before ih =>
    have hc := c.utf8Size_pos
    -- the first character neither reaches the offset nor ends there
    rw [List.cons_append, widthBefore, byteLength, if_neg (by omega), if_neg (by omega)]
    rw [show d.utf8Size + byteLength before + c.utf8Size - d.utf8Size
      = byteLength before + c.utf8Size by omega, ih]

namespace Source

variable {source : Source}

/-! ### Places in a source -/

/-- An offset that falls between two characters, or at an end. -/
def IsBoundary (source : Source) (offset : Nat) : Prop :=
  ∃ before after, source.chars = before ++ after ∧ byteLength before = offset

/-- A span in order whose ends fall between characters. -/
structure HasSpan (source : Source) (span : Span) : Prop where
  start_le : span.start ≤ span.stop
  start_boundary : source.IsBoundary span.start
  stop_boundary : source.IsBoundary span.stop

/-- The characters at a span. -/
def HasText (source : Source) (span : Span) (text : List Char) : Prop :=
  ∃ before after, source.chars = before ++ text ++ after
    ∧ byteLength before = span.start ∧ span.stop = span.start + byteLength text

theorem IsBoundary.le_size {offset : Nat} (h : source.IsBoundary offset) :
    offset ≤ source.size := by
  obtain ⟨before, after, hchars, rfl⟩ := h
  rw [size, hchars, byteLength_append]
  exact Nat.le_add_right _ _

theorem isBoundary_size : source.IsBoundary source.size :=
  ⟨source.chars, [], (List.append_nil _).symm, rfl⟩

theorem IsBoundary.hasSpan_point {offset : Nat} (h : source.IsBoundary offset) :
    source.HasSpan (.point offset) :=
  ⟨Nat.le_refl _, h, h⟩

theorem HasText.hasSpan {span : Span} {text : List Char} (h : source.HasText span text) :
    source.HasSpan span := by
  obtain ⟨before, after, hchars, hstart, hstop⟩ := h
  refine ⟨by omega, ⟨before, text ++ after, by rw [hchars, List.append_assoc], hstart⟩,
    ⟨before ++ text, after, hchars, ?_⟩⟩
  rw [byteLength_append, hstart, hstop]

/-- A part of the text at a span stands at a part of the span. -/
theorem HasText.part {span : Span} (front middle back : List Char)
    (h : source.HasText span (front ++ middle ++ back)) :
    source.HasText
      ⟨span.start + byteLength front, span.start + byteLength (front ++ middle)⟩ middle := by
  obtain ⟨before, after, hchars, hstart, hstop⟩ := h
  -- the front of the text goes to what stands before, its back to what stands after
  refine ⟨before ++ front, back ++ after, ?_, ?_, ?_⟩
  · rw [hchars]
    simp only [List.append_assoc]
  · rw [byteLength_append, hstart]
  · simp only [byteLength_append]
    omega

/-- Cutting out a span gives the text that stands there. -/
theorem slice?_eq_some {span : Span} {text : List Char} (h : source.HasText span text) :
    source.slice? span = some text := by
  obtain ⟨before, after, hchars, hstart, hstop⟩ := h
  have hsize : span.size = byteLength text := by rw [Span.size, hstop]; omega
  rw [slice?, if_pos (by omega), hchars, ← hstart, List.append_assoc, dropBytes_append]
  show takeBytes (text ++ after) span.size = some text
  rw [hsize, takeBytes_append]

/-- What can be cut out of a source stands there. -/
theorem hasText_of_slice? {span : Span} {text : List Char}
    (h : source.slice? span = some text) : source.HasText span text := by
  unfold slice? at h
  split at h
  · next hle =>
    obtain ⟨after, hdrop, htake⟩ := Option.bind_eq_some_iff.1 h
    obtain ⟨before, hchars, hbefore⟩ := dropBytes_eq_some hdrop
    obtain ⟨back, rfl, hlength⟩ := takeBytes_eq_some htake
    refine ⟨before, back, by rw [hchars, List.append_assoc], hbefore, ?_⟩
    rw [hlength, Span.size]
    omega
  · cases h

/-! ### Positions -/

/-- A later offset has no earlier position. -/
theorem position_le_position (source : Source) {a b : Nat} (h : a ≤ b) :
    source.position a ≤ source.position b :=
  Position.advance_le_advance _ _ h

/-- From a boundary on, a later offset has a later position. -/
theorem IsBoundary.position_lt_position {a b : Nat} (ha : source.IsBoundary a) (hlt : a < b)
    (hb : b ≤ source.size) : source.position a < source.position b := by
  obtain ⟨before, after, hchars, rfl⟩ := ha
  unfold position
  rw [size, hchars, byteLength_append] at hb
  rw [hchars]
  refine Position.advance_lt_advance _ before ?_ hlt
  rintro rfl
  rw [byteLength] at hb
  omega

/-- The last character before a boundary starts at a boundary, and no other boundary stands between
    the two. -/
theorem IsBoundary.lastStart {stop : Nat} (h : source.IsBoundary stop) (hpos : 0 < stop) :
    stop - widthBefore source.chars stop < stop
      ∧ source.IsBoundary (stop - widthBefore source.chars stop)
      ∧ ∀ offset, source.IsBoundary offset → offset < stop →
        offset ≤ stop - widthBefore source.chars stop := by
  obtain ⟨before, after, hchars, rfl⟩ := h
  rcases List.eq_nil_or_concat before with rfl | ⟨init, c, rfl⟩
  · exact absurd hpos (Nat.lt_irrefl _)
  · have hc := c.utf8Size_pos
    rw [List.concat_eq_append] at hchars hpos ⊢
    rw [List.append_assoc, List.singleton_append] at hchars
    have hlen : byteLength (init ++ [c]) = byteLength init + c.utf8Size := by simp [byteLength]
    have hwidth : widthBefore source.chars (byteLength (init ++ [c])) = c.utf8Size := by
      rw [hlen, hchars, widthBefore_append]
    rw [hwidth, hlen, Nat.add_sub_cancel]
    refine ⟨by omega, ⟨init, c :: after, hchars, rfl⟩, ?_⟩
    rintro offset ⟨before', after', hchars', rfl⟩ hlt
    -- both are prefixes of the source, and the shorter one ends no later than `init`
    have hbefore : before' <+: source.chars := ⟨after', hchars'.symm⟩
    have hend : init ++ [c] <+: source.chars := ⟨after, by rw [hchars]; simp⟩
    rcases List.prefix_or_prefix_of_prefix hbefore hend with h | h
    · rcases List.prefix_concat_iff.1 h with rfl | h
      · omega
      · exact byteLength_mono h
    · have := byteLength_mono h
      omega

theorem extent_first (source : Source) (span : Span) :
    (source.extent span).first = source.position span.start := by
  unfold extent
  dsimp only
  split <;> rfl

/-- What stops before an offset has its last character before the position there, also if it is
    empty and starts before. -/
theorem extent_last_lt {span : Span} {offset : Nat} (h : source.HasSpan span)
    (hstart : span.start < offset) (hstop : span.stop ≤ offset) (hoffset : offset ≤ source.size) :
    (source.extent span).last < source.position offset := by
  unfold extent
  dsimp only
  split
  · exact h.start_boundary.position_lt_position hstart hoffset
  · next hempty =>
    rw [Span.isEmpty, beq_iff_eq] at hempty
    have hle := h.start_le
    obtain ⟨hbefore, hboundary, hlast⟩ := h.stop_boundary.lastStart (by omega)
    have hmax := hlast span.start h.start_boundary (by omega)
    rw [Nat.max_eq_left hmax]
    exact hboundary.position_lt_position (by omega) hoffset

/-- The extent of a span contains the extents of the spans inside it.  An empty span has to start
    before the end of the outer one: at the end its position would be past the last character. -/
theorem extent_contains {outer inner : Span} (ho : source.HasSpan outer)
    (hi : source.HasSpan inner) (hstart : outer.start ≤ inner.start)
    (hlt : inner.start < outer.stop) (hstop : inner.stop ≤ outer.stop) :
    (source.extent outer).contains (source.extent inner) = true := by
  have hle := hi.start_le
  -- every boundary before the end of the outer span is at most its last character
  obtain ⟨_, _, hlast⟩ := ho.stop_boundary.lastStart (by omega)
  have houter : source.extent outer = ⟨source.position outer.start,
      source.position (max (outer.stop - widthBefore source.chars outer.stop) outer.start)⟩ := by
    rw [extent, if_neg (by rw [Span.isEmpty, beq_iff_eq]; omega)]
  rw [houter, extent]
  split
  -- an empty span: its extent is the position at which it starts
  · have h := hlast inner.start hi.start_boundary hlt
    simp only [Extent.contains, Bool.and_eq_true, decide_eq_true_eq]
    exact ⟨position_le_position _ hstart, position_le_position _ (by omega)⟩
  · next hempty =>
    rw [Span.isEmpty, beq_iff_eq] at hempty
    -- otherwise the last characters of both spans are compared
    obtain ⟨hbefore, hboundary, hinner⟩ := hi.stop_boundary.lastStart (by omega)
    have h₁ := hinner inner.start hi.start_boundary (by omega)
    have h₂ := hlast _ hboundary (by omega)
    simp only [Extent.contains, Bool.and_eq_true, decide_eq_true_eq]
    exact ⟨position_le_position _ hstart, position_le_position _ (by omega)⟩

end Source

end CodeMarkup
