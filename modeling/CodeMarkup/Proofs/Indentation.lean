import CodeMarkup.Dedent
import CodeMarkup.Proofs.Safety.Lines
import Mathlib.Data.List.Forall2
import Mathlib.Data.List.TakeWhile

namespace CodeMarkup

/-!
# Shared indentation

What `dedentLines` takes off its lines, and that nothing more can be taken off after it.

* `sharedIndent`, `sharedTail`: the blanks that all lines have in front, and behind.
* `IsPadded`: a line with more blanks around it.
* `dedentLines_padded`: padding all lines alike changes nothing.
* `isPadded_dedentLines`: lines are what `dedentLines` makes of them, padded by what they share.
* `dedentLines_canonical`: so `dedentLines` is a canonical form of lines up to padding.
-/

/-! ### Blanks around a line -/

theorem isBlankLine_append (a b : List Char) :
    isBlankLine (a ++ b) = (isBlankLine a && isBlankLine b) :=
  List.all_append

theorem isBlankLine_reverse (line : List Char) : isBlankLine line.reverse = isBlankLine line :=
  List.all_reverse

theorem isBlank_of_isBlankLine {line : List Char} (h : isBlankLine line = true) :
    ∀ c ∈ line, isBlank c = true :=
  List.all_eq_true.1 h

/-- A line that is not blank has a character after its indentation. -/
theorem dropWhile_isBlank_ne_nil {line : List Char} (h : isBlankLine line = false) :
    line.dropWhile isBlank ≠ [] := by
  intro hnil
  have hall : isBlankLine line = true := List.all_eq_true.2 (List.dropWhile_eq_nil_iff.1 hnil)
  rw [h] at hall
  cases hall

theorem isBlankLine_dropWhile {line : List Char} (h : isBlankLine line = false) :
    isBlankLine (line.dropWhile isBlank) = false := by
  have happ := isBlankLine_append (line.takeWhile isBlank) (line.dropWhile isBlank)
  have hfront : isBlankLine (line.takeWhile isBlank) = true := List.all_takeWhile
  rw [List.takeWhile_append_dropWhile, h, hfront, Bool.true_and] at happ
  exact happ.symm

/-- Blanks in front add to the indentation. -/
theorem indentation_blank_append {front : List Char} (h : isBlankLine front = true)
    (line : List Char) : indentation (front ++ line) = front.length + indentation line := by
  unfold indentation
  rw [List.takeWhile_append_of_pos (isBlank_of_isBlankLine h), List.length_append]

/-- What follows a line that is not blank does not. -/
theorem indentation_append {line : List Char} (h : isBlankLine line = false) (back : List Char) :
    indentation (line ++ back) = indentation line := by
  have hshort : (line.takeWhile isBlank).length ≠ line.length := by
    intro hlength
    have hsplit := congrArg List.length (List.takeWhile_append_dropWhile (p := isBlank) (l := line))
    have hpos := List.length_pos_iff.2 (dropWhile_isBlank_ne_nil h)
    rw [List.length_append] at hsplit
    omega
  unfold indentation
  rw [List.takeWhile_append, if_neg hshort]

/-- The blanks in front of a line and those behind it do not overlap. -/
theorem indentation_add_le {line : List Char} (h : isBlankLine line = false) :
    indentation line + indentation line.reverse ≤ line.length := by
  have hsplit := List.takeWhile_append_dropWhile (p := isBlank) (l := line)
  have hlength := congrArg List.length hsplit
  have hsolid : isBlankLine (line.dropWhile isBlank).reverse = false := by
    rw [isBlankLine_reverse]
    exact isBlankLine_dropWhile h
  -- counted from the end, the blanks stop before the indentation is reached
  have hback : indentation line.reverse ≤ (line.dropWhile isBlank).length :=
    calc indentation line.reverse
        = indentation ((line.dropWhile isBlank).reverse ++ (line.takeWhile isBlank).reverse) := by
          rw [← List.reverse_append, hsplit]
      _ = indentation (line.dropWhile isBlank).reverse := indentation_append hsolid _
      _ ≤ (line.dropWhile isBlank).reverse.length := (List.takeWhile_sublist _).length_le
      _ = (line.dropWhile isBlank).length := List.length_reverse
  rw [List.length_append] at hlength
  unfold indentation at hback ⊢
  omega

/-- Blanks in front and behind are trimmed off. -/
theorem trimBlanks_padded {front line back : List Char} (hfront : isBlankLine front = true)
    (hback : isBlankLine back = true) (hline : isBlankLine line = false) :
    trimBlanks (front ++ line ++ back) = trimBlanks line := by
  have hne : (line.dropWhile isBlank).isEmpty = false :=
    List.isEmpty_eq_false_iff.2 (dropWhile_isBlank_ne_nil hline)
  have hblank : ∀ c ∈ back.reverse, isBlank c = true :=
    fun c hc => isBlank_of_isBlankLine hback c (List.mem_reverse.1 hc)
  unfold trimBlanks
  rw [List.append_assoc, List.dropWhile_append_of_pos (isBlank_of_isBlankLine hfront),
    List.dropWhile_append, hne, if_neg Bool.false_ne_true, List.reverse_append,
    List.dropWhile_append_of_pos hblank]

/-! ### What lines share -/

/-- The least blanks in front of the lines that are not blank. -/
def sharedIndent (lines : List (List Char)) : Nat :=
  leastOf ((lines.filter (!isBlankLine ·)).map indentation)

/-- The least blanks behind them. -/
def sharedTail (lines : List (List Char)) : Nat :=
  leastOf ((lines.filter (!isBlankLine ·)).map fun line => indentation line.reverse)

/-- A line without some characters at both ends, or nothing if it is blank. -/
def stripLine (leading trailing : Nat) (line : List Char) : List Char :=
  if isBlankLine line then []
  else (line.drop leading).take (line.length - leading - trailing)

theorem dedentLines_eq (lines : List (List Char)) :
    dedentLines lines = lines.map (stripLine (sharedIndent lines) (sharedTail lines)) :=
  rfl

theorem stripLine_blank {line : List Char} (h : isBlankLine line = true) (leading trailing : Nat) :
    stripLine leading trailing line = [] :=
  if_pos h

theorem stripLine_solid {line : List Char} (h : isBlankLine line = false)
    (leading trailing : Nat) :
    stripLine leading trailing line = (line.drop leading).take (line.length - leading - trailing) :=
  if_neg (by rw [h]; exact Bool.false_ne_true)

theorem leastOf_le {counts : List Nat} {n : Nat} (h : n ∈ counts) : leastOf counts ≤ n := by
  unfold leastOf
  cases hmin : counts.min? with
  | none => exact Nat.zero_le n
  | some least => exact (List.min?_eq_some_iff.1 hmin).2 n h

/-- Counts that all grow by the same number have a least one that does. -/
theorem leastOf_map_add {counts : List Nat} (h : counts ≠ []) (n : Nat) :
    leastOf (counts.map (· + n)) = leastOf counts + n := by
  obtain ⟨least, hmin⟩ : ∃ least, counts.min? = some least :=
    Option.isSome_iff_exists.1 (by simpa using h)
  obtain ⟨hmem, hle⟩ := List.min?_eq_some_iff.1 hmin
  have hmap : (counts.map (· + n)).min? = some (least + n) := by
    refine List.min?_eq_some_iff.2 ⟨List.mem_map.2 ⟨least, hmem, rfl⟩, fun count hcount => ?_⟩
    obtain ⟨other, hother, rfl⟩ := List.mem_map.1 hcount
    exact Nat.add_le_add_right (hle other hother) n
  rw [leastOf, leastOf, hmin, hmap]
  rfl

theorem sharedIndent_le {lines : List (List Char)} {line : List Char} (hmem : line ∈ lines)
    (h : isBlankLine line = false) : sharedIndent lines ≤ indentation line :=
  leastOf_le (List.mem_map.2 ⟨line, List.mem_filter.2 ⟨hmem, by rw [h]; rfl⟩, rfl⟩)

theorem sharedTail_le {lines : List (List Char)} {line : List Char} (hmem : line ∈ lines)
    (h : isBlankLine line = false) : sharedTail lines ≤ indentation line.reverse :=
  leastOf_le (List.mem_map.2 ⟨line, List.mem_filter.2 ⟨hmem, by rw [h]; rfl⟩, rfl⟩)

/-! ### Padded lines -/

/-- A line with some more blanks in front of it and behind it.  Which blanks these are is left open,
    and a blank line may become any other. -/
inductive IsPadded (before behind : Nat) : List Char → List Char → Prop where
  | blank {line other : List Char} (hline : isBlankLine line = true)
      (hother : isBlankLine other = true) : IsPadded before behind line other
  | solid {line front back : List Char} (hline : isBlankLine line = false)
      (hfront : isBlankLine front = true) (hback : isBlankLine back = true)
      (hbefore : front.length = before) (hbehind : back.length = behind) :
      IsPadded before behind line (front ++ line ++ back)

namespace IsPadded

variable {before behind : Nat} {line padded : List Char}

theorem isBlankLine_eq (h : IsPadded before behind line padded) :
    isBlankLine padded = isBlankLine line := by
  cases h with
  | blank hline hother => rw [hline, hother]
  | solid hline _ _ _ _ => simp [isBlankLine_append, hline]

theorem trimBlanks_eq (h : IsPadded before behind line padded) (hline : isBlankLine line = false) :
    trimBlanks padded = trimBlanks line := by
  cases h with
  | blank hblank _ =>
    rw [hblank] at hline
    cases hline
  | solid _ hfront hback _ _ => exact trimBlanks_padded hfront hback hline

theorem indentation_eq (h : IsPadded before behind line padded) (hline : isBlankLine line = false) :
    indentation padded = indentation line + before := by
  cases h with
  | blank hblank _ =>
    rw [hblank] at hline
    cases hline
  | solid _ hfront _ hbefore _ =>
    rw [List.append_assoc, indentation_blank_append hfront, indentation_append hline, hbefore,
      Nat.add_comm]

/-- Read from the end, a padded line is the line so read, padded. -/
theorem reverse (h : IsPadded before behind line padded) :
    IsPadded behind before line.reverse padded.reverse := by
  cases h with
  | blank hline hother =>
    exact .blank (by rwa [isBlankLine_reverse]) (by rwa [isBlankLine_reverse])
  | solid hline hfront hback hbefore hbehind =>
    rw [List.reverse_append, List.reverse_append, ← List.append_assoc]
    exact .solid (by rwa [isBlankLine_reverse]) (by rwa [isBlankLine_reverse])
      (by rwa [isBlankLine_reverse]) (by rwa [List.length_reverse]) (by rwa [List.length_reverse])

/-- Stripping the padding with what would be stripped without it. -/
theorem stripLine_eq (h : IsPadded before behind line padded) (leading trailing : Nat) :
    stripLine (leading + before) (trailing + behind) padded = stripLine leading trailing line := by
  cases h with
  | blank hline hother => rw [stripLine_blank hline, stripLine_blank hother]
  | @solid front back hline hfront hback hbefore hbehind =>
    have hsolid : isBlankLine (front ++ line ++ back) = false := by
      simp [isBlankLine_append, hline]
    have hlength : (front ++ line ++ back).length - (leading + before) - (trailing + behind)
        = line.length - leading - trailing := by
      simp only [List.length_append]
      omega
    have hdrop : (front ++ line ++ back).drop (leading + before)
        = line.drop leading ++ back.drop (leading - line.length) := by
      rw [Nat.add_comm, ← hbefore, List.append_assoc, ← List.drop_drop, List.drop_left,
        List.drop_append]
    rw [stripLine_solid hline, stripLine_solid hsolid, hlength, hdrop]
    exact List.take_append_of_le_length (by rw [List.length_drop]; omega)

end IsPadded

/-- What is counted in lines that are not blank, and grows by `n` in each. -/
theorem counts_padded {before behind n : Nat} {lines padded : List (List Char)}
    {count : List Char → Nat} (h : List.Forall₂ (IsPadded before behind) lines padded)
    (hcount : ∀ line other, IsPadded before behind line other → isBlankLine line = false →
      count other = count line + n) :
    (padded.filter (!isBlankLine ·)).map count
      = ((lines.filter (!isBlankLine ·)).map count).map (· + n) := by
  induction h with
  | nil => rfl
  | @cons line other lines padded hfirst _ ih =>
    have hsame := hfirst.isBlankLine_eq
    cases hline : isBlankLine line with
    | true =>
      rw [hline] at hsame
      simpa [hline, hsame] using ih
    | false =>
      rw [hline] at hsame
      simpa [hline, hsame, hcount line other hfirst hline] using ih

/-- **Padding is taken off again.**  Lines that are padded alike come out as they would have without
    the padding. -/
theorem dedentLines_padded {before behind : Nat} {lines padded : List (List Char)}
    (h : List.Forall₂ (IsPadded before behind) lines padded) :
    dedentLines padded = dedentLines lines := by
  have hindents := counts_padded h fun _ _ hline => hline.indentation_eq
  have htails := counts_padded h fun _ _ hline hsolid =>
    hline.reverse.indentation_eq ((isBlankLine_reverse _).trans hsolid)
  rw [dedentLines_eq, dedentLines_eq, eq_comm, ← List.forall₂_eq_eq_eq, List.forall₂_map_left_iff,
    List.forall₂_map_right_iff]
  by_cases hsolid : lines.filter (!isBlankLine ·) = []
  · -- every line is blank, and nothing is left of it with the padding or without
    have hblank : ∀ line ∈ lines, isBlankLine line = true := by simpa using hsolid
    refine List.Forall₂.imp ?_ ((List.forall₂_and_left lines padded).2 ⟨hblank, h⟩)
    rintro line other ⟨hline, hpadded⟩
    rw [stripLine_blank hline, stripLine_blank (hpadded.isBlankLine_eq.trans hline)]
  · have hindent : sharedIndent padded = sharedIndent lines + before := by
      rw [sharedIndent, hindents]
      exact leastOf_map_add (by simpa using hsolid) before
    have htail : sharedTail padded = sharedTail lines + behind := by
      rw [sharedTail, htails]
      exact leastOf_map_add (by simpa using hsolid) behind
    refine h.imp fun line other hpadded => ?_
    rw [hindent, htail]
    exact (hpadded.stripLine_eq _ _).symm

/-! ### Stripped lines -/

/-- The first characters of a line, if they are no more than its indentation. -/
theorem isBlankLine_take {line : List Char} {n : Nat} (h : n ≤ indentation line) :
    isBlankLine (line.take n) = true := by
  have hbegins : line.take n <+: line.takeWhile isBlank :=
    List.prefix_of_prefix_length_le (List.take_prefix n line) (List.takeWhile_prefix isBlank)
      (Nat.le_trans (List.length_take_le n line) h)
  exact List.all_eq_true.2 fun c hc =>
    List.mem_takeWhile_imp (hbegins.subset hc)

/-- A line is what is left when blanks are stripped off it, padded with these. -/
theorem isPadded_stripLine {line : List Char} {leading trailing : Nat}
    (hleading : isBlankLine line = false → leading ≤ indentation line)
    (htrailing : isBlankLine line = false → trailing ≤ indentation line.reverse) :
    IsPadded leading trailing (stripLine leading trailing line) line := by
  cases hline : isBlankLine line with
  | true =>
    rw [stripLine_blank hline]
    exact .blank rfl hline
  | false =>
    have hle := indentation_add_le hline
    have hfront := hleading hline
    have hback := htrailing hline
    rw [stripLine_solid hline]
    -- the line in three parts, of which the first and the last are blank
    have hparts : line.take leading ++ (line.drop leading).take (line.length - leading - trailing)
        ++ line.drop (line.length - trailing) = line := by
      have hstop : leading + (line.length - leading - trailing) = line.length - trailing := by omega
      rw [← hstop, ← List.drop_drop, List.append_assoc, List.take_append_drop,
        List.take_append_drop]
    have hfirst : isBlankLine (line.take leading) = true := isBlankLine_take hfront
    have hlast : isBlankLine (line.drop (line.length - trailing)) = true := by
      rw [← isBlankLine_reverse, ← List.take_reverse]
      exact isBlankLine_take hback
    have hmiddle : isBlankLine ((line.drop leading).take (line.length - leading - trailing))
        = false := by
      rw [← hparts, isBlankLine_append, isBlankLine_append, hfirst, hlast] at hline
      simpa using hline
    have hpadded : IsPadded leading trailing _ _ := .solid hmiddle hfirst hlast
      (by rw [List.length_take]; omega) (by rw [List.length_drop]; omega)
    rwa [hparts] at hpadded

/-- **Lines are padded by what they share.** -/
theorem isPadded_dedentLines (lines : List (List Char)) :
    List.Forall₂ (IsPadded (sharedIndent lines) (sharedTail lines)) (dedentLines lines) lines := by
  rw [dedentLines_eq, List.forall₂_map_left_iff, List.forall₂_same]
  intro line hline
  exact isPadded_stripLine (sharedIndent_le hline) (sharedTail_le hline)

theorem dedentLines_idempotent (lines : List (List Char)) :
    dedentLines (dedentLines lines) = dedentLines lines :=
  (dedentLines_padded (isPadded_dedentLines lines)).symm

/-- What a text is dedented to shares no more indentation. -/
theorem dedentLines_dedent (raw : List Char) : dedentLines (dedent raw) = dedent raw := by
  unfold dedent
  dsimp only
  split
  · rfl
  · exact dedentLines_idempotent _

/-! ### Checked lengths -/

namespace Checked

/-- `dedentLines` with subtractions that can fail. -/
def dedentLines (lines : List (List Char)) : Option (List (List Char)) :=
  lines.mapM fun line =>
    if isBlankLine line then some []
    else do
      let length ← minus (← minus line.length (sharedIndent lines)) (sharedTail lines)
      return (line.drop (sharedIndent lines)).take length

/-- What no item fails in does not fail. -/
theorem mapM_eq_some {α β : Type} {f : α → Option β} {g : α → β} {items : List α}
    (h : ∀ a ∈ items, f a = some (g a)) : items.mapM f = some (items.map g) := by
  induction items with
  | nil => rfl
  | cons a items ih =>
    rw [List.mapM_cons, h a (by simp), ih fun b hb => h b (by simp [hb])]
    rfl

/-- No line is shorter than what is taken off it. -/
theorem dedentLines_eq (lines : List (List Char)) :
    dedentLines lines = some (CodeMarkup.dedentLines lines) := by
  rw [CodeMarkup.dedentLines_eq]
  refine mapM_eq_some fun line hmem => ?_
  cases hline : isBlankLine line with
  | true =>
    rw [stripLine_blank hline]
    rfl
  | false =>
    have hle := indentation_add_le hline
    have hfront := sharedIndent_le hmem hline
    have hback := sharedTail_le hmem hline
    rw [stripLine_solid hline, minus_eq (by omega), Option.bind_eq_bind, Option.bind_some,
      minus_eq (by omega)]
    rfl

end Checked

/-! ### The canonical form -/

/-- **Dedented lines are a canonical form.**  Dedenting once more changes nothing, and lines that
    differ in padding only are dedented to the same: any blanks, as many for each line, may stand in
    front of the lines that are not blank, behind them, or both.  Line by line, a blank line comes
    out empty, and any other keeps what stands between its first and its last character that is no
    blank.  No subtraction of lengths fails, and what a text is dedented to is dedented already. -/
theorem dedentLines_canonical (lines : List (List Char)) :
    dedentLines (dedentLines lines) = dedentLines lines
      ∧ (∀ before behind padded, List.Forall₂ (IsPadded before behind) lines padded →
        dedentLines padded = dedentLines lines)
      ∧ List.Forall₂ (fun line result => (isBlankLine line = true → result = [])
          ∧ (isBlankLine line = false →
            isBlankLine result = false ∧ trimBlanks result = trimBlanks line))
        lines (dedentLines lines)
      ∧ Checked.dedentLines lines = some (dedentLines lines)
      ∧ ∀ raw, dedentLines (dedent raw) = dedent raw := by
  refine ⟨dedentLines_idempotent lines, fun before behind padded => dedentLines_padded, ?_,
    Checked.dedentLines_eq lines, dedentLines_dedent⟩
  rw [dedentLines_eq, List.forall₂_map_right_iff, List.forall₂_same]
  intro line hline
  have hpadded := isPadded_stripLine (sharedIndent_le hline) (sharedTail_le hline)
  refine ⟨fun hblank => stripLine_blank hblank _ _, fun hsolid => ?_⟩
  have hresult := hpadded.isBlankLine_eq.symm.trans hsolid
  exact ⟨hresult, (hpadded.trimBlanks_eq hresult).symm⟩

/-- Two lines around a blank one, with a tab in front of the first and a wide space in front of the
    last. -/
theorem dedentLines_canonical_mixed :
    List.Forall₂ (IsPadded 1 0) ["  a b".toList, " ".toList, "  c ".toList]
        ["\t  a b".toList, "".toList, "\u3000  c ".toList]
      ∧ dedentLines ["  a b".toList, " ".toList, "  c ".toList]
        = ["a b".toList, [], "c ".toList]
      ∧ dedentLines ["\t  a b".toList, "".toList, "\u3000  c ".toList]
        = ["a b".toList, [], "c ".toList] := by
  have hpadded : List.Forall₂ (IsPadded 1 0) ["  a b".toList, " ".toList, "  c ".toList]
      ["\t  a b".toList, "".toList, "\u3000  c ".toList] :=
    .cons (@IsPadded.solid 1 0 _ ['\t'] [] rfl rfl rfl rfl rfl) (.cons (.blank rfl rfl)
      (.cons (@IsPadded.solid 1 0 _ ['\u3000'] [] rfl rfl rfl rfl rfl) .nil))
  have hdedent : dedentLines ["  a b".toList, " ".toList, "  c ".toList]
      = ["a b".toList, [], "c ".toList] := by decide +kernel
  exact ⟨hpadded, hdedent, ((dedentLines_canonical _).2.1 _ _ _ hpadded).trans hdedent⟩

end CodeMarkup
