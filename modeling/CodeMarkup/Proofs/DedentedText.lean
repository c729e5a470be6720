import CodeMarkup.Proofs.Indentation

namespace CodeMarkup

/-!
# Dedented text

The lines of a text that was dedented are joined to a text again, and that text is dedented in turn.
A line break next to a delimiter is dropped each time, so an empty line at either end of the lines
is taken for one.

* `joinLines`: lines with line feeds between them; `splitLines_joinLines` splits them again.
* `dropEmptyEnds`: lines without an empty one at their head and without one at their end.
* `dedent_joinLines`: what dedented lines that are joined are dedented to.
* `dedent_joinLines_dedent`: a text that was dedented already stays as it is if and only if no empty
  line stands at its ends.
-/

/-- Lines as one text, with line feeds between them. -/
def joinLines (lines : List (List Char)) : List Char :=
  ['\n'].intercalate lines

/-- Lines without an empty one at their head. -/
def dropEmptyFirst : List (List Char) → List (List Char)
  | [] :: lines => lines
  | lines => lines

/-- Lines without an empty one at their end. -/
def dropEmptyLast (lines : List (List Char)) : List (List Char) :=
  if lines.getLast? = some [] then lines.dropLast else lines

/-- Lines without an empty one at their head and without one at their end. -/
def dropEmptyEnds (lines : List (List Char)) : List (List Char) :=
  dropEmptyLast (dropEmptyFirst lines)

/-! ### Joining and splitting -/

@[simp] theorem joinLines_nil : joinLines [] = [] :=
  rfl

@[simp] theorem joinLines_singleton (line : List Char) : joinLines [line] = line :=
  List.intercalate_singleton

theorem joinLines_cons {lines : List (List Char)} (h : lines ≠ []) (line : List Char) :
    joinLines (line :: lines) = line ++ '\n' :: joinLines lines := by
  cases lines with
  | nil => exact absurd rfl h
  | cons next lines => simp [joinLines, List.intercalate_cons_cons]

theorem joinLines_concat {lines : List (List Char)} (h : lines ≠ []) (last : List Char) :
    joinLines (lines ++ [last]) = joinLines lines ++ '\n' :: last := by
  induction lines with
  | nil => exact absurd rfl h
  | cons line lines ih =>
    by_cases hlines : lines = []
    · simp [hlines, joinLines_cons]
    · have hmore : lines ++ [last] ≠ [] := by simp
      rw [List.cons_append, joinLines_cons hmore, joinLines_cons hlines, ih hlines]
      simp

/-- A character of joined lines is one of a line or a line feed between them. -/
theorem mem_of_mem_joinLines {lines : List (List Char)} {c : Char} (h : c ∈ joinLines lines) :
    c = '\n' ∨ ∃ line ∈ lines, c ∈ line := by
  induction lines with
  | nil => simp at h
  | cons line lines ih =>
    by_cases hlines : lines = []
    · simp only [hlines, joinLines_singleton] at h
      exact .inr ⟨line, by simp, h⟩
    · simp only [joinLines_cons hlines, List.mem_append, List.mem_cons] at h
      rcases h with hline | hbreak | hlater
      · exact .inr ⟨line, by simp, hline⟩
      · exact .inl hbreak
      · rcases ih hlater with hbreak | ⟨other, hother, hc⟩
        · exact .inl hbreak
        · exact .inr ⟨other, by simp [hother], hc⟩

theorem mem_joinLines_of_mem {lines : List (List Char)} {line : List Char} {c : Char}
    (hline : line ∈ lines) (hc : c ∈ line) : c ∈ joinLines lines := by
  induction lines with
  | nil => cases hline
  | cons first lines ih =>
    by_cases hlines : lines = []
    · simp_all
    · rw [joinLines_cons hlines]
      rcases List.mem_cons.1 hline with rfl | hlater
      · simp [hc]
      · simp [ih hlater]

/-- Joined lines are blank if all of them are. -/
theorem all_isBlank_joinLines (lines : List (List Char)) :
    (joinLines lines).all isBlank = lines.all isBlankLine := by
  induction lines with
  | nil => rfl
  | cons line lines ih =>
    by_cases hlines : lines = []
    · simp [hlines, isBlankLine]
    · have hbreak : isBlank '\n' = true := by decide
      simp only [joinLines_cons hlines, List.all_append, List.all_cons, hbreak, ih, isBlankLine,
        Bool.true_and]

theorem splitLines_ne_nil (text : List Char) : splitLines text ≠ [] := by
  fun_cases splitLines text <;> simp

/-- A text is its lines, joined. -/
theorem joinLines_splitLines (text : List Char) : joinLines (splitLines text) = text := by
  induction text with
  | nil => rfl
  | cons c text ih =>
    by_cases hc : c = '\n'
    · simp [splitLines, hc, joinLines_cons (splitLines_ne_nil text), ih]
    · cases hlines : splitLines text with
      | nil => exact absurd hlines (splitLines_ne_nil text)
      | cons line lines =>
        -- the character goes in front of the first line, whether others follow it or not
        rw [hlines] at ih
        simp only [splitLines, if_neg hc, hlines]
        by_cases hmore : lines = []
        · simpa [hmore] using ih
        · rw [joinLines_cons hmore, List.cons_append, ← joinLines_cons hmore, ih]

theorem break_not_mem_of_mem_splitLines {text line : List Char} (h : line ∈ splitLines text) :
    '\n' ∉ line := by
  induction text generalizing line with
  | nil => simp_all [splitLines]
  | cons c text ih =>
    by_cases hc : c = '\n'
    · simp only [splitLines, if_pos hc, List.mem_cons] at h
      rcases h with rfl | hlater
      · simp
      · exact ih hlater
    · cases hlines : splitLines text with
      | nil => exact absurd hlines (splitLines_ne_nil text)
      | cons first lines =>
        simp only [splitLines, if_neg hc, hlines, List.mem_cons] at h
        rw [hlines] at ih
        rcases h with rfl | hlater
        · have hfirst := ih (List.mem_cons_self ..)
          simp [Ne.symm hc, hfirst]
        · exact ih (List.mem_cons_of_mem _ hlater)

/-- Splitting takes the first line off. -/
theorem splitLines_append {line : List Char} (h : '\n' ∉ line) (text : List Char) :
    splitLines (line ++ '\n' :: text) = line :: splitLines text := by
  induction line with
  | nil => simp [splitLines]
  | cons c line ih =>
    simp only [List.mem_cons, not_or] at h
    rw [List.cons_append, splitLines, if_neg (Ne.symm h.1), ih h.2]

theorem splitLines_of_not_mem {line : List Char} (h : '\n' ∉ line) : splitLines line = [line] := by
  induction line with
  | nil => rfl
  | cons c line ih =>
    simp only [List.mem_cons, not_or] at h
    rw [splitLines, if_neg (Ne.symm h.1), ih h.2]

/-- **Lines that are joined are split again.** -/
theorem splitLines_joinLines {lines : List (List Char)} (hne : lines ≠ [])
    (h : ∀ line ∈ lines, '\n' ∉ line) : splitLines (joinLines lines) = lines := by
  induction lines with
  | nil => exact absurd rfl hne
  | cons line lines ih =>
    obtain ⟨hline, hlater⟩ := List.forall_mem_cons.1 h
    by_cases hlines : lines = []
    · rw [hlines, joinLines_singleton, splitLines_of_not_mem hline]
    · rw [joinLines_cons hlines, splitLines_append hline, ih hlines hlater]

/-! ### Breaks next to the delimiters -/

theorem return_not_mem_unifyBreaks (text : List Char) : '\r' ∉ unifyBreaks text := by
  fun_induction unifyBreaks text with
  | case1 => simp
  | case2 text ih => simpa using ih
  | case3 c text hpair ih =>
    by_cases hc : c = '\r'
    · simpa [hc] using ih
    · simp [hc, Ne.symm hc, ih]

theorem unifyBreaks_of_not_mem {text : List Char} (h : '\r' ∉ text) : unifyBreaks text = text := by
  fun_induction unifyBreaks text with
  | case1 => rfl
  | case2 text ih => simp at h
  | case3 c text hpair ih =>
    simp only [List.mem_cons, not_or] at h
    rw [if_neg (Ne.symm h.1), ih h.2]

/-- The break that is dropped in front of joined lines stands for an empty first line. -/
theorem dropLeadingBreak_joinLines {lines : List (List Char)} (h : ∀ line ∈ lines, '\n' ∉ line) :
    dropLeadingBreak (joinLines lines) = joinLines (dropEmptyFirst lines) := by
  match lines with
  | [] => rfl
  | [[]] => rfl
  | [] :: next :: lines => rw [joinLines_cons (by simp)]; rfl
  | (c :: line) :: lines =>
    have hc : c ≠ '\n' := by
      rintro rfl
      exact h _ (List.mem_cons_self ..) (List.mem_cons_self ..)
    obtain ⟨rest, hrest⟩ : ∃ rest, joinLines ((c :: line) :: lines) = c :: rest := by
      by_cases hlines : lines = []
      · exact ⟨line, by simp [hlines]⟩
      · exact ⟨_, joinLines_cons hlines _⟩
    show dropLeadingBreak (joinLines ((c :: line) :: lines)) = joinLines ((c :: line) :: lines)
    rw [hrest, dropLeadingBreak]
    simp [hc]

/-- The break that is dropped behind joined lines stands for an empty last line. -/
theorem dropTrailingBreak_joinLines {lines : List (List Char)} (h : ∀ line ∈ lines, '\n' ∉ line) :
    dropTrailingBreak (joinLines lines) = joinLines (dropEmptyLast lines) := by
  rcases List.eq_nil_or_concat lines with rfl | ⟨front, last, rfl⟩
  · rfl
  rw [List.concat_eq_append] at h ⊢
  have hlast : '\n' ∉ last := h last (by simp)
  unfold dropEmptyLast dropTrailingBreak
  simp only [List.getLast?_concat, List.dropLast_concat, Option.some.injEq]
  by_cases hempty : last = []
  · rw [if_pos hempty, hempty]
    by_cases hfront : front = []
    · simp [hfront]
    · rw [joinLines_concat hfront, List.getLast?_concat, if_pos rfl, List.dropLast_concat]
  · -- the text ends with the last character of the last line
    have hends : (joinLines (front ++ [last])).getLast? = last.getLast? := by
      by_cases hfront : front = []
      · simp [hfront]
      · rw [joinLines_concat hfront, ← List.singleton_append, ← List.append_assoc,
          List.getLast?_append_of_ne_nil _ hempty]
    rw [if_neg hempty, if_neg]
    rw [hends]
    exact fun hbreak => hlast (List.mem_of_getLast? hbreak)

theorem all_isBlank_dropTrailingBreak (text : List Char) :
    (dropTrailingBreak text).all isBlank = text.all isBlank := by
  rcases List.eq_nil_or_concat text with rfl | ⟨front, c, rfl⟩
  · rfl
  rw [List.concat_eq_append]
  unfold dropTrailingBreak
  simp only [List.getLast?_concat, List.dropLast_concat, Option.some.injEq]
  split
  · next hc =>
    have hbreak : isBlank '\n' = true := by decide
    simp [hc, hbreak]
  · rfl

theorem mem_of_mem_dropTrailingBreak {text : List Char} {c : Char}
    (h : c ∈ dropTrailingBreak text) : c ∈ text := by
  unfold dropTrailingBreak at h
  split at h
  · exact List.dropLast_subset text h
  · exact h

theorem mem_of_mem_dropLeadingBreak {text : List Char} {c : Char}
    (h : c ∈ dropLeadingBreak text) : c ∈ text := by
  unfold dropLeadingBreak at h
  split at h
  · exact List.mem_cons_of_mem _ h
  · exact h

/-! ### Empty lines at the ends -/

theorem dropEmptyFirst_sublist (lines : List (List Char)) :
    (dropEmptyFirst lines).Sublist lines := by
  unfold dropEmptyFirst
  split
  · exact List.sublist_cons_self ..
  · exact List.Sublist.refl _

theorem dropEmptyLast_sublist (lines : List (List Char)) : (dropEmptyLast lines).Sublist lines := by
  unfold dropEmptyLast
  split
  · exact List.dropLast_sublist lines
  · exact List.Sublist.refl _

theorem dropEmptyEnds_sublist (lines : List (List Char)) : (dropEmptyEnds lines).Sublist lines :=
  (dropEmptyLast_sublist _).trans (dropEmptyFirst_sublist lines)

theorem filter_dropEmptyFirst (lines : List (List Char)) :
    (dropEmptyFirst lines).filter (!isBlankLine ·) = lines.filter (!isBlankLine ·) := by
  unfold dropEmptyFirst
  split
  · rfl
  · rfl

theorem filter_dropEmptyLast (lines : List (List Char)) :
    (dropEmptyLast lines).filter (!isBlankLine ·) = lines.filter (!isBlankLine ·) := by
  rcases List.eq_nil_or_concat lines with rfl | ⟨front, last, rfl⟩
  · rfl
  rw [List.concat_eq_append]
  unfold dropEmptyLast
  simp only [List.getLast?_concat, List.dropLast_concat, Option.some.injEq]
  split
  · next hempty => simp [hempty, isBlankLine]
  · rfl

/-- No line that is not blank is dropped. -/
theorem filter_dropEmptyEnds (lines : List (List Char)) :
    (dropEmptyEnds lines).filter (!isBlankLine ·) = lines.filter (!isBlankLine ·) := by
  rw [dropEmptyEnds, filter_dropEmptyLast, filter_dropEmptyFirst]

/-- Whether all lines are blank depends on those that are not. -/
theorem all_isBlankLine_congr {lines others : List (List Char)}
    (h : others.filter (!isBlankLine ·) = lines.filter (!isBlankLine ·)) :
    others.all isBlankLine = lines.all isBlankLine := by
  have hall : ∀ lines : List (List Char),
      lines.all isBlankLine = (lines.filter (!isBlankLine ·)).isEmpty := by
    intro lines
    rw [Bool.eq_iff_iff]
    simp [List.filter_eq_nil_iff]
  rw [hall, hall, h]

theorem dropEmptyEnds_eq_self_iff {lines : List (List Char)} :
    dropEmptyEnds lines = lines ↔ lines.head? ≠ some [] ∧ lines.getLast? ≠ some [] := by
  constructor
  · intro h
    -- lines that lose nothing lose neither the first line nor the last
    have hlength := congrArg List.length h
    have hlast := (dropEmptyLast_sublist (dropEmptyFirst lines)).length_le
    rw [dropEmptyEnds] at hlength
    have hfirst : lines.head? ≠ some [] := by
      intro hhead
      obtain ⟨rest, rfl⟩ := List.head?_eq_some_iff.1 hhead
      simp only [dropEmptyFirst, List.length_cons] at hlength hlast
      omega
    refine ⟨hfirst, fun hend => ?_⟩
    have hsame : dropEmptyFirst lines = lines := by
      unfold dropEmptyFirst
      split
      · exact absurd rfl hfirst
      · rfl
    have hne : lines ≠ [] := by
      rintro rfl
      simp at hend
    have hpos := List.length_pos_iff.2 hne
    rw [hsame, dropEmptyLast, if_pos hend, List.length_dropLast] at hlength
    omega
  · rintro ⟨hfirst, hlast⟩
    have hsame : dropEmptyFirst lines = lines := by
      unfold dropEmptyFirst
      split
      · exact absurd rfl hfirst
      · rfl
    rw [dropEmptyEnds, hsame, dropEmptyLast, if_neg hlast]

/-! ### Dedenting again -/

/-- Blank lines may be left out of lines that share no indentation. -/
theorem dedentLines_of_sublist {lines others : List (List Char)} (hsub : others.Sublist lines)
    (hsolid : others.filter (!isBlankLine ·) = lines.filter (!isBlankLine ·))
    (hfixed : dedentLines lines = lines) : dedentLines others = others := by
  have hindent : sharedIndent others = sharedIndent lines := by rw [sharedIndent, hsolid]; rfl
  have htail : sharedTail others = sharedTail lines := by rw [sharedTail, hsolid]; rfl
  have hline : ∀ line ∈ lines, stripLine (sharedIndent lines) (sharedTail lines) line = line := by
    rw [dedentLines_eq] at hfixed
    exact List.map_inj_left.1 (hfixed.trans (List.map_id lines).symm)
  calc dedentLines others
      = others.map (stripLine (sharedIndent lines) (sharedTail lines)) := by
        rw [dedentLines_eq, hindent, htail]
    _ = others.map id := List.map_congr_left fun line hmem => hline line (hsub.subset hmem)
    _ = others := List.map_id others

/-- **Dedented lines that are joined lose an empty line at each end, and nothing else.** -/
theorem dedent_joinLines {lines : List (List Char)} (hfixed : dedentLines lines = lines)
    (hbreak : ∀ line ∈ lines, '\n' ∉ line) (hreturn : ∀ line ∈ lines, '\r' ∉ line)
    (hsolid : lines.all isBlankLine = false) :
    dedent (joinLines lines) = dropEmptyEnds lines := by
  have hunified : unifyBreaks (joinLines lines) = joinLines lines := by
    apply unifyBreaks_of_not_mem
    intro hmem
    rcases mem_of_mem_joinLines hmem with hc | ⟨line, hline, hc⟩
    · exact absurd hc (by decide)
    · exact hreturn line hline hc
  have hfirst : ∀ line ∈ dropEmptyFirst lines, '\n' ∉ line :=
    fun line hline => hbreak line ((dropEmptyFirst_sublist lines).subset hline)
  have hsome : (dropEmptyFirst lines).all isBlankLine = false := by
    rw [all_isBlankLine_congr (filter_dropEmptyFirst lines), hsolid]
  have hne : dropEmptyEnds lines ≠ [] := by
    intro hnil
    have hall := all_isBlankLine_congr (filter_dropEmptyEnds lines)
    rw [hnil, hsolid] at hall
    cases hall
  have hends : ∀ line ∈ dropEmptyEnds lines, '\n' ∉ line :=
    fun line hline => hbreak line ((dropEmptyEnds_sublist lines).subset hline)
  unfold dedent
  dsimp only
  rw [hunified, dropLeadingBreak_joinLines hbreak, all_isBlank_joinLines, hsome,
    if_neg Bool.false_ne_true, dropTrailingBreak_joinLines hfirst]
  show dedentLines (splitLines (joinLines (dropEmptyEnds lines))) = _
  rw [splitLines_joinLines hne hends]
  exact dedentLines_of_sublist (dropEmptyEnds_sublist lines) (filter_dropEmptyEnds lines) hfixed

/-- A dedented line has only characters of the text, and no break. -/
theorem mem_of_mem_dedentLines {lines : List (List Char)} {line : List Char} {c : Char}
    (hline : line ∈ dedentLines lines) (hc : c ∈ line) : ∃ other ∈ lines, c ∈ other := by
  rw [dedentLines_eq, List.mem_map] at hline
  obtain ⟨other, hother, rfl⟩ := hline
  refine ⟨other, hother, ?_⟩
  unfold stripLine at hc
  split at hc
  · cases hc
  · exact List.mem_of_mem_drop (List.mem_of_mem_take hc)

theorem all_isBlankLine_dedentLines (lines : List (List Char)) :
    (dedentLines lines).all isBlankLine = lines.all isBlankLine := by
  have hpadded := isPadded_dedentLines lines
  generalize dedentLines lines = result, sharedIndent lines = indent,
    sharedTail lines = tail at hpadded ⊢
  induction hpadded with
  | nil => rfl
  | cons hline _ ih => rw [List.all_cons, List.all_cons, hline.isBlankLine_eq, ih]

/-- **What is dedented already.**  Dedenting the lines of a dedented text changes nothing.  Joined
    to a text and dedented again, they lose an empty line at their head and one at their end, since
    the breaks next to these are taken for those next to the delimiters.  So the text stays as it
    is if and only if no empty line stands at its ends. -/
theorem dedent_joinLines_dedent (raw : List Char) :
    dedentLines (dedent raw) = dedent raw
      ∧ dedent (joinLines (dedent raw)) = dropEmptyEnds (dedent raw)
      ∧ (dedent (joinLines (dedent raw)) = dedent raw
        ↔ (dedent raw).head? ≠ some [] ∧ (dedent raw).getLast? ≠ some []) := by
  have hfixed := dedentLines_dedent raw
  have hagain : dedent (joinLines (dedent raw)) = dropEmptyEnds (dedent raw) := by
    by_cases hblank : (dropLeadingBreak (unifyBreaks raw)).all isBlank
    · -- a blank text has no lines
      have hnone : dedent raw = [] := by rw [dedent, if_pos hblank]
      rw [hnone]
      rfl
    · have hlines : dedent raw = dedentLines
          (splitLines (dropTrailingBreak (dropLeadingBreak (unifyBreaks raw)))) := by
        rw [dedent, if_neg hblank]
      have hsolid : (dedent raw).all isBlankLine = false := by
        rw [hlines, all_isBlankLine_dedentLines, ← all_isBlank_joinLines, joinLines_splitLines,
          all_isBlank_dropTrailingBreak]
        exact eq_false_of_ne_true hblank
      refine dedent_joinLines hfixed (fun line hline hc => ?_) (fun line hline hc => ?_) hsolid
      · rw [hlines] at hline
        obtain ⟨other, hother, hc⟩ := mem_of_mem_dedentLines hline hc
        exact break_not_mem_of_mem_splitLines hother hc
      · rw [hlines] at hline
        obtain ⟨other, hother, hc⟩ := mem_of_mem_dedentLines hline hc
        have htext := mem_joinLines_of_mem hother hc
        rw [joinLines_splitLines] at htext
        exact return_not_mem_unifyBreaks raw
          (mem_of_mem_dropLeadingBreak (mem_of_mem_dropTrailingBreak htext))
  exact ⟨hfixed, hagain, by rw [hagain]; exact dropEmptyEnds_eq_self_iff⟩

/-- An empty line after the break at the head of a text is kept, and lost the next time. -/
theorem dedent_joinLines_emptyFirst :
    ¬∀ raw, dedent (joinLines (dedent raw)) = dedent raw := by
  intro h
  have hempty := h ['\n', '\n', 'a']
  revert hempty
  decide +kernel

end CodeMarkup
