import CodeMarkup.Proofs.Offsets

namespace CodeMarkup

/-!
# Line starts

A checked function does the work of the function of its name with operations that can fail: it
subtracts, takes elements of lists and cuts texts, and gives nothing where one of these is not
possible.  The checked position is looked up among the offsets at which lines start.

* `Checked.minus`: a subtraction that fails below zero.
* `Source.lineStarts`: where the lines of a source start.
* `Checked.position`: the position of an offset, looked up among them.
* `Checked.position_eq`: the lookup finds the position of every offset.
-/

namespace Checked

/-- A subtraction that fails below zero. -/
def minus (a b : Nat) : Option Nat :=
  if b ≤ a then some (a - b) else none

theorem minus_eq {a b : Nat} (h : b ≤ a) : minus a b = some (a - b) :=
  if_pos h

/-! ### Searching an ascending list -/

/-- Where a number stands in an ascending list, or else where it would have to go in. -/
def search (n : Nat) : List Nat → Except Nat Nat
  | [] => .error 0
  | first :: rest =>
    if first = n then .ok 0
    else if n < first then .error 0
    else
      match search n rest with
      | .ok index => .ok (index + 1)
      | .error index => .error (index + 1)

/-- The index of the last number that is not greater. -/
def lastIndex (n : Nat) (numbers : List Nat) : Option Nat :=
  match search n numbers with
  | .ok index => some index
  | .error index => minus index 1

theorem countP_le_eq_zero {n : Nat} {numbers : List Nat} (h : ∀ a ∈ numbers, n < a) :
    numbers.countP (· ≤ n) = 0 := by
  rw [List.countP_eq_zero]
  intro a ha
  have hlt := h a ha
  simp only [decide_eq_true_eq]
  omega

/-- Both answers of the search count the numbers that are not greater. -/
theorem countP_eq_search {n : Nat} {numbers : List Nat} (h : numbers.Pairwise (· < ·)) :
    match search n numbers with
    | .ok index => numbers.countP (· ≤ n) = index + 1
    | .error index => numbers.countP (· ≤ n) = index := by
  induction numbers with
  | nil => rfl
  | cons first rest ih =>
    obtain ⟨hfirst, hrest⟩ := List.pairwise_cons.1 h
    have hlater := ih hrest
    unfold search
    by_cases heq : first = n
    · have hnone : rest.countP (· ≤ n) = 0 := countP_le_eq_zero (heq ▸ hfirst)
      rw [if_pos heq]
      simp [heq, hnone]
    · rw [if_neg heq]
      by_cases hlt : n < first
      · have hnone : rest.countP (· ≤ n) = 0 := by
          apply countP_le_eq_zero
          intro a ha
          exact Nat.lt_trans hlt (hfirst a ha)
        have hgreater : ¬first ≤ n := by omega
        rw [if_pos hlt]
        simp [hgreater, hnone]
      · have hle : first ≤ n := by omega
        rw [if_neg hlt]
        -- the first number counts, and every index behind it moves by one
        cases hsearch : search n rest with
        | ok index =>
          rw [hsearch] at hlater
          simp [hle, hlater]
        | error index =>
          rw [hsearch] at hlater
          simp [hle, hlater]

/-- If the first number is not greater, the search stays in the list. -/
theorem lastIndex_cons {n first : Nat} {rest : List Nat}
    (h : (first :: rest).Pairwise (· < ·)) (hfirst : first ≤ n) :
    lastIndex n (first :: rest) = some (rest.countP (· ≤ n)) := by
  have hcount := countP_eq_search (n := n) h
  rw [List.countP_cons_of_pos (by simpa using hfirst)] at hcount
  unfold lastIndex
  cases hsearch : search n (first :: rest) with
  | ok index =>
    rw [hsearch] at hcount
    exact congrArg some (Nat.add_right_cancel hcount).symm
  | error index =>
    rw [hsearch] at hcount
    show minus index 1 = _
    have hpos : 1 ≤ index := by omega
    rw [minus_eq hpos, ← hcount, Nat.add_sub_cancel]

end Checked

/-! ### Starts of lines -/

/-- The offsets after the line feeds of a text that starts at an offset. -/
def lineStartsFrom (offset : Nat) : List Char → List Nat
  | [] => []
  | c :: text =>
    if c = '\n' then (offset + 1) :: lineStartsFrom (offset + 1) text
    else lineStartsFrom (offset + c.utf8Size) text

/-- The number of characters at the head of a text that start before an offset. -/
def charsBefore (offset n : Nat) : List Char → Nat
  | [] => 0
  | c :: text => if offset < n then charsBefore (offset + c.utf8Size) n text + 1 else 0

theorem lt_of_mem_lineStartsFrom {offset start : Nat} {text : List Char}
    (h : start ∈ lineStartsFrom offset text) : offset < start := by
  induction text generalizing offset with
  | nil => cases h
  | cons c text ih =>
    have hc := c.utf8Size_pos
    unfold lineStartsFrom at h
    split at h
    · rcases List.mem_cons.1 h with rfl | hlater
      · exact Nat.lt_succ_self _
      · exact Nat.lt_trans (Nat.lt_succ_self _) (ih hlater)
    · have hlt := ih h
      omega

theorem lineStartsFrom_ascending (offset : Nat) (text : List Char) :
    (offset :: lineStartsFrom offset text).Pairwise (· < ·) := by
  refine List.pairwise_cons.2 ⟨fun start h => lt_of_mem_lineStartsFrom h, ?_⟩
  induction text generalizing offset with
  | nil => exact .nil
  | cons c text ih =>
    unfold lineStartsFrom
    split
    · exact List.pairwise_cons.2 ⟨fun start h => lt_of_mem_lineStartsFrom h, ih _⟩
    · exact ih _

/-- The position that `n` has in a text, looked up from the start of the line that the text goes on:
    the start of its line is the last one that is not greater, and its column is the number of
    characters from there on.  Of the line, `passed` stands before the text, and starts before
    `n`. -/
theorem advance_eq_lookup (n : Nat) (text : List Char) :
    ∀ (offset first line : Nat) (passed : List Char), offset = first + byteLength passed →
      charsBefore first n (passed ++ text) = passed.length + charsBefore offset n text →
      ∃ front tail, passed ++ text = front ++ tail
        ∧ (first :: lineStartsFrom offset text)[(lineStartsFrom offset text).countP (· ≤ n)]?
          = some (first + byteLength front)
        ∧ (⟨line + 1, passed.length + 1⟩ : Position).advance text (n - offset)
          = ⟨line + (lineStartsFrom offset text).countP (· ≤ n) + 1,
            charsBefore (first + byteLength front) n tail + 1⟩ := by
  induction text with
  | nil =>
    intro offset first line passed _ hpassed
    refine ⟨[], passed ++ [], rfl, rfl, ?_⟩
    show (⟨line + 1, passed.length + 1⟩ : Position) = ⟨line + 0 + 1, charsBefore first n _ + 1⟩
    rw [hpassed]
    rfl
  | cons c text ih =>
    intro offset first line passed hoffset hpassed
    by_cases hn : n ≤ offset
    · -- nothing starts before `n` any more
      have hnone : (lineStartsFrom offset (c :: text)).countP (· ≤ n) = 0 := by
        apply Checked.countP_le_eq_zero
        intro start hstart
        exact Nat.lt_of_le_of_lt hn (lt_of_mem_lineStartsFrom hstart)
      refine ⟨[], passed ++ c :: text, rfl, by rw [hnone]; rfl, ?_⟩
      have hcolumn : charsBefore first n (passed ++ c :: text) = passed.length := by
        rw [hpassed, charsBefore, if_neg (by omega), Nat.add_zero]
      rw [Nat.sub_eq_zero_of_le hn, hnone, byteLength, Nat.add_zero, Nat.add_zero first, hcolumn]
      rfl
    · obtain ⟨k, hk⟩ : ∃ k, n - offset = k + 1 := ⟨n - offset - 1, by omega⟩
      have hstep : (⟨line + 1, passed.length + 1⟩ : Position).advance (c :: text) (n - offset)
          = ((⟨line + 1, passed.length + 1⟩ : Position).next c).advance text
            (n - (offset + c.utf8Size)) := by
        rw [← Nat.sub_sub, hk]
        rfl
      by_cases hc : c = '\n'
      · -- a new line starts after the line feed
        subst hc
        obtain ⟨front, tail, hsplit, hindex, hadvance⟩ :=
          ih (offset + 1) (offset + 1) (line + 1) [] rfl (by simp)
        have hcount : (lineStartsFrom offset ('\n' :: text)).countP (· ≤ n)
            = (lineStartsFrom (offset + 1) text).countP (· ≤ n) + 1 := by
          rw [lineStartsFrom, if_pos rfl, List.countP_cons_of_pos (by simp; omega)]
        have hfront : first + byteLength (passed ++ '\n' :: front)
            = offset + 1 + byteLength front := by
          have hone : byteLength ('\n' :: front) = 1 + byteLength front := rfl
          rw [byteLength_append, hone]
          omega
        refine ⟨passed ++ '\n' :: front, tail, ?_, ?_, ?_⟩
        · rw [List.nil_append] at hsplit
          rw [hsplit, List.append_assoc, List.cons_append]
        · rw [hcount, hfront, List.getElem?_cons_succ, lineStartsFrom, if_pos rfl]
          exact hindex
        · rw [hstep, hcount, hfront]
          refine Eq.trans hadvance ?_
          rw [Nat.add_assoc line 1, Nat.add_comm 1]
      · -- the line goes on
        have hstarts : lineStartsFrom offset (c :: text)
            = lineStartsFrom (offset + c.utf8Size) text := by
          rw [lineStartsFrom, if_neg hc]
        have hnext : (⟨line + 1, passed.length + 1⟩ : Position).next c
            = ⟨line + 1, (passed ++ [c]).length + 1⟩ := by
          rw [Position.next, if_neg hc, List.length_append]
          rfl
        have hlonger : charsBefore first n ((passed ++ [c]) ++ text)
            = (passed ++ [c]).length + charsBefore (offset + c.utf8Size) n text := by
          rw [List.append_assoc, List.singleton_append, hpassed, charsBefore, if_pos (by omega),
            List.length_append, List.length_singleton]
          omega
        obtain ⟨front, tail, hsplit, hindex, hadvance⟩ :=
          ih (offset + c.utf8Size) first line (passed ++ [c])
            (by rw [byteLength_append, hoffset]; simp [byteLength, Nat.add_assoc]) hlonger
        refine ⟨front, tail, ?_, ?_, ?_⟩
        · rw [← hsplit, List.append_assoc, List.singleton_append]
        · rw [hstarts]
          exact hindex
        · rw [hstep, hnext, hstarts]
          exact hadvance

/-- Offsets past the end have the position after the last character. -/
theorem Position.advance_min (p : Position) (text : List Char) (n : Nat) :
    p.advance text (min n (byteLength text)) = p.advance text n := by
  induction text generalizing p n with
  | nil => rfl
  | cons c text ih =>
    cases n with
    | zero => rw [Nat.zero_min]
    | succ n =>
      have hc := c.utf8Size_pos
      obtain ⟨k, hk⟩ : ∃ k, min (n + 1) (byteLength (c :: text)) = k + 1 :=
        ⟨min (n + 1) (byteLength (c :: text)) - 1, by rw [byteLength]; omega⟩
      have hrest : k + 1 - c.utf8Size = min (n + 1 - c.utf8Size) (byteLength text) := by
        rw [byteLength] at hk
        omega
      rw [hk]
      show (p.next c).advance text (k + 1 - c.utf8Size) = _
      rw [hrest, ih]
      rfl

/-- Where the lines of a source start. -/
def Source.lineStarts (source : Source) : List Nat :=
  0 :: lineStartsFrom 0 source.chars

namespace Checked

/-- The position of an offset, looked up among the starts of lines. -/
def position (source : Source) (offset : Nat) : Option Position := do
  let offset := min offset source.size
  let line ← lastIndex offset source.lineStarts
  let start ← source.lineStarts[line]?
  let text ← source.slice? ⟨start, source.size⟩
  return ⟨line + 1, charsBefore start offset text + 1⟩

/-- **The lookup never fails.**  Some line starts no later than the offset, it has its place among
    the starts of lines, and the source can be cut there. -/
theorem position_eq (source : Source) (offset : Nat) :
    position source offset = some (source.position offset) := by
  obtain ⟨front, tail, hsplit, hindex, hadvance⟩ :=
    advance_eq_lookup (min offset source.size) source.chars 0 0 0 [] rfl (by simp)
  have htext : source.HasText ⟨byteLength front, source.size⟩ tail := by
    refine ⟨front, [], by rw [List.append_nil]; exact hsplit, rfl, ?_⟩
    have hsize := congrArg byteLength hsplit
    rwa [List.nil_append, byteLength_append] at hsize
  have hline : lastIndex (min offset source.size) source.lineStarts
      = some ((lineStartsFrom 0 source.chars).countP (· ≤ min offset source.size)) :=
    lastIndex_cons (lineStartsFrom_ascending 0 source.chars) (Nat.zero_le _)
  rw [Nat.zero_add] at hindex
  simp only [Nat.zero_add, Nat.sub_zero, List.length_nil] at hadvance
  have hposition : (⟨1, 1⟩ : Position).advance source.chars (min offset source.size)
      = source.position offset := Position.advance_min _ _ _
  rw [hposition] at hadvance
  unfold position
  dsimp only
  rw [hline, Option.bind_eq_bind, Option.bind_some, Source.lineStarts, hindex, Option.bind_eq_bind,
    Option.bind_some, Source.slice?_eq_some htext, Option.bind_some, hadvance]
  rfl

end Checked

end CodeMarkup
