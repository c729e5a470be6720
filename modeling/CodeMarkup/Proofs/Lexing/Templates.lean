import CodeMarkup.Grammar.Interpolation
import CodeMarkup.Proofs.Lexing.Layout

namespace CodeMarkup

/-!
# Templates, read twice

The scan of a template token counts the braces of interpolations to find the backtick that closes
the template.  The search for expressions counts them again, and counts also those that a backslash
hides from the scan.

* `Template.Cuts`: a template cut into plain text and the regions that the scan of the token takes
  for interpolations.
* `Template.Cuts.unique`: a template has one cut at most.
* `Template.cuts_of_spanTemplate`: a template that is closed has a cut.
* `Template.Cuts.interpolationsFrom_eq_iff`: the search finds these regions if the braces of each
  still close it when the hidden ones are counted.
-/

namespace Template

/-! ### Counting braces -/

/-- The number of open braces after a text.  Nothing follows the brace that closes the last. -/
def openAfter : Nat → List Char → Option Nat
  | depth, [] => some depth
  | 0, _ :: _ => none
  | depth + 1, c :: text =>
    openAfter (if c = '{' then depth + 2 else if c = '}' then depth else depth + 1) text

/-- A text with the characters hidden that a backslash takes along. -/
def masked : List Char → List Char
  | [] => []
  | '\\' :: _ :: text => '\\' :: '\\' :: masked text
  | c :: text => c :: masked text

/-- The characters of a text that a backslash takes along. -/
def escaped : List Char → List Char
  | [] => []
  | '\\' :: c :: text => c :: escaped text
  | _ :: text => escaped text

/-- A character that is no brace changes no count. -/
theorem openAfter_pass {depth : Nat} {c : Char} {text : List Char} (hopen : c ≠ '{')
    (hclose : c ≠ '}') : openAfter (depth + 1) (c :: text) = openAfter (depth + 1) text := by
  rw [openAfter, if_neg hopen, if_neg hclose]

theorem openAfter_backslash (depth : Nat) (text : List Char) :
    openAfter (depth + 1) ('\\' :: text) = openAfter (depth + 1) text :=
  rfl

theorem eq_nil_of_openAfter_zero {text : List Char} (h : openAfter 0 text = some 0) :
    text = [] := by
  cases text with
  | nil => rfl
  | cons c text => cases h

theorem masked_cons {c : Char} (h : c ≠ '\\') (text : List Char) :
    masked (c :: text) = c :: masked text := by
  rw [masked]
  rintro _ _ rfl
  exact absurd rfl h

theorem masked_eq_nil {text : List Char} (h : masked text = []) : text = [] := by
  fun_induction masked text with
  | case1 => rfl
  | case2 | case3 => cases h

theorem masked_ne_nil {c : Char} {text : List Char} : masked (c :: text) ≠ [] := by
  intro h
  cases masked_eq_nil h

/-- A text whose last brace is closed ends with the brace that closes it. -/
theorem exists_append_close {depth : Nat} {text : List Char}
    (h : openAfter (depth + 1) (masked text) = some 0) : ∃ inner, text = inner ++ ['}'] := by
  fun_induction masked text generalizing depth with
  | case1 => cases h
  | case2 c text ih =>
    obtain ⟨inner, rfl⟩ := ih h
    exact ⟨'\\' :: c :: inner, rfl⟩
  | case3 c text _ ih =>
    rw [openAfter] at h
    split at h
    · obtain ⟨inner, rfl⟩ := ih h
      exact ⟨c :: inner, rfl⟩
    · split at h
      · next hclose =>
        cases depth with
        | zero =>
          -- the text ends here
          obtain rfl := masked_eq_nil (eq_nil_of_openAfter_zero h)
          exact ⟨[], by rw [hclose]; rfl⟩
        | succ depth =>
          obtain ⟨inner, rfl⟩ := ih h
          exact ⟨c :: inner, rfl⟩
      · obtain ⟨inner, rfl⟩ := ih h
        exact ⟨c :: inner, rfl⟩

/-- No brace is left to close after the last, whatever follows. -/
theorem openAfter_masked_append {depth : Nat} {text more : List Char}
    (h : openAfter depth (masked text) = some 0) (hmore : more ≠ []) :
    openAfter depth (masked (text ++ more)) = none := by
  fun_induction masked text generalizing depth with
  | case1 =>
    obtain ⟨c, more, rfl⟩ := List.exists_cons_of_ne_nil hmore
    cases h
    cases hmasked : masked (c :: more) with
    | nil => exact absurd hmasked masked_ne_nil
    | cons d others => rw [List.nil_append, hmasked]; rfl
  | case2 c text ih =>
    cases depth with
    | zero => cases h
    | succ depth => exact ih h
  | case3 c text hescape ih =>
    cases depth with
    | zero => cases h
    | succ depth =>
      by_cases hslash : c = '\\'
      · -- a backslash at the end closes no brace
        subst hslash
        cases text with
        | nil => cases h
        | cons d text => exact absurd rfl (hescape d text rfl)
      · rw [List.cons_append, masked_cons hslash]
        exact ih h

/-- Where no brace is hidden, the count is the same. -/
theorem openAfter_masked_of_escaped {depth : Nat} {text : List Char}
    (h : ∀ c ∈ escaped text, c ≠ '{' ∧ c ≠ '}') :
    openAfter depth (masked text) = openAfter depth text := by
  fun_induction masked text generalizing depth with
  | case1 => rfl
  | case2 c text ih =>
    rw [escaped] at h
    obtain ⟨⟨hopen, hclose⟩, hmore⟩ := List.forall_mem_cons.1 h
    cases depth with
    | zero => rfl
    | succ depth =>
      rw [openAfter_backslash, openAfter_backslash, openAfter_backslash,
        openAfter_pass hopen hclose]
      exact ih hmore
  | case3 c text hescape ih =>
    rw [escaped] at h
    · cases depth with
      | zero => rfl
      | succ depth => rw [openAfter, openAfter, ih h]
    · exact hescape

/-- The brace that closes the last is not hidden itself. -/
theorem escaped_append_close {depth : Nat} {text : List Char}
    (h : openAfter (depth + 1) (masked (text ++ ['}'])) = some 0) :
    escaped (text ++ ['}']) = escaped text := by
  fun_induction escaped text generalizing depth with
  | case1 => rfl
  | case2 c text ih =>
    exact congrArg (c :: ·) (ih h)
  | case3 c text hescape ih =>
    by_cases hslash : c = '\\'
    · subst hslash
      cases text with
      | nil => cases h
      | cons d text => exact absurd rfl (hescape d text rfl)
    · rw [List.cons_append, masked_cons hslash, openAfter] at h
      rw [List.cons_append, escaped]
      · -- as the text goes on, a brace is still open
        split at h
        · exact ih h
        · split at h
          · cases depth with
            | zero => exact absurd (masked_eq_nil (eq_nil_of_openAfter_zero h)) (by simp)
            | succ depth => exact ih h
          · exact ih h
      · rintro _ _ rfl
        exact absurd rfl hslash

/-! ### Regions -/

/-- A part of a template: the offset at which it starts, and its text. -/
structure Region where
  origin : Nat
  text : List Char

namespace Region

/-- The place of a region in the template. -/
def span (region : Region) : Span :=
  ⟨region.origin, region.origin + byteLength region.text⟩

/-- The brace after the region closes it if all braces count, the hidden ones too. -/
def IsEven (region : Region) : Prop :=
  openAfter 1 (region.text ++ ['}']) = some 0

instance (region : Region) : Decidable region.IsEven :=
  inferInstanceAs (Decidable (_ = _))

end Region

/-- A template that starts at an offset, cut as the scan of its token counts: a backslash takes the
    next character along everywhere, a region starts after `${` in plain text, and ends before the
    brace that closes the last open one. -/
inductive Cuts : Nat → List Char → List Region → Prop where
  | nil (offset : Nat) : Cuts offset [] []
  | escape {offset : Nat} {c : Char} {text : List Char} {regions : List Region}
      (hmore : Cuts (offset + 1 + c.utf8Size) text regions) :
      Cuts offset ('\\' :: c :: text) regions
  | plain {offset : Nat} {c : Char} {text : List Char} {regions : List Region} (hslash : c ≠ '\\')
      (hopen : c = '$' → text.head? ≠ some '{') (hmore : Cuts (offset + c.utf8Size) text regions) :
      Cuts offset (c :: text) regions
  | region {offset : Nat} {inner text : List Char} {regions : List Region}
      (hclose : openAfter 1 (masked (inner ++ ['}'])) = some 0)
      (hmore : Cuts (offset + 2 + byteLength inner + 1) text regions) :
      Cuts offset ('$' :: '{' :: (inner ++ '}' :: text)) (⟨offset + 2, inner⟩ :: regions)

/-- No region goes on after the brace that closes it. -/
theorem not_closes_longer {inner more : List Char}
    (h : openAfter 1 (masked (inner ++ ['}'])) = some 0) :
    openAfter 1 (masked (inner ++ '}' :: more ++ ['}'])) ≠ some 0 := by
  have hnone : openAfter 1 (masked (inner ++ ['}'] ++ (more ++ ['}']))) = none :=
    openAfter_masked_append h (by simp)
  rw [show inner ++ '}' :: more ++ ['}'] = inner ++ ['}'] ++ (more ++ ['}']) by simp, hnone]
  nofun

/-- A region ends in one place. -/
theorem inner_unique {inner other text more : List Char}
    (hinner : openAfter 1 (masked (inner ++ ['}'])) = some 0)
    (hother : openAfter 1 (masked (other ++ ['}'])) = some 0)
    (h : inner ++ '}' :: text = other ++ '}' :: more) : inner = other ∧ text = more := by
  rcases List.append_eq_append_iff.1 h with ⟨longer, hlonger, htail⟩ | ⟨longer, hlonger, htail⟩
  · cases longer with
    | nil =>
      rw [List.append_nil] at hlonger
      exact ⟨hlonger.symm, (List.cons.inj htail).2⟩
    | cons c longer =>
      obtain ⟨rfl, -⟩ := List.cons.inj htail
      subst hlonger
      exact absurd hother (not_closes_longer hinner)
  · cases longer with
    | nil =>
      rw [List.append_nil] at hlonger
      exact ⟨hlonger, (List.cons.inj htail).2.symm⟩
    | cons c longer =>
      obtain ⟨rfl, -⟩ := List.cons.inj htail
      subst hlonger
      exact absurd hinner (not_closes_longer hother)

/-- **One cut.**  The regions of a template are determined by its text. -/
theorem Cuts.unique {offset : Nat} {text : List Char} {regions others : List Region}
    (h : Cuts offset text regions) (h' : Cuts offset text others) : regions = others := by
  induction h generalizing others with
  | nil =>
    cases h'
    rfl
  | escape _ ih =>
    cases h' with
    | escape hmore => exact ih hmore
    | plain hslash => exact absurd rfl hslash
  | plain hslash hopen _ ih =>
    cases h' with
    | escape => exact absurd rfl hslash
    | plain _ _ hmore => exact ih hmore
    | region => exact absurd rfl (hopen rfl)
  | @region offset inner text regions hclose _ ih =>
    generalize htext : inner ++ '}' :: text = after at h'
    cases h' with
    | plain _ hopen => exact absurd rfl (hopen rfl)
    | region hclose' hmore =>
      obtain ⟨rfl, rfl⟩ := inner_unique hclose hclose' htext
      rw [ih hmore]

/-! ### The scan of a token -/

/-- A backslash that takes nothing along is the last character. -/
theorem ne_backslash {c : Char} {text : List Char}
    (hescape : ∀ d more, c = '\\' → text = d :: more → False) (htext : text ≠ []) : c ≠ '\\' := by
  obtain ⟨d, more, rfl⟩ := List.exists_cons_of_ne_nil htext
  exact fun hslash => hescape d more hslash rfl

theorem ne_nil_of_spanTemplate {depth : Nat} {text : List Char}
    (h : (spanTemplate depth text).2 ≠ []) : text ≠ [] := by
  rintro rfl
  exact h (by simp [spanTemplate])

/-- **The scan cuts.**  A text that the scan of a template leaves before its end is closed: its open
    braces are closed in a first part of it, and the rest has a cut. -/
theorem cuts_of_spanTemplate {depth : Nat} {text : List Char}
    (h : (spanTemplate depth text).2 ≠ []) :
    ∃ inner after, (spanTemplate depth text).1 = inner ++ after
      ∧ openAfter depth (masked inner) = some 0
      ∧ ∀ offset, ∃ regions, Cuts offset after regions := by
  fun_induction spanTemplate depth text with
  | case1 => exact absurd rfl h
  | case2 depth c text ih =>
    obtain ⟨inner, after, hbody, hinner, hafter⟩ := ih h
    cases depth with
    | zero =>
      obtain rfl := masked_eq_nil (eq_nil_of_openAfter_zero hinner)
      refine ⟨[], '\\' :: c :: after, by rw [hbody]; rfl, rfl, fun offset => ?_⟩
      obtain ⟨regions, hregions⟩ := hafter (offset + 1 + c.utf8Size)
      exact ⟨regions, .escape hregions⟩
    | succ depth => exact ⟨'\\' :: c :: inner, after, by rw [hbody]; rfl, hinner, hafter⟩
  | case3 depth text ih =>
    obtain ⟨inner, after, hbody, hinner, hafter⟩ := ih h
    cases depth with
    | zero =>
      -- a region starts here, and what closes it has been found
      obtain ⟨inner, rfl⟩ := exists_append_close hinner
      refine ⟨[], '$' :: '{' :: (inner ++ '}' :: after), by rw [hbody]; simp, rfl, fun offset => ?_⟩
      obtain ⟨regions, hregions⟩ := hafter (offset + 2 + byteLength inner + 1)
      exact ⟨_, .region hinner hregions⟩
    | succ depth => exact ⟨'$' :: '{' :: inner, after, by rw [hbody]; rfl, hinner, hafter⟩
  | case4 => exact ⟨[], [], rfl, rfl, fun offset => ⟨[], .nil offset⟩⟩
  | case5 c text hescape hopen hquote ih =>
    obtain ⟨inner, after, hbody, hinner, hafter⟩ := ih h
    obtain rfl := masked_eq_nil (eq_nil_of_openAfter_zero hinner)
    refine ⟨[], c :: after, by rw [hbody]; rfl, rfl, fun offset => ?_⟩
    obtain ⟨regions, hregions⟩ := hafter (offset + c.utf8Size)
    refine ⟨regions, .plain ?_ ?_ hregions⟩
    · exact ne_backslash hescape (ne_nil_of_spanTemplate h)
    · -- what follows in the template follows in the text
      rintro rfl hbrace
      obtain ⟨after, rfl⟩ := List.head?_eq_some_iff.1 hbrace
      have happ := spanTemplate_append 0 text
      rw [hbody] at happ
      exact hopen _ rfl happ.symm
  | case6 depth c text hescape hopen depth' ih =>
    obtain ⟨inner, after, hbody, hinner, hafter⟩ := ih h
    refine ⟨c :: inner, after, by rw [hbody]; rfl, ?_, hafter⟩
    rw [masked_cons (ne_backslash hescape (ne_nil_of_spanTemplate h))]
    exact hinner

/-! ### The search for expressions -/

section Inside

variable {offset origin depth : Nat} {text : List Char}

theorem inside_open : interpolationsFrom offset (.inside origin depth) ('{' :: text)
    = interpolationsFrom (offset + '{'.utf8Size) (.inside origin (depth + 1)) text := by
  rw [interpolationsFrom, if_pos rfl]
  rfl

theorem inside_close : interpolationsFrom offset (.inside origin (depth + 2)) ('}' :: text)
    = interpolationsFrom (offset + '}'.utf8Size) (.inside origin (depth + 1)) text := by
  rw [interpolationsFrom, if_neg (by decide), if_pos rfl, if_neg (by omega)]
  rfl

theorem inside_last : interpolationsFrom offset (.inside origin 1) ('}' :: text)
    = some ⟨origin, offset⟩ :: interpolationsFrom (offset + 1) .plain text := by
  rw [interpolationsFrom, if_neg (by decide), if_pos rfl, if_pos (Nat.le_refl 1)]

theorem inside_pass {c : Char} (hopen : c ≠ '{') (hclose : c ≠ '}') :
    interpolationsFrom offset (.inside origin depth) (c :: text)
      = interpolationsFrom (offset + c.utf8Size) (.inside origin depth) text := by
  rw [interpolationsFrom, if_neg hopen, if_neg hclose]

/-- Inside an expression the search does not find an end that has been passed. -/
theorem le_stop_of_inside {span : Span} {later : List (Option Span)}
    (h : interpolationsFrom offset (.inside origin (depth + 1)) text = some span :: later) :
    offset ≤ span.stop := by
  induction text generalizing offset depth with
  | nil =>
    rw [interpolationsFrom] at h
    cases h
  | cons c text ih =>
    by_cases hopen : c = '{'
    · subst hopen
      rw [inside_open] at h
      exact Nat.le_trans (Nat.le_add_right _ _) (ih h)
    · by_cases hclose : c = '}'
      · subst hclose
        cases depth with
        | zero =>
          rw [inside_last] at h
          cases h
          exact Nat.le_refl _
        | succ depth =>
          rw [inside_close] at h
          exact Nat.le_trans (Nat.le_add_right _ _) (ih h)
      · rw [inside_pass hopen hclose] at h
        exact Nat.le_trans (Nat.le_add_right _ _) (ih h)

/-- Where the braces close the last open one, the search ends the expression. -/
theorem inside_of_closes {inner : List Char}
    (h : openAfter (depth + 1) (inner ++ ['}']) = some 0) :
    interpolationsFrom offset (.inside origin (depth + 1)) (inner ++ '}' :: text)
      = some ⟨origin, offset + byteLength inner⟩
        :: interpolationsFrom (offset + byteLength inner + 1) .plain text := by
  induction inner generalizing offset depth with
  | nil =>
    obtain rfl : depth = 0 := Option.some.inj h
    exact inside_last
  | cons c inner ih =>
    rw [List.cons_append] at h ⊢
    rw [byteLength, ← Nat.add_assoc]
    by_cases hopen : c = '{'
    · subst hopen
      rw [inside_open]
      exact ih h
    · by_cases hclose : c = '}'
      · subst hclose
        cases depth with
        | zero => exact absurd (eq_nil_of_openAfter_zero h) (by simp)
        | succ depth =>
          rw [inside_close]
          exact ih h
      · rw [inside_pass hopen hclose]
        rw [openAfter_pass hopen hclose] at h
        exact ih h

/-- The search ends an expression only where the braces close the last open one. -/
theorem closes_of_inside {inner : List Char} {later : List (Option Span)}
    (h : interpolationsFrom offset (.inside origin (depth + 1)) (inner ++ '}' :: text)
      = some ⟨origin, offset + byteLength inner⟩ :: later) :
    openAfter (depth + 1) (inner ++ ['}']) = some 0 := by
  induction inner generalizing offset depth with
  | nil =>
    cases depth with
    | zero => rfl
    | succ depth =>
      -- the search has passed the brace
      rw [List.nil_append, inside_close] at h
      exact absurd (le_stop_of_inside h) (Nat.not_succ_le_self offset)
  | cons c inner ih =>
    rw [List.cons_append] at h ⊢
    rw [byteLength, ← Nat.add_assoc] at h
    by_cases hopen : c = '{'
    · subst hopen
      rw [inside_open] at h
      exact ih h
    · by_cases hclose : c = '}'
      · subst hclose
        cases depth with
        | zero =>
          -- the search ends before the brace
          rw [inside_last] at h
          simp only [List.cons.injEq, Option.some.injEq, Span.mk.injEq, true_and] at h
          have hpos := '}'.utf8Size_pos
          omega
        | succ depth =>
          rw [inside_close] at h
          exact ih h
      · rw [inside_pass hopen hclose] at h
        rw [openAfter_pass hopen hclose]
        exact ih h

end Inside

/-- **The search against the scan.**  The search for expressions finds the regions of a cut exactly
    if the braces of each region close it also when those that are hidden from the scan count. -/
theorem Cuts.interpolationsFrom_eq_iff {offset : Nat} {text : List Char} {regions : List Region}
    (h : Cuts offset text regions) :
    interpolationsFrom offset .plain text = regions.map (fun region => some region.span)
      ↔ ∀ region ∈ regions, region.IsEven := by
  induction h with
  | nil => simp [interpolationsFrom]
  | escape _ ih =>
    rw [interpolationsFrom]
    exact ih
  | plain hslash hopen _ ih =>
    rw [interpolationsFrom]
    · exact ih
    · exact fun _ _ h => absurd h hslash
    · rintro _ hdollar rfl
      exact hopen hdollar rfl
  | region hclose _ ih =>
    rw [interpolationsFrom, List.map_cons, List.forall_mem_cons]
    constructor
    · intro hfound
      have heven := closes_of_inside hfound
      rw [inside_of_closes heven] at hfound
      exact ⟨heven, ih.1 (List.cons.inj hfound).2⟩
    · rintro ⟨heven, hmore⟩
      rw [inside_of_closes heven, ih.2 hmore]
      rfl

/-- A region in which no brace is hidden is closed by its braces. -/
theorem Cuts.isEven_of_escaped {offset : Nat} {text : List Char} {regions : List Region}
    (h : Cuts offset text regions)
    (hplain : ∀ region ∈ regions, ∀ c ∈ escaped region.text, c ≠ '{' ∧ c ≠ '}') :
    ∀ region ∈ regions, region.IsEven := by
  induction h with
  | nil => nofun
  | escape _ ih => exact ih hplain
  | plain _ _ _ ih => exact ih hplain
  | region hclose _ ih =>
    obtain ⟨hinner, hmore⟩ := List.forall_mem_cons.1 hplain
    refine List.forall_mem_cons.2 ⟨?_, ih hmore⟩
    show openAfter 1 _ = some 0
    rw [← openAfter_masked_of_escaped (by rwa [escaped_append_close hclose])]
    exact hclose

end Template

/-! ### Templates in a text -/

/-- The token of a template is a text that its scan leaves at a backtick. -/
theorem Lexeme.spanTemplate_of_scan {text taken rest : List Char} {raw : String}
    (h : scan text = ⟨taken, rest, .ok (.template raw)⟩) :
    ∃ body, spanTemplate 0 body = (raw.toList, '`' :: rest) := by
  have hspelled := scan_spelling text
  have happ := scan_append text
  rw [h] at hspelled happ
  -- the token is spelled with a backtick at its head
  obtain ⟨body, rfl⟩ : ∃ body, text = '`' :: body := by
    rw [← happ, ← hspelled.1]
    exact ⟨raw.toList ++ ['`'] ++ rest, by simp [TokenKind.spelling]⟩
  have hscan : scan ('`' :: body)
      = enclosed '`' (spanTemplate 0 body) .template .unterminatedTemplate := by
    rw [scan, if_neg (by decide), if_neg (by simp [startsNumber]; decide), if_neg (by decide),
      if_neg (by decide), if_pos rfl]
  rw [hscan] at h
  obtain ⟨inner, hbody, -, hraw⟩ := enclosed_eq_ok h
  refine ⟨body, ?_⟩
  rw [hbody, TokenKind.template.inj hraw, String.toList_ofList]

/-- Every token of a text is what a scan finds somewhere in it. -/
theorem Lexes.exists_scan {offset : Nat} {text : List Char} {tokens : List Token} {token : Token}
    (h : Lexes offset text tokens) (hmem : token ∈ tokens) (hkind : token.kind ≠ .eof) :
    ∃ after rest, Lexeme.scan after = ⟨token.kind.spelling.toList, rest, .ok token.kind⟩ := by
  induction h with
  | mark =>
    rw [List.mem_singleton] at hmem
    subst hmem
    exact absurd rfl hkind
  | token hgap hlexeme _ _ _ _ ih =>
    rcases List.mem_cons.1 hmem with rfl | hlater
    · exact ⟨_, _, hlexeme⟩
    · exact ih hlater

/-- **Templates, read twice.**  The text of a template token has one cut into plain text and the
    regions that the scan of the token takes for interpolations, all of them closed.  The search for
    expressions finds exactly these regions, and no open one, if and only if each of them is closed
    by its braces also when those after a backslash count; so it does where no backslash stands
    before a brace in a region. -/
theorem template_interpolations_iff {base : Nat} {text : List Char} {tokens : List Token}
    {token : Token} {raw : String} (h : tokensFrom base text = .ok tokens) (hmem : token ∈ tokens)
    (hkind : token.kind = .template raw) :
    ∃ regions, Template.Cuts 0 raw.toList regions
      ∧ (∀ others, Template.Cuts 0 raw.toList others → others = regions)
      ∧ (interpolations raw.toList = regions.map (fun region => some region.span)
        ↔ ∀ region ∈ regions, region.IsEven)
      ∧ ((∀ region ∈ regions, ∀ c ∈ Template.escaped region.text, c ≠ '{' ∧ c ≠ '}') →
        interpolations raw.toList = regions.map (fun region => some region.span)) := by
  obtain ⟨after, rest, hscan⟩ :=
    (lexes_of_tokensFrom h).exists_scan hmem (by rw [hkind]; nofun)
  rw [hkind] at hscan
  obtain ⟨body, hbody⟩ := Lexeme.spanTemplate_of_scan hscan
  have hstop : (spanTemplate 0 body).2 ≠ [] := by
    rw [hbody]
    nofun
  obtain ⟨inner, raw', hraw, hinner, hcuts⟩ := Template.cuts_of_spanTemplate hstop
  -- in plain text there is no brace to close
  obtain rfl := Template.masked_eq_nil (Template.eq_nil_of_openAfter_zero hinner)
  rw [hbody, List.nil_append] at hraw
  obtain ⟨regions, hregions⟩ := hcuts 0
  rw [← hraw] at hregions
  refine ⟨regions, hregions, fun others hothers => hothers.unique hregions,
    hregions.interpolationsFrom_eq_iff, fun hplain => ?_⟩
  exact hregions.interpolationsFrom_eq_iff.2 (hregions.isEven_of_escaped hplain)

/-- A brace after a backslash is hidden from the scan, and keeps the expression open for the
    search. -/
theorem template_interpolations_iff_escapedBrace :
    (tokensFrom 0 "`$\x7b'\\\x7b'\x7d`".toList).toOption
        = some [⟨.template "$\x7b'\\\x7b'\x7d", ⟨0, 9⟩⟩, ⟨.eof, ⟨9, 9⟩⟩]
      ∧ interpolations "$\x7b'\\\x7b'\x7d".toList = [none]
      ∧ ∃ regions, Template.Cuts 0 "$\x7b'\\\x7b'\x7d".toList regions
        ∧ regions.map Template.Region.span = [⟨2, 6⟩] ∧ ¬ ∀ region ∈ regions, region.IsEven := by
  have htokens : (tokensFrom 0 "`$\x7b'\\\x7b'\x7d`".toList).toOption
      = some [⟨.template "$\x7b'\\\x7b'\x7d", ⟨0, 9⟩⟩, ⟨.eof, ⟨9, 9⟩⟩] := by decide +kernel
  have hfound : interpolations "$\x7b'\\\x7b'\x7d".toList = [none] := by decide +kernel
  refine ⟨htokens, hfound, ?_⟩
  cases hresult : tokensFrom 0 "`$\x7b'\\\x7b'\x7d`".toList with
  | error error =>
    rw [hresult] at htokens
    cases htokens
  | ok tokens =>
    rw [hresult] at htokens
    cases htokens
    obtain ⟨regions, hcuts, hunique, hiff, -⟩ :=
      template_interpolations_iff hresult List.mem_cons_self rfl
    have hcuts' : Template.Cuts 0 "$\x7b'\\\x7b'\x7d".toList [⟨2, "'\\\x7b'".toList⟩] :=
      @Template.Cuts.region 0 "'\\\x7b'".toList [] [] rfl (.nil 7)
    obtain rfl := hunique _ hcuts'
    refine ⟨_, hcuts, rfl, fun heven => ?_⟩
    rw [hfound] at hiff
    cases hiff.2 heven

end CodeMarkup
