import CodeMarkup.Grammar.Lookahead
import CodeMarkup.Proofs.Safety.Lines
import CodeMarkup.Proofs.TokenStream

namespace CodeMarkup

/-!
# Counting brackets

Scans that count open brackets subtract one at each closing bracket.  Here they are written with
checked subtractions, and the search for interpolations moreover byte by byte.  Each scan is shown
to do what the function of its name does, so no count goes below zero.

* `Checked.spanTemplate_eq`: the body of a template.
* `Checked.afterAnnotation_eq`, `Checked.startsLambda_eq`: the scans that look for a closing
  parenthesis.
* `Checked.interpolations_eq`: the expressions in the bytes of a template.
-/

namespace Checked

/-! ### The body of a template -/

/-- The number of open braces after a character. -/
def braceDepth (depth : Nat) (c : Char) : Option Nat :=
  if 0 < depth ∧ c = '{' then some (depth + 1)
  else if 0 < depth ∧ c = '}' then minus depth 1
  else some depth

/-- The body of a template, after `depth` open braces. -/
def spanTemplate : Nat → List Char → Option (List Char × List Char)
  | _, [] => some ([], [])
  | depth, '\\' :: c :: text => do
    let (body, rest) ← spanTemplate depth text
    return ('\\' :: c :: body, rest)
  | depth, '$' :: '{' :: text => do
    let (body, rest) ← spanTemplate (depth + 1) text
    return ('$' :: '{' :: body, rest)
  | depth, c :: text =>
    if depth = 0 ∧ c = '`' then some ([], c :: text)
    else do
      let (body, rest) ← spanTemplate (← braceDepth depth c) text
      return (c :: body, rest)

theorem braceDepth_zero (c : Char) : braceDepth 0 c = some 0 := by
  simp [braceDepth]

theorem braceDepth_succ (depth : Nat) (c : Char) :
    braceDepth (depth + 1) c
      = some (if c = '{' then depth + 2 else if c = '}' then depth else depth + 1) := by
  unfold braceDepth
  by_cases hopen : c = '{'
  · simp [hopen]
  · by_cases hclose : c = '}'
    · simp [hclose, minus_eq]
    · simp [hopen, hclose]

theorem spanTemplate_eq (depth : Nat) (text : List Char) :
    spanTemplate depth text = some (CodeMarkup.spanTemplate depth text) := by
  fun_induction CodeMarkup.spanTemplate depth text with
  | case1 => simp [spanTemplate]
  | case2 depth c text ih => simp [spanTemplate, ih]
  | case3 depth text ih => simp [spanTemplate, ih]
  | case4 text hescape hopen => simp [spanTemplate]
  | case5 c text hescape hopen hquote ih =>
    rw [spanTemplate, if_neg (by simp [hquote]), braceDepth_zero]
    · simp [ih]
    · exact hescape
    · exact hopen
  | case6 depth c text hescape hopen inner ih =>
    rw [spanTemplate, if_neg (by simp), braceDepth_succ]
    · simp [inner, ih]
    · exact hescape
    · exact hopen

/-! ### Closing parentheses -/

/-- The tokens after the parenthesis that closes the innermost of `depth` open ones. -/
def afterParens : Nat → List Token → Option (Option (List Token))
  | _, [] => some none
  | depth, token :: rest =>
    match token.kind with
    | .leftParen => afterParens (depth + 1) rest
    | .rightParen => do
      let depth ← minus depth 1
      if depth = 0 then return some rest else afterParens depth rest
    | _ => afterParens depth rest

/-- The tokens after an annotation whose `@` has been passed. -/
def afterAnnotation (tokens : List Token) : Option (Option (List Token)) :=
  let rest := skipDottedName tokens
  if kindAt rest 0 == .leftParen then afterParens 0 rest else some (some rest)

/-- Whether a lambda follows. -/
def startsLambda (tokens : List Token) : Option Bool :=
  match kindAt tokens 0 with
  | .identifier _ => some (kindAt tokens 1 == .arrow)
  | .leftParen => do
    let after ← afterParens 0 tokens
    return after.any (kindAt · 0 == .arrow)
  | _ => some false

/-- Once a parenthesis is open, the count stays above zero until the scan ends. -/
theorem afterParens_eq_of_pos {depth : Nat} (hdepth : 0 < depth) (tokens : List Token) :
    afterParens depth tokens = some (afterParens? depth tokens) := by
  fun_induction afterParens? depth tokens with
  | case1 => rfl
  | case2 depth token rest hkind ih =>
    rw [afterParens, hkind]
    exact ih (Nat.succ_pos depth)
  | case3 depth token rest hkind hle =>
    obtain rfl : depth = 1 := by omega
    rw [afterParens, hkind]
    rfl
  | case4 depth token rest hkind hlt ih =>
    have hone : 1 ≤ depth := hdepth
    have hne : depth - 1 ≠ 0 := by omega
    rw [afterParens, hkind]
    simp only [minus_eq hone, Option.bind_eq_bind, Option.bind_some, if_neg hne]
    exact ih (by omega)
  | case5 depth token rest hleft hright ih =>
    rw [afterParens]
    split
    · next h => exact absurd h hleft
    · next h => exact absurd h hright
    · exact ih hdepth

/-- The scan starts at an open parenthesis. -/
theorem afterParens_eq {tokens : List Token} (h : kindAt tokens 0 = .leftParen) :
    afterParens 0 tokens = some (afterParens? 0 tokens) := by
  cases tokens with
  | nil => cases h
  | cons token rest =>
    have hkind : token.kind = .leftParen := h
    rw [afterParens, afterParens?, hkind]
    exact afterParens_eq_of_pos (Nat.succ_pos 0) rest

theorem afterAnnotation_eq (tokens : List Token) :
    afterAnnotation tokens = some (afterAnnotation? tokens) := by
  unfold afterAnnotation afterAnnotation?
  dsimp only
  by_cases hopen : (kindAt (skipDottedName tokens) 0 == .leftParen) = true
  · rw [if_pos hopen, if_pos hopen]
    exact afterParens_eq (by simpa using hopen)
  · rw [if_neg hopen, if_neg hopen]

theorem startsLambda_eq (tokens : List Token) :
    startsLambda tokens = some (CodeMarkup.startsLambda tokens) := by
  unfold startsLambda CodeMarkup.startsLambda
  cases hkind : kindAt tokens 0 with
  | leftParen => simp [afterParens_eq hkind]
  | _ => rfl

/-! ### The bytes of a template -/

/-- The expressions in bytes that start at `offset`.  A backslash takes one byte along, which may be
    the first of several that encode a character. -/
def interpolationsFrom (offset : Nat) (mode : TemplateMode) (bytes : List UInt8) :
    Option (List (Option Span)) :=
  match mode, bytes with
  | .plain, [] => some []
  | .plain, byte :: bytes =>
    if byte = '\\'.toUInt8 then interpolationsFrom (offset + 2) .plain bytes.tail
    else if byte = '$'.toUInt8 ∧ bytes.head? = some '{'.toUInt8 then
      interpolationsFrom (offset + 2) (.inside (offset + 2) 1) bytes.tail
    else interpolationsFrom (offset + 1) .plain bytes
  | .inside _ _, [] => some [none]
  | .inside origin depth, byte :: bytes =>
    if byte = '{'.toUInt8 then interpolationsFrom (offset + 1) (.inside origin (depth + 1)) bytes
    else if byte = '}'.toUInt8 then do
      let depth ← minus depth 1
      if depth = 0 then
        let stop ← minus (offset + 1) 1
        let later ← interpolationsFrom (offset + 1) .plain bytes
        return some ⟨origin, stop⟩ :: later
      else interpolationsFrom (offset + 1) (.inside origin depth) bytes
    else interpolationsFrom (offset + 1) (.inside origin depth) bytes
termination_by bytes.length
decreasing_by all_goals (simp only [List.length_cons, List.length_tail]; omega)

/-- The expressions in the text of a template. -/
def interpolations (raw : List Char) : Option (List (Option Span)) :=
  interpolationsFrom 0 .plain (raw.flatMap String.utf8EncodeChar)

theorem toNat_toUInt8 {d : Char} (hd : d.toNat < 128) : d.toUInt8.toNat = d.toNat :=
  Nat.mod_eq_of_lt (show d.toNat < 256 by omega)

theorem ofNat_eq_toUInt8_iff {n : Nat} {d : Char} (hn : n < 256) (hd : d.toNat < 128) :
    UInt8.ofNat n = d.toUInt8 ↔ n = d.toNat := by
  rw [← UInt8.toNat_inj, UInt8.toNat_ofNat', Nat.mod_eq_of_lt hn, toNat_toUInt8 hd]

/-- The first byte of a character tells it from every ASCII character, and no other byte of it is
    ASCII. -/
theorem exists_utf8EncodeChar (c : Char) :
    ∃ first others, String.utf8EncodeChar c = first :: others ∧ others.length + 1 = c.utf8Size
      ∧ (∀ byte ∈ others, 128 ≤ byte.toNat)
      ∧ ∀ d : Char, d.toNat < 128 → (first = d.toUInt8 ↔ c = d) := by
  have hsize := String.length_utf8EncodeChar c
  -- neither the character nor the first of several bytes is ASCII
  have hwide : ∀ n, 128 ≤ n → n < 256 → ¬c.toNat ≤ 127 →
      ∀ d : Char, d.toNat < 128 → (UInt8.ofNat n = d.toUInt8 ↔ c = d) := by
    intro n hlow hhigh hc d hd
    rw [ofNat_eq_toUInt8_iff hhigh hd]
    constructor
    · intro h
      omega
    · rintro rfl
      omega
  unfold String.utf8EncodeChar at hsize ⊢
  dsimp only at hsize ⊢
  by_cases h1 : c.val.toNat ≤ 127
  · rw [if_pos h1] at hsize ⊢
    refine ⟨_, _, rfl, hsize, by simp, fun d hd => ?_⟩
    rw [ofNat_eq_toUInt8_iff (by omega) hd, ← Char.toNat_inj]
    rfl
  · rw [if_neg h1] at hsize ⊢
    by_cases h2 : c.val.toNat ≤ 2047
    · rw [if_pos h2] at hsize ⊢
      exact ⟨_, _, rfl, hsize, by simp; omega, hwide _ (by omega) (by omega) h1⟩
    · rw [if_neg h2] at hsize ⊢
      by_cases h3 : c.val.toNat ≤ 65535
      · rw [if_pos h3] at hsize ⊢
        exact ⟨_, _, rfl, hsize, by simp; omega, hwide _ (by omega) (by omega) h1⟩
      · rw [if_neg h3] at hsize ⊢
        exact ⟨_, _, rfl, hsize, by simp; omega, hwide _ (by omega) (by omega) h1⟩

/-- An ASCII character is one byte. -/
theorem flatMap_utf8EncodeChar_cons {d : Char} (hd : d.toNat < 128) (text : List Char) :
    (d :: text).flatMap String.utf8EncodeChar
      = d.toUInt8 :: text.flatMap String.utf8EncodeChar := by
  have hsize : d.utf8Size = 1 := Char.utf8Size_eq_one_iff.2 (Nat.le_of_lt_succ hd)
  rw [List.flatMap_cons, String.utf8EncodeChar_eq_singleton hsize]
  rfl

theorem head?_flatMap_utf8EncodeChar {text : List Char} {d : Char} (hd : d.toNat < 128)
    (h : (text.flatMap String.utf8EncodeChar).head? = some d.toUInt8) : text.head? = some d := by
  cases text with
  | nil => cases h
  | cons c text =>
    obtain ⟨first, others, hbytes, _, _, hfirst⟩ := exists_utf8EncodeChar c
    rw [List.flatMap_cons, hbytes] at h
    exact congrArg some ((hfirst d hd).1 (Option.some.inj h))

/-- Bytes that are not ASCII are passed in either mode. -/
theorem interpolationsFrom_append (offset : Nat) (mode : TemplateMode) (passed bytes : List UInt8)
    (h : ∀ byte ∈ passed, 128 ≤ byte.toNat) :
    interpolationsFrom offset mode (passed ++ bytes)
      = interpolationsFrom (offset + passed.length) mode bytes := by
  induction passed generalizing offset with
  | nil => rfl
  | cons byte passed ih =>
    obtain ⟨hbyte, hpassed⟩ := List.forall_mem_cons.1 h
    have hne : ∀ d : Char, d.toNat < 128 → byte ≠ d.toUInt8 := by
      rintro d hd rfl
      rw [toNat_toUInt8 hd] at hbyte
      omega
    rw [List.length_cons, Nat.add_comm passed.length, ← Nat.add_assoc, ← ih _ hpassed]
    cases mode with
    | plain =>
      rw [List.cons_append, interpolationsFrom, if_neg (hne _ (by decide)),
        if_neg (fun h => hne _ (by decide) h.1)]
    | inside origin depth =>
      rw [List.cons_append, interpolationsFrom, if_neg (hne _ (by decide)),
        if_neg (hne _ (by decide))]

/-- The braces that are open are counted: inside an expression there is at least its own. -/
def IsOpen : TemplateMode → Prop
  | .plain => True
  | .inside _ depth => 0 < depth

/-- Bytes and characters give the same expressions.  The invariant is that an expression in progress
    has an open brace. -/
theorem interpolationsFrom_eq (offset : Nat) (mode : TemplateMode) (text : List Char)
    (h : IsOpen mode) :
    interpolationsFrom offset mode (text.flatMap String.utf8EncodeChar)
      = some (CodeMarkup.interpolationsFrom offset mode text) := by
  fun_induction CodeMarkup.interpolationsFrom offset mode text with
  | case1 => simp [interpolationsFrom]
  | case2 offset c text ih =>
    -- the backslash takes the first byte of the character along, and the others are passed
    obtain ⟨first, others, hbytes, hsize, hothers, _⟩ := exists_utf8EncodeChar c
    rw [flatMap_utf8EncodeChar_cons (by decide), List.flatMap_cons, hbytes, interpolationsFrom,
      if_pos rfl, List.cons_append, List.tail_cons, interpolationsFrom_append _ _ _ _ hothers,
      ← ih h, ← hsize]
    congr 1
    omega
  | case3 offset text ih =>
    rw [flatMap_utf8EncodeChar_cons (by decide), flatMap_utf8EncodeChar_cons (by decide),
      interpolationsFrom, if_neg (by decide), if_pos ⟨rfl, rfl⟩, List.tail_cons]
    exact ih Nat.one_pos
  | case4 offset c text hescape hopen ih =>
    obtain ⟨first, others, hbytes, hsize, hothers, hfirst⟩ := exists_utf8EncodeChar c
    rw [List.flatMap_cons, hbytes, List.cons_append, interpolationsFrom]
    by_cases hslash : c = '\\'
    · -- a backslash has nothing after it here, and the scan ends
      subst hslash
      cases text with
      | cons d text => exact absurd rfl (hescape d text rfl)
      | nil =>
        obtain rfl : others = [] := List.eq_nil_of_length_eq_zero (Nat.succ.inj hsize)
        rw [if_pos ((hfirst _ (by decide)).2 rfl)]
        simp [interpolationsFrom, CodeMarkup.interpolationsFrom]
    · have hdollar : ¬(first = '$'.toUInt8
          ∧ (others ++ text.flatMap String.utf8EncodeChar).head? = some '{'.toUInt8) := by
        rintro ⟨hsign, hbrace⟩
        obtain rfl : c = '$' := (hfirst _ (by decide)).1 hsign
        obtain rfl : others = [] := List.eq_nil_of_length_eq_zero (Nat.succ.inj hsize)
        obtain ⟨tail, htail⟩ := List.head?_eq_some_iff.1
          (head?_flatMap_utf8EncodeChar (by decide) hbrace)
        exact hopen tail rfl htail
      rw [if_neg (by rwa [hfirst _ (by decide)]), if_neg hdollar,
        interpolationsFrom_append _ _ _ _ hothers, ← ih h, ← hsize]
      congr 1
      omega
  | case5 => simp [interpolationsFrom]
  | case6 offset origin depth text ih =>
    rw [flatMap_utf8EncodeChar_cons (by decide), interpolationsFrom, if_pos rfl]
    exact ih (Nat.succ_pos depth)
  | case7 offset origin depth text hdepth hbrace ih =>
    -- the brace of the expression itself is closed
    obtain rfl : depth = 1 := Nat.le_antisymm hdepth h
    rw [flatMap_utf8EncodeChar_cons (by decide), interpolationsFrom, if_neg (by decide),
      if_pos rfl, ih trivial]
    rfl
  | case8 offset origin depth text hdepth hbrace ih =>
    have hne : depth - 1 ≠ 0 := by omega
    rw [flatMap_utf8EncodeChar_cons (by decide), interpolationsFrom, if_neg (by decide),
      if_pos rfl, minus_eq h, Option.bind_eq_bind, Option.bind_some, if_neg hne]
    exact ih (Nat.pos_of_ne_zero hne)
  | case9 offset origin depth c text hopen hclose ih =>
    obtain ⟨first, others, hbytes, hsize, hothers, hfirst⟩ := exists_utf8EncodeChar c
    rw [List.flatMap_cons, hbytes, List.cons_append, interpolationsFrom,
      if_neg (by rwa [hfirst _ (by decide)]), if_neg (by rwa [hfirst _ (by decide)]),
      interpolationsFrom_append _ _ _ _ hothers, ← ih h, ← hsize]
    congr 1
    omega

theorem interpolations_eq (raw : List Char) :
    interpolations raw = some (CodeMarkup.interpolations raw) :=
  interpolationsFrom_eq 0 .plain raw trivial

end Checked

end CodeMarkup
