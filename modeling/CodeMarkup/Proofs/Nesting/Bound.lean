import CodeMarkup.Proofs.Nesting.Statements
import CodeMarkup.Proofs.Parsing.Derivation

namespace CodeMarkup

/-!
# The bound on open braces

The nesting levels bound the braces of every text that is parsed, but for one construct: the default
of an annotation member leads from one class body to the next without a level.

* `Grammar.derive_fit`: the productions of the grammar keep to what is allowed.
* `Source.parse_openBraces_le`: at no token of a text that is parsed are more braces open than three
  for each level, one outside of all levels and one for each `default` before that token.
-/

open Parser

namespace Grammar

/-- What the productions inside keep to, those around them keep to. -/
theorem step_fit {p : Productions} (hp : p.Fit) : Productions.Fit (step p) where
  expression := expression_fits hp
  conditional := conditional_fits hp
  binary := binary_fits hp
  unary := unary_fits hp
  statement := statement_fits hp
  type := type_fits hp
  elementValue := elementValue_fits hp
  arrayInitializer := arrayInitializer_fits hp
  bodyDeclaration := bodyDeclaration_fits hp

theorem derive_fit (fuel : Nat) : Productions.Fit (derive fuel) := by
  induction fuel with
  | zero => constructor <;> intros <;> exact exhausted_closes
  | succ fuel ih => exact step_fit ih

end Grammar

/-- Every entry point is a construct of a class body at most. -/
theorem EntryPoint.production_fits {p : Productions} (hp : p.Fit) (entry : EntryPoint) :
    Fits 1 (entry.production p) := by
  cases entry with
  | compilationUnit => exact Grammar.compilationUnit_fits hp
  | block => exact Grammar.block_fits hp
  | statement => exact hp.statement
  | type => exact Grammar.typeOrVoid_fits hp
  | expression => exact hp.expression
  | importDeclaration => exact Grammar.importDeclaration_fits
  | annotationUse => exact Grammar.annotationUse_fits hp
  | bodyDeclaration => exact hp.bodyDeclaration
  | tag => exact Grammar.tag_fits hp
  | json => exact Grammar.jsonDocument_fits hp

/-! ### Whole parses -/

/-- The number of braces that are open after some tokens. -/
def openBraces (tokens : List Token) : Nat :=
  tokens.countP (·.kind == .leftBrace) - tokens.countP (·.kind == .rightBrace)

/-- The number of words `default` among some tokens. -/
def defaults (tokens : List Token) : Nat :=
  tokens.countP (·.kind == .keyword .kwDefault)

theorem relieved_le (tokens : List Token) :
    relieved tokens ≤ tokens.countP (·.kind == .rightBrace) + defaults tokens := by
  unfold defaults
  induction tokens with
  | nil => exact Nat.le_refl _
  | cons token tokens ih =>
    simp only [relieved, TokenKind.makesRoom, List.countP_cons, Bool.or_eq_true, beq_iff_eq] at ih ⊢
    by_cases hbrace : token.kind = .rightBrace
    · simp only [hbrace, true_or, if_true]
      omega
    · by_cases hdefault : token.kind = .keyword .kwDefault
      · simp only [hdefault, or_true, if_true]
        omega
      · simp only [hbrace, hdefault, or_self, if_false]
        omega

/-- What tokens open at a time bounds the number of braces that are open. -/
theorem BracesWithin.openBraces_le {k d : Nat} {tokens : List Token}
    (h : BracesWithin k d tokens) (n : Nat) :
    openBraces (tokens.take n) ≤ k + defaults (tokens.take n) := by
  have hpeak := h.peak n
  have hrelieved := relieved_le (tokens.take n)
  unfold openBraces
  unfold opened at hpeak
  omega

/-- The mark at the end is no brace. -/
theorem BracesWithin.mark (k : Nat) (span : Span) : BracesWithin k 0 [⟨.eof, span⟩] :=
  .cons (.nil k) (Nat.le_refl _) (Nat.le_refl _)

namespace Source

variable {source : Source} {entry : EntryPoint} {tree : Tree} {tokens : List Token}

/-- All tokens before the mark are taken, and they keep to what is allowed at the start. -/
theorem parse_bracesWithin {body : List Token}
    (htokens : source.tokens = .ok (body ++ [⟨.eof, .point source.size⟩]))
    (hbody : InOrder source 0 body source.size) (hparse : source.parse entry = .ok tree) :
    BracesWithin (3 * maxNesting + 1) 0 body := by
  obtain ⟨t, hrun, hnil, -⟩ := (parse_eq_ok_iff_run htokens).1 hparse
  have hallows : State.Allows source (3 * maxNesting + 1) 1 { rest := body, stop := source.size } :=
    ⟨(isSound_initial hbody).valid, Nat.le_succ _, Nat.le_refl _⟩
  have hpasses := entry.production_fits (Grammar.derive_fit _) source _ _ hallows _ t hrun
  obtain ⟨taken, htaken, hwithin⟩ := hpasses.taken
  rw [hnil, List.append_nil] at htaken
  obtain rfl : body = taken := htaken
  exact hwithin

/-- **Levels bound braces.**  At no token of a text that is parsed are more braces open than three
    for each of the nesting levels, one outside of them all and one for each `default` before that
    token.  In a text without that word the limit is that of four braces for each level. -/
theorem parse_openBraces_le (hparse : source.parse entry = .ok tree)
    (htokens : source.tokens = .ok tokens) :
    (∀ n, openBraces (tokens.take n) ≤ 3 * maxNesting + 1 + defaults (tokens.take n))
      ∧ (defaults tokens = 0 → ∀ n, openBraces (tokens.take n) ≤ 4 * maxNesting) := by
  have hstream := source.tokens_isTokenStream
  rw [htokens] at hstream
  obtain ⟨body, hsplit, hbody⟩ := hstream
  have hwithin : BracesWithin (3 * maxNesting + 1) 0 tokens := by
    rw [hsplit]
    exact (parse_bracesWithin (hsplit ▸ htokens) hbody hparse).append (.mark _ _)
  refine ⟨hwithin.openBraces_le, fun hnone n => ?_⟩
  have hle := hwithin.openBraces_le n
  have hfewer : defaults (tokens.take n) ≤ defaults tokens := (List.take_sublist n _).countP_le
  have hlevels : 3 * maxNesting + 1 ≤ 4 * maxNesting := by decide
  omega

/-- An object in an object. -/
def nestedObject : Source :=
  .ofText "\x7ba:\x7b\x7d\x7d"

/-- Two braces are open after four tokens of it. -/
theorem parse_openBraces_le_nested :
    ∃ tree tokens, nestedObject.parse .json = .ok tree ∧ nestedObject.tokens = .ok tokens
      ∧ openBraces (tokens.take 4) = 2 ∧ openBraces (tokens.take 4) ≤ 4 * maxNesting := by
  obtain ⟨tree, hparse, -⟩ : ∃ tree, nestedObject.parse .json = .ok tree ∧ tree.size = 4 :=
    exists_eq_ok_and (by decide +kernel)
  obtain ⟨tokens, htokens, hopen, hnone⟩ : ∃ tokens, nestedObject.tokens = .ok tokens
      ∧ openBraces (tokens.take 4) = 2 ∧ defaults tokens = 0 :=
    exists_eq_ok_and (by decide +kernel)
  exact ⟨tree, tokens, hparse, htokens, hopen, (parse_openBraces_le hparse htokens).2 hnone 4⟩

end Source

end CodeMarkup
