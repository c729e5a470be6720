import CodeMarkup.Grammar.Entry
import CodeMarkup.Proofs.Parsing.Statements

namespace CodeMarkup

open Parser

/-!
# Whole parses

The productions are tied together with a bound on how deep they nest.  Here the bound is shown to be
large enough, which makes all of them right, and so the tree of a parse a sound one.

* `Grammar.derive_ready`: with enough fuel the derived productions are right.
* `Source.parse_isParsed`: what holds of every parse, whether it succeeds or fails.
-/

variable {source : Source} {s t : State} {p : Productions} {id : NodeId}

namespace Grammar

theorem step_makes (construct : Nonterminal) (hr : Ready p source s construct.rank) :
    Ensures source s (step p construct) (Makes source s) := by
  cases construct with
  | expression => exact expression_makes hr
  | conditional => exact conditional_makes hr
  | binary power => exact binary_makes hr
  | unary => exact unary_makes hr
  | statement => exact statement_makes hr
  | type => exact type_makes hr
  | elementValue => exact elementValue_makes hr
  | arrayInitializer => exact arrayInitializer_makes hr
  | bodyDeclaration => exact bodyDeclaration_makes hr

/-- **The bound is large enough.**  Eight nested productions take a token or lie inside one, since
    the ranks of those that share a token decrease. -/
theorem derive_ready (fuel rank : Nat) (hs : s.IsSound source)
    (hfuel : 8 * (s.stop - s.start) + rank ≤ fuel) : Ready (derive fuel) source s rank := by
  induction fuel generalizing s rank with
  | zero =>
    refine ⟨hs, fun construct t ht hless => ?_⟩
    -- without fuel no rank is lower and no less of the source is left
    omega
  | succ fuel ih =>
    refine ⟨hs, fun construct t ht hless => ?_⟩
    have hrank : construct.rank < 8 := by cases construct <;> exact Nat.lt_of_sub_eq_succ rfl
    exact step_makes construct (ih construct.rank ht (by omega))

end Grammar

/-! ### Entry points -/

theorem Makes.wraps (h : Makes source s id t) : Wraps source s id t := by
  refine ⟨h.origin, h.sound, h.leads, h.start_le, h.previousStop_le, h.id_last, ?_,
    fun hi _ hle => h.toRow.mono (Nat.le_refl _) hle, h.accounts⟩
  rw [h.span_eq, State.spanFrom, Nat.max_eq_left (Nat.le_of_lt h.taken)]

/-- Every entry point makes one node of what it reads. -/
theorem EntryPoint.production_wraps (entry : EntryPoint) (hr : Ready p source s 6) :
    Ensures source s (entry.production p) (Wraps source s) := by
  have hlow : Ready p source s 0 := hr.mono (Nat.zero_le _)
  have hwraps : ∀ {x : Parser NodeId}, Ensures source s x (Makes source s) →
      Ensures source s x (Wraps source s) := fun h => h.mono fun _ _ h => h.wraps
  cases entry with
  | compilationUnit => exact Grammar.compilationUnit_wraps hlow
  | block => exact hwraps (Grammar.block_makes hlow)
  | statement => exact hwraps (hr.makes (by decide))
  | type => exact hwraps (Grammar.typeOrVoid_makes (hr.mono (by decide)))
  | expression => exact hwraps (hr.makes (by decide))
  | importDeclaration => exact hwraps (Grammar.importDeclaration_makes hr.sound)
  | annotationUse => exact hwraps (Grammar.annotationUse_makes hlow)
  | bodyDeclaration => exact hwraps (hr.makes (by decide))
  | tag => exact hwraps (Grammar.tag_makes hlow)
  | json => exact hwraps (Grammar.jsonDocument_makes hlow)

namespace Source

/-- What has succeeded has a result. -/
theorem exists_eq_ok {ε α : Type} {result : Except ε α} (h : result.isOk = true) :
    ∃ a, result = .ok a := by
  cases result with
  | error error => cases h
  | ok a => exact ⟨a, rfl⟩

theorem exists_eq_ok_and {ε α : Type} {result : Except ε α} {P : α → Prop} [DecidablePred P]
    (h : result.toOption.any (P ·) = true) : ∃ a, result = .ok a ∧ P a := by
  cases result with
  | error error => cases h
  | ok a => exact ⟨a, rfl, of_decide_eq_true h⟩

theorem tokens_eq_ok {tokens : List Token} (h : source.tokens.toOption = some tokens) :
    source.tokens = .ok tokens := by
  cases htokens : source.tokens with
  | error error =>
    rw [htokens] at h
    cases h
  | ok tokens' =>
    rw [htokens] at h
    exact congrArg _ (Option.some.inj h)

/-- A parse runs the production of its entry point on the tokens of the source, up to their end. -/
theorem parse_eq_run {entry : EntryPoint} {body : List Token} {stop : Nat}
    (h : source.tokens = .ok (body ++ [⟨.eof, .point stop⟩])) :
    source.parse entry =
      match (entry.production (Grammar.derive source.nestingFuel) >>= fun root =>
        expectEnd >>= fun _ => pure root) source { rest := body, stop := stop } with
      | .ok root s => .ok ⟨source, s.nodes, root⟩
      | .error error _ => .error error := by
  unfold parse
  rw [h, ← State.ofTokens_concat]
  rfl

/-- A tree is made by a run of the production that ends with the last token. -/
theorem parse_eq_ok_iff_run {entry : EntryPoint} {body : List Token} {stop : Nat} {tree : Tree}
    (h : source.tokens = .ok (body ++ [⟨.eof, .point stop⟩])) :
    source.parse entry = .ok tree ↔
      ∃ s, entry.production (Grammar.derive source.nestingFuel) source
          { rest := body, stop := stop } = .ok tree.root s
        ∧ s.rest = [] ∧ tree = ⟨source, s.nodes, tree.root⟩ := by
  rw [parse_eq_run h]
  constructor
  · intro hparse
    split at hparse
    · next root t hrun =>
      cases hparse
      obtain ⟨_, u, hproduction, hrest⟩ := bind_eq_ok hrun
      obtain ⟨_, v, hend, hlast⟩ := bind_eq_ok hrest
      obtain ⟨hnil, rfl⟩ := expectEnd_eq_ok hend
      cases hlast
      exact ⟨_, hproduction, hnil, rfl⟩
    · cases hparse
  · rintro ⟨s, hrun, hnil, htree⟩
    have hend : expectEnd source s = .ok () s := by
      show (if s.rest.isEmpty then pure () else _ : Parser Unit) source s = _
      rw [hnil]
      rfl
    rw [bind_apply, hrun]
    dsimp only
    rw [bind_apply, hend, htree]
    rfl

theorem parse_of_error {entry : EntryPoint} {body : List Token} {stop : Nat} {error : ParseError}
    {s : State} (h : source.tokens = .ok (body ++ [⟨.eof, .point stop⟩]))
    (hrun : entry.production (Grammar.derive source.nestingFuel) source
      { rest := body, stop := stop } = .error error s) : source.parse entry = .error error := by
  rw [parse_eq_run h, bind_apply, hrun]

/-- The state in which a parse of a whole source starts. -/
theorem isSound_initial {body : List Token} (h : InOrder source 0 body source.size) :
    State.IsSound source { rest := body, stop := source.size } := by
  refine ⟨⟨h, nofun, isBoundary_size, nofun⟩, fun id node hnode => ?_⟩
  rw [Array.getElem?_empty] at hnode
  cases hnode

end Source

/-- The span from the first of some tokens to the last. -/
def spanOfTokens? (tokens : List Token) : Option Span := do
  let first ← tokens.head?
  let last ← tokens.getLast?
  return ⟨first.span.start, last.span.stop⟩

/-- A tree as a parse makes it of the tokens of a source: the root is its last node and covers all
    tokens, no node is a child of two nodes or twice a child of one, and no node is lost. -/
structure Tree.IsParsed (source : Source) (body : List Token) (tree : Tree) : Prop where
  source_eq : tree.source = source
  arena : IsArena source tree.nodes
  root_last : tree.root + 1 = tree.nodes.size
  unshared : (childrenFrom tree.nodes 0).Nodup
  root_span : ∀ span ∈ spanOfTokens? body, tree.span tree.root = span
  accounts : Accounts source tree.nodes 0 [tree.root]

theorem Wraps.unshared (h : Wraps source s id t) : (childrenFrom t.nodes s.nodes.size).Nodup := by
  -- some bound past the start, to see that nothing is shared
  have hrow := h.row (max t.previousStop s.start + 1) (by omega) (by omega)
  exact (List.nodup_append.1 hrow.unshared).1

/-- A node over all tokens, once all of them have been taken. -/
theorem Wraps.root_span {body : List Token} {stop : Nat} (hbody : InOrder source 0 body stop)
    (h : Wraps source { rest := body, stop := stop } id t) (hrest : t.rest = []) :
    ∀ span ∈ spanOfTokens? body, spanIn t.nodes id = span := by
  intro span hspan
  obtain ⟨taken, htaken, hprevious⟩ := h.leads.taken
  -- all tokens have been taken, so the last of them is where the node stops
  have hall : body = taken := by simpa [hrest] using htaken
  subst hall
  obtain ⟨first, hfirst, hspan⟩ := Option.bind_eq_some_iff.1 hspan
  obtain ⟨last, hlast, hspan⟩ := Option.bind_eq_some_iff.1 hspan
  cases hspan
  obtain ⟨tail, rfl⟩ := List.head?_eq_some_iff.1 hfirst
  have hstop : t.previousStop = last.span.stop := by
    rw [State.previousStop, hprevious, hlast]
    rfl
  have hlt : first.span.start < last.span.stop := by
    cases hbody with
    | cons _ htoken htail =>
      have hbody : InOrder source first.span.start (first :: tail) stop :=
        .cons (Nat.le_refl _) htoken htail
      exact hbody.lt_stop_last hlast
  rw [h.span_eq, State.spanFrom, hstop]
  show Span.mk first.span.start (max _ first.span.start) = _
  rw [Nat.max_eq_left (Nat.le_of_lt hlt)]

/-- **Parses are sound.**  A parse never runs out of rounds or of fuel: it fails with an error that
    says what is wrong, or makes a tree of all tokens. -/
theorem Source.parse_isParsed (source : Source) (entry : EntryPoint) :
    match source.parse entry with
    | .error error => error.IsSound source
    | .ok tree => ∃ body, source.tokens = .ok (body ++ [⟨.eof, .point source.size⟩])
        ∧ InOrder source 0 body source.size ∧ tree.IsParsed source body := by
  have hstream := source.tokens_isTokenStream
  cases htokens : source.tokens with
  | error error =>
    rw [htokens] at hstream
    rw [Source.parse, htokens]
    exact hstream
  | ok tokens =>
    rw [htokens] at hstream
    obtain ⟨body, rfl, hbody⟩ := hstream
    -- the fuel counts two bytes more than there are, which makes up for every rank
    have hready : Ready (Grammar.derive source.nestingFuel) source
        { rest := body, stop := source.size } 6 := by
      refine Grammar.derive_ready _ _ (isSound_initial hbody) ?_
      show 8 * (source.size - _) + 6 ≤ 8 * (source.size + 2)
      omega
    have hwhole := (entry.production_wraps hready).bind fun root t h =>
      (ensures_expectEnd h.sound.valid).bind fun _ u ⟨hu, hrest⟩ =>
        (.pure ⟨hu ▸ h, hu ▸ hrest⟩ : Ensures source u (pure root) fun root t =>
          Wraps source { rest := body, stop := source.size } root t ∧ t.rest = [])
    rw [parse_eq_run htokens]
    unfold Ensures at hwhole
    split
    · next error hparse =>
      split at hparse
      · cases hparse
      · next error' t hrun =>
        cases hparse
        rw [hrun] at hwhole
        exact hwhole.2
    · next tree hparse =>
      split at hparse
      · next root t hrun =>
        cases hparse
        rw [hrun] at hwhole
        obtain ⟨_, hwraps, hrest⟩ := hwhole
        exact ⟨body, rfl, hbody, rfl, hwraps.sound.arena, hwraps.id_last, hwraps.unshared,
          hwraps.root_span hbody hrest, hwraps.accounts⟩
      · cases hparse

end CodeMarkup
