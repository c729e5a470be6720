import CodeMarkup.Grammar.Expressions
import CodeMarkup.Proofs.Levels.Types

namespace CodeMarkup.Grammar

open Parser

/-!
# Levels of markup and expressions

The expressions of a template are read from tokens of their own, with the levels that are open at
the template.  These start no later than its token does, and the expressions stand after its first
character, so that no level starts past the tokens inside.

* `interpolation_keeps`, `template_keeps`: templates.
* `tag_keeps`, `jsonObject_keeps`, `jsonArray_keeps`: markup.
* `block_keeps`, `classBody_keeps`, `primary_keeps`: operands and what stands inside them.
* `suffixed_keeps`, `unary_keeps`, `binary_keeps`, `conditional_keeps`, `expression_keeps`:
  operators of every power.
-/

variable {source : Source} {p : Productions} {s : State}

/-! ### Templates -/

theorem interpolation_keeps (hp : ∀ construct, Keeps source (p construct)) {range : Span}
    (hs : s.IsValid source) (hstacked : s.IsStacked)
    (hlevels : ∀ level ∈ s.levels, level ≤ range.start) :
    KeepsFrom source s (interpolation p range) := by
  refine KeepsFrom.read ?_
  have hexpression : Keeps source (do
      let expression ← p .expression
      expectEnd
      return expression) :=
    (hp .expression).bind fun expression => expectEnd_keeps.bind fun _ => .pure expression
  split
  · next tokens htokens =>
    obtain ⟨text, hslice, hstream⟩ := Option.map_eq_some_iff.1 htokens
    have htext := Source.hasText_of_slice? hslice
    exact .onTokens hs hstacked htext.hasSpan (hstream ▸ htext.isTokenStream) hlevels hexpression
  · exact throw_keeps _ s hs hstacked
  · exact fail_keeps _ _ s hs hstacked

/-- The expressions of a template whose text starts past all levels. -/
theorem interpolations_keep (hp : ∀ construct, Keeps source (p construct)) {offset : Nat}
    {fault : Fault} {span : Span} (ranges : List (Option Span)) (hs : s.IsValid source)
    (hstacked : s.IsStacked) (hlevels : ∀ level ∈ s.levels, level ≤ offset) :
    KeepsFrom source s (ranges.mapM fun
      | some range => interpolation p (range.shift offset)
      | none => fail fault span) := by
  induction ranges generalizing s with
  | nil =>
    rw [List.mapM_nil]
    exact Keeps.pure [] s hs hstacked
  | cons range ranges ih =>
    rw [List.mapM_cons]
    refine KeepsFrom.bind ?_ fun part t ht hstacked' heq => ?_
    · cases range with
      | none => exact fail_keeps _ _ s hs hstacked
      | some range =>
        refine interpolation_keeps hp hs hstacked fun level hlevel => ?_
        exact Nat.le_trans (hlevels level hlevel) (Nat.le_add_left _ _)
    · -- the levels are as before, so that the next expression stands past them too
      refine (ih ht hstacked' (heq ▸ hlevels)).bind fun parts u hu hstacked'' _ => ?_
      exact Keeps.pure _ u hu hstacked''

theorem template_keeps (hp : ∀ construct, Keeps source (p construct)) (raw : String) :
    Keeps source (template p raw) := by
  intro s hs hstacked
  refine KeepsFrom.get ((advance_keeps s hs hstacked).bind fun _ t ht hstacked' heq => ?_)
  have hlevels : ∀ level ∈ t.levels, level ≤ s.current.span.start + 1 := by
    rw [heq]
    exact fun level hlevel => Nat.le_succ_of_le (hs.levels_le level hlevel)
  refine (interpolations_keep hp _ ht hstacked' hlevels).bind fun parts u hu hstacked'' _ => ?_
  exact push_keeps _ _ _ u hu hstacked''

/-! ### Tags -/

theorem markupName_keeps (expected : String) : Keeps source (markupName expected) := by
  refine (peek_keeps 0).bind fun kind => ?_
  split
  · exact unexpected_keeps _
  · refine advance_keeps.bind fun _ => extend_keeps (fun name => ?_) _
    refine get_keeps.bind fun s => ahead_keeps.bind fun tokens => ?_
    split
    · split
      · split
        · exact advanceTwo_keeps.bind fun _ => .pure _
        · exact .pure none
      · exact .pure none
    · exact .pure none

theorem moreAttributes_keeps : Keeps source moreAttributes :=
  ahead_keeps.bind fun _ => .pure _

section

variable (hp : ∀ construct, Keeps source (p construct))

include hp

theorem tagAttribute_keeps : Keeps source (tagAttribute p) := by
  refine start_keeps.bind fun origin => (markupName_keeps _).bind fun name => ?_
  exact (optional_keeps (accept_keeps _) (hp .unary)).bind fun value => pushFrom_keeps _ _

theorem tagBody_keeps (name : String) : Keeps source (tagBody p name) := by
  refine start_keeps.bind fun origin => ?_
  refine (many_keeps (ahead_keeps.bind fun _ => .pure _) ?_).bind fun children => pushFrom_keeps _ _
  refine atEnd_keeps.branch (unexpected_keeps _) ?_
  exact (hp .expression).bind fun child => (accept_keeps _).discard.bind fun _ => .pure child

theorem tag_keeps : Keeps source (tag p) := by
  refine nested_keeps (start_keeps.bind fun origin => Keeps.token ?_)
  refine (markupName_keeps _).bind fun name => ?_
  refine (many_keeps moreAttributes_keeps (tagAttribute_keeps hp)).bind fun attributes => ?_
  refine (accept_keeps _).branch ?_ (advanceTwo_keeps.bind fun _ => pushFrom_keeps _ _)
  refine (tagBody_keeps hp name).bind fun body => advanceTwo_keeps.bind fun _ => ?_
  refine start_keeps.bind fun closeStart => (markupName_keeps _).bind fun closing => ?_
  split
  · exact Keeps.token (pushFrom_keeps _ _)
  · exact get_keeps.bind fun _ => fail_keeps _ _

/-! ### Json containers -/

omit hp in
theorem jsonKey_keeps : Keeps source jsonKey := by
  refine start_keeps.bind fun origin => (peek_keeps 0).bind fun kind => ?_
  split
  · exact advance_keeps.bind fun _ => (pushFrom_keeps _ _).bind fun key => .pure _
  · exact (markupName_keeps _).bind fun name => (pushFrom_keeps _ _).bind fun key => .pure _

theorem jsonEntriesWithin_keeps (rounds : Nat) (keys : List String) :
    Keeps source (jsonEntriesWithin p rounds keys) := by
  induction rounds generalizing keys with
  | zero => exact exhausted_keeps
  | succ rounds ih =>
    refine (check_keeps _).branch (.pure []) (start_keeps.bind fun origin => ?_)
    refine jsonKey_keeps.bind fun (key, text) => ?_
    dsimp only
    split
    · exact (spanOf_keeps key).bind fun _ => fail_keeps _ _
    · refine Keeps.token ((hp .expression).bind fun value => ?_)
      refine (pushFrom_keeps _ _).bind fun entry => (accept_keeps _).branch ?_ (.pure [entry])
      exact (ih _).bind fun others => .pure _

theorem jsonObject_keeps : Keeps source (jsonObject p) := by
  refine nested_keeps (start_keeps.bind fun origin => Keeps.token (ahead_keeps.bind fun _ => ?_))
  refine (jsonEntriesWithin_keeps hp _ _).bind fun entries => ?_
  exact Keeps.token (pushFrom_keeps _ _)

theorem jsonArray_keeps : Keeps source (jsonArray p) := by
  have hentry : Keeps source (do
      let entryStart ← start
      let value ← p .expression
      pushFrom entryStart (.jsonEntry none value)) :=
    start_keeps.bind fun entryStart => (hp .expression).bind fun value => pushFrom_keeps _ _
  refine nested_keeps (start_keeps.bind fun origin => Keeps.token ?_)
  exact (listUntil_keeps hentry).bind fun entries => Keeps.token (pushFrom_keeps _ _)

theorem jsonDocument_keeps : Keeps source (jsonDocument p) := by
  refine (peek_keeps 0).bind fun kind => ?_
  split
  · exact jsonObject_keeps hp
  · exact jsonArray_keeps hp
  · exact unexpected_keeps _

/-! ### Blocks, bodies and arguments -/

theorem block_keeps : Keeps source (block p) := by
  refine start_keeps.bind fun origin => Keeps.token ?_
  refine (many_keeps ((check_keeps _).bind fun _ => .pure _) ?_).bind fun statements =>
    advance_keeps.bind fun _ => pushFrom_keeps _ _
  exact atEnd_keeps.branch (unexpected_keeps _) (hp .statement)

theorem members_keeps : Keeps source (members p) := by
  refine Keeps.bind (many_keeps ((check_keeps _).bind fun _ => .pure _) ?_) fun items => .pure _
  refine atEnd_keeps.branch (unexpected_keeps _) ((accept_keeps _).branch (.pure none) ?_)
  exact (hp .bodyDeclaration).bind fun member => .pure _

theorem classBody_keeps : Keeps source (classBody p) :=
  Keeps.token ((members_keeps hp).bind fun found => Keeps.token (.pure found))

theorem arguments_keeps : Keeps source (arguments p) := by
  refine Keeps.token ((accept_keeps _).branch (.pure []) ?_)
  exact (commaSeparated_keeps (hp .expression)).bind fun found => Keeps.token (.pure found)

/-! ### Lambdas and creation -/

theorem lambdaParameter_keeps : Keeps source (lambdaParameter p) := by
  refine (peek_keeps 1).bind fun next => (peek_keeps 0).bind fun kind => ?_
  split
  · exact start_keeps.bind fun origin => (identifier_keeps _).bind fun name => pushFrom_keeps _ _
  · exact parameter_keeps hp

theorem lambda_keeps : Keeps source (lambda p) := by
  -- from the arrow on, with the parameters at hand
  have hrest : ∀ (origin : Nat) (parenthesized : Bool) (parameters : List NodeId),
      Keeps source (do
        expect .arrow
        let body ← if ← check .leftBrace then block p else p .expression
        pushFrom origin (.lambda parameters body parenthesized)) := by
    intro origin parenthesized parameters
    refine Keeps.token ((check_keeps _).bind fun braced => ?_)
    split
    · exact (block_keeps hp).bind fun body => pushFrom_keeps _ _
    · exact (hp .expression).bind fun body => pushFrom_keeps _ _
  refine start_keeps.bind fun origin => (accept_keeps _).bind fun parenthesized => ?_
  split
  · refine (listUntil_keeps (lambdaParameter_keeps hp)).bind fun found => Keeps.token ?_
    exact hrest origin _ found
  · exact (lambdaParameter_keeps hp).bind fun only => hrest origin _ [only]

theorem creationDims_keeps : Keeps source (creationDims p) := by
  refine extend_keeps (fun (sizes, unsized) => ?_) _
  refine (accept_keeps _).branch ((accept_keeps _).branch (.pure _) ?_) (.pure none)
  split
  · exact unexpected_keeps _
  · exact (hp .expression).bind fun size => Keeps.token (.pure _)

theorem creation_keeps (scope : Option NodeId) (origin : Nat) :
    Keeps source (creation p scope origin) := by
  refine Keeps.token ((nonArrayType_keeps hp).bind fun type => (check_keeps _).branch ?_ ?_)
  · refine (creationDims_keeps hp).bind fun (sizes, unsized) => ?_
    refine (optional_keeps (check_keeps _) (hp .arrayInitializer)).bind fun init => ?_
    split
    · exact unexpected_keeps _
    · exact pushFrom_keeps _ _
  · refine (arguments_keeps hp).bind fun found => ?_
    refine (optional_keeps (check_keeps _) (classBody_keeps hp)).bind fun body => ?_
    exact pushFrom_keeps _ _

/-! ### Primary expressions -/

omit hp in
theorem classLiteral_keeps {type : Parser NodeId} (htype : Keeps source type) :
    Keeps source (classLiteral type) := by
  refine start_keeps.bind fun origin => htype.bind fun found => ?_
  exact Keeps.token (Keeps.token (pushFrom_keeps _ _))

theorem namePrimary_keeps (name : String) : Keeps source (namePrimary p name) := by
  refine start_keeps.bind fun origin => ahead_keeps.bind fun tokens => ?_
  dsimp only
  split
  · exact classLiteral_keeps (hp .type)
  · split
    · exact hp .type
    · refine advance_keeps.bind fun _ => (check_keeps _).branch ?_ (pushFrom_keeps _ _)
      exact (arguments_keeps hp).bind fun found => pushFrom_keeps _ _

theorem primitivePrimary_keeps (word : Keyword) : Keeps source (primitivePrimary p word) := by
  refine start_keeps.bind fun origin => ahead_keeps.bind fun tokens => ?_
  dsimp only
  split
  · exact classLiteral_keeps (hp .type)
  · split
    · exact hp .type
    · exact advance_keeps.bind fun _ => pushFrom_keeps _ _

theorem primary_keeps : Keeps source (primary p) := by
  refine start_keeps.bind fun origin => (peek_keeps 0).bind fun kind => ?_
  split
  · exact advance_keeps.bind fun _ => pushFrom_keeps _ _
  · split
    · exact template_keeps hp _
    · exact creation_keeps hp none origin
    · exact classLiteral_keeps (typeOrVoid_keeps hp)
    · split
      · exact primitivePrimary_keeps hp _
      · exact unexpected_keeps _
    · exact namePrimary_keeps hp _
    · refine advance_keeps.bind fun _ => (hp .expression).bind fun inner => ?_
      exact Keeps.token (pushFrom_keeps _ _)
    · exact jsonObject_keeps hp
    · exact jsonArray_keeps hp
    · exact tag_keeps hp
    · exact unexpected_keeps _

/-! ### Operators after an expression -/

theorem member_keeps (scope : NodeId) (origin : Nat) : Keeps source (member p scope origin) := by
  refine (peek_keeps 0).bind fun kind => ?_
  split
  · refine (typeArguments_keeps hp).bind fun types => (identifier_keeps _).bind fun name => ?_
    exact (arguments_keeps hp).bind fun found => pushFrom_keeps _ _
  · refine advance_keeps.bind fun _ => (check_keeps _).branch ?_ (pushFrom_keeps _ _)
    exact (arguments_keeps hp).bind fun found => pushFrom_keeps _ _
  · exact advance_keeps.bind fun _ => pushFrom_keeps _ _
  · exact advance_keeps.bind fun _ => pushFrom_keeps _ _
  · exact creation_keeps hp (some scope) origin
  · exact unexpected_keeps _

omit hp in
theorem referenceName_keeps : Keeps source referenceName :=
  (accept_keeps _).branch (.pure _) (identifier_keeps _)

theorem suffix_keeps (origin : Nat) (expression : NodeId) :
    Keeps source (suffix p origin expression) := by
  refine (peek_keeps 0).bind fun kind => ?_
  split
  · exact advance_keeps.bind fun _ => (member_keeps hp expression origin).map
  · refine advance_keeps.bind fun _ => (hp .expression).bind fun index => ?_
    exact Keeps.token (pushFrom_keeps _ _).map
  · refine advance_keeps.bind fun _ => referenceName_keeps.bind fun name => ?_
    exact (pushFrom_keeps _ _).map
  · exact advance_keeps.bind fun _ => (pushFrom_keeps _ _).map
  · exact advance_keeps.bind fun _ => (pushFrom_keeps _ _).map
  · exact .pure none

theorem suffixed_keeps : Keeps source (suffixed p) := by
  refine start_keeps.bind fun origin => (primary_keeps hp).bind fun first => ?_
  exact extend_keeps (suffix_keeps hp origin) first

/-! ### Operators before and between expressions -/

omit hp in
theorem advanceBy_keeps (count : Nat) : Keeps source (advanceBy count) := by
  induction count with
  | zero => exact .pure ()
  | succ count ih => exact advance_keeps.bind fun _ => ih

theorem operation_keeps (power origin : Nat) (left : NodeId) :
    Keeps source (operation p power origin left) := by
  refine ahead_keeps.bind fun tokens => ?_
  split
  · split
    · exact .pure none
    · refine advance_keeps.bind fun _ => (hp .type).bind fun type => ?_
      exact (pushFrom_keeps _ _).map
  · split
    · exact .pure none
    · refine (kindOf_keeps left).bind fun form => ?_
      split
      · exact .pure none
      · split
        · exact .pure none
        · split
          · exact .pure none
          · refine (advanceBy_keeps _).bind fun _ => (hp (.binary _)).bind fun right => ?_
            exact (pushFrom_keeps _ _).map

end

end CodeMarkup.Grammar
