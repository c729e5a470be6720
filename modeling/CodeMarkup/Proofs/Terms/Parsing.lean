import CodeMarkup.Proofs.Lookahead.Types
import CodeMarkup.Proofs.Parsing.Derivation
import CodeMarkup.Proofs.Terms.Lexing
import Mathlib.Data.List.Forall2

namespace CodeMarkup

/-!
# Parsing terms

Names, strings and calls could each be the start of something else, a lambda, a cast, a class
literal or an operation.  Where a comma, a parenthesis or the end follows, lookahead finds none of
these, and the grammar makes the nodes of the term.

* `Parser.Succeeds`: a computation succeeds, and a condition holds of its value and its last state.
* `Term.Spells`: the nodes that a term stands for.
* `Term.IsWritable.reads`: the production of expressions reads a term, given room for its levels.
* `Term.IsWritable.parse_write`: the text of a term parses to the nodes of the term.
-/

open CodeMarkup.Parser

variable {source : Source} {s t : State}

namespace Parser

variable {α β γ : Type} {x : Parser α} {f : α → Parser β} {P : α → State → Prop}
  {Q : β → State → Prop}

/-! ### Computations that succeed -/

/-- The computation succeeds from a state, and the condition holds of its value and of the state
    that it leads to. -/
def Succeeds (source : Source) (s : State) (x : Parser α) (P : α → State → Prop) : Prop :=
  ∃ a t, x source s = .ok a t ∧ s.LeadsTo t ∧ P a t

namespace Succeeds

/-- **Sequences.**  The second part goes on where the first part has ended. -/
theorem bind (hx : Succeeds source s x P)
    (hf : ∀ a t, s.LeadsTo t → P a t → Succeeds source t (f a) Q) :
    Succeeds source s (x >>= f) Q := by
  obtain ⟨a, t, hrun, hleads, ha⟩ := hx
  obtain ⟨b, u, hrun', hleads', hb⟩ := hf a t hleads ha
  refine ⟨b, u, ?_, hleads.trans hleads', hb⟩
  rw [bind_apply, hrun]
  exact hrun'

theorem pure {a : α} (h : P a s) : Succeeds source s (pure a) P :=
  ⟨a, s, rfl, .refl s, h⟩

theorem bind_assoc {g : β → Parser γ} {R : γ → State → Prop} :
    Succeeds source s ((x >>= f) >>= g) R ↔ Succeeds source s (x >>= fun a => f a >>= g) R := by
  unfold Succeeds
  simp only [bind_apply]
  cases x source s <;> rfl

theorem start_bind {f : Nat → Parser β} :
    Succeeds source s (start >>= f) Q ↔ Succeeds source s (f s.start) Q :=
  Iff.rfl

theorem ahead_bind {f : List Token → Parser β} :
    Succeeds source s (ahead >>= f) Q ↔ Succeeds source s (f s.rest) Q :=
  Iff.rfl

theorem peek_bind {n : Nat} {f : TokenKind → Parser β} :
    Succeeds source s (peek n >>= f) Q ↔ Succeeds source s (f (kindAt s.rest n)) Q :=
  Iff.rfl

theorem check_bind {kind : TokenKind} {f : Bool → Parser β} :
    Succeeds source s (check kind >>= f) Q
      ↔ Succeeds source s (f (kindAt s.rest 0 == kind)) Q := by
  rw [s.kindAt_rest_zero]
  exact Iff.rfl

theorem advance_bind {f : Unit → Parser β} (hf : Succeeds source s.advance (f ()) Q) :
    Succeeds source s (advance >>= f) Q := by
  obtain ⟨b, t, hrun, hleads, hb⟩ := hf
  exact ⟨b, t, hrun, s.leadsTo_advance.trans hleads, hb⟩

theorem expect_bind {kind : TokenKind} {f : Unit → Parser β} (hkind : kindAt s.rest 0 = kind)
    (hf : Succeeds source s.advance (f ()) Q) : Succeeds source s (expect kind >>= f) Q := by
  unfold expect
  rw [bind_assoc, check_bind, hkind, beq_self_eq_true]
  exact advance_bind hf

/-- The next token is of the kind, and is taken. -/
theorem accept_bind {kind : TokenKind} {f : Bool → Parser β} (hkind : kindAt s.rest 0 = kind)
    (hf : Succeeds source s.advance (f true) Q) : Succeeds source s (accept kind >>= f) Q := by
  unfold accept
  rw [bind_assoc, check_bind, hkind, beq_self_eq_true, if_pos rfl, bind_assoc]
  exact advance_bind hf

/-- The next token is not of the kind, and is left. -/
theorem accept_bind_ne {kind : TokenKind} {f : Bool → Parser β}
    (hkind : (kindAt s.rest 0 == kind) = false) (hf : Succeeds source s (f false) Q) :
    Succeeds source s (accept kind >>= f) Q := by
  unfold accept
  rw [bind_assoc, check_bind, hkind]
  exact hf

theorem pushFrom {start : Nat} {kind : NodeKind} {P : NodeId → State → Prop}
    (h : ∀ node : Node, node.kind = kind →
      P s.nodes.size { s with nodes := s.nodes.push node }) :
    Succeeds source s (pushFrom start kind) P :=
  ⟨_, _, rfl, ⟨⟨[], rfl, rfl⟩, rfl, rfl, by simp⟩, h _ rfl⟩

/-- A loop whose step finds nothing ends at once. -/
theorem extend {step : α → Parser (Option α)} {a : α}
    (hstep : Succeeds source s (step a) fun next t => next = none ∧ t = s) (h : P a s) :
    Succeeds source s (extend step a) P := by
  refine ahead_bind.2 (hstep.bind ?_)
  rintro _ _ - ⟨rfl, rfl⟩
  exact .pure h

/-- A production that is nested succeeds if there is room for its level. -/
theorem nested (hroom : s.levels.length < maxNesting)
    (hP : ∀ a t levels, P a t → P a { t with levels := levels })
    (hx : ∀ levels : List Nat, levels.length ≤ s.levels.length + 1 →
      Succeeds source { s with levels := levels } x P) : Succeeds source s (nested x) P := by
  by_cases hhead : s.levels.head? = some s.start
  · obtain ⟨a, t, hrun, hleads, ha⟩ := hx s.levels (Nat.le_succ _)
    exact ⟨a, t, (if_pos hhead).trans hrun, hleads, ha⟩
  · obtain ⟨a, t, hrun, hleads, ha⟩ := hx (s.start :: s.levels) (Nat.le_refl _)
    obtain ⟨htaken, hstop, hlevels, hnodes⟩ := hleads
    refine ⟨a, { t with levels := t.levels.tail }, ?_, ⟨htaken, hstop, ?_, hnodes⟩, hP a t _ ha⟩
    · rw [Parser.nested, if_neg hhead, if_neg (Nat.not_le.2 hroom), hrun]
    · rw [hlevels]
      rfl

end Succeeds

end Parser

/-- A parse succeeds if its production does and no tokens are left after it. -/
theorem Source.parse_of_succeeds {entry : EntryPoint} {body : List Token} {stop : Nat}
    {P : NodeId → Array Node → Prop}
    (htokens : source.tokens = .ok (body ++ [⟨.eof, .point stop⟩]))
    (h : Succeeds source { rest := body, stop := stop }
      (entry.production (Grammar.derive source.nestingFuel)) fun root t =>
        t.rest = [] ∧ P root t.nodes) :
    ∃ tree, source.parse entry = .ok tree ∧ P tree.root tree.nodes := by
  obtain ⟨root, t, hrun, -, hrest, hroot⟩ := h
  exact ⟨⟨source, t.nodes, root⟩, (parse_eq_ok_iff_run htokens).2 ⟨t, hrun, hrest, rfl⟩, hroot⟩

/-! ### After a term -/

/-- Tokens before which a term ends: a comma, a closing parenthesis or none at all. -/
def EndsTerm (rest : List Token) : Prop :=
  kindAt rest 0 ∈ [.comma, .rightParen, .eof]

theorem kindAt_beq_of_mem {tokens : List Token} {kinds : List TokenKind}
    (h : kindAt tokens 0 ∈ kinds) (kind : TokenKind) (hkind : kind ∉ kinds) :
    (kindAt tokens 0 == kind) = false := by
  rw [beq_eq_false_iff_ne]
  rintro rfl
  exact hkind h

namespace EndsTerm

theorem kindAt_eq {rest : List Token} (h : EndsTerm rest) :
    kindAt rest 0 = .comma ∨ kindAt rest 0 = .rightParen ∨ kindAt rest 0 = .eof := by
  simpa [EndsTerm] using h

theorem operatorAhead? {rest : List Token} (h : EndsTerm rest) : operatorAhead? rest = none := by
  cases rest with
  | nil => rfl
  | cons token rest =>
    obtain ⟨kind, span⟩ := token
    obtain h | h | h : kind = .comma ∨ kind = .rightParen ∨ kind = .eof := h.kindAt_eq
    all_goals
      rw [h]
      rfl

/-- No suffix follows a term. -/
theorem suffix {p : Productions} {origin : Nat} {id : NodeId} (h : EndsTerm s.rest) :
    Succeeds source s (Grammar.suffix p origin id) fun next t => next = none ∧ t = s := by
  unfold Grammar.suffix
  rw [Succeeds.peek_bind]
  rcases h.kindAt_eq with h | h | h
  all_goals
    rw [h]
    exact .pure ⟨rfl, rfl⟩

/-- No operator follows a term. -/
theorem operation {p : Productions} {power origin : Nat} {id : NodeId} (h : EndsTerm s.rest) :
    Succeeds source s (Grammar.operation p power origin id) fun next t =>
      next = none ∧ t = s := by
  unfold Grammar.operation
  rw [Succeeds.ahead_bind, kindAt_beq_of_mem h (.keyword .kwInstanceof) (by decide),
    h.operatorAhead?]
  exact .pure ⟨rfl, rfl⟩

end EndsTerm

/-! ### Before a term -/

/-- Tokens that start with a word or a string, after which there is no arrow. -/
structure StartsTerm (tokens : List Token) : Prop where
  head : (kindAt tokens 0).isIdentifier = true ∨ (kindAt tokens 0).isPrimitive = true
    ∨ ∃ content, kindAt tokens 0 = .string content
  next : kindAt tokens 1 ≠ .arrow

namespace StartsTerm

variable {tokens : List Token}

/-- What holds of names, of primitive types and of strings holds of the first token of a term. -/
theorem of_head {P : TokenKind → Prop} (h : StartsTerm tokens)
    (hname : ∀ name, P (.identifier name)) (hword : ∀ word, P (.keyword word))
    (hstring : ∀ content, P (.string content)) : P (kindAt tokens 0) := by
  have hhead := h.head
  cases hkind : kindAt tokens 0 with
  | identifier name => exact hname name
  | keyword word => exact hword word
  | string content => exact hstring content
  | _ =>
    rw [hkind] at hhead
    simp [TokenKind.isIdentifier, TokenKind.isPrimitive] at hhead

theorem leadingOp?_eq (h : StartsTerm tokens) : Grammar.leadingOp? (kindAt tokens 0) = none :=
  h.of_head (P := fun kind => Grammar.leadingOp? kind = none) (fun _ => rfl) (fun _ => rfl)
    fun _ => rfl

theorem ne_leftParen (h : StartsTerm tokens) : kindAt tokens 0 ≠ .leftParen :=
  h.of_head (P := fun kind => kind ≠ .leftParen) nofun nofun nofun

theorem startsCast_eq (h : StartsTerm tokens) : startsCast tokens = false := by
  rw [startsCast, beq_eq_false_iff_ne.2 h.ne_leftParen, Bool.false_and]

theorem startsLambda_eq (h : StartsTerm tokens) : startsLambda tokens = false := by
  have hnext : (kindAt tokens 1 == .arrow) = false := beq_eq_false_iff_ne.2 h.next
  unfold startsLambda
  split
  · exact hnext
  · next hparen => exact absurd hparen h.ne_leftParen
  · rfl

end StartsTerm

/-! ### From expressions to primary expressions -/

namespace Grammar

variable {p : Productions} {P : NodeId → State → Prop}

theorem unary_succeeds (hstart : StartsTerm s.rest) (hP : ∀ id t, P id t → EndsTerm t.rest)
    (hprimary : Succeeds source s (primary p) P) : Succeeds source s (unary p) P := by
  unfold unary
  rw [Succeeds.start_bind, Succeeds.peek_bind, hstart.leadingOp?_eq]
  dsimp only
  rw [Succeeds.ahead_bind, hstart.startsCast_eq]
  unfold suffixed
  rw [if_neg Bool.false_ne_true, Succeeds.start_bind]
  exact hprimary.bind fun id t _ h => .extend (hP id t h).suffix h

theorem binary_succeeds {power : Nat} (hP : ∀ id t, P id t → EndsTerm t.rest)
    (hunary : Succeeds source s (p .unary) P) : Succeeds source s (binary p power) P := by
  unfold binary
  rw [Succeeds.start_bind]
  exact hunary.bind fun id t _ h => .extend (hP id t h).operation h

theorem conditional_succeeds (hP : ∀ id t, P id t → EndsTerm t.rest)
    (hbinary : Succeeds source s (p (.binary 0)) P) : Succeeds source s (conditional p) P := by
  unfold conditional
  rw [Succeeds.start_bind]
  refine hbinary.bind fun id t _ h => .accept_bind_ne ?_ (.pure h)
  exact kindAt_beq_of_mem (hP id t h) .question (by decide)

theorem expression_succeeds (hstart : StartsTerm s.rest) (hroom : s.levels.length < maxNesting)
    (hP : ∀ id t, P id t → EndsTerm t.rest)
    (hlevels : ∀ id t levels, P id t → P id { t with levels := levels })
    (hconditional : ∀ levels : List Nat, levels.length ≤ s.levels.length + 1 →
      Succeeds source { s with levels := levels } (p .conditional) P) :
    Succeeds source s (expression p) P := by
  refine .nested hroom hlevels fun levels hlength => ?_
  rw [Succeeds.ahead_bind, if_neg (by rw [hstart.startsLambda_eq]; exact Bool.false_ne_true),
    Succeeds.start_bind]
  refine (hconditional levels hlength).bind fun id t _ h => ?_
  rw [Succeeds.ahead_bind, assignmentAhead?, (hP id t h).operatorAhead?]
  exact .pure h

/-- **An expression is its primary expression**, if it starts like a term and ends like one.  Four
    productions lead from the one to the other. -/
theorem derive_expression_succeeds {fuel : Nat} (hstart : StartsTerm s.rest)
    (hroom : s.levels.length < maxNesting) (hP : ∀ id t, P id t → EndsTerm t.rest)
    (hlevels : ∀ id t levels, P id t → P id { t with levels := levels })
    (hprimary : ∀ levels : List Nat, levels.length ≤ s.levels.length + 1 →
      Succeeds source { s with levels := levels } (primary (derive fuel)) P) :
    Succeeds source s (derive (fuel + 4) .expression) P := by
  refine expression_succeeds hstart hroom hP hlevels fun levels hlength => ?_
  refine conditional_succeeds hP (binary_succeeds hP ?_)
  exact unary_succeeds hstart hP (hprimary levels hlength)

end Grammar

/-! ### Nodes of a term -/

namespace Term

/-- The nodes that a term stands for: names and literals, and calls whose arguments were made before
    them. -/
inductive Spells (nodes : Array Node) : Term → NodeId → Prop where
  | name {word : String} {id : NodeId} (hkind : kindIn nodes id = .simpleName word) :
      Spells nodes (.name word) id
  | text {content : String} {id : NodeId} (hkind : kindIn nodes id = .literal (.string content)) :
      Spells nodes (.text content) id
  | call {function : String} {arguments : List Term} {id : NodeId} {ids : List NodeId}
      (hkind : kindIn nodes id = .methodCall none [] function ids)
      (hlength : arguments.length = ids.length)
      (hbefore : ∀ term child, (term, child) ∈ arguments.zip ids → child < id)
      (hspells : ∀ term child, (term, child) ∈ arguments.zip ids → Spells nodes term child) :
      Spells nodes (.call function arguments) id

namespace Spells

variable {nodes more : Array Node} {term : Term} {id : NodeId}

/-- Nodes that are added change nothing. -/
theorem stable (h : Spells nodes term id) (hkept : nodes.toList <+: more.toList) :
    Spells more term id := by
  induction h with
  | name hkind => exact .name (kindIn_stable_eq hkept hkind nofun)
  | text hkind => exact .text (kindIn_stable_eq hkept hkind nofun)
  | call hkind hlength hbefore _ ih =>
    exact .call (kindIn_stable_eq hkept hkind nofun) hlength hbefore ih

theorem lt_size (h : Spells nodes term id) : id < nodes.size := by
  apply lt_size_of_kindIn
  cases h with
  | name hkind =>
    rw [hkind]
    nofun
  | text hkind =>
    rw [hkind]
    nofun
  | call hkind _ _ _ =>
    rw [hkind]
    nofun

/-- The node of a call, and those of its arguments before it. -/
theorem exists_arguments {function : String} {arguments : List Term}
    (h : Spells nodes (.call function arguments) id) :
    ∃ ids, kindIn nodes id = .methodCall none [] function ids
      ∧ List.Forall₂ (fun term child => child < id ∧ Spells nodes term child) arguments ids := by
  cases h with
  | call hkind hlength hbefore hspells =>
    refine ⟨_, hkind, List.forall₂_iff_zip.2 ⟨hlength, fun hmem => ?_⟩⟩
    exact ⟨hbefore _ _ hmem, hspells _ _ hmem⟩

end Spells

/-- A term has been read: its node is made, and the tokens after it are left. -/
structure IsRead (term : Term) (rest : List Token) (id : NodeId) (t : State) : Prop where
  rest_eq : t.rest = rest
  spells : Spells t.nodes term id

/-- Terms have been read one after another. -/
structure AreRead (terms : List Term) (rest : List Token) (ids : List NodeId) (t : State) :
    Prop where
  rest_eq : t.rest = rest
  spells : List.Forall₂ (Spells t.nodes) terms ids

end Term

namespace Grammar

variable {p : Productions} {rest : List Token}

/-! ### Primary expressions -/

/-- Tokens that may follow a name in a term. -/
def FollowsName (rest : List Token) : Prop :=
  kindAt rest 0 ∈ [.leftParen, .comma, .rightParen, .eof]

/-- The scan for a type passes over a word and nothing after it. -/
theorem scanType?_word {token : Token} (hrest : FollowsName rest)
    (hkind : token.kind.isIdentifier = true ∨ token.kind.isPrimitive = true) :
    scanType? (token :: rest) = some rest := by
  have hdims : skipDims rest = rest := by
    rw [skipDims_eq, startsDim, kindAt_beq_of_mem hrest .leftBracket (by decide)]
    rfl
  have hmember : startsMember rest = false := by
    rw [startsMember, kindAt_beq_of_mem hrest .dot (by decide)]
    rfl
  obtain ⟨kind, span⟩ := token
  cases kind with
  | identifier name =>
    have harguments : (kindAt (⟨.identifier name, span⟩ :: rest) 1 == .operator "<") = false :=
      kindAt_beq_of_mem hrest (.operator "<") (by decide)
    rw [scanType?, scanType_eq, if_neg (Nat.not_lt_zero _)]
    show (scanClassType (4 * rest.length + 4 + 3) 0 _).map skipDims = _
    rw [scanClassType_eq, harguments]
    show (if startsMember rest then _ else some rest).map skipDims = _
    rw [hmember, if_neg Bool.false_ne_true, Option.map_some, hdims]
  | keyword word =>
    have hprimitive : word.isPrimitive = true := by
      simpa [TokenKind.isIdentifier, TokenKind.isPrimitive] using hkind
    rw [scanType?, scanType_eq, if_neg (Nat.not_lt_zero _)]
    show (if word.isPrimitive then some (skipDims rest) else none) = _
    rw [if_pos hprimitive, hdims]
  | _ => simp [TokenKind.isIdentifier, TokenKind.isPrimitive] at hkind

/-- No class literal follows a name in a term. -/
theorem startsClass_eq (h : FollowsName rest) : startsClass rest = false := by
  rw [startsClass, kindAt_beq_of_mem h .dot (by decide)]
  rfl

/-- A name is neither a class literal nor the type of a method reference.  It is a call before a
    parenthesis, and else the name itself. -/
theorem namePrimary_succeeds {name : String} {token : Token} {P : NodeId → State → Prop}
    (hrest : s.rest = token :: rest) (hkind : token.kind.isIdentifier = true)
    (hfollows : FollowsName rest)
    (hcall : kindAt rest 0 = .leftParen → Succeeds source s.advance
      (arguments p >>= fun found => pushFrom s.start (.methodCall none [] name found)) P)
    (hname : kindAt rest 0 ≠ .leftParen →
      Succeeds source s.advance (pushFrom s.start (.simpleName name)) P) :
    Succeeds source s (namePrimary p name) P := by
  have hadvance : s.advance.rest = rest := by
    rw [s.advance_rest, hrest, List.tail_cons]
  unfold namePrimary
  rw [Succeeds.start_bind, Succeeds.ahead_bind, hrest, scanType?_word hfollows (.inl hkind)]
  dsimp only
  rw [Option.any_some, Option.any_some, startsClass_eq hfollows,
    kindAt_beq_of_mem hfollows .doubleColon (by decide)]
  refine .advance_bind ?_
  rw [Succeeds.check_bind, hadvance]
  by_cases hparen : kindAt rest 0 = .leftParen
  · rw [if_pos (beq_iff_eq.2 hparen)]
    exact hcall hparen
  · rw [if_neg (mt beq_iff_eq.1 hparen)]
    exact hname hparen

/-- The name of a primitive type is neither a class literal nor the type of a method reference. -/
theorem primitivePrimary_succeeds {word : Keyword} {token : Token} {P : NodeId → State → Prop}
    (hrest : s.rest = token :: rest) (hkind : token.kind.isPrimitive = true)
    (hfollows : FollowsName rest)
    (hname : Succeeds source s.advance (pushFrom s.start (.simpleName word.text)) P) :
    Succeeds source s (primitivePrimary p word) P := by
  unfold primitivePrimary
  rw [Succeeds.start_bind, Succeeds.ahead_bind, hrest, scanType?_word hfollows (.inr hkind)]
  dsimp only
  rw [Option.any_some, Option.any_some, startsClass_eq hfollows,
    kindAt_beq_of_mem hfollows .doubleColon (by decide)]
  exact .advance_bind hname

theorem primary_identifier {name : String} {P : NodeId → State → Prop}
    (hkind : kindAt s.rest 0 = .identifier name)
    (hname : Succeeds source s (namePrimary p name) P) : Succeeds source s (primary p) P := by
  unfold primary
  rw [Succeeds.start_bind, Succeeds.peek_bind, hkind]
  exact hname

theorem primary_primitive {word : Keyword} {P : NodeId → State → Prop}
    (hkind : kindAt s.rest 0 = .keyword word) (hword : word.isPrimitive = true)
    (hname : Succeeds source s (primitivePrimary p word) P) :
    Succeeds source s (primary p) P := by
  unfold primary
  rw [Succeeds.start_bind, Succeeds.peek_bind, hkind]
  cases word
  all_goals first
    | exact hname
    | cases hword

/-- **Names.** -/
theorem primary_name {word : String} {token : Token} (hrest : s.rest = token :: rest)
    (hkind : token.kind = .ofWord word) (hends : EndsTerm rest)
    (hword : (TokenKind.ofWord word).isIdentifier = true
      ∨ (TokenKind.ofWord word).isPrimitive = true) :
    Succeeds source s (primary p) ((Term.name word).IsRead rest) := by
  have hfollows : FollowsName rest := List.mem_cons_of_mem _ hends
  have hpeek : kindAt s.rest 0 = .ofWord word := by
    rw [hrest]
    exact hkind
  have hpush : Succeeds source s.advance (pushFrom s.start (.simpleName word))
      ((Term.name word).IsRead rest) := by
    refine .pushFrom fun node hnode => ⟨?_, .name ?_⟩
    · show s.advance.rest = rest
      rw [s.advance_rest, hrest, List.tail_cons]
    · exact (kindIn_push_size _ _).trans hnode
  rcases hword with hword | hword
  · refine primary_identifier (hpeek.trans (TokenKind.ofWord_eq_identifier hword)) ?_
    rw [← hkind] at hword
    refine namePrimary_succeeds hrest hword hfollows (fun hparen => ?_) fun _ => hpush
    -- a parenthesis does not end a term
    rw [EndsTerm, hparen] at hends
    exact absurd hends (by decide)
  · obtain ⟨keyword, heq, hprimitive, rfl⟩ := TokenKind.ofWord_eq_keyword hword
    refine primary_primitive (hpeek.trans heq) hprimitive ?_
    rw [← hkind] at hword
    exact primitivePrimary_succeeds hrest hword hfollows hpush

/-- **Strings.** -/
theorem primary_text {content : String} {token : Token} (hrest : s.rest = token :: rest)
    (hkind : token.kind = .string content) :
    Succeeds source s (primary p) ((Term.text content).IsRead rest) := by
  have hpeek : kindAt s.rest 0 = .string content := by
    rw [hrest]
    exact hkind
  unfold primary
  rw [Succeeds.start_bind, Succeeds.peek_bind, hpeek]
  refine .advance_bind (.pushFrom fun node hnode => ⟨?_, .text ?_⟩)
  · show s.advance.rest = rest
    rw [s.advance_rest, hrest, List.tail_cons]
  · exact (kindIn_push_size _ _).trans hnode

/-! ### Arguments -/

/-- A production of expressions reads a term wherever its tokens are next, given room for its
    levels. -/
def ReadsTerm (p : Productions) (source : Source) (term : Term) : Prop :=
  ∀ (s : State) (tokens rest : List Token), s.rest = tokens ++ rest →
    tokens.map Token.kind = term.kinds → EndsTerm rest →
    s.levels.length + term.depth ≤ maxNesting →
    Succeeds source s (p .expression) (term.IsRead rest)

/-- Before the terms that are left, or before the parenthesis, a term ends. -/
theorem endsTerm_append {terms : List Term} {tokens : List Token}
    (hkinds : tokens.map Token.kind = Term.kindsAfter terms)
    (hclose : kindAt rest 0 = .rightParen) : EndsTerm (tokens ++ rest) := by
  cases terms with
  | nil =>
    obtain rfl := List.map_eq_nil_iff.1 hkinds
    rw [EndsTerm, List.nil_append, hclose]
    decide
  | cons term terms =>
    obtain ⟨comma, tokens, rfl, hcomma, -⟩ := List.map_eq_cons_iff.1 hkinds
    show comma.kind ∈ _
    rw [hcomma]
    decide

/-- The terms after the first one, each with a comma before it. -/
theorem moreTerms_succeed {terms : List Term} (hp : ∀ term ∈ terms, ReadsTerm p source term)
    {rounds : Nat} {tokens : List Token} (hrest : s.rest = tokens ++ rest)
    (hkinds : tokens.map Token.kind = Term.kindsAfter terms) (hclose : kindAt rest 0 = .rightParen)
    (hrounds : terms.length < rounds)
    (hroom : s.levels.length + Term.depthAll terms ≤ maxNesting) :
    Succeeds source s (manyWithin (accept .comma) (p .expression) rounds)
      (Term.AreRead terms rest) := by
  induction terms generalizing s tokens rounds with
  | nil =>
    obtain ⟨more, rfl⟩ : ∃ more, rounds = more + 1 := Nat.exists_eq_add_one.2 hrounds
    obtain rfl := List.map_eq_nil_iff.1 hkinds
    rw [List.nil_append] at hrest
    unfold manyWithin
    refine .accept_bind_ne ?_ (.pure ⟨hrest, .nil⟩)
    rw [hrest, hclose]
    decide
  | cons term terms ih =>
    obtain ⟨more, rfl⟩ : ∃ more, rounds = more + 1 := ⟨rounds - 1, by omega⟩
    obtain ⟨comma, tokens, rfl, hcomma, hkinds⟩ := List.map_eq_cons_iff.1 hkinds
    obtain ⟨first, others, rfl, hfirst, hothers⟩ := List.map_eq_append_iff.1 hkinds
    rw [Term.depthAll] at hroom
    have hadvance : s.advance.rest = first ++ (others ++ rest) := by
      rw [s.advance_rest, hrest, List.cons_append, List.tail_cons, List.append_assoc]
    have hlevels := s.leadsTo_advance.levels_eq
    unfold manyWithin
    refine .accept_bind ?_ ?_
    · rw [hrest]
      exact hcomma
    · rw [if_pos rfl]
      refine (hp term List.mem_cons_self s.advance first _ hadvance hfirst
        (endsTerm_append hothers hclose) (by rw [hlevels]; omega)).bind fun id t ht hread => ?_
      have hmore := ih (fun other hother => hp other (List.mem_cons_of_mem _ hother)) hread.rest_eq
        hothers (Nat.lt_of_succ_lt_succ hrounds) (by rw [ht.levels_eq, hlevels]; omega)
      refine hmore.bind fun ids u hu hreads => .pure ⟨hreads.rest_eq, .cons ?_ hreads.spells⟩
      exact hread.spells.stable hu.nodes_kept

theorem length_le_kindsAfter (terms : List Term) :
    terms.length ≤ (Term.kindsAfter terms).length := by
  induction terms with
  | nil => exact Nat.zero_le _
  | cons term terms ih =>
    simp only [Term.kindsAfter, List.length_cons, List.length_append]
    omega

/-- A term does not start with the parenthesis after arguments. -/
theorem kindAt_term_ne {term : Term} {tokens : List Token}
    (hkinds : tokens.map Token.kind = term.kinds) :
    (kindAt (tokens ++ rest) 0 == .rightParen) = false := by
  have hword : ∀ word, TokenKind.ofWord word ≠ .rightParen := by
    intro word
    unfold TokenKind.ofWord
    split <;> nofun
  rw [beq_eq_false_iff_ne]
  cases term with
  | name word =>
    obtain ⟨token, _, rfl, htoken, -⟩ := List.map_eq_cons_iff.1 hkinds
    show token.kind ≠ _
    exact htoken ▸ hword word
  | text content =>
    obtain ⟨token, _, rfl, htoken, -⟩ := List.map_eq_cons_iff.1 hkinds
    show token.kind ≠ _
    exact htoken ▸ nofun
  | call function arguments =>
    obtain ⟨token, _, rfl, htoken, -⟩ := List.map_eq_cons_iff.1 hkinds
    show token.kind ≠ _
    exact htoken ▸ hword function

/-- **Arguments.**  The terms between two parentheses. -/
theorem arguments_succeed {terms : List Term} (hp : ∀ term ∈ terms, ReadsTerm p source term)
    {opening closing : Token} {tokens : List Token}
    (hrest : s.rest = opening :: (tokens ++ closing :: rest)) (hopen : opening.kind = .leftParen)
    (hkinds : tokens.map Token.kind = Term.kindsAll terms) (hclose : closing.kind = .rightParen)
    (hroom : s.levels.length + Term.depthAll terms ≤ maxNesting) :
    Succeeds source s (arguments p) (Term.AreRead terms rest) := by
  have hadvance : s.advance.rest = tokens ++ closing :: rest := by
    rw [s.advance_rest, hrest, List.tail_cons]
  unfold arguments
  refine .expect_bind (by rw [hrest]; exact hopen) ?_
  cases terms with
  | nil =>
    obtain rfl := List.map_eq_nil_iff.1 hkinds
    refine .accept_bind (by rw [hadvance]; exact hclose) (.pure ⟨?_, .nil⟩)
    rw [s.advance.advance_rest, hadvance, List.nil_append, List.tail_cons]
  | cons term terms =>
    obtain ⟨first, others, rfl, hfirst, hothers⟩ := List.map_eq_append_iff.1 hkinds
    rw [Term.depthAll] at hroom
    rw [List.append_assoc] at hadvance
    have hlevels := s.leadsTo_advance.levels_eq
    have hterm := hp term List.mem_cons_self s.advance first _ hadvance hfirst
      (endsTerm_append hothers hclose) (by rw [hlevels]; omega)
    refine .accept_bind_ne (by rw [hadvance]; exact kindAt_term_ne hfirst) ?_
    rw [if_neg Bool.false_ne_true]
    unfold commaSeparated
    rw [Succeeds.bind_assoc]
    refine hterm.bind fun id t ht hread => ?_
    rw [Succeeds.bind_assoc]
    unfold many
    rw [Succeeds.bind_assoc, Succeeds.ahead_bind]
    have hrounds : terms.length < t.rest.length + 1 := by
      have hlength := length_le_kindsAfter terms
      rw [← hothers, List.length_map] at hlength
      rw [hread.rest_eq, List.length_append]
      omega
    have hmore := moreTerms_succeed (fun other hother => hp other (List.mem_cons_of_mem _ hother))
      hread.rest_eq hothers hclose hrounds (by rw [ht.levels_eq, hlevels]; omega)
    refine hmore.bind fun ids u hu hreads => ?_
    refine .expect_bind (by rw [hreads.rest_eq]; exact hclose) (.pure ⟨?_, ?_⟩)
    · rw [u.advance_rest, hreads.rest_eq, List.tail_cons]
    · have hkept := u.leadsTo_advance.nodes_kept
      refine .cons (hread.spells.stable (hu.nodes_kept.trans hkept)) ?_
      exact hreads.spells.imp fun _ _ hspells => hspells.stable hkept

/-- **Calls.** -/
theorem primary_call {function : String} {arguments : List Term}
    (hp : ∀ term ∈ arguments, ReadsTerm p source term)
    {tokens : List Token} (hrest : s.rest = tokens ++ rest)
    (hkinds : tokens.map Token.kind = (Term.call function arguments).kinds)
    (hfunction : (TokenKind.ofWord function).isIdentifier = true)
    (hroom : s.levels.length + Term.depthAll arguments ≤ maxNesting) :
    Succeeds source s (primary p) ((Term.call function arguments).IsRead rest) := by
  obtain ⟨token, _, rfl, htoken, hkinds⟩ := List.map_eq_cons_iff.1 hkinds
  obtain ⟨opening, _, rfl, hopen, hkinds⟩ := List.map_eq_cons_iff.1 hkinds
  obtain ⟨inner, _, rfl, hinner, hkinds⟩ := List.map_eq_append_iff.1 hkinds
  obtain ⟨closing, _, rfl, hclose, hnil⟩ := List.map_eq_cons_iff.1 hkinds
  obtain rfl := List.map_eq_nil_iff.1 hnil
  rw [List.cons_append, List.cons_append, List.append_assoc, List.cons_append,
    List.nil_append] at hrest
  have hidentifier := TokenKind.ofWord_eq_identifier hfunction
  have hadvance : s.advance.rest = opening :: (inner ++ closing :: rest) := by
    rw [s.advance_rest, hrest, List.tail_cons]
  have hfollows : FollowsName (opening :: (inner ++ closing :: rest)) := by
    show opening.kind ∈ _
    rw [hopen]
    decide
  rw [← htoken] at hfunction hidentifier
  refine primary_identifier (by rw [hrest]; exact hidentifier) ?_
  refine namePrimary_succeeds hrest hfunction hfollows (fun _ => ?_) fun hparen =>
    absurd hopen hparen
  have harguments := arguments_succeed hp hadvance hopen hinner hclose
    (by rw [s.leadsTo_advance.levels_eq]; exact hroom)
  refine harguments.bind fun ids t _ hreads => .pushFrom fun node hnode => ⟨hreads.rest_eq, ?_⟩
  have hkept : t.nodes.toList <+: (t.nodes.push node).toList := by simp
  obtain ⟨hlength, hspells⟩ := List.forall₂_iff_zip.1 hreads.spells
  exact .call ((kindIn_push_size _ _).trans hnode) hlength
    (fun _ _ hmem => (hspells hmem).lt_size) fun _ _ hmem => (hspells hmem).stable hkept

end Grammar

/-! ### Whole terms -/

namespace Term

variable {term : Term}

theorem depth_pos (term : Term) : 0 < term.depth := by
  cases term with
  | name word => exact Nat.one_pos
  | text content => exact Nat.one_pos
  | call function arguments =>
    rw [depth]
    omega

/-- The tokens of a term start like a term. -/
theorem IsWritable.startsTerm (h : term.IsWritable) {tokens rest : List Token}
    (hkinds : tokens.map Token.kind = term.kinds) (hends : EndsTerm rest) :
    StartsTerm (tokens ++ rest) := by
  cases h with
  | name _ hkind =>
    obtain ⟨token, _, rfl, htoken, hnil⟩ := List.map_eq_cons_iff.1 hkinds
    obtain rfl := List.map_eq_nil_iff.1 hnil
    rw [← htoken] at hkind
    exact ⟨hkind.imp_right .inl, beq_eq_false_iff_ne.1 (kindAt_beq_of_mem hends .arrow (by decide))⟩
  | text _ =>
    obtain ⟨token, _, rfl, htoken, hnil⟩ := List.map_eq_cons_iff.1 hkinds
    obtain rfl := List.map_eq_nil_iff.1 hnil
    exact ⟨.inr (.inr ⟨_, htoken⟩),
      beq_eq_false_iff_ne.1 (kindAt_beq_of_mem hends .arrow (by decide))⟩
  | call _ hkind _ =>
    obtain ⟨token, _, rfl, htoken, hkinds⟩ := List.map_eq_cons_iff.1 hkinds
    obtain ⟨opening, _, rfl, hopen, -⟩ := List.map_eq_cons_iff.1 hkinds
    rw [← htoken] at hkind
    refine ⟨.inl hkind, ?_⟩
    show opening.kind ≠ _
    exact hopen ▸ nofun

/-- A term is read as an expression if it is read as a primary one, at its own level. -/
theorem IsWritable.reads_of_primary (h : term.IsWritable) {fuel : Nat}
    (hprimary : ∀ (s : State) (tokens rest : List Token), s.rest = tokens ++ rest →
      tokens.map Token.kind = term.kinds → EndsTerm rest →
      s.levels.length + term.depth ≤ maxNesting + 1 →
      Succeeds source s (Grammar.primary (Grammar.derive fuel)) (term.IsRead rest)) :
    Grammar.ReadsTerm (Grammar.derive (fuel + 4)) source term := by
  intro s tokens rest hrest hkinds hends hroom
  have hpos := term.depth_pos
  have hstart : StartsTerm s.rest := by
    rw [hrest]
    exact h.startsTerm hkinds hends
  refine Grammar.derive_expression_succeeds hstart (by omega)
    (fun id t hread => hread.rest_eq.symm ▸ hends)
    (fun id t levels hread => ⟨hread.rest_eq, hread.spells⟩) fun levels hlength => ?_
  exact hprimary { s with levels := levels } tokens rest hrest hkinds hends (by dsimp only; omega)

/-- A term is no deeper than the deepest of some terms that it is one of. -/
theorem depth_le_depthAll {terms : List Term} (h : term ∈ terms) : term.depth ≤ depthAll terms := by
  induction terms with
  | nil => cases h
  | cons other terms ih =>
    rw [depthAll]
    rcases List.mem_cons.1 h with rfl | h
    · exact Nat.le_max_left _ _
    · exact Nat.le_trans (ih h) (Nat.le_max_right _ _)

/-- **Terms are read.**  With four productions for each level the production of expressions makes
    the nodes of a term out of its tokens. -/
theorem IsWritable.reads (h : term.IsWritable) {fuel : Nat} (hfuel : 4 * term.depth ≤ fuel) :
    Grammar.ReadsTerm (Grammar.derive fuel) source term := by
  have hpos := term.depth_pos
  obtain ⟨less, rfl⟩ : ∃ less, fuel = less + 4 := ⟨fuel - 4, by omega⟩
  induction h generalizing less with
  | name hword hkind =>
    refine (IsWritable.name hword hkind).reads_of_primary ?_
    intro s tokens rest hrest hkinds hends _
    obtain ⟨token, _, rfl, htoken, hnil⟩ := List.map_eq_cons_iff.1 hkinds
    obtain rfl := List.map_eq_nil_iff.1 hnil
    exact Grammar.primary_name hrest htoken hends hkind
  | text hcontent =>
    refine (IsWritable.text hcontent).reads_of_primary ?_
    intro s tokens rest hrest hkinds hends _
    obtain ⟨token, _, rfl, htoken, hnil⟩ := List.map_eq_cons_iff.1 hkinds
    obtain rfl := List.map_eq_nil_iff.1 hnil
    exact Grammar.primary_text hrest htoken
  | @call function arguments hword hkind harguments ih =>
    rw [depth] at hfuel
    -- an argument is nested in four productions less
    have hp : ∀ term ∈ arguments, Grammar.ReadsTerm (Grammar.derive less) source term := by
      intro term hterm
      have hle := depth_le_depthAll hterm
      have hpos := term.depth_pos
      obtain ⟨inner, rfl⟩ : ∃ inner, less = inner + 4 := ⟨less - 4, by omega⟩
      exact ih term hterm hpos inner (by omega)
    refine (IsWritable.call hword hkind harguments).reads_of_primary ?_
    intro s tokens rest hrest hkinds hends hroom
    rw [depth] at hroom
    exact Grammar.primary_call hp hrest hkinds hkind (by omega)

/-- The text of a term has the tokens of the term, and then the mark. -/
theorem IsWritable.exists_tokens (h : term.IsWritable) :
    ∃ body stop, (Source.ofText term.write).tokens = .ok (body ++ [⟨.eof, .point stop⟩])
      ∧ body.map Token.kind = term.kinds := by
  have hend : EndsWord [] := nofun
  have hkinds := h.tokenKinds?_write hend
  rw [List.append_nil, tokenKinds?_nil, Option.map_some] at hkinds
  obtain ⟨tokens, htokens, hmap⟩ := Option.map_eq_some_iff.1 hkinds
  have hok : (Source.ofText term.write).tokens = .ok tokens := Source.tokens_eq_ok htokens
  have hstream := (Source.ofText term.write).tokens_isTokenStream
  rw [hok] at hstream
  obtain ⟨body, rfl, -⟩ := hstream
  rw [List.map_append, List.map_singleton] at hmap
  exact ⟨body, _, hok, List.append_cancel_right hmap⟩

/-- **Terms parse back.**  The text of a term that is not nested too deep parses, and the tree
    spells the term. -/
theorem IsWritable.parse_write (h : term.IsWritable) (hdepth : term.depth ≤ maxNesting) :
    ∃ tree, (Source.ofText term.write).parse .expression = .ok tree
      ∧ term.Spells tree.nodes tree.root := by
  obtain ⟨body, stop, htokens, hkinds⟩ := h.exists_tokens
  have hfuel : 4 * term.depth ≤ (Source.ofText term.write).nestingFuel := by
    have hle : term.depth ≤ (Source.ofText term.write).size + 1 := term.depth_le
    rw [Source.nestingFuel]
    omega
  have hends : EndsTerm [] := by
    rw [EndsTerm]
    decide
  refine Source.parse_of_succeeds (P := fun root nodes => term.Spells nodes root) htokens ?_
  obtain ⟨root, t, hrun, hleads, hread⟩ := h.reads hfuel { rest := body, stop := stop } body []
    (List.append_nil body).symm hkinds hends (by simpa using hdepth)
  exact ⟨root, t, hrun, hleads, hread.rest_eq, hread.spells⟩

end Term

end CodeMarkup
