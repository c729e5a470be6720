import CodeMarkup.Proofs.Parsing.Derivation
import CodeMarkup.Proofs.Trivia.Statements

namespace CodeMarkup

open Parser

/-!
# Blanks and comments do not matter

Two sources whose tokens look alike are parsed alike: blanks and comments decide about spans and
positions only.

* `Grammar.derive_agree`: the derived productions agree, whatever their bounds are.
* `Source.parse_insensitive`: the parses of two such sources fail with the same fault, or make trees
  with the same nodes.
-/

variable {a b : Source} {p q : Productions}

namespace Grammar

theorem step_agree (hp : ∀ construct, Agree a b Eq (p construct) (q construct))
    (construct : Nonterminal) : Agree a b Eq (step p construct) (step q construct) := by
  cases construct with
  | expression => exact expression_agree hp
  | conditional => exact conditional_agree hp
  | binary power => exact binary_agree hp power
  | unary => exact unary_agree hp
  | statement => exact statement_agree hp
  | type => exact type_agree hp
  | elementValue => exact elementValue_agree hp
  | arrayInitializer => exact arrayInitializer_agree hp
  | bodyDeclaration => exact bodyDeclaration_agree hp

/-- The bounds are those of two sources, which may differ in length. -/
theorem derive_agree (fuel fuel' : Nat) (construct : Nonterminal) :
    Agree a b Eq (derive fuel construct) (derive fuel' construct) := by
  -- a run that has no fuel left agrees with all others, so the bounds need not be the same
  induction fuel generalizing fuel' construct with
  | zero => exact exhausted_agree
  | succ fuel ih =>
    cases fuel' with
    | zero => exact agree_exhausted
    | succ fuel' => exact step_agree (ih fuel') construct

end Grammar

theorem EntryPoint.production_agree (entry : EntryPoint)
    (hp : ∀ construct, Agree a b Eq (p construct) (q construct)) :
    Agree a b Eq (entry.production p) (entry.production q) := by
  cases entry with
  | compilationUnit => exact Grammar.compilationUnit_agree hp
  | block => exact Grammar.block_agree hp
  | statement => exact hp .statement
  | type => exact Grammar.typeOrVoid_agree hp
  | expression => exact hp .expression
  | importDeclaration => exact Grammar.importDeclaration_agree
  | annotationUse => exact Grammar.annotationUse_agree hp
  | bodyDeclaration => exact hp .bodyDeclaration
  | tag => exact Grammar.tag_agree hp
  | json => exact Grammar.jsonDocument_agree hp

theorem EntryPoint.whole_agree (entry : EntryPoint)
    (hp : ∀ construct, Agree a b Eq (p construct) (q construct)) :
    Agree a b Eq (entry.production p >>= fun root => expectEnd >>= fun _ => pure root)
      (entry.production q >>= fun root => expectEnd >>= fun _ => pure root) := by
  refine (entry.production_agree hp).seq fun root => ?_
  exact expectEnd_agree.seq fun _ => .pure rfl

/-- The states in which the parses of two sources start. -/
theorem twin_initial {xs ys : List Token} (hxs : InOrder a 0 xs a.size)
    (hys : InOrder b 0 ys b.size) (h : Alike xs ys) (hsame : a = b → xs = ys) :
    Twin a b { rest := xs, stop := a.size } { rest := ys, stop := b.size } := by
  refine ⟨(Source.isSound_initial hxs).valid, (Source.isSound_initial hys).valid, h, rfl, ⟨0, rfl⟩,
    rfl, fun hab => ?_⟩
  subst hab
  rw [hsame rfl]
  exact ⟨_, rfl⟩

/-- No parse meets its bound. -/
theorem Source.parse_ne_exhausted {entry : EntryPoint} {error : ParseError}
    (h : a.parse entry = .error error) : error.fault ≠ .exhausted := by
  have hparsed := a.parse_isParsed entry
  rw [h] at hparsed
  intro hfault
  have hgenuine := hparsed.genuine
  rw [hfault] at hgenuine
  cases hgenuine

/-- Trees of two parses with the same forms of nodes. -/
theorem node_kind_eq {tree tree' : Tree}
    (h : tree.nodes.map Node.kind = tree'.nodes.map Node.kind) (id : NodeId) :
    (tree.node id).kind = (tree'.node id).kind := by
  have hkind : ∀ tree : Tree,
      (tree.node id).kind = ((tree.nodes.map Node.kind)[id]?).getD Node.blank.kind := by
    intro tree
    rw [Array.getElem?_map, Tree.node, Tree.node?]
    cases tree.nodes[id]? <;> rfl
  rw [hkind, hkind, h]

/-- **Blanks and comments do not matter.**  If two sources have tokens of the same kinds, and the
    same neighbours touch among those before the mark at the end, then from every entry point both
    parses succeed, with as many nodes, the same root and the same form of each node, or both fail
    with the same fault. -/
theorem Source.parse_insensitive (a b : Source) (entry : EntryPoint) (xs ys : List Token)
    (ha : a.tokens = .ok xs) (hb : b.tokens = .ok ys)
    (hkinds : xs.map Token.kind = ys.map Token.kind)
    (hadjacent : ∀ i (_ : i + 2 < xs.length) (_ : i + 2 < ys.length),
      xs[i].span.stop = xs[i + 1].span.start ↔ ys[i].span.stop = ys[i + 1].span.start) :
    (a.parse entry).isOk = (b.parse entry).isOk
    ∧ (∀ tree tree', a.parse entry = .ok tree → b.parse entry = .ok tree' →
      tree.size = tree'.size ∧ tree.root = tree'.root
        ∧ ∀ id, (tree.node id).kind = (tree'.node id).kind)
    ∧ ∀ error error', a.parse entry = .error error → b.parse entry = .error error' →
      error.fault = error'.fault := by
  have hstream := a.tokens_isTokenStream
  have hstream' := b.tokens_isTokenStream
  rw [ha] at hstream
  rw [hb] at hstream'
  obtain ⟨body, rfl, hbody⟩ := hstream
  obtain ⟨body', rfl, hbody'⟩ := hstream'
  rw [List.map_append, List.map_append] at hkinds
  -- the marks at the end have the same kind and are left out, with whatever touches them
  have halike : Alike body body' := by
    refine .of_kinds (List.append_cancel_right hkinds) fun i hi hi' => ?_
    have h := hadjacent i (by rw [List.length_append]; exact Nat.succ_lt_succ hi)
      (by rw [List.length_append]; exact Nat.succ_lt_succ hi')
    rwa [List.getElem_append_left, List.getElem_append_left hi, List.getElem_append_left,
      List.getElem_append_left hi'] at h
  have hsame : a = b → body = body' := by
    rintro rfl
    exact List.append_cancel_right (Except.ok.inj (ha.symm.trans hb))
  have hrun := entry.whole_agree (Grammar.derive_agree a.nestingFuel b.nestingFuel) _ _
    (twin_initial hbody hbody' halike hsame)
  -- the cases in which a bound was met do not occur, and both runs start outside of all levels
  have hbound := @a.parse_ne_exhausted entry
  have hbound' := @b.parse_ne_exhausted entry
  rw [parse_eq_run ha] at hbound ⊢
  rw [parse_eq_run hb] at hbound' ⊢
  unfold AgreeAt at hrun
  generalize (_ >>= _ : Parser NodeId) a _ = left at hrun hbound ⊢
  generalize (_ >>= _ : Parser NodeId) b _ = right at hrun hbound' ⊢
  cases hrun with
  | exhaustedLeft h => exact absurd h (hbound rfl)
  | exhaustedRight h => exact absurd h (hbound' rfl)
  | tooDeep _ hdeeper => exact absurd hdeeper (Nat.lt_irrefl _)
  | fail h =>
    refine ⟨rfl, fun tree tree' htree => ?_, fun error error' herror herror' => ?_⟩
    · cases htree
    · cases herror
      cases herror'
      exact h
  | ok h htwin _ _ =>
    have hsize := congrArg Array.size htwin.kinds
    rw [Array.size_map, Array.size_map] at hsize
    refine ⟨rfl, fun tree tree' htree htree' => ?_, fun error error' herror => ?_⟩
    · cases htree
      cases htree'
      exact ⟨hsize, h, node_kind_eq htwin.kinds⟩
    · cases herror

/-- A comment moves a template, whose text is read at another offset then. -/
theorem parse_insensitive_template :
    ∃ tree tree', (Source.ofText "- `$\x7bb\x7d`").parse .expression = .ok tree
      ∧ (Source.ofText "- /**/ `$\x7bb\x7d`").parse .expression = .ok tree'
      ∧ tree.root = tree'.root ∧ ∀ id, (tree.node id).kind = (tree'.node id).kind := by
  have htokens : (Source.ofText "- `$\x7bb\x7d`").tokens = .ok
      [⟨.operator "-", ⟨0, 1⟩⟩, ⟨.template "$\x7bb\x7d", ⟨2, 8⟩⟩, ⟨.eof, ⟨8, 8⟩⟩] :=
    Source.tokens_eq_ok (by decide +kernel)
  have htokens' : (Source.ofText "- /**/ `$\x7bb\x7d`").tokens = .ok
      [⟨.operator "-", ⟨0, 1⟩⟩, ⟨.template "$\x7bb\x7d", ⟨7, 13⟩⟩, ⟨.eof, ⟨13, 13⟩⟩] :=
    Source.tokens_eq_ok (by decide +kernel)
  have hsame := Source.parse_insensitive _ _ .expression _ _ htokens htokens' rfl fun i hi _ => by
    obtain rfl : i = 0 := by
      simp only [List.length_cons, List.length_nil] at hi
      omega
    simp
  obtain ⟨tree, h⟩ : ∃ tree, (Source.ofText "- `$\x7bb\x7d`").parse .expression = .ok tree :=
    Source.exists_eq_ok (by decide +kernel)
  obtain ⟨tree', h'⟩ : ∃ tree', (Source.ofText "- /**/ `$\x7bb\x7d`").parse .expression
      = .ok tree' := by
    refine Source.exists_eq_ok ?_
    rw [← hsame.1, h]
    rfl
  exact ⟨tree, tree', h, h', (hsame.2.1 tree tree' h h').2⟩

end CodeMarkup
