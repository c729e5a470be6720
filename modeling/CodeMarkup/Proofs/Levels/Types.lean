import CodeMarkup.Grammar.Declarators
import CodeMarkup.Proofs.Levels.Run

namespace CodeMarkup.Grammar

open Parser

/-!
# Levels of names, modifiers, types and variables

Each production is a sequence of steps and of productions that keep the levels, so that it keeps
them too.

* `qualifiedName_keeps`, `type_keeps`: names and types.
* `annotationUse_keeps`, `elementValue_keeps`, `modifiers_keeps`: what stands in front of
  declarations.
* `localVariables_keeps`, `parameter_keeps`: the parts that declarations and statements share.
-/

variable {source : Source} {p : Productions}

/-! ### Names and types -/

theorem qualifiedName_keeps : Keeps source qualifiedName := by
  refine start_keeps.bind fun origin => ?_
  refine (identifier_keeps _).bind fun first => ?_
  refine (pushFrom_keeps _ _).bind fun head => extend_keeps (fun qualifier => ?_) head
  refine ahead_keeps.bind fun tokens => ?_
  split
  · refine advance_keeps.bind fun _ => (identifier_keeps _).bind fun segment => ?_
    exact (pushFrom_keeps _ _).bind fun name => .pure _
  · exact .pure none

theorem arrayDims_keeps (origin : Nat) (id : NodeId) : Keeps source (arrayDims origin id) := by
  refine extend_keeps (fun type => ahead_keeps.bind fun tokens => ?_) id
  split
  · exact advanceTwo_keeps.bind fun _ => (pushFrom_keeps _ _).bind fun wrapped => .pure _
  · exact .pure none

section

variable (hp : ∀ construct, Keeps source (p construct))

include hp

theorem typeArgument_keeps : Keeps source (typeArgument p) := by
  -- a wildcard with a bound
  have hbound : ∀ (origin : Nat) (kind : NodeId → NodeKind),
      Keeps source (p .type >>= fun bound => pushFrom origin (kind bound)) :=
    fun origin kind => (hp .type).bind fun bound => pushFrom_keeps _ _
  refine (check_keeps _).branch ?_ (hp .type)
  refine start_keeps.bind fun origin => advance_keeps.bind fun _ => ?_
  refine (accept_keeps _).branch (hbound origin (.wildcardType · none)) ?_
  exact (accept_keeps _).branch (hbound origin (.wildcardType none ·)) (pushFrom_keeps _ _)

theorem typeArguments_keeps : Keeps source (typeArguments p) := by
  refine Keeps.token ((accept_keeps _).branch (.pure []) ?_)
  refine (commaSeparated_keeps (typeArgument_keeps hp)).bind fun arguments => ?_
  exact Keeps.token (.pure arguments)

theorem typeSegment_keeps (origin : Nat) (scope : Option NodeId) :
    Keeps source (typeSegment p origin scope) := by
  refine (identifier_keeps _).bind fun name => ?_
  refine (optional_keeps (check_keeps _) (typeArguments_keeps hp)).bind fun arguments => ?_
  exact pushFrom_keeps _ _

theorem classType_keeps : Keeps source (classType p) := by
  refine start_keeps.bind fun origin => (typeSegment_keeps hp origin none).bind fun first => ?_
  refine extend_keeps (fun scope => ahead_keeps.bind fun tokens => ?_) first
  split
  · refine advance_keeps.bind fun _ => ?_
    exact (typeSegment_keeps hp origin (some scope)).bind fun inner => .pure _
  · exact .pure none

theorem nonArrayType_keeps : Keeps source (nonArrayType p) := by
  refine (peek_keeps 0).bind fun kind => ?_
  split
  · split
    · exact start_keeps.bind fun origin => advance_keeps.bind fun _ => pushFrom_keeps _ _
    · exact unexpected_keeps _
  · exact classType_keeps hp
  · exact unexpected_keeps _

theorem typeOrVoid_keeps : Keeps source (typeOrVoid p) := by
  refine (check_keeps _).branch ?_ (hp .type)
  exact start_keeps.bind fun origin => advance_keeps.bind fun _ => pushFrom_keeps _ _

theorem typeList_keeps : Keeps source (typeList p) :=
  commaSeparated_keeps (hp .type)

theorem typeParameter_keeps : Keeps source (typeParameter p) := by
  refine start_keeps.bind fun origin => (identifier_keeps _).bind fun name => ?_
  refine (optionalList_keeps (accept_keeps _) ?_).bind fun bounds => pushFrom_keeps _ _
  refine (hp .type).bind fun first => ?_
  exact (many_keeps (accept_keeps _) (hp .type)).bind fun others => .pure _

theorem typeParameters_keeps : Keeps source (typeParameters p) := by
  refine Keeps.token ?_
  refine (commaSeparated_keeps (typeParameter_keeps hp)).bind fun parameters => ?_
  exact Keeps.token (.pure parameters)

/-! ### Annotations and modifiers -/

theorem memberValue_keeps : Keeps source (memberValue p) := by
  refine start_keeps.bind fun origin => (identifier_keeps _).bind fun key => Keeps.token ?_
  exact (hp .elementValue).bind fun value => pushFrom_keeps _ _

theorem annotationArguments_keeps : Keeps source (annotationArguments p) := by
  refine ahead_keeps.bind fun tokens => ?_
  split
  · exact (commaSeparated_keeps (memberValue_keeps hp)).bind fun pairs => .pure _
  · refine (check_keeps _).branch (.pure _) ?_
    exact (hp .elementValue).bind fun value => .pure _

theorem annotationUse_keeps : Keeps source (annotationUse p) := by
  refine nested_keeps (start_keeps.bind fun origin => Keeps.token ?_)
  refine qualifiedName_keeps.bind fun name => (accept_keeps _).branch ?_ (pushFrom_keeps _ _)
  refine (annotationArguments_keeps hp).bind fun found => ?_
  exact Keeps.token (pushFrom_keeps _ _)

theorem elementValueArray_keeps : Keeps source (elementValueArray p) := by
  refine nested_keeps (start_keeps.bind fun origin => Keeps.token ?_)
  refine (listUntil_keeps (hp .elementValue)).bind fun values => ?_
  exact Keeps.token (pushFrom_keeps _ _)

omit hp in
theorem pushModified_keeps (front : Modifiers) (kind : NodeKind) :
    Keeps source (pushModified front kind) :=
  get_keeps.bind fun _ => push_keeps _ _ _

theorem modifiers_keeps : Keeps source (modifiers p) := by
  refine start_keeps.bind fun origin => ?_
  refine Keeps.bind (extend_keeps (fun found => (peek_keeps 0).bind fun kind => ?_) _)
    fun found => start_keeps.bind fun _ => .pure _
  split
  · refine (peek_keeps 1).bind fun next => ?_
    split
    · exact .pure none
    · exact (annotationUse_keeps hp).bind fun use => .pure _
  · split
    · exact start_keeps.bind fun _ => advance_keeps.bind fun _ => .pure _
    · exact .pure none
  · exact .pure none

/-! ### Variables and parameters -/

/-- A value, in braces or not. -/
theorem initializer_keeps :
    Keeps source (do if ← check .leftBrace then p .arrayInitializer else p .expression) :=
  (check_keeps _).branch (hp .arrayInitializer) (hp .expression)

theorem declaratorRest_keeps (name : String) (origin : Nat) :
    Keeps source (declaratorRest p name origin) := by
  refine (many_keeps (ahead_keeps.bind fun _ => .pure _) advanceTwo_keeps).bind fun dims => ?_
  exact (optional_keeps (accept_keeps _) (initializer_keeps hp)).bind fun init => pushFrom_keeps _ _

theorem declarator_keeps : Keeps source (declarator p) :=
  start_keeps.bind fun origin => (identifier_keeps _).bind fun name =>
    declaratorRest_keeps hp name origin

theorem localVariables_keeps : Keeps source (localVariables p) := by
  refine (modifiers_keeps hp).bind fun front => (hp .type).bind fun type => ?_
  exact (commaSeparated_keeps (declarator_keeps hp)).bind fun declared => pushModified_keeps _ _

theorem parameter_keeps : Keeps source (parameter p) := by
  refine (modifiers_keeps hp).bind fun front => start_keeps.bind fun typeStart => ?_
  refine (hp .type).bind fun type => (accept_keeps _).bind fun isVarargs => ?_
  refine (identifier_keeps _).bind fun name => (arrayDims_keeps typeStart type).bind fun type => ?_
  exact pushModified_keeps _ _

end

end CodeMarkup.Grammar
