import RoutePattern.Params
import RoutePattern.Pattern.Error
import RoutePattern.Pattern.Node

/-!
# Filling in patterns

The opposite of matching: a pattern and values for its names make a text. The values of a name are
dealt out in order, one to each occurrence that is written. An optional segment is written if some
name in it still has a value; else it is left out, and nothing is dealt.

## Main definitions

* `Dealt` — how many values of each name have been dealt.
* `Node.hasValue` — is there still a value for a name in these nodes?
* `Node.render` — the text of a pattern.
-/

namespace RoutePattern

/-! ## Dealing values -/

/-- The names that have been written, once for each occurrence. -/
abbrev Dealt := List Text

/-- The next value of a name, if there is one. -/
def Dealt.next? (dealt : Dealt) (params : Params) (name : Text) : Option Text := do
  let value ← params.get? name
  value.get? (dealt.count name)

/-- Why there is no next value: there was none from the start, or they have been used up. -/
def Dealt.shortage (dealt : Dealt) (name : Text) : RenderError :=
  if dealt.count name = 0 then .missingValue name else .tooFewValues name

/-- The next value of a name, which is dealt with that. -/
def Dealt.take (dealt : Dealt) (params : Params) (name : Text) : Except RenderError (Text × Dealt) :=
  match dealt.next? params name with
  | some value => .ok (value, name :: dealt)
  | none => .error (dealt.shortage name)

namespace Node

/-! ## Rendering -/

mutual

/-- Is there still a value for a name in this node, at any depth? -/
def nodeHasValue (params : Params) (dealt : Dealt) : Node → Bool
  | .text _ => false
  | .optional children => hasValue params dealt children
  | node => node.captureName?.any fun name => (dealt.next? params name).isSome

/-- Is there still a value for a name in these nodes, at any depth? -/
def hasValue (params : Params) (dealt : Dealt) : List Node → Bool
  | [] => false
  | node :: nodes => nodeHasValue params dealt node || hasValue params dealt nodes

end

mutual

theorem nodeHasValue_eq_any (params : Params) (dealt : Dealt) : ∀ node : Node,
    nodeHasValue params dealt node = node.names.any fun name => (dealt.next? params name).isSome
  | .text _ => rfl
  | .named _ | .wildcard | .namedWildcard _ => (Bool.or_false _).symm
  | .optional children => hasValue_eq_any params dealt children

/-- What is asked for is a value for one of the names. -/
theorem hasValue_eq_any (params : Params) (dealt : Dealt) : ∀ nodes : List Node,
    hasValue params dealt nodes = (captureNames nodes).any fun name => (dealt.next? params name).isSome
  | [] => rfl
  | node :: nodes => by
    rw [hasValue, captureNames, List.any_append, nodeHasValue_eq_any params dealt node,
      hasValue_eq_any params dealt nodes]

end

theorem hasValue_iff_exists {params : Params} {dealt : Dealt} {nodes : List Node} :
    hasValue params dealt nodes = true ↔
      ∃ name ∈ captureNames nodes, (dealt.next? params name).isSome = true := by
  rw [hasValue_eq_any, List.any_eq_true]

mutual

/-- The text of a node, and what has been dealt after it. -/
def renderNode (params : Params) (dealt : Dealt) : Node → Except RenderError (Text × Dealt)
  | .text t => .ok (t, dealt)
  | .named name => dealt.take params name
  | .wildcard => dealt.take params wildcardName
  | .namedWildcard name => dealt.take params name
  | .optional children =>
    if hasValue params dealt children then renderNodes params dealt children else .ok ([], dealt)

/-- The text of nodes in order, and what has been dealt after them. -/
def renderNodes (params : Params) (dealt : Dealt) : List Node → Except RenderError (Text × Dealt)
  | [] => .ok ([], dealt)
  | node :: nodes => do
    let (front, dealt) ← renderNode params dealt node
    let (rest, dealt) ← renderNodes params dealt nodes
    return (front ++ rest, dealt)

end

/-- The text of a pattern with these values. -/
def render (nodes : List Node) (params : Params) : Except RenderError Text :=
  (renderNodes params [] nodes).map (·.1)

end Node

end RoutePattern
