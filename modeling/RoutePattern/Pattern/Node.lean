import RoutePattern.Regex.Escape

/-!
# Nodes

The tree that a pattern stands for, and what follows from the tree alone: the names under which a
match reports its groups, and the regex that accepts what the pattern describes.

## Main definitions

* `Node` — a part of a pattern.
* `Node.captureNames` — the names of the groups, from left to right.
* `Node.regexSource` — the regex of a pattern, which has exactly one capturing group for each name
  in `captureNames`, in the same order.
-/

namespace RoutePattern

/-- A part of a pattern. -/
inductive Node where
  /-- A text that stands for itself. -/
  | text (t : Text)
  /-- One or more characters of the value charset. -/
  | named (name : Text)
  /-- Anything, under no name of its own. -/
  | wildcard
  /-- Anything, under a name. -/
  | namedWildcard (name : Text)
  /-- Parts that may be missing. -/
  | optional (children : List Node)
  deriving Repr

namespace Node

/-- The name of what a wildcard without a name stands for. -/
def wildcardName : Text := ['_']

/-! ## Names -/

/-- The name under which a node captures, if it captures. -/
def captureName? : Node → Option Text
  | .text _ => none
  | .named name => some name
  | .wildcard => some wildcardName
  | .namedWildcard name => some name
  | .optional _ => none

mutual

/-- The names under which a node and the nodes in it capture. -/
def names : Node → List Text
  | .text _ => []
  | .named name => [name]
  | .wildcard => [wildcardName]
  | .namedWildcard name => [name]
  | .optional children => captureNames children

/-- The names under which nodes capture, from left to right. -/
def captureNames : List Node → List Text
  | [] => []
  | node :: nodes => node.names ++ captureNames nodes

end

/-! ## Regexes -/

/-- Anything, as little as possible, in a capturing group. -/
def wildcardSource : Text := Text.ofString "(.*?)"

/-- One or more characters of a charset, in a capturing group. -/
def namedSource (charset : Text) : Text := Text.ofString "([" ++ charset ++ Text.ofString "]+)"

mutual

/-- What a node adds to the regex. -/
def source (charset : Text) : Node → Text
  | .text t => Regex.escape t
  | .named _ => namedSource charset
  | .wildcard => wildcardSource
  | .namedWildcard _ => wildcardSource
  | .optional children => Text.ofString "(?:" ++ sources charset children ++ Text.ofString ")?"

/-- What nodes add to the regex. -/
def sources (charset : Text) : List Node → Text
  | [] => []
  | node :: nodes => source charset node ++ sources charset nodes

end

/-- The regex of a whole text. The charset of values is put into brackets as it is. -/
def regexSource (nodes : List Node) (charset : Text) : Text :=
  '^' :: (sources charset nodes ++ ['$'])

end Node

end RoutePattern
