import RoutePattern.Parser.Live
import RoutePattern.Pattern.Grammar

/-!
# The pattern language as an assembly

The rules of `RoutePattern.Pattern.Grammar`, put together as assembled parsers with a real reference
from the optional segment back to the pattern. The reference is resolved when an optional segment is
first opened, so a grammar in use has a state.

## Main definitions

* `Grammar.Rule` — the rules that can be used on their own.
* `Grammar.assembly` — the assembly of a rule; `Grammar.world` — a grammar that has not been used.
* `Grammar.use` — what a rule gives for a text, and the grammar after that.
-/

namespace RoutePattern

/-! ## Nodes as values -/

namespace Node

/-- The tags of values that are nodes. -/
def textTag : Text := Text.ofString "static"

def namedTag : Text := Text.ofString "named"

def wildcardTag : Text := Text.ofString "wildcard"

def namedWildcardTag : Text := Text.ofString "named_wildcard"

def optionalTag : Text := Text.ofString "optional"

mutual

/-- The node of a value. -/
def ofValue? : Value → Option Node
  | .tagged key (.text t) =>
    if key = textTag then some (.text t)
    else if key = namedTag then some (.named t)
    else if key = wildcardTag then some .wildcard
    else if key = namedWildcardTag then some (.namedWildcard t)
    else none
  | .tagged key (.list items) =>
    if key = optionalTag then (ofValues? items).map .optional else none
  | _ => none

/-- The nodes of values. -/
def ofValues? : List Value → Option (List Node)
  | [] => some []
  | item :: items => do
    let node ← ofValue? item
    let nodes ← ofValues? items
    some (node :: nodes)

end

end Node

namespace Grammar

/-! ## Rules -/

/-- The rules of the language. -/
inductive Rule where
  | escapedChar
  | staticText
  | namedSegment
  | wildcard
  | namedWildcard
  | optionalSegment
  | token
  | pattern
  deriving DecidableEq, Repr

/-- The rule with a given name. -/
def Rule.ofKey? : String → Option Rule
  | "escaped_char" => some .escapedChar
  | "static_content" => some .staticText
  | "named_segment" => some .namedSegment
  | "wildcard" => some .wildcard
  | "named_wildcard" => some .namedWildcard
  | "optional_segment" => some .optionalSegment
  | "token" => some .token
  | "pattern" => some .pattern
  | _ => none

/-- What a rule gives. -/
inductive Reading where
  | text (t : Text)
  | node (n : Node)
  | nodes (ns : List Node)
  deriving Repr

/-- What a value of a rule is. -/
def Reading.ofValue? : Value → Option Reading
  | .text t => some (.text t)
  | .list items => (Node.ofValues? items).map .nodes
  | value => (Node.ofValue? value).map .node

/-! ## Assemblies -/

/-- The slot of the pattern. -/
def patternSlot : Nat := 0

/-- The reference from the optional segment to the pattern. -/
def patternReference : Nat := 0

variable (g : Grammar)

/-- The escape character with the character after it. -/
def escapedCharParts : Assembly := .pick 1 [.literal [g.options.escape], .anyChar]

/-- What ends a name, if names are closed. -/
def nameEndParts : List Assembly :=
  match g.options.nameEnd with
  | some c => [.literal [c]]
  | none => []

/-- A name with what surrounds it. -/
def delimitedNameParts : Assembly :=
  .pick 1 (.literal [g.options.nameStart] :: .fragment g.name :: g.nameEndParts)

/-- A wildcard. -/
def wildcardParts : Assembly := .map (.tagged Node.wildcardTag) (.literal [g.options.wildcard])

/-- A wildcard with a name. -/
def namedWildcardParts : Assembly :=
  .map (.tagged Node.namedWildcardTag)
    (.pick 1 [.literal [g.options.wildcard], g.delimitedNameParts])

/-- A segment with a name. -/
def namedSegmentParts : Assembly := .map (.tagged Node.namedTag) g.delimitedNameParts

/-- The beginning of another token, or the end of an optional segment. What it gives is not kept. -/
def specialParts : Assembly :=
  .firstOf
    [.literal [g.options.nameStart], .literal [g.options.optionalStart],
      .literal [g.options.optionalEnd], g.wildcardParts, g.namedWildcardParts]

/-- Static text. -/
def staticTextParts : Assembly :=
  .map (.tagged Node.textTag)
    (.concatUntil (.firstOf [g.escapedCharParts, .anyChar]) g.specialParts)

/-- An optional segment, with a reference to the pattern. -/
def optionalSegmentParts : Assembly :=
  .map (.tagged Node.optionalTag)
    (.pick 1
      [.literal [g.options.optionalStart], .reference patternReference, .literal [g.options.optionalEnd]])

/-- A token. -/
def tokenParts : Assembly :=
  .firstOf
    [g.namedWildcardParts, g.wildcardParts, g.optionalSegmentParts, g.namedSegmentParts,
      g.staticTextParts]

/-- A pattern. -/
def patternParts : Assembly := .many g.tokenParts

/-- The assembly of a rule. -/
def assembly : Rule → Assembly
  | .escapedChar => g.escapedCharParts
  | .staticText => g.staticTextParts
  | .namedSegment => g.namedSegmentParts
  | .wildcard => g.wildcardParts
  | .namedWildcard => g.namedWildcardParts
  | .optionalSegment => g.optionalSegmentParts
  | .token => g.tokenParts
  | .pattern => g.patternParts

/-- A grammar that has not been used: the pattern is defined, and the reference to it is fresh. -/
def world : World := World.define ⟨[.declare], [⟨patternSlot, .fresh⟩]⟩ patternSlot g.patternParts

/-! ## Use -/

/-- What a rule gives for a text, and the world after that, if the parse comes to an end. -/
def use (rule : Rule) (s : Text) (w : World) : Option (Option (Reading × Text) × World) :=
  ((g.assembly rule).parse s w).map fun (found, w) =>
    (found.bind fun (value, rest) => (Reading.ofValue? value).map (·, rest), w)

/-- What a rule gives for one text after another, up to a parse that does not come to an end. -/
def useAll (rule : Rule) : List Text → World → List (Option (Reading × Text))
  | [], _ => []
  | s :: texts, w =>
    match g.use rule s w with
    | none => []
    | some (found, w) => found :: useAll rule texts w

end Grammar

end RoutePattern
