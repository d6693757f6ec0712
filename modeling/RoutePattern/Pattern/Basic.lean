import RoutePattern.Pattern.Grammar
import RoutePattern.Pattern.Render

/-!
# Patterns

A pattern is read once, from a text of the pattern language or from a regex, and then matched against
texts and filled in with values any number of times.

## Main definitions

* `Pattern` — what is known of a pattern; `Pattern.ofText`, `Pattern.ofRegex`,
  `Pattern.ofNamedRegex` — its sources.
* `Pattern.match?` — what a text holds under the names of the pattern.
* `Pattern.render` — the text of given values.
-/

namespace RoutePattern

/-- A pattern that is ready for use. -/
structure Pattern where
  /-- What it was made of. -/
  source : Text
  /-- The text of its regex. -/
  regexSource : Text
  regex : Regex
  /-- Its tree, unless it was made of a regex. -/
  nodes : Option (List Node)
  /-- The names of the capturing groups, if they have names. -/
  names : Option (List Text)
  deriving Repr

namespace Pattern

/-! ## Errors -/

/-- Why a pattern cannot be made or filled in. -/
inductive Error where
  | options (fault : Options.Fault)
  | pattern (error : PatternError)
  | render (error : RenderError)
  /-- A regex needs as many names as it has groups. -/
  | groupNameCountMismatch (groups names : Nat)
  /-- A name is given to two groups. -/
  | duplicateGroupName (name : Text)
  /-- A regex cannot be filled in. -/
  | renderRegex
  deriving DecidableEq, Repr

/-- The wording of an error. -/
def Error.message : Error → String
  | .options fault => fault.message
  | .pattern error => error.message
  | .render error => error.message
  | .groupNameCountMismatch groups names =>
    "regex contains " ++ toString groups ++ " groups but array of group names contains " ++ toString names
  | .duplicateGroupName name =>
    "duplicate group name \"" ++ name.toString ++ "\". group names must be unique"
  | .renderRegex => "can't stringify patterns generated from a regex"

/-! ## Making patterns -/

/-- The regex of the nodes of a pattern. -/
def compile (pattern : Text) (nodes : List Node) (charset : Text) : Except PatternError Regex :=
  let source := Node.regexSource nodes charset
  match Regex.read source with
  | .ok r => .ok r
  | .error cause => .error (.invalidRegex pattern source cause)

/-- A pattern of the pattern language. The options are looked at first. -/
def ofText (text : Text) (o : Options) : Except Error Pattern := do
  (o.validate).mapError .options
  let nodes ← (Node.parse text o).mapError .pattern
  let regex ← (compile text nodes o.valueCharset).mapError .pattern
  return {
    source := text
    regexSource := Node.regexSource nodes o.valueCharset
    regex
    nodes := some nodes
    names := some (Node.captureNames nodes) }

/-- A pattern of a regex, of which a match reports the groups as they are. -/
def ofRegex (source : Text) (regex : Regex) : Pattern where
  source := source
  regexSource := source
  regex := regex
  nodes := none
  names := none

/-- The first name that was there before. -/
def firstRepeated? (seen : List Text) : List Text → Option Text
  | [] => none
  | name :: names => if name ∈ seen then some name else firstRepeated? (name :: seen) names

/-- A pattern of a regex with a name for each group. The number of names is looked at first. -/
def ofNamedRegex (source : Text) (regex : Regex) (names : List Text) : Except Error Pattern :=
  if names.length ≠ regex.groups then
    .error (.groupNameCountMismatch regex.groups names.length)
  else
    match firstRepeated? [] names with
    | some name => .error (.duplicateGroupName name)
    | none => .ok { ofRegex source regex with names := some names }

/-- Was the pattern made of a regex? -/
def isRegex (p : Pattern) : Bool := p.nodes.isNone

/-! ## Matching -/

/-- The values of names, of which each has the group in its place. Groups that took no part give none. -/
def collect (names : List Text) (groups : List (Option Text)) : Params :=
  (names.zip groups).foldl
    (fun params entry =>
      match entry.2 with
      | some value => Params.add params entry.1 value
      | none => params) ∅

/-- What the leftmost match in a text holds, if there is a match. -/
def match? (p : Pattern) (input : Text) : Option MatchResult :=
  (p.regex.captures input).map fun groups =>
    match p.names with
    | some names => .named (collect names groups)
    | none => .positional groups

/-! ## Filling in -/

/-- The text of the pattern with these values. -/
def render (p : Pattern) (params : Params) : Except Error Text :=
  match p.nodes with
  | none => .error .renderRegex
  | some nodes => (Node.render nodes params).mapError .render

end Pattern

end RoutePattern
