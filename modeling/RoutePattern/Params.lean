import RoutePattern.Document
import RoutePattern.NameMap

/-!
# Parameters

The values that a match finds under names, and that a pattern is filled in with. A name that occurs
more than once in a pattern has a list of values, in the order of its occurrences.

## Main definitions

* `ParamValue` — one value or a list; `ParamValue.values` — the values in order.
* `Params` — values by name; `Params.add` — one more occurrence of a name.
* `MatchResult` — values by name, or the bare groups of a regex without names.
-/

namespace RoutePattern

/-! ## Values -/

/-- What a name stands for. -/
inductive ParamValue where
  | single (value : Text)
  | multiple (values : List Text)
  deriving DecidableEq, Repr

namespace ParamValue

/-- The values in order. -/
def values : ParamValue → List Text
  | .single value => [value]
  | .multiple values => values

/-- The value of an occurrence, counted from zero. -/
def get? (v : ParamValue) (index : Nat) : Option Text := v.values[index]?

/-- The value, if it is not a list. -/
def asSingle? : ParamValue → Option Text
  | .single value => some value
  | .multiple _ => none

/-- One more occurrence, which makes a single value a list. -/
def push : ParamValue → Text → ParamValue
  | .single first, value => .multiple [first, value]
  | .multiple values, value => .multiple (values ++ [value])

/-- A text is a single value, a list of texts a list. -/
def ofDocument? : Document → Option ParamValue
  | .text value => some (.single value)
  | .list items => (items.mapM Document.asText?).map .multiple
  | _ => none

end ParamValue

/-! ## Parameters -/

/-- Values by name. -/
abbrev Params := NameMap ParamValue

namespace Params

/-- One more occurrence of a name. -/
def add (p : Params) (name value : Text) : Params :=
  match p.get? name with
  | some old => p.insert name (old.push value)
  | none => p.insert name (.single value)

/-- Parameters are an object of values. -/
def ofDocument? : Document → Option Params
  | .object members =>
    members.foldlM
      (fun p member => (ParamValue.ofDocument? member.2).map (NameMap.insert p member.1)) ∅
  | _ => none

end Params

/-! ## Results of a match -/

/-- What a match found. -/
inductive MatchResult where
  /-- Values by name. A group that took no part gives no value. -/
  | named (params : Params)
  /-- The groups of a regex without names. -/
  | positional (groups : List (Option Text))
  deriving Repr

namespace MatchResult

/-- The values by name. -/
def named? : MatchResult → Option Params
  | .named params => some params
  | .positional _ => none

/-- The groups without names. -/
def positional? : MatchResult → Option (List (Option Text))
  | .named _ => none
  | .positional groups => some groups

/-- The single value of a name. -/
def get? (m : MatchResult) (name : Text) : Option Text := do
  let params ← m.named?
  let value ← params.get? name
  value.asSingle?

/-- Is the same found? -/
def sameAs : MatchResult → MatchResult → Bool
  | .named p, .named q => p.sameAs q
  | .positional groups, .positional groups' => groups == groups'
  | _, _ => false

end MatchResult

end RoutePattern
