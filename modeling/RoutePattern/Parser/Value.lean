import RoutePattern.Text.Basic

/-!
# Values of assembled parsers

An assembled parser gives texts, lists of values for several parsers or rounds, and values with a tag.
-/

namespace RoutePattern

/-- What an assembled parser gives. -/
inductive Value where
  | text (t : Text)
  | list (items : List Value)
  | tagged (key : Text) (value : Value)
  deriving Repr

namespace Value

mutual

/-- The text of a value: the texts of a list are joined, and a tagged value has none. -/
def asText : Value → Text
  | .text t => t
  | .list items => joined items
  | .tagged _ _ => []

/-- The texts of values, joined. -/
def joined : List Value → Text
  | [] => []
  | item :: items => item.asText ++ joined items

end

mutual

/-- All texts in a value in order, under tags too. -/
def flat : Value → Text
  | .text t => t
  | .list items => flats items
  | .tagged _ value => value.flat

/-- All texts in values in order. -/
def flats : List Value → Text
  | [] => []
  | item :: items => item.flat ++ flats items

end

end Value

end RoutePattern
