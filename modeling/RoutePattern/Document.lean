import RoutePattern.Text.Basic

/-!
# Documents

The values that options and parameters are written in: texts, lists and objects, and a value that
stands for absence. Numbers and truth values are of no use here and are not told apart.
-/

namespace RoutePattern

/-- A structured value. -/
inductive Document where
  | null
  | text (t : Text)
  | list (items : List Document)
  | object (members : List (Text × Document))
  /-- A number or a truth value. -/
  | scalar

namespace Document

instance : Inhabited Document := ⟨.null⟩

/-- The text of a value that is a text. -/
def asText? : Document → Option Text
  | .text t => some t
  | _ => none

/-- The character of a value that is a text of one character. -/
def asChar? : Document → Option Char
  | .text [c] => some c
  | _ => none

/-- A character that may be absent. -/
def asOptionalChar? : Document → Option (Option Char)
  | .null => some none
  | value => value.asChar?.map some

/-- The values of a member; a member that is written twice has two. -/
def valuesOf (members : List (Text × Document)) (key : Text) : List Document :=
  (members.filter (·.1 == key)).map (·.2)

end Document

end RoutePattern
