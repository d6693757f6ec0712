import RoutePattern.Regex.Basic

/-!
# Reduced regexes

A regex is matched, and its room is counted, in its reduced form.

* A class is written as the table of its characters, so that it does not matter how it was spelt.
* Parentheses that do not capture only hold a part together and are dropped. A sequence in a sequence
  and a choice in a choice are one.
* A part that can match nothing but the empty text is repeated once at most. What is repeated no
  times is empty, and what is repeated once is the part itself.
* Alternatives that are all given characters, or all other classes, are one class.
* Alternatives of two or more pieces share the pieces that all of them begin with, and differ only
  behind these. Characters side by side are one piece, which is shared as a whole or not at all.

The last rule has a say in which match is preferred: ways through a common beginning are compared by
how they go through it first, and by the alternatives behind it second. So what is equal there
matters, and the other rules bring what means the same to the same form.

## Main definitions

* `Regex.nullable`, `Regex.isWidthless` — can a regex match the empty text, and nothing else?
* `Regex.beginsAt`, `Regex.endsAt` — the conditions that hold wherever it begins or ends.
* `Regex.pieces` — a sequence as what alternatives can share.
* `Regex.ofAlternatives` — a choice, with common beginnings shared.
* `Regex.reduced` — the reduced form.
-/

namespace RoutePattern

/-- At most one round. -/
def Times.atMostOnce (times : Times) : Times :=
  { times with min := Nat.min 1 times.min, max := some (times.max.elim 1 (Nat.min 1)) }

namespace Regex

/-! ## Matching the empty text -/

/-- Is there a way through the regex that takes no character? -/
def nullable : Regex → Bool
  | .empty => true
  | .set _ => false
  | .look _ => true
  | .group _ body => body.nullable
  | .loop times body => times.min == 0 || body.nullable
  | .seq first second => first.nullable && second.nullable
  | .alt first second => first.nullable || second.nullable

/-- Does no way through the regex take a character? -/
def isWidthless : Regex → Bool
  | .empty => true
  | .set _ => false
  | .look _ => true
  | .group _ body => body.isWidthless
  | .loop times body => times.max == some 0 || body.isWidthless
  | .seq first second => first.isWidthless && second.isWidthless
  | .alt first second => first.isWidthless && second.isWidthless

/-! ## Both ends -/

/-- Does every match begin where the condition holds? -/
def beginsAt (place : Look) : Regex → Bool
  | .empty => false
  | .set _ => false
  | .look p => p == place
  | .group _ body => body.beginsAt place
  | .loop times body => times.min != 0 && body.beginsAt place
  | .seq first second => first.beginsAt place || first.isWidthless && second.beginsAt place
  | .alt first second => first.beginsAt place && second.beginsAt place

/-- Does every match end where the condition holds? -/
def endsAt (place : Look) : Regex → Bool
  | .empty => false
  | .set _ => false
  | .look p => p == place
  | .group _ body => body.endsAt place
  | .loop times body => times.min != 0 && body.endsAt place
  | .seq first second => second.endsAt place || second.isWidthless && first.endsAt place
  | .alt first second => first.endsAt place && second.endsAt place

/-! ## Parts and alternatives -/

/-- The parts of a sequence in order. -/
def parts : Regex → List Regex
  | .empty => []
  | .seq first second => first.parts ++ second.parts
  | r => [r]

/-- The alternatives of a choice in order. -/
def choices : Regex → List Regex
  | .alt first second => first.choices ++ second.choices
  | r => [r]

/-- The sequence of parts in order. -/
def ofParts (rs : List Regex) : Regex := seqOf rs.reverse

/-- The choice between alternatives in order. -/
def ofChoices (rs : List Regex) : Regex := altOf rs.reverse

/-- One part or sequence behind another, as one sequence without empty parts. -/
def andThen : Regex → Regex → Regex
  | .empty, second => second
  | .seq part parts, second => .seq part (parts.andThen second)
  | first, .empty => first
  | first, second => .seq first second

/-- A repeated part. -/
def repeated (times : Times) (body : Regex) : Regex :=
  let times := if body.isWidthless then times.atMostOnce else times
  if times.max = some 0 then .empty
  else if times.min = 1 ∧ times.max = some 1 then body
  else .loop times body

/-- The class of a single character. -/
def class? : Regex → Option CharClass
  | .set cls => some cls
  | _ => none

/-- The code point of one given character, whose class is in plain form. -/
def code? : Regex → Option Nat
  | .set (.table false [(lo, hi)]) => if lo = hi then some lo else none
  | _ => none

/-- Is this one given character? -/
def isChar (r : Regex) : Bool := r.code?.isSome

/--
The choice between alternatives, which are one class if all of them are given characters or all of
them are other classes.
-/
def classOrChoice (rs : List Regex) : Regex :=
  match rs.mapM class? with
  | some (cls :: classes) =>
    if rs.all isChar || !rs.any isChar then .set (classes.foldl .union cls).plain else ofChoices rs
  | _ => ofChoices rs

/-! ## Common beginnings -/

/-- The parts of a sequence, where characters side by side are one piece. -/
def pieces (r : Regex) : List (List Regex) := r.parts.splitBy fun a b => a.isChar && b.isChar

/-- The sequence of pieces in order. -/
def ofPieces (pieces : List (List Regex)) : Regex := ofParts pieces.flatten

/-- The beginning that two rows have in common. -/
def commonFront {α : Type} [DecidableEq α] : List α → List α → List α
  | a :: as, b :: bs => if a = b then a :: commonFront as bs else []
  | _, _ => []

/-- The choice between alternatives. What all of them begin with stands in front of it. -/
def ofAlternatives : List Regex → Regex
  | [] => .empty
  | [r] => r
  | r :: others =>
    let rows := others.map pieces
    let front := rows.foldl commonFront r.pieces
    if front ≠ [] ∧ (r.pieces :: rows).all fun row => decide (2 ≤ row.length) then
      let ends := (r.pieces :: rows).map fun row => ofPieces (row.drop front.length)
      ofParts (front.flatten ++ [classOrChoice (ends.flatMap choices)])
    else classOrChoice (r :: others)

/-! ## The reduced form -/

/-- The alternatives of a regex, each of them reduced. -/
def branches : Regex → List Regex
  | .empty => [.empty]
  | .set cls => [.set cls.plain]
  | .look place => [.look place]
  | .group none body => (ofAlternatives body.branches).choices
  | .group (some index) body => [.group (some index) (ofAlternatives body.branches)]
  | .loop times body => (repeated times (ofAlternatives body.branches)).choices
  | .seq first second =>
    (andThen (ofAlternatives first.branches) (ofAlternatives second.branches)).choices
  | .alt first second => first.branches ++ second.branches

/-- The reduced form. -/
def reduced (r : Regex) : Regex := ofAlternatives r.branches

end Regex

end RoutePattern
