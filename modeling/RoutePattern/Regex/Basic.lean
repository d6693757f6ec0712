import RoutePattern.Regex.CharClass
import RoutePattern.Regex.Escape

/-!
# Regexes

## Main definitions

* `Regex` — the tree of a regex.
* `Regex.seqOf`, `Regex.altOf` — sequences and alternatives of any length.
* `Regex.levels` — how deeply a regex is nested, which is limited.
* `Regex.groups` — how many groups a match reports.
-/

namespace RoutePattern

/-- How often a part is repeated, and whether more or fewer rounds are tried first. -/
structure Times where
  min : Nat
  /-- No bound if absent. -/
  max : Option Nat
  greedy : Bool
  deriving DecidableEq, Repr

/-- The tree of a regex. -/
inductive Regex where
  /-- Nothing to match. -/
  | empty
  /-- One character of a class. -/
  | set (cls : CharClass)
  /-- A condition on the place. -/
  | look (place : Look)
  /-- Parentheses, with the number of the group if they capture. -/
  | group (index : Option Nat) (body : Regex)
  /-- A repeated part. -/
  | loop (times : Times) (body : Regex)
  /-- One part, then another. -/
  | seq (first second : Regex)
  /-- One part or, failing that, another. -/
  | alt (first second : Regex)
  deriving DecidableEq, Repr

namespace Regex

/-- One given character. -/
def char (c : Char) : Regex := .set (.one c)

/-- Parts one after another, the last part first. -/
def seqOf : List Regex → Regex
  | [] => .empty
  | last :: before => before.foldl (fun rest r => .seq r rest) last

/-- Alternatives, the last one first. -/
def altOf : List Regex → Regex
  | [] => .empty
  | last :: before => before.foldl (fun rest r => .alt r rest) last

/-! ## Nesting -/

/-- The kind of list that a part stands in. -/
inductive Within where
  | none
  | seq
  | alt
  deriving DecidableEq, Repr

/--
The nesting of a regex: a group, a repetition, a sequence of two or more parts and a choice of two
or more alternatives are one level each, and brackets count as `CharClass.levels` says. The nodes of
one sequence or one choice are the same level (`within`).
-/
def levels (within : Within) : Regex → Nat
  | .empty => 0
  | .set cls => cls.levels false
  | .look _ => 0
  | .group _ body => 1 + body.levels .none
  | .loop _ body => 1 + body.levels .none
  | .seq first second =>
    (if within = .seq then 0 else 1) + max (first.levels .seq) (second.levels .seq)
  | .alt first second =>
    (if within = .alt then 0 else 1) + max (first.levels .alt) (second.levels .alt)

/-- Deeper regexes are refused. -/
def maxLevels : Nat := 250

/-! ## Groups -/

/--
The largest number of a group that can take part in a match. A part that is repeated no times at
all is no part of the regex, and neither are its groups.
-/
def groups : Regex → Nat
  | .empty => 0
  | .set _ => 0
  | .look _ => 0
  | .group index body => max (index.getD 0) body.groups
  | .loop times body => if times.max = some 0 then 0 else body.groups
  | .seq first second => max first.groups second.groups
  | .alt first second => max first.groups second.groups

end Regex

end RoutePattern
