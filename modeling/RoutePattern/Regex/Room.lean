import RoutePattern.Regex.Reduced
import RoutePattern.Text.Utf8

/-!
# The room of a regex

A short regex can stand for a long one: each counted repetition multiplies its part. A regex is
refused if it would take too much room when all its repetitions are written out.

Room is counted in bytes of the states of a machine that reads text byte by byte. There are two such
machines: one reads forwards and keeps track of the groups, the other reads backwards and does not.
Neither may take more than `Regex.maxRoom`. A state takes the same room whatever it does, and more
for each of the states that it can lead to if these can be several.

## Main definitions

* `CharTable.room` — the room of one character of a table.
* `Words.room` — the room of a choice between words.
* `Regex.room` — the room of a reduced regex; `Regex.fullRoom` — that of its whole machine.
* `Regex.fits` — the limit.
-/

namespace RoutePattern

/-- The direction in which a machine reads. -/
inductive Direction where
  | forwards
  | backwards
  deriving DecidableEq, Repr

/-! ## States -/

/-- The room of a state that leads to one other state at most. -/
def stateRoom : Nat := 32

/-- The room of one way out of a choice. -/
def wayRoom : Nat := 4

/-- The room of a state that can lead to so many others without reading. -/
def choiceRoom (ways : Nat) : Nat := stateRoom + wayRoom * ways

/-- The room of a state that reads a byte, in one of so many ranges. -/
def readRoom (ranges : Nat) : Nat := stateRoom + 8 * ranges

/-! ## Characters -/

/-- The only code point of an ordered table, if it has just one. -/
def CharTable.lone? : CharTable → Option Nat
  | [(lo, hi)] => if lo = hi then some lo else none
  | _ => none

/--
The room of one character of an ordered table. A lone character takes a state for each byte, and
one-byte characters take one state to read and one to end. Otherwise the rows that spell the table
are a network forwards, with a state for each of its places; backwards they share their beginnings
only, and each row is a way of its own at the other end.
-/
def CharTable.room (direction : Direction) (table : CharTable) : Nat :=
  if let some code := table.lone? then stateRoom * CharTable.byteCount code
  else if table.all fun range => decide (range.2 < 0x80) then stateRoom + readRoom table.length
  else
    let rows := table.spellings
    match direction with
    | .forwards =>
      ((places rows).map fun left => readRoom (byFirst left).length).foldl (· + ·) stateRoom
    | .backwards => stateRoom + stateRoom * prefixCount rows + choiceRoom rows.length

/-! ## Words -/

namespace Words

/-- A word as its bytes. -/
abbrev Word := List Nat

/-- The words between those that are empty. -/
def betweenEmpty : List Word → List (List Word)
  | [] => [[]]
  | [] :: words => [] :: betweenEmpty words
  | word :: words =>
    match betweenEmpty words with
    | [] => [[word]]
    | stage :: stages => (word :: stage) :: stages

/--
The words that can be told apart by their next bytes alone. An empty word comes between the words
that are preferred to it and the others; of several in front only one counts.
-/
def stages : List Word → List (List Word)
  | [] :: words => betweenEmpty ([] :: words.dropWhile List.isEmpty)
  | words => betweenEmpty words

/-- The first bytes of words. -/
def firsts (words : List Word) : List Nat := (words.filterMap List.head?).eraseDups

/-- What is left of the words that begin with a byte. -/
def behind (byte : Nat) (words : List Word) : List Word :=
  words.filterMap fun word => if word.head? = some byte then some word.tail else none

/-- The room of a state that reads one of these bytes, if there are any. -/
def firstsRoom : List Nat → Nat
  | [] => 0
  | [_] => stateRoom
  | bytes => readRoom bytes.length

/--
The room of the tree of words, none of which is longer than `depth`. Its states choose between the
stages, of which each reads the first bytes of its words.
-/
def treeRoom : Nat → List Word → Nat
  | 0, _ => 0
  | depth + 1, words =>
    if words.all List.isEmpty then 0
    else
      let stages := stages words
      let reading := stages.filter fun stage => !stage.isEmpty
      choiceRoom (stages.length - 1 + reading.length) +
        (reading.map fun stage =>
          firstsRoom (firsts stage) +
            ((firsts stage).map fun byte => treeRoom depth (behind byte stage)).sum).sum

/-- The room of a choice between words: their tree and its end. -/
def room (direction : Direction) (words : List Word) : Nat :=
  let words := if direction = .forwards then words else words.map List.reverse
  stateRoom + treeRoom ((words.map List.length).foldl max 0) words

end Words

namespace Regex

/-- The bytes of a sequence of given characters. -/
def word? (r : Regex) : Option Words.Word :=
  match r.parts with
  | [] => none
  | parts => (parts.mapM code?).map fun codes => codes.flatMap CharTable.bytes

/-! ## Regexes -/

/-- The room of a repetition, whose part takes `body`. -/
def repeatedRoom (times : Times) (nullable : Bool) (body : Nat) : Nat :=
  let optional := choiceRoom 2 + body
  match times.max, times.min with
  | some 1, 0 => optional + stateRoom
  | some max, min =>
    let rounds := if min = 0 then stateRoom else min * body
    rounds + (if min < max then stateRoom + (max - min) * optional else 0)
  | none, 0 => optional + (if nullable then choiceRoom 2 + stateRoom else 0)
  | none, min => min * body + choiceRoom 2

/--
The room of a reduced regex. The alternatives of one choice share its states (`within`), and a
choice between words is a tree.
-/
def room (direction : Direction) (within : Within) : Regex → Nat
  | .empty => stateRoom
  | .set cls => cls.ranges.room direction
  | .look _ => stateRoom
  | .group index body =>
    (if direction = .forwards ∧ index.isSome then 2 * stateRoom else 0) +
      body.room direction .none
  | .loop times body => repeatedRoom times body.nullable (body.room direction .none)
  | .seq first second => first.room direction .seq + second.room direction .seq
  | .alt first second =>
    let branches := first.room direction .alt + second.room direction .alt
    if within = .alt then wayRoom + branches
    else
      match (choices (.alt first second)).mapM word? with
      | some words => Words.room direction words
      | none => choiceRoom 2 + stateRoom + branches

/--
The room of the machine of a reduced regex: that of the regex, a state for the match, two for the
whole match as a group if groups are kept track of, and those that skip what is not matched, unless
the regex can begin at one end of the text only.
-/
def fullRoom (direction : Direction) (r : Regex) : Nat :=
  let anchored := match direction with
    | .forwards => r.beginsAt .textStart
    | .backwards => r.endsAt .textEnd
  let skipping := if anchored then stateRoom else choiceRoom 2 + readRoom 1 + stateRoom
  let whole := if direction = .forwards then 2 * stateRoom else 0
  skipping + whole + r.room direction .none + stateRoom

/-- Regexes that take more room are refused. -/
def maxRoom : Nat := 10 * 1024 * 1024

/-- Does the regex take no more room than there is? -/
def fits (r : Regex) : Bool :=
  let r := r.reduced
  [Direction.forwards, .backwards].all fun direction => decide (r.fullRoom direction ≤ maxRoom)

end Regex

end RoutePattern
