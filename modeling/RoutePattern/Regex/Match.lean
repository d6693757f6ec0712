import RoutePattern.Regex.Program
import RoutePattern.Regex.Visited

/-!
# Matching

A text is read once from left to right, with all ways of matching followed at the same time. A
*thread* is a match under way, at some place of the text and at some instruction of the program. The
threads at one place are kept in the order of preference.

At each place every thread runs on until it needs a character. A thread that comes to an instruction
visited before at the same place ends there: what it would do is done by a thread that is preferred.
So a place costs no more than the size of the program, and a round of a repetition that takes no
character is not followed by another one.

When a thread completes its match, the threads behind it are given up, and no match begins at a
later place; the threads in front of it go on, as their matches are preferred.

## Main definitions

* `Thread` — a match under way.
* `Regex.settle` — how the threads at one place run on.
* `Regex.run` — how threads run over a text.
* `Regex.find` — the leftmost match in a text.
-/

namespace RoutePattern

/-! ## Threads -/

/-- A parenthesis of a capturing group that a match passes, and what lies behind it. -/
structure Mark where
  group : Nat
  opens : Bool
  rest : Text
  deriving DecidableEq, Repr

/-- A match under way. -/
structure Thread where
  /-- The instruction that it has come to. -/
  state : Nat
  /-- The text from where it began. -/
  start : Text
  /-- The parentheses it has passed, the last one first. -/
  marks : List Mark
  deriving DecidableEq, Repr

namespace Thread

/-- What becomes of a thread at an instruction. -/
inductive Fate where
  /-- It ends there. -/
  | gone
  /-- It goes on at the same place. -/
  | here (thread : Thread)
  /-- It goes on at the same place in two ways, of which the first is preferred. -/
  | fork (first second : Thread)
  /-- It goes on at the next place. -/
  | ahead (thread : Thread)
  /-- Its match is complete. -/
  | complete

/-- What becomes of a thread between the character `before` (none at the start) and `rest`. -/
@[inline] def fate (t : Thread) (before : Option Char) (rest : Text) : Instr → Fate
  | .set cls next => if rest.head?.any cls.mem then .ahead { t with state := next } else .gone
  | .look place next => if place.holds before rest then .here { t with state := next } else .gone
  | .mark group opens next =>
    .here { t with state := next, marks := ⟨group, opens, rest⟩ :: t.marks }
  | .split first second => .fork { t with state := first } { t with state := second }
  | .jump next => .here { t with state := next }
  | .accept => .complete

end Thread

namespace Regex

/-! ## One place -/

/-- What the threads at one place have come to. -/
structure Settled where
  /-- The threads at the next place. -/
  ahead : List Thread
  /-- The thread with a complete match behind which all others were given up. -/
  complete : Option Thread
  visited : Visited

/--
Lets the threads at one place run on until they need a character. Those that are ready for the next
place are collected, the last one first.
-/
def settle (code : Code) (before : Option Char) (rest : Text) (visited : Visited)
    (ahead : List Thread) : List Thread → Settled
  | [] => ⟨ahead.reverse, none, visited⟩
  | t :: todo =>
    if hv : visited.has t.state = true then settle code before rest visited ahead todo
    else
      have _hlt := Visited.left_insert_lt (Bool.eq_false_iff.mpr hv)
      match code[t.state]? with
      | none => settle code before rest visited ahead todo
      | some instr =>
        let visited' := visited.insert t.state
        match t.fate before rest instr with
        | .gone => settle code before rest visited' ahead todo
        | .here t' => settle code before rest visited' ahead (t' :: todo)
        | .fork t₁ t₂ => settle code before rest visited' ahead (t₁ :: t₂ :: todo)
        | .ahead t' => settle code before rest visited' (t' :: ahead) todo
        | .complete => ⟨ahead.reverse, some t, visited'⟩
termination_by todo => 2 * visited.left + todo.length
decreasing_by
  all_goals
    simp only [List.length_cons]
    omega

/-! ## A whole text -/

/-- A complete match: where it begins, the parentheses it passed, and what is left of the text. -/
structure Way where
  start : Text
  /-- The last one first. -/
  marks : List Mark
  rest : Text
  deriving DecidableEq, Repr

/--
Runs threads over a text. `best` is the match that is taken unless a thread completes another. While
there is none, a new thread begins at each place behind the others, unless matches can begin at the
start of the text only (`anchored`).
-/
def run (code : Code) (anchored : Bool) :
    Option Char → Text → Visited → Option Way → List Thread → Option Way
  | before, [], visited, best, threads =>
    let settled := settle code before [] visited [] threads
    (settled.complete.map fun t => ⟨t.start, t.marks, []⟩).or best
  | before, c :: cs, visited, best, threads =>
    let settled := settle code before (c :: cs) visited [] threads
    let best := (settled.complete.map fun t => ⟨t.start, t.marks, c :: cs⟩).or best
    if anchored || best.isSome then
      if settled.ahead.isEmpty then best
      else run code anchored (some c) cs settled.visited.forget best settled.ahead
    else
      let threads := settled.ahead ++ [⟨0, cs, []⟩]
      run code anchored (some c) cs settled.visited.forget best threads

/-- The way of the leftmost match and, of those, the one that the choices in the regex prefer. -/
def way? (r : Regex) (s : Text) : Option Way :=
  let r := r.reduced
  run r.program (r.beginsAt .textStart) none s (.start (r.size + 1)) none [⟨0, s, []⟩]

/-! ## Matches -/

/-- A match in a text. -/
structure Found where
  matched : Text
  /-- What lies behind the match. -/
  after : Text
  /-- What the capturing groups hold, from the first; none for a group that took no part. -/
  groups : List (Option Text)
  deriving DecidableEq, Repr

/-- What lies between the parentheses of a group, the last time that they were passed. -/
def textOf? (marks : List Mark) (group : Nat) : Option Text := do
  let opening ← marks.find? fun mark => mark.group == group && mark.opens
  let closing ← marks.find? fun mark => mark.group == group && !mark.opens
  some (opening.rest.upTo closing.rest)

/-- The match that is found in this way. -/
def foundBy (r : Regex) (way : Way) : Found where
  matched := way.start.upTo way.rest
  after := way.rest
  groups := (List.range r.groups).map fun i => textOf? way.marks (i + 1)

/-- The leftmost match in a text. -/
def find (r : Regex) (s : Text) : Option Found := (r.way? s).map r.foundBy

/-- What the capturing groups of the leftmost match hold. -/
def captures (r : Regex) (s : Text) : Option (List (Option Text)) :=
  (r.find s).map Found.groups

end Regex

end RoutePattern
