import RoutePattern.Parser.Basic
import RoutePattern.Parser.Slot
import RoutePattern.Parser.Value

/-!
# Assembled parsers

An assembly is a parser put together from atoms and combinators, and from references to parsers that
are declared in slots. Each reference has a handle of its own. To parse with an assembly may use a
reference for the first time, which changes its handle for good; so an assembly is run in a world of
slots and references, and leaves another world.

A parser that refers to itself need not come to an end. Two uses of one reference at the same place of
the text, one within the other and with the same handles resolved, could only go on for ever; so uses
of references are followed to a bounded depth, and a parse that goes deeper gives nothing at all.

## Main definitions

* `Assembly` — the parts of a parser; `World` — the slots and the references to them.
* `Live` — a parser that runs in a world, with the combinators of `Parser`.
* `Assembly.parse` — the parser of an assembly; `Assembly.parseAll` — one text after another.
-/

namespace RoutePattern

/-- The parts of a parser. -/
inductive Assembly where
  /-- A given text. -/
  | literal (expected : Text)
  /-- The leftmost match of a regex. -/
  | fragment (r : Regex)
  /-- Any one character. -/
  | anyChar
  /-- Never matches. -/
  | fail
  /-- One after another. -/
  | sequence (parts : List Assembly)
  /-- One after another, with one value kept. -/
  | pick (index : Nat) (parts : List Assembly)
  /-- The first that matches. -/
  | firstOf (parts : List Assembly)
  /-- One round or more. -/
  | many (part : Assembly)
  /-- Rounds until something else matches. -/
  | concatUntil (part stop : Assembly)
  /-- A change of the value. -/
  | map (f : Value → Value) (part : Assembly)
  /-- A parser that is made at its first use. -/
  | deferred (part : Assembly)
  /-- A parser that does not own its part; somebody else does, or nobody. -/
  | weak (owned : Bool) (part : Assembly)
  /-- A reference, by its number. -/
  | reference (i : Nat)

/-- A handle on a slot. -/
structure Reference where
  slot : Nat
  handle : Handle Assembly

/-- A reference with its handle resolved, if its slot is there. -/
def Reference.resolve (slots : List (Slot Assembly)) (ref : Reference) : Reference :=
  match slots[ref.slot]? with
  | some slot => { ref with handle := ref.handle.resolve slot }
  | none => ref

/-- The slots and the references to them, each by number. -/
structure World where
  slots : List (Slot Assembly)
  references : List Reference

namespace World

/-- Nothing is declared. -/
def empty : World := ⟨[], []⟩

instance : EmptyCollection World := ⟨empty⟩

/-- One more slot: its number, and the world with it. -/
def declare (w : World) : Nat × World :=
  (w.slots.length, { w with slots := w.slots ++ [.declare] })

/-- One more reference to a slot: its number, and the world with it. -/
def refer (w : World) (slot : Nat) : Nat × World :=
  (w.references.length, { w with references := w.references ++ [⟨slot, .fresh⟩] })

/-- One more slot and a reference to it: the numbers of both, and the world with them. -/
def declareReferred (w : World) : Nat × Nat × World :=
  let (slot, w) := w.declare
  let (i, w) := w.refer slot
  (slot, i, w)

/-- A world in which a slot is changed. -/
def changeSlot (w : World) (slot : Nat) (f : Slot Assembly → Slot Assembly) : World :=
  { w with slots := w.slots.modify slot f }

/-- A world with a definition for a slot. -/
def define (w : World) (slot : Nat) (a : Assembly) : World := w.changeSlot slot (·.define a)

/-- A world in which a slot is dropped. -/
def drop (w : World) (slot : Nat) : World := w.changeSlot slot .drop

/-- What a reference leads to. A fresh handle is resolved for that. -/
def target? (w : World) (i : Nat) : Option Assembly := do
  let ref ← w.references[i]?
  let slot ← w.slots[ref.slot]?
  (ref.handle.resolve slot).target? slot

/-- The world after a use of a reference. -/
def resolve (w : World) (i : Nat) : World :=
  { w with references := w.references.modify i (·.resolve w.slots) }

/-- The use of a reference: what it leads to, and the world after that. -/
def use (w : World) (i : Nat) : Option Assembly × World := (w.target? i, w.resolve i)

/-- How deeply the uses of references in a parse can be nested. -/
def depth (w : World) (s : Text) : Nat :=
  (w.references.length + 1) * (w.references.length + 1) * (s.length + 1)

end World

/-! ## Parsers in a world -/

/-- A parser that runs in a world. A parse that does not come to an end gives nothing; any other one
leaves a world, even if there is no match. -/
abbrev Live (α : Type) := Text → World → Option (Option (α × Text) × World)

namespace Live

variable {α β : Type}

/-- A parser that has nothing to do with the world. -/
def pure (p : Parser α) : Live α := fun s w => some (p s, w)

/-- Takes nothing off the text and has a value. -/
def give (value : α) : Live α := pure fun s => some (value, s)

/-- Never comes to an end. -/
def endless : Live α := fun _ _ => none

/-- A parser and, behind what it takes, another one that depends on its value. -/
def andThen (p : Live α) (next : α → Live β) : Live β := fun s w =>
  match p s w with
  | none => none
  | some (none, w) => some (none, w)
  | some (some (value, rest), w) => next value rest w

/-- A parser or, if it does not match, another one at the same place. -/
def orElse (p q : Live α) : Live α := fun s w =>
  match p s w with
  | some (none, w) => q s w
  | result => result

/-- A parser whose value is changed. -/
def map (f : α → β) (p : Live α) : Live β := p.andThen fun value => give (f value)

/-- One parser after another; all have to match. -/
def sequence : List (Live α) → Live (List α)
  | [] => give []
  | p :: ps => p.andThen fun value => map (value :: ·) (sequence ps)

/-- One parser after another, of which only one value is kept. -/
def pick (index : Nat) (ps : List (Live α)) : Live α :=
  (sequence ps).andThen fun values => pure fun s => values[index]?.map (·, s)

/-- The first parser that matches. -/
def firstOf : List (Live α) → Live α
  | [] => pure .fail
  | p :: ps => p.orElse (firstOf ps)

/-- The rounds of a parser until `stop` matches, it does not match or takes nothing off the text. -/
def roundsUntil (p : Live α) (stop : Live β) : Live (List α) := fun s w =>
  match stop s w with
  | none => none
  | some (some _, w) => some (some ([], s), w)
  | some (none, w) =>
    match p s w with
    | none => none
    | some (none, w) => some (some ([], s), w)
    | some (some (value, rest), w) =>
      if rest.length < s.length then
        match roundsUntil p stop rest w with
        | some (some (values, rest), w) => some (some (value :: values, rest), w)
        | result => result
      else some (some ([value], rest), w)
termination_by s => s.length

/-- One round or more until `stop` matches, whose match is left in the text. -/
def manyUntil (p : Live α) (stop : Live β) : Live (List α) :=
  (roundsUntil p stop).andThen fun values => if values.isEmpty then pure .fail else give values

/-- One round or more, with nothing to stop them. -/
def many (p : Live α) : Live (List α) := manyUntil p (pure (.fail : Parser Text))

/-- One round or more until `stop` matches; the texts are joined. -/
def concatUntil (p : Live Text) (stop : Live β) : Live Text := map List.flatten (manyUntil p stop)

end Live

/-! ## Running an assembly -/

namespace Assembly

mutual

/-- The parser of an assembly, where `call` parses with what a reference leads to. -/
def run (call : Nat → Live Value) : Assembly → Live Value
  | .literal expected => .map .text (.pure (.literal expected))
  | .fragment r => .map .text (.pure (.fragment r))
  | .anyChar => .map .text (.pure .anyChar)
  | .fail => .pure .fail
  | .sequence parts => .map .list (.sequence (runs call parts))
  | .pick index parts => .pick index (runs call parts)
  | .firstOf parts => .firstOf (runs call parts)
  | .many part => .map .list (.many (run call part))
  | .concatUntil part stop =>
    .map .text (.concatUntil (.map Value.asText (run call part)) (run call stop))
  | .map f part => .map f (run call part)
  | .deferred part => run call part
  | .weak owned part => if owned then run call part else .pure .fail
  | .reference i => call i

/-- The parsers of assemblies. -/
def runs (call : Nat → Live Value) : List Assembly → List (Live Value)
  | [] => []
  | part :: parts => run call part :: runs call parts

end

/-- The parser of a reference, with uses of references nested to a depth. -/
def call : Nat → Nat → Live Value
  | 0, _ => .endless
  | depth + 1, i => fun s w =>
    match w.use i with
    | (none, w) => some (none, w)
    | (some definition, w) => run (call depth) definition s w

/-- The parser of an assembly. -/
def parse (a : Assembly) : Live Value := fun s w => run (call (w.depth s)) a s w

/-- What an assembly gives for one text after another, up to a parse that does not come to an end. -/
def parseAll (a : Assembly) : List Text → World → List (Option (Value × Text))
  | [], _ => []
  | s :: texts, w =>
    match a.parse s w with
    | none => []
    | some (found, w) => found :: parseAll a texts w

/-- The text that a parser is shown as. -/
def describe (_ : Assembly) : String := "Parser \x7b .. \x7d"

end Assembly

end RoutePattern
