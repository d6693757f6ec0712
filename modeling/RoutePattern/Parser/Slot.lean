/-!
# Slots

A parser that refers to itself is declared before it is defined. The declaration makes a slot, and
references are handles on the slot. A handle looks into the slot when it is first used and keeps what
it finds; it does not own the parser that it has found.

## Main definitions

* `Slot` — a declaration: its first definition, and who owns that.
* `Handle` — a reference, before and after its first use.
* `Handle.resolve`, `Handle.target?` — the use of a reference.
-/

namespace RoutePattern

/-- A declared parser. -/
structure Slot (α : Type) where
  /-- The first definition; later ones are not kept. -/
  definition : Option α
  /-- Has the slot not been dropped? While it is there, it owns the definition. -/
  alive : Bool
  /-- How many others own the definition. -/
  holders : Nat
  deriving DecidableEq, Repr

namespace Slot

variable {α : Type}

/-- A declaration without a definition. -/
def declare : Slot α := ⟨none, true, 0⟩

/-- A definition, which its maker goes on to hold. Only the first one counts. -/
def define (slot : Slot α) (parser : α) : Slot α :=
  match slot.definition with
  | none => { slot with definition := some parser, holders := slot.holders + 1 }
  | some _ => slot

/-- The end of the slot. -/
def drop (slot : Slot α) : Slot α := { slot with alive := false }

/-- One more owner of the definition. -/
def retain (slot : Slot α) : Slot α := { slot with holders := slot.holders + 1 }

/-- One owner less. -/
def release (slot : Slot α) : Slot α := { slot with holders := slot.holders - 1 }

/-- Does anyone own the definition? -/
def isOwned (slot : Slot α) : Bool := slot.alive || decide (0 < slot.holders)

/-- What can be found in the slot. -/
def contents? (slot : Slot α) : Option α := if slot.alive then slot.definition else none

/-- The text that a slot is shown as. -/
def describe (slot : Slot α) : String :=
  "Recursive \x7b defined: " ++ (if slot.definition.isSome then "true" else "false") ++ " \x7d"

end Slot

/-- A reference to a slot. -/
inductive Handle (α : Type) where
  /-- Not used yet. -/
  | fresh
  /-- The first use found this parser. -/
  | bound (parser : α)
  /-- The first use found nothing. -/
  | broken
  deriving DecidableEq, Repr

namespace Handle

variable {α : Type}

/-- The handle after a use. -/
def resolve (slot : Slot α) : Handle α → Handle α
  | .fresh =>
    match slot.contents? with
    | some parser => .bound parser
    | none => .broken
  | handle => handle

/-- The parser behind a handle, as long as someone owns it. -/
def target? (slot : Slot α) : Handle α → Option α
  | .bound parser => if slot.isOwned then some parser else none
  | _ => none

/-- A second use finds what the first one found. -/
theorem resolve_resolve (slot slot' : Slot α) (handle : Handle α) :
    (handle.resolve slot).resolve slot' = handle.resolve slot := by
  cases handle with
  | fresh =>
    simp only [resolve]
    cases slot.contents? <;> rfl
  | bound _ => rfl
  | broken => rfl

end Handle

end RoutePattern
