import RoutePattern.Parser.Live

/-!
# Uses of references

A parse changes its world only by uses of references, and a use only resolves one handle. A handle is
resolved once, to what is in its slot, and slots stay as they are; so it does not matter when or in which
order handles are resolved, and each use either changes nothing or leaves fewer fresh handles.

## Main definitions

* `World.Reaches` — from one world to another by uses of references.
* `World.resolve_comm`, `World.target?_resolve` — uses in any order.
* `World.fresh` — how many handles are fresh (`World.Reaches.eq_or_fresh_lt`).
-/

namespace RoutePattern

/-! ## One reference -/

namespace Reference

variable (slots : List (Slot Assembly)) (ref : Reference)

@[simp] theorem slot_resolve : (ref.resolve slots).slot = ref.slot := by
  unfold resolve
  split <;> rfl

@[simp] theorem resolve_resolve : (ref.resolve slots).resolve slots = ref.resolve slots := by
  unfold resolve
  cases h : slots[ref.slot]? with
  | none => simp only [h]
  | some slot => simp only [h, Handle.resolve_resolve]

/-- Is the handle fresh? -/
def isFresh : Bool :=
  match ref.handle with
  | .fresh => true
  | _ => false

/-- A handle that is no longer fresh stays as it is. -/
theorem resolve_of_not_fresh {ref : Reference} (h : ref.isFresh = false) : ref.resolve slots = ref := by
  obtain ⟨slot, handle⟩ := ref
  unfold resolve
  split
  · cases handle with
    | fresh => cases h
    | bound _ => rfl
    | broken => rfl
  · rfl

theorem resolve_eq_or : ref.resolve slots = ref ∨ ref.isFresh = true ∧ (ref.resolve slots).isFresh = false := by
  cases h : ref.isFresh with
  | false => exact .inl (resolve_of_not_fresh slots h)
  | true =>
    unfold resolve
    cases slots[ref.slot]? with
    | none => exact .inl rfl
    | some slot =>
      refine .inr ⟨rfl, ?_⟩
      obtain ⟨number, handle⟩ := ref
      cases handle with
      | bound _ | broken => cases h
      | fresh =>
        show isFresh ⟨number, Handle.resolve slot .fresh⟩ = false
        rw [Handle.resolve]
        cases slot.contents? <;> rfl

end Reference

namespace World

variable {w u v : World} {i j : Nat} {ref : Reference}

/-! ## One use -/

@[simp] theorem slots_resolve (w : World) (i : Nat) : (w.resolve i).slots = w.slots := rfl

@[simp] theorem length_references_resolve (w : World) (i : Nat) :
    (w.resolve i).references.length = w.references.length :=
  List.length_modify _ _ _

theorem references_resolve (w : World) (i j : Nat) :
    (w.resolve i).references[j]? =
      if i = j then w.references[j]?.map (·.resolve w.slots) else w.references[j]? := by
  show (w.references.modify i _)[j]? = _
  rw [List.getElem?_modify]
  split
  · rfl
  · exact Option.map_id'

theorem eq_of_references (hslots : w.slots = u.slots)
    (h : ∀ j : Nat, w.references[j]? = u.references[j]?) : w = u := by
  obtain ⟨slots, references⟩ := w
  obtain rfl : slots = u.slots := hslots
  obtain rfl : references = u.references := List.ext_getElem? h
  rfl

/-- The order of uses does not matter. -/
theorem resolve_comm (w : World) (i j : Nat) : (w.resolve i).resolve j = (w.resolve j).resolve i := by
  refine eq_of_references rfl fun k => ?_
  simp only [references_resolve, slots_resolve]
  by_cases hi : i = k
  · by_cases hj : j = k <;> simp [hi, hj]
  · by_cases hj : j = k <;> simp [hi, hj]

/-- A use of one reference does not change what any reference leads to. -/
@[simp] theorem target?_resolve (w : World) (i j : Nat) : (w.resolve i).target? j = w.target? j := by
  unfold target?
  rw [references_resolve, slots_resolve]
  by_cases h : i = j
  · rw [if_pos h]
    cases w.references[j]? with
    | none => rfl
    | some ref =>
      simp only [Option.map_some, Option.bind_eq_bind, Option.bind_some, Reference.slot_resolve]
      cases hslot : w.slots[ref.slot]? with
      | none => rfl
      | some slot => simp [Reference.resolve, hslot, Handle.resolve_resolve]
  · rw [if_neg h]

/-- Uses can be nested more deeply than a text is long. -/
theorem length_le_depth (w : World) (s : Text) : s.length ≤ w.depth s :=
  Nat.le_trans (Nat.le_succ _) (Nat.le_mul_of_pos_left _ (Nat.mul_pos (Nat.succ_pos _) (Nat.succ_pos _)))

/-! ## Several uses -/

/-- From one world to another by uses of references. -/
inductive Reaches (w : World) : World → Prop
  | refl : Reaches w w
  | use {u : World} (h : Reaches w u) (i : Nat) : Reaches w (u.resolve i)

namespace Reaches

theorem trans (h : w.Reaches u) (h' : u.Reaches v) : w.Reaches v := by
  induction h' with
  | refl => exact h
  | use _ i ih => exact ih.use i

theorem slots_eq (h : w.Reaches u) : u.slots = w.slots := by
  induction h with
  | refl => rfl
  | use _ i ih => exact ih

theorem length_eq (h : w.Reaches u) : u.references.length = w.references.length := by
  induction h with
  | refl => rfl
  | use _ i ih => rw [length_references_resolve, ih]

/-- A handle is as it was, or as one use leaves it. -/
theorem references_eq (h : w.Reaches u) (hj : w.references[j]? = some ref) :
    u.references[j]? = some ref ∨ u.references[j]? = some (ref.resolve w.slots) := by
  induction h with
  | refl => exact .inl hj
  | @use u h i ih =>
    rw [references_resolve, h.slots_eq]
    split
    · refine .inr ?_
      rcases ih with ih | ih <;> simp [ih]
    · exact ih

end Reaches

/-! ## Fresh handles -/

/-- How many handles are fresh. -/
def fresh (w : World) : Nat := w.references.countP Reference.isFresh

theorem fresh_le (w : World) : w.fresh ≤ w.references.length := List.countP_le_length

theorem modify_eq_or_countP_lt {α : Type} {p : α → Bool} {f : α → α}
    (h : ∀ a, f a = a ∨ p a = true ∧ p (f a) = false) (l : List α) (i : Nat) :
    l.modify i f = l ∨ (l.modify i f).countP p < l.countP p := by
  induction l generalizing i with
  | nil => exact .inl (List.modify_nil f i)
  | cons a l ih =>
    cases i with
    | zero =>
      rw [List.modify_zero_cons]
      rcases h a with heq | ⟨ha, hfa⟩
      · exact .inl (by rw [heq])
      · refine .inr ?_
        rw [List.countP_cons_of_pos ha, List.countP_cons_of_neg (by simp [hfa])]
        exact Nat.lt_succ_self _
    | succ i =>
      rw [List.modify_succ_cons]
      rcases ih i with heq | hlt
      · exact .inl (by rw [heq])
      · refine .inr ?_
        rw [List.countP_cons, List.countP_cons]
        omega

/-- Uses change nothing, or they leave fewer fresh handles. -/
theorem Reaches.eq_or_fresh_lt (h : w.Reaches u) : u = w ∨ u.fresh < w.fresh := by
  induction h with
  | refl => exact .inl rfl
  | @use u h i ih =>
    have hstep : u.resolve i = u ∨ (u.resolve i).fresh < u.fresh := by
      rcases modify_eq_or_countP_lt (Reference.resolve_eq_or u.slots) u.references i with heq | hlt
      · exact .inl (eq_of_references rfl fun j => by rw [resolve, heq])
      · exact .inr hlt
    rcases hstep with heq | hlt
    · rwa [heq]
    · rcases ih with rfl | ih
      · exact .inr hlt
      · exact .inr (Nat.lt_trans hlt ih)

end World

end RoutePattern
