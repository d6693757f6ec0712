import RoutePattern.Text.Basic

/-!
# Maps from names

Values by name, in the order in which the names came. What a map means is what it gives for each
name (`NameMap.get?`); the operations are described by that.
-/

namespace RoutePattern

/-- Values by name. -/
structure NameMap (α : Type) where
  entries : List (Text × α)
  deriving Repr

namespace NameMap

variable {α : Type}

/-- No names. -/
def empty : NameMap α := ⟨[]⟩

instance : EmptyCollection (NameMap α) := ⟨empty⟩

/-- The value of a name. -/
def get? (m : NameMap α) (name : Text) : Option α := m.entries.lookup name

/-- Has the name a value? -/
def contains (m : NameMap α) (name : Text) : Bool := (m.get? name).isSome

/-- The entries with one of them set. -/
def insertEntry (name : Text) (value : α) : List (Text × α) → List (Text × α)
  | [] => [(name, value)]
  | entry :: entries =>
    if entry.1 = name then (name, value) :: entries else entry :: insertEntry name value entries

/-- A value for a name, in place of the one it had. -/
def insert (m : NameMap α) (name : Text) (value : α) : NameMap α :=
  ⟨insertEntry name value m.entries⟩

/-- No value for a name. -/
def erase (m : NameMap α) (name : Text) : NameMap α := ⟨m.entries.filter (·.1 != name)⟩

/-- All values of `n`, in place of the ones that their names had. -/
def merge (m n : NameMap α) : NameMap α :=
  n.entries.foldl (fun m entry => m.insert entry.1 entry.2) m

/-- Do the same names have the same values, in whatever order? -/
def sameAs [BEq α] (m n : NameMap α) : Bool :=
  m.entries.all (fun entry => n.get? entry.1 == m.get? entry.1) &&
    n.entries.all (fun entry => m.get? entry.1 == n.get? entry.1)

theorem lookup_insertEntry (entries : List (Text × α)) (name : Text) (value : α) (other : Text) :
    (insertEntry name value entries).lookup other =
      if other = name then some value else entries.lookup other := by
  induction entries with
  | nil =>
    by_cases h : other = name
    · simp [insertEntry, h]
    · simp [insertEntry, List.lookup_cons, h, beq_eq_false_iff_ne.mpr h]
  | cons entry entries ih =>
    obtain ⟨key, old⟩ := entry
    by_cases hk : key = name
    · subst hk
      by_cases h : other = key
      · simp [insertEntry, h]
      · simp [insertEntry, List.lookup_cons, h, beq_eq_false_iff_ne.mpr h]
    · by_cases h : other = key
      · subst h
        simp [insertEntry, hk]
      · simp [insertEntry, hk, List.lookup_cons, beq_eq_false_iff_ne.mpr h, ih]

theorem get?_insert (m : NameMap α) (name : Text) (value : α) (other : Text) :
    (m.insert name value).get? other = if other = name then some value else m.get? other :=
  lookup_insertEntry m.entries name value other

theorem get?_erase (m : NameMap α) (name other : Text) :
    (m.erase name).get? other = if other = name then none else m.get? other := by
  obtain ⟨entries⟩ := m
  simp only [erase, get?]
  induction entries with
  | nil => simp
  | cons entry entries ih =>
    obtain ⟨key, value⟩ := entry
    by_cases hk : key = name
    · subst hk
      rw [List.filter_cons_of_neg (by simp), ih]
      by_cases h : other = key
      · simp [h]
      · simp [h, List.lookup_cons, beq_eq_false_iff_ne.mpr h]
    · rw [List.filter_cons_of_pos (by simpa using hk)]
      by_cases h : other = key
      · subst h
        simp [hk]
      · simp only [List.lookup_cons, beq_eq_false_iff_ne.mpr h]
        exact ih

end NameMap

end RoutePattern
