/-!
# Text

Text is handled as its list of characters. A length, a position and a cut then count characters
(Unicode scalar values), whatever their encoding, and the part of a text that is still to be read
is simply a shorter list.

## Main definitions

* `Text` — the list of characters of a text.
* `Text.ofString`, `Text.toString` — the boundary with `String`.
* `Text.upTo` — what lies before a later position.
* `CharTable` — a set of characters given by ranges of code points.
-/

namespace RoutePattern

/-- A text as its characters. -/
abbrev Text := List Char

namespace Text

/-- The characters of a string. -/
def ofString (s : String) : Text := s.toList

/-- The string of the characters. -/
def toString (t : Text) : String := String.ofList t

theorem toString_ofString (s : String) : toString (ofString s) = s := by
  simp [toString, ofString]

/-- What lies before `rest`, for a `rest` that ends `t`. -/
def upTo (t rest : Text) : Text := t.take (t.length - rest.length)

@[simp] theorem upTo_append (t rest : Text) : upTo (t ++ rest) rest = t := by
  simp [upTo]

/-! ## Runs that go no further -/

section Runs

variable {p : Char → Bool} {run rest : Text}

theorem takeWhile_append (h : ∀ c ∈ run, p c = true) (hrest : ∀ c ∈ rest.head?, p c = false) :
    (run ++ rest).takeWhile p = run := by
  rw [List.takeWhile_append_of_pos h]
  cases rest with
  | nil => exact List.append_nil run
  | cons c rest => rw [List.takeWhile_cons_of_neg (by simp [hrest c rfl]), List.append_nil]

theorem dropWhile_append (h : ∀ c ∈ run, p c = true) (hrest : ∀ c ∈ rest.head?, p c = false) :
    (run ++ rest).dropWhile p = rest := by
  rw [List.dropWhile_append_of_pos h]
  cases rest with
  | nil => rfl
  | cons c rest => exact List.dropWhile_cons_of_neg (by simp [hrest c rfl])

end Runs

end Text

/-! ## Tables of characters -/

/-- Ranges of code points, both ends included. -/
abbrev CharTable := List (Nat × Nat)

/-- Is the character in one of the ranges? -/
def CharTable.has (table : CharTable) (c : Char) : Bool :=
  table.any fun range => decide (range.1 ≤ c.toNat) && decide (c.toNat ≤ range.2)

theorem CharTable.has_iff {table : CharTable} {c : Char} :
    table.has c = true ↔ ∃ range ∈ table, range.1 ≤ c.toNat ∧ c.toNat ≤ range.2 := by
  simp [CharTable.has]

end RoutePattern
