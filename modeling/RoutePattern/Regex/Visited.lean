import RoutePattern.Text.Basic

/-!
# Visited instructions

At each place of a text, matches under way come to instructions, and it is remembered which. Each
instruction has the number of the last place where a match came to it, so that going on to the next
place forgets all of them at once.

## Main definitions

* `Visited`, `Visited.has`, `Visited.insert`, `Visited.forget` — the instructions visited at the
  current place.
* `Visited.left` — how many are not visited; it becomes less with each visit (`left_insert_lt`).
-/

namespace RoutePattern

/-- The instructions visited at the current place. -/
structure Visited where
  /-- The place of the last visit for each instruction. -/
  places : Array Nat
  /-- The current place. -/
  now : Nat
  /-- No visit is still to come. -/
  le_now : ∀ {i place : Nat}, places[i]? = some place → place ≤ now

namespace Visited

/-- No visits yet to so many instructions. -/
def start (size : Nat) : Visited where
  places := Array.replicate size 0
  now := 1
  le_now h := by
    rw [Array.getElem?_replicate] at h
    split at h
    · cases h
      exact Nat.zero_le 1
    · cases h

/-- Has the instruction been visited? One that does not exist counts as visited. -/
def has (v : Visited) (i : Nat) : Bool :=
  match v.places[i]? with
  | some place => place == v.now
  | none => true

/-- One more visit. -/
def insert (v : Visited) (i : Nat) : Visited where
  places := v.places.setIfInBounds i v.now
  now := v.now
  le_now h := by
    rw [Array.getElem?_setIfInBounds] at h
    split at h
    · split at h
      · cases h
        exact Nat.le_refl _
      · cases h
    · exact v.le_now h

/-- On to the next place. -/
def forget (v : Visited) : Visited where
  places := v.places
  now := v.now + 1
  le_now h := Nat.le_succ_of_le (v.le_now h)

@[simp] theorem size_insert (v : Visited) (i : Nat) :
    (v.insert i).places.size = v.places.size := Array.size_setIfInBounds

/-- How many instructions are not visited. -/
def left (v : Visited) : Nat := v.places.countP (· != v.now)

theorem has_start (size i : Nat) : (start size).has i = decide (size ≤ i) := by
  simp only [has, start, Array.getElem?_replicate]
  by_cases h : i < size
  · simp [h]
  · simp [h, Nat.le_of_not_lt h]

theorem has_insert (v : Visited) (i j : Nat) : (v.insert i).has j = (v.has j || i == j) := by
  simp only [has, insert, Array.getElem?_setIfInBounds]
  by_cases h : i = j
  · subst h
    by_cases hi : i < v.places.size
    · simp [hi]
    · simp [hi]
  · simp [h]

theorem has_forget (v : Visited) (i : Nat) : v.forget.has i = decide (v.places.size ≤ i) := by
  simp only [has, forget]
  cases h : v.places[i]? with
  | none => simpa using Array.getElem?_eq_none_iff.mp h
  | some place =>
    have hle := v.le_now h
    obtain ⟨hi, _⟩ := Array.getElem?_eq_some_iff.mp h
    simp only [Nat.not_le.mpr hi, decide_false, beq_eq_false_iff_ne]
    omega

/-- A visit to an instruction that was not visited leaves fewer of them. -/
theorem left_insert_lt {v : Visited} {i : Nat} (h : v.has i = false) :
    (v.insert i).left < v.left := by
  unfold has at h
  split at h
  · rename_i place hp
    obtain ⟨hi, rfl⟩ := Array.getElem?_eq_some_iff.mp hp
    have hne : (v.places[i] != v.now) = true := by simpa using h
    have hpos : 0 < v.places.countP (· != v.now) :=
      Array.countP_pos_iff.mpr ⟨_, Array.getElem_mem hi, hne⟩
    show (v.places.setIfInBounds i v.now).countP (· != v.now) < _
    rw [Array.setIfInBounds, dif_pos hi, Array.countP_set hi, if_pos hne]
    simp only [bne_self_eq_false, Bool.false_eq_true, if_false, left]
    omega
  · cases h

end Visited

end RoutePattern
