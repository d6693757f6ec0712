import RoutePattern.Proofs.Regex.Straight

/-!
# Sequences of parts

What holds of the sequence of some parts, said part by part, and the capturing groups of a regex in the
order of their opening parentheses.

## Main definitions

* `Regex.ofParts_cons` — one more part in front.
* `Regex.openings` — the capturing groups, from left to right.
-/

namespace RoutePattern.Regex

/-! ## Sequences -/

@[simp] theorem ofParts_singleton (r : Regex) : ofParts [r] = r := rfl

/-- One more part in front of a sequence that is not empty. -/
theorem ofParts_cons (r : Regex) {rs : List Regex} (h : rs ≠ []) :
    ofParts (r :: rs) = .seq r (ofParts rs) := by
  unfold ofParts
  rw [List.reverse_cons]
  cases hrs : rs.reverse with
  | nil => exact absurd (List.reverse_eq_nil_iff.mp hrs) h
  | cons last before => simp [seqOf, List.foldl_append]

/-- The ways through some parts, one behind another. -/
def walkAll (rs : List Regex) : Walk := rs.foldr (fun r w => r.walk.andThen w) .stay

theorem walkAll_cons (r : Regex) (rs : List Regex) :
    walkAll (r :: rs) = r.walk.andThen (walkAll rs) := rfl

@[simp] theorem walkAll_singleton (r : Regex) : walkAll [r] = r.walk := Walk.andThen_stay r.walk

theorem walkAll_append (rs rs' : List Regex) :
    walkAll (rs ++ rs') = (walkAll rs).andThen (walkAll rs') := by
  induction rs with
  | nil => exact (Walk.stay_andThen _).symm
  | cons r rs ih => rw [List.cons_append, walkAll_cons, walkAll_cons, ih, Walk.andThen_assoc]

theorem walk_ofParts (rs : List Regex) : (ofParts rs).walk = walkAll rs := by
  induction rs with
  | nil => rfl
  | cons r rs ih =>
    rcases eq_or_ne rs [] with rfl | hne
    · exact (walkAll_singleton r).symm
    · rw [ofParts_cons r hne, walk, ih, walkAll_cons]

theorem straight_ofParts {rs : List Regex} (h : ∀ r ∈ rs, r.Straight) : (ofParts rs).Straight := by
  induction rs with
  | nil => trivial
  | cons r rs ih =>
    have hrs := ih fun q hq => h q (List.mem_cons_of_mem r hq)
    rcases eq_or_ne rs [] with rfl | hne
    · exact h r List.mem_cons_self
    · rw [ofParts_cons r hne]
      exact ⟨h r List.mem_cons_self, hrs⟩

/-! ## Capturing groups -/

/-- The capturing groups in the order of their opening parentheses, each with its number and what stands
between its parentheses. -/
def openings : Regex → List (Nat × Regex)
  | .empty => []
  | .set _ => []
  | .look _ => []
  | .group none body => body.openings
  | .group (some index) body => (index, body) :: body.openings
  | .loop _ body => body.openings
  | .seq first second => first.openings ++ second.openings
  | .alt first second => first.openings ++ second.openings

theorem openings_ofParts (rs : List Regex) : (ofParts rs).openings = rs.flatMap openings := by
  induction rs with
  | nil => rfl
  | cons r rs ih =>
    rcases eq_or_ne rs [] with rfl | hne
    · simp
    · rw [ofParts_cons r hne, openings, ih, List.flatMap_cons]

/-- The largest number of a group, where every group can take part in a match. -/
theorem groups_eq {r : Regex} (h : r.Straight) :
    r.groups = (r.openings.map Prod.fst).foldr max 0 := by
  induction r with
  | empty | set cls | look place => rfl
  | group index body ih =>
    cases index with
    | none => rw [groups, openings, ih h, Option.getD_none, Nat.zero_max]
    | some index => rw [groups, openings, ih h, Option.getD_some, List.map_cons, List.foldr_cons]
  | loop times body ih =>
    have hmax : times.max ≠ some 0 := by
      rcases h.1 with ⟨_, hmax⟩ | ⟨hmax, _⟩ <;> simp [hmax]
    rw [groups, if_neg hmax, openings, ih h.2]
  | seq first second ih₁ ih₂ =>
    have hfoldr : ∀ (l : List Nat) (n : Nat), l.foldr max n = max (l.foldr max 0) n := by
      intro l n
      induction l with
      | nil => exact (Nat.zero_max n).symm
      | cons m l ih => rw [List.foldr_cons, List.foldr_cons, ih, Nat.max_assoc]
    rw [groups, openings, ih₁ h.1, ih₂ h.2, List.map_append, List.foldr_append]
    exact (hfoldr _ _).symm
  | alt first second => exact h.elim

end RoutePattern.Regex
