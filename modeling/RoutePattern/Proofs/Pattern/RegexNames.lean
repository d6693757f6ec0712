import Mathlib.Order.Bounds.Basic
import RoutePattern.Proofs.Pattern.Grouping

/-!
# Names for the groups of a regex

A regex takes a list of names for its groups if there are as many names as groups and no name comes twice.
The number is looked at first. A name that comes twice is refused in the first place where it has come
before, which need not be the name that comes first of those that are repeated. With the names that are
taken, each group has a name of its own, so a match reports each group as it is.

## Main definitions

* `Pattern.repeats` — the places of names that came before.
* `Pattern.ofNamedRegex_outcomes` — which names are taken, and what a match reports under them.
-/

namespace RoutePattern.Pattern

variable {names front behind : List Text} {groups : List (Option Text)} {name : Text} {i j : Nat}

/-! ## Repeated names -/

/-- The places of names that came before. -/
def repeats (names : List Text) : Set Nat := {j | ∃ name ∈ names[j]?, name ∈ names.take j}

theorem mem_repeats_iff :
    j ∈ repeats names ↔ ∃ i < j, ∃ name, names[i]? = some name ∧ names[j]? = some name := by
  constructor
  · rintro ⟨name, hj, hname⟩
    obtain ⟨i, hi⟩ := List.mem_iff_getElem?.mp hname
    rw [List.getElem?_take, Option.ite_none_right_eq_some] at hi
    exact ⟨i, hi.1, name, hi.2, hj⟩
  · rintro ⟨i, hi, name, hname, hj⟩
    refine ⟨name, hj, List.mem_iff_getElem?.mpr ⟨i, ?_⟩⟩
    rw [List.getElem?_take_of_lt hi, hname]

theorem repeats_eq_empty_iff : repeats names = ∅ ↔ names.Nodup := by
  rw [List.nodup_iff_getElem?_ne_getElem?, Set.eq_empty_iff_forall_notMem]
  constructor
  · intro h i j hi hj heq
    refine h j (mem_repeats_iff.mpr ⟨i, hi, names[j], ?_, List.getElem?_eq_getElem hj⟩)
    rw [heq, List.getElem?_eq_getElem hj]
  · intro h j hj
    obtain ⟨i, hi, name, hname, hname'⟩ := mem_repeats_iff.mp hj
    exact h i j hi (List.getElem?_eq_some_iff.mp hname').1 (hname.trans hname'.symm)

/-- Repetitions in the front of a list are those in this part alone. -/
theorem mem_repeats_take_iff : i ∈ repeats (names.take j) ↔ i < j ∧ i ∈ repeats names := by
  simp only [mem_repeats_iff, List.getElem?_take, Option.ite_none_right_eq_some]
  constructor
  · rintro ⟨k, hk, name, ⟨_, hname⟩, hj, hname'⟩
    exact ⟨hj, k, hk, name, hname, hname'⟩
  · rintro ⟨hj, k, hk, name, hname, hname'⟩
    exact ⟨k, hk, name, ⟨hk.trans hj, hname⟩, hj, hname'⟩

/-- The name that is refused is the first one that is not new. -/
theorem firstRepeated?_eq_some_iff_split {seen : List Text} :
    firstRepeated? seen names = some name ↔
      ∃ front behind, names = front ++ name :: behind ∧ firstRepeated? seen front = none ∧
        (name ∈ seen ∨ name ∈ front) := by
  induction names generalizing seen with
  | nil => simp [firstRepeated?]
  | cons first names ih =>
    rw [firstRepeated?]
    by_cases h : first ∈ seen
    · rw [if_pos h]
      constructor
      · intro heq
        cases heq
        exact ⟨[], names, rfl, rfl, .inl h⟩
      · rintro ⟨front, behind, hsplit, hnone, _⟩
        cases front with
        | nil =>
          cases hsplit
          rfl
        | cons other front =>
          cases hsplit
          rw [firstRepeated?, if_pos h] at hnone
          cases hnone
    · rw [if_neg h, ih]
      constructor
      · rintro ⟨front, behind, rfl, hnone, hname⟩
        refine ⟨first :: front, behind, rfl, by rwa [firstRepeated?, if_neg h], ?_⟩
        simpa [or_assoc, or_left_comm] using hname
      · rintro ⟨front, behind, hsplit, hnone, hname⟩
        cases front with
        | nil =>
          cases hsplit
          simp [h] at hname
        | cons other front =>
          cases hsplit
          rw [firstRepeated?, if_neg h] at hnone
          exact ⟨front, behind, rfl, hnone, by simpa [or_assoc, or_left_comm] using hname⟩

theorem firstRepeated?_nil_eq_none_iff : firstRepeated? [] names = none ↔ repeats names = ∅ := by
  rw [firstRepeated?_eq_none_iff, repeats_eq_empty_iff]
  exact and_iff_left fun _ _ => List.not_mem_nil

/-- The name that is refused stands in the least place where a name came before. -/
theorem firstRepeated?_eq_some_iff :
    firstRepeated? [] names = some name ↔ ∃ j, IsLeast (repeats names) j ∧ names[j]? = some name := by
  rw [firstRepeated?_eq_some_iff_split]
  constructor
  · rintro ⟨front, behind, rfl, hnone, hname⟩
    have hplace : (front ++ name :: behind)[front.length]? = some name := by simp
    have hfront : (front ++ name :: behind).take front.length = front := List.take_left
    refine ⟨front.length, ⟨⟨name, hplace, ?_⟩, fun i hi => ?_⟩, hplace⟩
    · rw [hfront]
      exact hname.resolve_left List.not_mem_nil
    · by_contra hlt
      have hmem := mem_repeats_take_iff.mpr ⟨Nat.lt_of_not_le hlt, hi⟩
      rw [hfront, firstRepeated?_nil_eq_none_iff.mp hnone] at hmem
      exact hmem
  · rintro ⟨j, ⟨⟨other, hother, hmem⟩, hleast⟩, hj⟩
    obtain rfl : other = name := Option.mem_unique hother hj
    obtain ⟨hlt, hget⟩ := List.getElem?_eq_some_iff.mp hj
    refine ⟨names.take j, names.drop (j + 1), ?_, ?_, .inr hmem⟩
    · rw [← hget, List.getElem_cons_drop, List.take_append_drop]
    · rw [firstRepeated?_nil_eq_none_iff, Set.eq_empty_iff_forall_notMem]
      intro i hi
      obtain ⟨hi, hrepeats⟩ := mem_repeats_take_iff.mp hi
      exact Nat.not_le_of_lt hi (hleast hrepeats)

/-! ## Groups with names of their own -/

/-- A group whose name is its own has its text as the single value of the name. -/
theorem get?_collect_of_nodup (hnodup : names.Nodup) {group : Option Text} (hname : names[i]? = some name)
    (hgroup : groups[i]? = some group) : (collect names groups).get? name = group.map .single := by
  have hown (j : Nat) (u : Text) (hj : Holds names groups name j u) : j = i :=
    (List.getElem?_inj hj.lt_length hnodup).mp (hj.1.trans hname.symm)
  have hgroups := groups_collect names groups
  cases group with
  | some v => exact hgroups.single name i v ⟨hname, hgroup⟩ hown
  | none =>
    rw [Option.map_none, ← Option.not_isSome_iff_eq_none, hgroups.isSome_iff]
    rintro ⟨j, u, hj⟩
    rw [hown j u hj] at hj
    cases hj.2.symm.trans hgroup

/-! ## Patterns of a regex with names -/

section Outcomes

variable {source : Text} {r : Regex}

theorem ofNamedRegex_eq_countMismatch_iff :
    ofNamedRegex source r names = .error (.groupNameCountMismatch r.groups names.length) ↔
      names.length ≠ r.groups := by
  unfold ofNamedRegex
  split
  · next hlength => exact iff_of_true rfl hlength
  · next hlength =>
    refine iff_of_false (fun h => ?_) hlength
    split at h <;> cases h

theorem ofNamedRegex_eq_duplicate_iff :
    ofNamedRegex source r names = .error (.duplicateGroupName name) ↔
      names.length = r.groups ∧ firstRepeated? [] names = some name := by
  unfold ofNamedRegex
  split
  · next hlength =>
    refine iff_of_false (fun h => ?_) fun h => hlength h.1
    cases h
  · next hlength =>
    rw [and_iff_right (not_not.mp hlength)]
    cases firstRepeated? [] names with
    | some other => simp
    | none => simp

theorem exists_ofNamedRegex_eq_ok_iff :
    (∃ p, ofNamedRegex source r names = .ok p) ↔
      names.length = r.groups ∧ firstRepeated? [] names = none := by
  unfold ofNamedRegex
  split
  · next hlength =>
    refine iff_of_false ?_ fun h => hlength h.1
    rintro ⟨p, h⟩
    cases h
  · next hlength =>
    rw [and_iff_right (not_not.mp hlength)]
    cases firstRepeated? [] names with
    | some other => simp
    | none => simp

end Outcomes

/-- **Names are taken for the groups of a regex** if there are as many as groups, which is looked at first,
and no name came before. Otherwise the number is refused, or the first name that came before.

A match then has a single value at most for each name, which is the text of the group in the place of the
name, if the group took part. -/
theorem ofNamedRegex_outcomes (source : Text) (r : Regex) (names : List Text) :
    (ofNamedRegex source r names = .error (.groupNameCountMismatch r.groups names.length) ↔
        names.length ≠ r.groups) ∧
      (∀ name, ofNamedRegex source r names = .error (.duplicateGroupName name) ↔
        names.length = r.groups ∧ ∃ j, IsLeast (repeats names) j ∧ names[j]? = some name) ∧
      ((∃ p, ofNamedRegex source r names = .ok p) ↔ names.length = r.groups ∧ repeats names = ∅) ∧
      ∀ p, ofNamedRegex source r names = .ok p →
        p.names = some names ∧ p.regex = r ∧ ∀ input,
          match r.captures input with
          | none => p.match? input = none
          | some groups =>
            groups.length = names.length ∧ ∃ params, p.match? input = some (.named params) ∧
              (∀ name value, params.get? name = some value → ∃ v, value = .single v) ∧
              ∀ (i : Nat) name group, names[i]? = some name → groups[i]? = some group →
                (MatchResult.named params).get? name = group := by
  refine ⟨ofNamedRegex_eq_countMismatch_iff, fun name => ?_, ?_, fun p hp => ?_⟩
  · rw [ofNamedRegex_eq_duplicate_iff, firstRepeated?_eq_some_iff]
  · rw [exists_ofNamedRegex_eq_ok_iff, firstRepeated?_nil_eq_none_iff]
  · obtain ⟨rfl, hlength, hnodup⟩ := of_ofNamedRegex hp
    refine ⟨rfl, rfl, fun input => ?_⟩
    cases hcaptures : r.captures input with
    | none => exact congrArg (Option.map _) hcaptures
    | some groups =>
      refine ⟨(length_captures hcaptures).trans hlength.symm, collect names groups,
        congrArg (Option.map _) hcaptures, ?_, ?_⟩
      · intro name value hvalue
        exact (groups_collect names groups).single_of_nodup hnodup hvalue
      · intro i name group hname hgroup
        have hget := get?_collect_of_nodup hnodup hname hgroup
        show ((collect names groups).get? name).bind ParamValue.asSingle? = group
        rw [hget]
        cases group <;> rfl

/-- A group that takes no part leaves its name without a value. -/
theorem ofNamedRegex_outcomes_missing :
    ∃ r p params, Regex.read (Text.ofString "(a)(b)?") = .ok r ∧
      ofNamedRegex (Text.ofString "(a)(b)?") r [['x'], ['y']] = .ok p ∧
      p.match? ['a'] = some (.named params) ∧ (MatchResult.named params).get? ['x'] = some ['a'] ∧
      (MatchResult.named params).get? ['y'] = none := by
  have hrun : (Regex.read (Text.ofString "(a)(b)?")).toOption.any (fun r =>
      decide (r.groups = 2) && decide (r.captures ['a'] = some [some ['a'], none])) = true := by
    decide +kernel
  obtain ⟨r, hr, hcheck⟩ := exists_of_any hrun
  obtain ⟨hcount, hcaptures⟩ := Bool.and_eq_true_iff.mp hcheck
  obtain ⟨_, _, haccepts, hmatch⟩ := ofNamedRegex_outcomes (Text.ofString "(a)(b)?") r [['x'], ['y']]
  obtain ⟨p, hp⟩ := haccepts.mpr ⟨(of_decide_eq_true hcount).symm, repeats_eq_empty_iff.mpr (by decide)⟩
  obtain ⟨_, _, hinput⟩ := hmatch p hp
  have h := hinput ['a']
  rw [of_decide_eq_true hcaptures] at h
  obtain ⟨_, params, hfound, _, hget⟩ := h
  exact ⟨r, p, params, hr, hp, hfound, hget 0 ['x'] (some ['a']) rfl rfl, hget 1 ['y'] none rfl rfl⟩

end RoutePattern.Pattern
