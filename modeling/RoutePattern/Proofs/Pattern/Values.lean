import RoutePattern.Pattern.Basic

/-!
# Values by name

Parameters are described by the values that each name has, in order. A match gives a name what its groups
hold, from left to right, and dealing takes the values in the same order.

## Main definitions

* `Params.values` — the values of a name; `ParamValue.ofList?` — the form in which they are kept.
* `Params.held` — what the groups of a name hold.
* `Pattern.get?_collect` — what a match gives a name.
* `Dealt.next?_eq` — the next value of a name.
-/

namespace RoutePattern

/-- The values of a name, in order. -/
def Params.values (params : Params) (name : Text) : List Text :=
  ((params.get? name).map ParamValue.values).getD []

/-- The values of a name as a match reports them: nothing, one value, or a list. -/
def ParamValue.ofList? : List Text → Option ParamValue
  | [] => none
  | [value] => some (.single value)
  | first :: second :: values => some (.multiple (first :: second :: values))

theorem ParamValue.values_ofList? (values : List Text) :
    ((ofList? values).map ParamValue.values).getD [] = values := by
  match values with
  | [] => rfl
  | [_] => rfl
  | _ :: _ :: _ => rfl

namespace Params

/-- One more occurrence of a name is one more value in its list. -/
theorem get?_add {params : Params} {name other : Text} {values : List Text}
    (h : params.get? other = ParamValue.ofList? values) (value : Text) :
    (params.add name value).get? other =
      ParamValue.ofList? (values ++ if other = name then [value] else []) := by
  unfold add
  by_cases hname : other = name
  · subst hname
    rw [h, if_pos rfl]
    match values with
    | [] => simp [ParamValue.ofList?, NameMap.get?_insert]
    | [_] => simp [ParamValue.ofList?, NameMap.get?_insert, ParamValue.push]
    | _ :: _ :: _ => simp [ParamValue.ofList?, NameMap.get?_insert, ParamValue.push]
  · rw [if_neg hname, List.append_nil, ← h]
    cases params.get? name <;> simp [NameMap.get?_insert, hname]

/-! ## Groups with names -/

/-- What the groups of a name hold, from left to right. -/
def held (name : Text) (entries : List (Text × Option Text)) : List Text :=
  entries.filterMap fun entry => if entry.1 = name then entry.2 else none

@[simp] theorem held_nil (name : Text) : held name [] = [] := rfl

theorem held_append (name : Text) (entries entries' : List (Text × Option Text)) :
    held name (entries ++ entries') = held name entries ++ held name entries' :=
  List.filterMap_append

theorem held_cons (name other : Text) (value : Text) (entries : List (Text × Option Text)) :
    held name ((other, some value) :: entries) =
      (if name = other then [value] else []) ++ held name entries := by
  by_cases h : name = other
  · simp [held, h]
  · simp [held, h, Ne.symm h]

theorem held_cons_none (name other : Text) (entries : List (Text × Option Text)) :
    held name ((other, none) :: entries) = held name entries := by
  simp [held]

/-- Other names hold nothing. -/
theorem held_zip_of_not_mem {name : Text} {names : List Text} (h : name ∉ names)
    (groups : List (Option Text)) : held name (names.zip groups) = [] := by
  rw [held, List.filterMap_eq_nil_iff]
  intro entry hentry
  rw [if_neg]
  rintro rfl
  exact h (List.of_mem_zip hentry).1

theorem held_zip_none (name : Text) (names : List Text) (n : Nat) :
    held name (names.zip (List.replicate n none)) = [] := by
  rw [held, List.filterMap_eq_nil_iff]
  intro entry hentry
  rw [List.eq_of_mem_replicate (List.of_mem_zip hentry).2, ite_self]

end Params

namespace Pattern

/-- **A match gives a name what its groups hold**, as a list if there is more than one value. -/
theorem get?_collect (names : List Text) (groups : List (Option Text)) (name : Text) :
    (collect names groups).get? name =
      ParamValue.ofList? (Params.held name (names.zip groups)) := by
  obtain ⟨keep, hkeep, hnone, hsome⟩ : ∃ keep : Params → Text × Option Text → Params,
      collect names groups = (names.zip groups).foldl keep ∅ ∧
        (∀ params other, keep params (other, none) = params) ∧
        ∀ params other value, keep params (other, some value) = params.add other value :=
    ⟨_, rfl, fun _ _ => rfl, fun _ _ _ => rfl⟩
  -- the values that are there already come first
  suffices h : ∀ (entries : List (Text × Option Text)) (params : Params) (values : List Text),
      params.get? name = ParamValue.ofList? values →
      (entries.foldl keep params).get? name = ParamValue.ofList? (values ++ Params.held name entries) by
    rw [hkeep]
    exact h (names.zip groups) ∅ [] rfl
  intro entries
  induction entries with
  | nil =>
    intro params values h
    rw [List.foldl_nil, Params.held_nil, List.append_nil]
    exact h
  | cons entry entries ih =>
    intro params values h
    obtain ⟨other, value⟩ := entry
    cases value with
    | none =>
      rw [List.foldl_cons, hnone, Params.held_cons_none]
      exact ih params values h
    | some value =>
      rw [List.foldl_cons, hsome, Params.held_cons, ← List.append_assoc]
      exact ih _ _ (Params.get?_add h value)

theorem values_collect (names : List Text) (groups : List (Option Text)) (name : Text) :
    (collect names groups).values name = Params.held name (names.zip groups) := by
  rw [Params.values, get?_collect, ParamValue.values_ofList?]

end Pattern

/-! ## Dealing -/

theorem Dealt.next?_eq (dealt : Dealt) (params : Params) (name : Text) :
    dealt.next? params name = (params.values name)[dealt.count name]? := by
  unfold Dealt.next? Params.values
  cases params.get? name <;> rfl

end RoutePattern
