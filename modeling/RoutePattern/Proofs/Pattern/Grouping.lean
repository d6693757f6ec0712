import Mathlib.Data.List.Nodup
import RoutePattern.Proofs.Pattern.RoundTrip

/-!
# Groups under their names

A match of a pattern with names reports what a match of the bare regex reports, with the groups put under
their names: no group is lost, none is counted twice, and the values of a name keep the order of its groups.
There are as many names as groups in every pattern, so that none of them is left over.

## Main definitions

* `Pattern.Holds` — a group with a name that took part in a match.
* `Pattern.valuesAt` — what the groups of a name hold, by their places.
* `Pattern.Groups` — values by name that are those of the groups.
* `Pattern.match?_named` — the match with names from the match without names.
-/

namespace RoutePattern.Pattern

variable {names : List Text} {groups : List (Option Text)} {name u v : Text} {i j : Nat}

/-! ## Values by place -/

/-- The group in a place has the name, took part in the match and holds the text. -/
def Holds (names : List Text) (groups : List (Option Text)) (name : Text) (i : Nat) (v : Text) : Prop :=
  names[i]? = some name ∧ groups[i]? = some (some v)

/-- What a place holds under a name. -/
def valueAt? (names : List Text) (groups : List (Option Text)) (name : Text) (i : Nat) : Option Text :=
  if names[i]? = some name then groups[i]?.join else none

/-- What the groups of a name hold, by their places from the first to the last. -/
def valuesAt (names : List Text) (groups : List (Option Text)) (name : Text) : List Text :=
  (List.range names.length).filterMap (valueAt? names groups name)

theorem valueAt?_eq_some_iff : valueAt? names groups name i = some v ↔ Holds names groups name i v := by
  unfold valueAt? Holds
  by_cases h : names[i]? = some name
  · simp [h, Option.join_eq_some_iff]
  · simp [h]

theorem Holds.lt_length (h : Holds names groups name i v) : i < names.length :=
  (List.getElem?_eq_some_iff.mp h.1).1

theorem mem_valuesAt : v ∈ valuesAt names groups name ↔ ∃ i, Holds names groups name i v := by
  unfold valuesAt
  rw [List.mem_filterMap]
  constructor
  · rintro ⟨i, _, hi⟩
    exact ⟨i, valueAt?_eq_some_iff.mp hi⟩
  · rintro ⟨i, hi⟩
    exact ⟨i, List.mem_range.mpr hi.lt_length, valueAt?_eq_some_iff.mpr hi⟩

/-- The groups taken with their names one after another are the groups by their places. -/
theorem held_zip (names : List Text) (groups : List (Option Text)) (name : Text) :
    Params.held name (names.zip groups) = valuesAt names groups name := by
  induction names generalizing groups with
  | nil => rfl
  | cons first names ih =>
    cases groups with
    | nil => simp [valuesAt, valueAt?]
    | cons group groups =>
      have hbehind : (List.map Nat.succ (List.range names.length)).filterMap
          (valueAt? (first :: names) (group :: groups) name) = valuesAt names groups name := by
        rw [List.filterMap_map]
        rfl
      have hfirst : valueAt? (first :: names) (group :: groups) name 0 =
          if first = name then group else none := by
        simp [valueAt?]
      unfold valuesAt
      rw [List.length_cons, List.range_succ_eq_map, List.filterMap_cons, hbehind, hfirst, ← ih groups]
      cases group with
      | none =>
        rw [ite_self]
        exact Params.held_cons_none name first _
      | some value =>
        show Params.held name ((first, some value) :: names.zip groups) = _
        rw [Params.held_cons]
        by_cases h : name = first
        · simp [h]
        · simp [h, Ne.symm h]

/-! ## One group or several -/

/-- A name with one value has one group. -/
theorem eq_of_valuesAt_singleton (h : valuesAt names groups name = [v]) {w : Text}
    (hi : Holds names groups name i u) (hj : Holds names groups name j w) : i = j := by
  obtain ⟨front, k, behind, hsplit, hfront, _, hbehind⟩ := List.filterMap_eq_cons_iff.mp h
  -- there is nothing but the place `k`
  have honly (l : Nat) (x : Text) (hl : Holds names groups name l x) : l = k := by
    have hsome := valueAt?_eq_some_iff.mpr hl
    have hmem : l ∈ front ++ k :: behind := hsplit ▸ List.mem_range.mpr hl.lt_length
    rw [List.mem_append, List.mem_cons] at hmem
    rcases hmem with hmem | rfl | hmem
    · rw [hfront l hmem] at hsome
      cases hsome
    · rfl
    · rw [List.filterMap_eq_nil_iff.mp hbehind l hmem] at hsome
      cases hsome
  rw [honly i u hi, honly j w hj]

/-- A name with two values has two groups. -/
theorem exists_holds_ne {values : List Text} (h : valuesAt names groups name = u :: v :: values) :
    ∃ i j, i ≠ j ∧ Holds names groups name i u ∧ Holds names groups name j v := by
  obtain ⟨front, i, behind, hsplit, _, hi, hbehind⟩ := List.filterMap_eq_cons_iff.mp h
  have hmem : v ∈ behind.filterMap (valueAt? names groups name) := by
    rw [hbehind]
    exact List.mem_cons_self
  obtain ⟨j, hjmem, hj⟩ := List.mem_filterMap.mp hmem
  refine ⟨i, j, ?_, valueAt?_eq_some_iff.mp hi, valueAt?_eq_some_iff.mp hj⟩
  rintro rfl
  have hnodup : (front ++ i :: behind).Nodup := hsplit ▸ List.nodup_range
  exact (List.nodup_cons.mp (List.nodup_append.mp hnodup).2.1).1 hjmem

/-! ## Values by name -/

/-- Values by name are those of the groups: a name is there if one of its groups took part, it has a single
value if there is just one such group, and otherwise the list of all of them, from the first to the last. -/
structure Groups (names : List Text) (groups : List (Option Text)) (params : Params) : Prop where
  isSome_iff : ∀ name, (params.get? name).isSome = true ↔ ∃ i v, Holds names groups name i v
  single : ∀ name i v, Holds names groups name i v → (∀ j u, Holds names groups name j u → j = i) →
    params.get? name = some (.single v)
  multiple : ∀ name i j u v, Holds names groups name i u → Holds names groups name j v → i ≠ j →
    params.get? name = some (.multiple (valuesAt names groups name))

theorem groups_collect (names : List Text) (groups : List (Option Text)) :
    Groups names groups (collect names groups) := by
  have hget (name : Text) : (collect names groups).get? name =
      ParamValue.ofList? (valuesAt names groups name) := by
    rw [get?_collect, held_zip]
  refine ⟨?_, ?_, ?_⟩
  · intro name
    rw [hget]
    constructor
    · intro h
      cases hvalues : valuesAt names groups name with
      | nil =>
        rw [hvalues] at h
        cases h
      | cons v values =>
        obtain ⟨i, hi⟩ := mem_valuesAt.mp (hvalues ▸ List.mem_cons_self)
        exact ⟨i, v, hi⟩
    · rintro ⟨i, v, hi⟩
      have hmem := mem_valuesAt.mpr ⟨i, hi⟩
      match hvalues : valuesAt names groups name with
      | [] =>
        rw [hvalues] at hmem
        cases hmem
      | [_] => rfl
      | _ :: _ :: _ => rfl
  · intro name i v hi hunique
    rw [hget]
    have hmem := mem_valuesAt.mpr ⟨i, hi⟩
    match hvalues : valuesAt names groups name with
    | [] =>
      rw [hvalues] at hmem
      cases hmem
    | [w] =>
      rw [hvalues, List.mem_singleton] at hmem
      rw [hmem]
      rfl
    | _ :: _ :: _ =>
      obtain ⟨k, l, hne, hk, hl⟩ := exists_holds_ne hvalues
      exact absurd ((hunique k _ hk).trans (hunique l _ hl).symm) hne
  · intro name i j u v hi hj hne
    rw [hget]
    have hmem := mem_valuesAt.mpr ⟨i, hi⟩
    match hvalues : valuesAt names groups name with
    | [] =>
      rw [hvalues] at hmem
      cases hmem
    | [_] => exact absurd (eq_of_valuesAt_singleton hvalues hi hj) hne
    | _ :: _ :: _ => rfl

/-! ## Patterns with names -/

theorem firstRepeated?_eq_none_iff {seen names : List Text} :
    firstRepeated? seen names = none ↔ names.Nodup ∧ ∀ name ∈ names, name ∉ seen := by
  induction names generalizing seen with
  | nil => simp [firstRepeated?]
  | cons name names ih =>
    rw [firstRepeated?]
    by_cases h : name ∈ seen
    · simp [h]
    · rw [if_neg h, ih, List.nodup_cons]
      constructor
      · rintro ⟨hnodup, hseen⟩
        refine ⟨⟨fun hmem => hseen name hmem List.mem_cons_self, hnodup⟩, ?_⟩
        intro other hother
        rcases List.mem_cons.mp hother with rfl | hother
        · exact h
        · exact fun hmem => hseen other hother (List.mem_cons_of_mem _ hmem)
      · rintro ⟨⟨hname, hnodup⟩, hseen⟩
        refine ⟨hnodup, fun other hother hmem => ?_⟩
        rcases List.mem_cons.mp hmem with rfl | hmem
        · exact hname hother
        · exact hseen other (List.mem_cons_of_mem _ hother) hmem

/-- A pattern of a regex with names has one name for each group, and no name twice. -/
theorem of_ofNamedRegex {source : Text} {r : Regex} {p : Pattern} (h : ofNamedRegex source r names = .ok p) :
    p = { ofRegex source r with names := some names } ∧ names.length = r.groups ∧ names.Nodup := by
  unfold ofNamedRegex at h
  split at h
  · cases h
  · next hlength =>
    split at h
    · cases h
    · next hrepeated =>
      cases h
      exact ⟨rfl, not_not.mp hlength, (firstRepeated?_eq_none_iff.mp hrepeated).1⟩

/-- A pattern with names: of the pattern language, with a class as the charset of values, or of a regex
with a name for each group. -/
inductive Named (p : Pattern) (names : List Text) : Prop
  | ofText {text : Text} {o : Options} {cls : CharClass}
      (hcharset : CharClass.ofCharset? o.valueCharset = some cls) (h : ofText text o = .ok p)
      (hnames : p.names = some names) : Named p names
  | ofNamedRegex {source : Text} {r : Regex} (h : ofNamedRegex source r names = .ok p) : Named p names

theorem Named.names_eq {p : Pattern} (h : Named p names) : p.names = some names := by
  cases h with
  | ofText _ _ hnames => exact hnames
  | ofNamedRegex h =>
    obtain ⟨rfl, _, _⟩ := of_ofNamedRegex h
    rfl

/-- There are as many names as groups. -/
theorem Named.length_eq {p : Pattern} (h : Named p names) : names.length = p.regex.groups := by
  cases h with
  | ofText hcharset h hnames =>
    obtain ⟨nodes, _, _, hnames', hcompile⟩ := of_ofText h
    obtain rfl : names = Node.captureNames nodes := Option.some.inj (hnames.symm.trans hnames')
    rw [eq_tree_of_compile hcharset hcompile, Node.groups_tree]
  | ofNamedRegex h =>
    obtain ⟨rfl, hlength, _⟩ := of_ofNamedRegex h
    exact hlength

theorem length_captures {r : Regex} {input : Text} (h : r.captures input = some groups) :
    groups.length = r.groups := by
  rw [Regex.captures, Option.map_eq_some_iff] at h
  obtain ⟨found, hfind, rfl⟩ := h
  rw [Regex.find, Option.map_eq_some_iff] at hfind
  obtain ⟨way, _, rfl⟩ := hfind
  simp [Regex.foundBy]

/-- Names that are all different have single values. -/
theorem Groups.single_of_nodup {params : Params} (h : Groups names groups params) (hnodup : names.Nodup)
    {value : ParamValue} (hvalue : params.get? name = some value) : ∃ v, value = .single v := by
  have hsome : (params.get? name).isSome = true := by rw [hvalue, Option.isSome_some]
  obtain ⟨i, v, hi⟩ := (h.isSome_iff name).mp hsome
  refine ⟨v, Option.some.inj (hvalue.symm.trans (h.single name i v hi ?_))⟩
  intro j u hj
  have hi' := hi.lt_length
  have hj' := hj.lt_length
  have heq : names[j] = names[i] := by
    rw [(List.getElem?_eq_some_iff.mp hj.1).2, (List.getElem?_eq_some_iff.mp hi.1).2]
  exact hnodup.getElem_inj_iff.mp heq

/-- **A match with names is the match without names, put under the names.** The pattern matches where its
bare regex does. There is one name for each group that is reported; a name has the values of its groups,
and a single value each if the names were given to a regex. -/
theorem match?_named {p : Pattern} (hp : Named p names) (source input : Text) :
    match (ofRegex source p.regex).match? input with
    | none => p.match? input = none
    | some (.named _) => False
    | some (.positional groups) =>
      groups.length = names.length ∧
        ∃ params, p.match? input = some (.named params) ∧ Groups names groups params ∧
          (p.isRegex = true → ∀ name value, params.get? name = some value → ∃ v, value = .single v) := by
  have hbare : (ofRegex source p.regex).match? input =
      (p.regex.captures input).map MatchResult.positional := rfl
  rw [hbare]
  cases hcaptures : p.regex.captures input with
  | none =>
    show p.match? input = none
    rw [match?, hcaptures]
    rfl
  | some groups =>
    have hmatch : p.match? input = some (.named (collect names groups)) := by
      rw [match?, hcaptures, hp.names_eq]
      rfl
    refine ⟨(length_captures hcaptures).trans hp.length_eq.symm, _, hmatch, groups_collect names groups, ?_⟩
    intro hregex name value hvalue
    cases hp with
    | ofText _ h _ =>
      obtain ⟨nodes, _, hnodes, _, _⟩ := of_ofText h
      rw [isRegex, hnodes] at hregex
      cases hregex
    | ofNamedRegex h =>
      obtain ⟨_, _, hnodup⟩ := of_ofNamedRegex h
      exact (groups_collect names groups).single_of_nodup hnodup hvalue

/-- A name with two groups, and one in a part that is missing. -/
theorem match?_named_repeated :
    ∃ p params, Named p [['a'], ['b'], ['a']] ∧
      (ofRegex p.source p.regex).match? (Text.ofString "/1/2") =
        some (.positional [some ['1'], none, some ['2']]) ∧
      p.match? (Text.ofString "/1/2") = some (.named params) ∧
      params.get? ['a'] = some (.multiple [['1'], ['2']]) ∧ params.get? ['b'] = none := by
  obtain ⟨cls, hcharset⟩ : ∃ cls, CharClass.ofCharset? ({} : Options).valueCharset = some cls :=
    Option.isSome_iff_exists.mp (by decide +kernel)
  have hrun : (ofText (Text.ofString "/:a(.:b)/:a") {}).toOption.any (fun p =>
      decide (p.names = some [['a'], ['b'], ['a']]) &&
        decide (p.regex.captures (Text.ofString "/1/2") = some [some ['1'], none, some ['2']])) = true := by
    decide +kernel
  cases hp : ofText (Text.ofString "/:a(.:b)/:a") {} with
  | error e =>
    rw [hp] at hrun
    cases hrun
  | ok p =>
    rw [hp] at hrun
    obtain ⟨hnames, hcaptures⟩ := Bool.and_eq_true_iff.mp hrun
    have hnamed : Named p [['a'], ['b'], ['a']] := .ofText hcharset hp (of_decide_eq_true hnames)
    have hbare : (ofRegex p.source p.regex).match? (Text.ofString "/1/2") =
        some (.positional [some ['1'], none, some ['2']]) :=
      congrArg (Option.map MatchResult.positional) (of_decide_eq_true hcaptures)
    have h := match?_named hnamed p.source (Text.ofString "/1/2")
    rw [hbare] at h
    obtain ⟨_, params, hmatch, hgroups, _⟩ := h
    refine ⟨p, params, hnamed, hbare, hmatch, ?_, ?_⟩
    · exact hgroups.multiple ['a'] 0 2 ['1'] ['2'] ⟨rfl, rfl⟩ ⟨rfl, rfl⟩ (by decide)
    · rw [← Option.not_isSome_iff_eq_none, hgroups.isSome_iff]
      rintro ⟨i, v, hi⟩
      have hmem := mem_valuesAt.mpr ⟨i, hi⟩
      have hnone : valuesAt [['a'], ['b'], ['a']] [some ['1'], none, some ['2']] ['b'] = [] := by decide
      rw [hnone] at hmem
      cases hmem

end RoutePattern.Pattern
