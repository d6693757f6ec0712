import RoutePattern.Proofs.Pattern.RoundTrip

/-!
# Matching what was filled in

A pattern matches what it writes, if its nodes may capture the values that are written for them: the text
is derived from the nodes (`Node.Fills.derives`), whichever derivation the match then prefers.

The values that are found are those that were given if there is nothing to prefer. In a pattern where no
value can run on into what stands behind it, a text is derived in one way at most
(`Node.Derives.groups_eq`), and the groups of a name are what was dealt to it.

## Main definitions

* `Node.areSeparated` — the patterns for which this is so.
* `Params.supplies` — values for the occurrences of names, in the form in which a match reports them.
* `Pattern.isSome_match?_of_render` — what is written is matched.
* `Pattern.match?_render` — the values that were filled in are found.
-/

namespace RoutePattern

namespace Node

variable {cls : CharClass} {params : Params} {node : Node} {nodes : List Node}
  {choices choices' : List Choice} {s s' : Text} {groups groups' : List (Option Text)}

/-! ## Patterns with one derivation -/

/-- Is it the end, or a text that begins with a character that values do not have? -/
def endsValue (cls : CharClass) : List Node → Bool
  | [] => true
  | .text (c :: _) :: _ => !cls.mem c
  | _ => false

/-- Does each value end where it has to, each wildcard at the end, and is nothing optional? -/
def areSeparated (cls : CharClass) : List Node → Bool
  | [] => true
  | .text _ :: nodes => areSeparated cls nodes
  | .named _ :: nodes => endsValue cls nodes && areSeparated cls nodes
  | .wildcard :: nodes => nodes.isEmpty
  | .namedWildcard _ :: nodes => nodes.isEmpty
  | .optional _ :: _ => false

theorem Derives.head?_of_endsValue (h : Derives cls nodes choices s groups)
    (hends : endsValue cls nodes = true) : ∀ c ∈ s.head?, cls.mem c = false := by
  intro c hc
  cases h with
  | nil => cases hc
  | text t h =>
    cases t with
    | nil => cases hends
    | cons d t =>
      cases hc
      simpa [endsValue] using hends
  | named | wildcard | namedWildcard | present | absent => cases hends

theorem Derives.eq_nil (h : Derives cls nodes choices s groups) (hnil : nodes.isEmpty = true) :
    s = [] ∧ groups = [] := by
  cases h with
  | nil => exact ⟨rfl, rfl⟩
  | text | named | wildcard | namedWildcard | present | absent => cases hnil

/-- **A text is derived in one way at most** from nodes that are separated. -/
theorem Derives.groups_eq (h : Derives cls nodes choices s groups)
    (h' : Derives cls nodes choices' s' groups') (hseparated : areSeparated cls nodes = true)
    (hs : s = s') : groups = groups' := by
  induction h generalizing choices' s' groups' with
  | nil =>
    cases h'
    rfl
  | text t _ ih =>
    cases h' with
    | text _ h' => exact ih h' hseparated (List.append_cancel_left hs)
  | named name hne hv h ih =>
    rw [areSeparated, Bool.and_eq_true] at hseparated
    cases h' with
    | named _ hne' hv' h' =>
      -- both values go as far as their characters do
      have hvalue := congrArg (List.takeWhile cls.mem) hs
      rw [Text.takeWhile_append hv (h.head?_of_endsValue hseparated.1),
        Text.takeWhile_append hv' (h'.head?_of_endsValue hseparated.1)] at hvalue
      subst hvalue
      rw [ih h' hseparated.2 (List.append_cancel_left hs)]
  | wildcard hv h ih =>
    cases h' with
    | wildcard hv' h' =>
      obtain ⟨rfl, rfl⟩ := h.eq_nil hseparated
      obtain ⟨rfl, rfl⟩ := h'.eq_nil hseparated
      rw [List.append_cancel_right hs]
  | namedWildcard name hv h ih =>
    cases h' with
    | namedWildcard _ hv' h' =>
      obtain ⟨rfl, rfl⟩ := h.eq_nil hseparated
      obtain ⟨rfl, rfl⟩ := h'.eq_nil hseparated
      rw [List.append_cancel_right hs]
  | present => cases hseparated
  | absent => cases hseparated

end Node

/-! ## Values for occurrences -/

/-- Is it a single value for one occurrence, or else a list with a value for each? -/
def ParamValue.fits : ParamValue → Nat → Bool
  | .single _, n => n == 1
  | .multiple values, n => n != 1 && values.length == n

namespace Params

/-- Does each name have values that fit its occurrences? -/
def supplies (params : Params) (names : List Text) : Bool :=
  names.all fun name => (params.get? name).any fun value => value.fits (names.count name)

variable {params : Params} {names : List Text} {name : Text}

theorem exists_of_supplies (h : params.supplies names = true) (hname : name ∈ names) :
    ∃ value, params.get? name = some value ∧ value.fits (names.count name) = true := by
  rw [supplies, List.all_eq_true] at h
  exact (Option.any_eq_true _ _).mp (h name hname)

theorem length_values_of_supplies (h : params.supplies names = true) (hname : name ∈ names) :
    (params.values name).length = names.count name := by
  obtain ⟨value, hvalue, hfits⟩ := exists_of_supplies h hname
  rw [values, hvalue]
  cases value with
  | single v => exact (beq_iff_eq.mp hfits).symm
  | multiple vs =>
    obtain ⟨_, hlength⟩ := Bool.and_eq_true_iff.mp hfits
    exact beq_iff_eq.mp hlength

/-- The values of a name are in the form in which a match reports them. -/
theorem get?_of_supplies (h : params.supplies names = true) (hname : name ∈ names) :
    params.get? name = ParamValue.ofList? (params.values name) := by
  have hlength := length_values_of_supplies h hname
  have hpos : 0 < names.count name := List.count_pos_iff.mpr hname
  obtain ⟨value, hvalue, hfits⟩ := exists_of_supplies h hname
  rw [values, hvalue] at hlength ⊢
  cases value with
  | single v => rfl
  | multiple vs =>
    obtain ⟨hne, _⟩ := Bool.and_eq_true_iff.mp hfits
    replace hlength : vs.length = names.count name := hlength
    cases vs with
    | nil =>
      rw [List.length_nil] at hlength
      omega
    | cons v vs =>
      cases vs with
      | nil => exact absurd hlength.symm (bne_iff_ne.mp hne)
      | cons => rfl

/-- There are enough values for all occurrences. -/
theorem covers_of_supplies (h : params.supplies names = true) : Node.Covers params [] names := by
  intro name
  rw [List.count_nil, Nat.zero_add]
  by_cases hname : name ∈ names
  · exact Nat.le_of_eq (length_values_of_supplies h hname).symm
  · rw [List.count_eq_zero_of_not_mem hname]
    exact Nat.zero_le _

/-- May each value be captured by any node? -/
def arePlain (cls : CharClass) (params : Params) : Bool :=
  params.entries.all fun entry =>
    entry.2.values.all fun v => !v.isEmpty && v.all cls.mem && !v.contains '\n'

theorem exists_entry_of_mem_values {v : Text} (h : v ∈ params.values name) :
    ∃ entry ∈ params.entries, v ∈ entry.2.values := by
  unfold values at h
  cases hvalue : params.get? name with
  | none =>
    rw [hvalue] at h
    cases h
  | some value =>
    rw [hvalue] at h
    obtain ⟨front, behind, hentries, _⟩ := List.lookup_eq_some_iff.mp hvalue
    refine ⟨(name, value), ?_, h⟩
    rw [hentries]
    exact List.mem_append_right _ List.mem_cons_self

theorem admits_of_arePlain {cls : CharClass} (h : params.arePlain cls = true) {nodes : List Node}
    (node : Node) (v : Text) (hv : Node.Emits params nodes node v) : node.Admits cls v := by
  have hplain (name : Text) (hname : node.captureName? = some name) :
      v ≠ [] ∧ (∀ c ∈ v, cls.mem c = true) ∧ '\n' ∉ v := by
    obtain ⟨entry, hentry, hmem⟩ := exists_entry_of_mem_values (hv.mem_values hname)
    have hcheck := List.all_eq_true.mp (List.all_eq_true.mp h entry hentry) v hmem
    simpa [and_assoc] using hcheck
  cases node with
  | text t => trivial
  | named name => exact ⟨(hplain name rfl).1, (hplain name rfl).2.1⟩
  | wildcard => exact (hplain _ rfl).2.2
  | namedWildcard name => exact (hplain name rfl).2.2
  | optional children => trivial

end Params

/-! ## Patterns -/

namespace Pattern

variable {text : Text} {o : Options} {p : Pattern} {cls : CharClass} {nodes : List Node} {params : Params}
  {s : Text}

/-- A pattern and its nodes that pass a check. -/
theorem exists_ofText {check : CharClass → Pattern → List Node → Bool}
    (h : ((CharClass.ofCharset? o.valueCharset).any fun cls =>
      (ofText text o).toOption.any fun p => p.nodes.any (check cls p)) = true) :
    ∃ cls p nodes, CharClass.ofCharset? o.valueCharset = some cls ∧ ofText text o = .ok p ∧
      p.nodes = some nodes ∧ check cls p nodes = true := by
  obtain ⟨cls, hcharset, h⟩ := (Option.any_eq_true _ _).mp h
  obtain ⟨p, hp, h⟩ := exists_of_any h
  obtain ⟨nodes, hnodes, h⟩ := (Option.any_eq_true _ _).mp h
  exact ⟨cls, p, nodes, hcharset, hp, hnodes, h⟩

/-- **What a pattern writes, it matches**, if the values that are written are ones that its nodes may
capture. Which optional segments are written, and which a match tries first, does not matter. -/
theorem isSome_match?_of_render (hp : ofText text o = .ok p)
    (hcharset : CharClass.ofCharset? o.valueCharset = some cls) (hnodes : p.nodes = some nodes)
    (hr : p.render params = .ok s)
    (hadmits : ∀ node value, Node.Emits params nodes node value → node.Admits cls value) :
    (p.match? s).isSome = true := by
  obtain ⟨pieces, dealt, hf, rfl⟩ := Node.render_eq_ok_iff.mp ((render_eq_ok_iff hnodes).mp hr)
  obtain ⟨choices, groups, hd, _⟩ := hf.derives_of_emits hadmits
  rw [match?_ofText hp hcharset hnodes, Option.isSome_map]
  exact Node.captures_isSome_iff.mpr ⟨choices, groups, hd⟩

/-- A segment in another one is written, and what it writes is matched as part of the value before it. -/
theorem isSome_match?_of_render_nested :
    ∃ p params, ofText (Text.ofString "/v:major(.:minor(-:tag))/*") {} = .ok p ∧
      p.render params = .ok (Text.ofString "/v1.2-rc/a") ∧
      (p.match? (Text.ofString "/v1.2-rc/a")).isSome = true := by
  obtain ⟨params, hrun⟩ : ∃ params : Params, ((CharClass.ofCharset? ({} : Options).valueCharset).any
      fun cls => (ofText (Text.ofString "/v:major(.:minor(-:tag))/*") {}).toOption.any fun p =>
        p.nodes.any fun _ => params.arePlain cls &&
          (p.render params).toOption == some (Text.ofString "/v1.2-rc/a")) = true :=
    ⟨⟨[(Text.ofString "major", .single ['1']), (Text.ofString "minor", .single ['2']),
      (Text.ofString "tag", .multiple [['r', 'c'], ['x']]), (Node.wildcardName, .single ['a'])]⟩,
      by decide +kernel⟩
  obtain ⟨cls, p, nodes, hcharset, hp, hnodes, hcheck⟩ := exists_ofText hrun
  obtain ⟨hplain, hrender⟩ := Bool.and_eq_true_iff.mp hcheck
  have hr : p.render params = .ok (Text.ofString "/v1.2-rc/a") := by
    cases h : p.render params with
    | error e =>
      rw [h] at hrender
      cases hrender
    | ok s =>
      rw [h] at hrender
      exact congrArg Except.ok (Option.some.inj (beq_iff_eq.mp hrender))
  exact ⟨p, params, hp, hr,
    isSome_match?_of_render hp hcharset hnodes hr (Params.admits_of_arePlain hplain)⟩

/-- **The values that were filled in are found again** in a pattern that is separated, if there is one for
each occurrence and the nodes may capture them. Values of other names are not written. -/
theorem match?_render (hp : ofText text o = .ok p)
    (hcharset : CharClass.ofCharset? o.valueCharset = some cls) (hnodes : p.nodes = some nodes)
    (hseparated : Node.areSeparated cls nodes = true)
    (hsupplies : params.supplies (Node.captureNames nodes) = true)
    (hadmits : ∀ node value, Node.Emits params nodes node value → node.Admits cls value) :
    ∃ s found, p.render params = .ok s ∧ p.match? s = some (.named found) ∧
      ∀ name, found.get? name = if name ∈ Node.captureNames nodes then params.get? name else none := by
  obtain ⟨pieces, dealt, hf, htaken⟩ := Node.exists_fills_take (Params.covers_of_supplies hsupplies)
  obtain ⟨choices, groups, hd, hheld⟩ := hf.derives_of_emits hadmits
  -- the match reports the groups of this derivation, as there is no other
  have hcaptures : (Node.tree cls nodes).captures (Node.written pieces) = some groups := by
    obtain ⟨groups', hc⟩ := Option.isSome_iff_exists.mp
      (Node.captures_isSome_iff.mpr ⟨choices, groups, hd⟩)
    obtain ⟨choices', hd'⟩ := Node.derives_of_captures hc
    rw [hc, hd'.groups_eq hd hseparated rfl]
  refine ⟨Node.written pieces, collect (Node.captureNames nodes) groups, ?_, ?_, fun name => ?_⟩
  · exact (render_eq_ok_iff hnodes).mpr (Node.render_eq_ok_iff.mpr ⟨pieces, dealt, hf, rfl⟩)
  · rw [match?_ofText hp hcharset hnodes, hcaptures, Option.map_some]
  · rw [get?_collect]
    split
    · next hname =>
      rw [hheld, htaken, ← Params.length_values_of_supplies hsupplies hname, List.take_length,
        Params.get?_of_supplies hsupplies hname]
    · next hname =>
      rw [Params.held_zip_of_not_mem hname]
      rfl

/-- A name that occurs twice has a list of two values, and a name that does not occur is left out. -/
theorem match?_render_repeated :
    ∃ p params s found, ofText (Text.ofString "/:id/:id/*") {} = .ok p ∧ p.render params = .ok s ∧
      p.match? s = some (.named found) ∧
      found.get? (Text.ofString "id") = some (.multiple [['1', '0'], ['5', '2']]) ∧
      params.get? (Text.ofString "other") = some (.single ['x']) ∧
      found.get? (Text.ofString "other") = none := by
  obtain ⟨params, hid, hother, hrun⟩ : ∃ params : Params,
      params.get? (Text.ofString "id") = some (.multiple [['1', '0'], ['5', '2']]) ∧
      params.get? (Text.ofString "other") = some (.single ['x']) ∧
      ((CharClass.ofCharset? ({} : Options).valueCharset).any fun cls =>
        (ofText (Text.ofString "/:id/:id/*") {}).toOption.any fun p => p.nodes.any fun nodes =>
          Node.areSeparated cls nodes && (params.supplies (Node.captureNames nodes) &&
            (params.arePlain cls &&
              Node.captureNames nodes == [Text.ofString "id", Text.ofString "id", Node.wildcardName]))) =
        true :=
    ⟨⟨[(Text.ofString "id", .multiple [['1', '0'], ['5', '2']]), (Node.wildcardName, .single ['a']),
      (Text.ofString "other", .single ['x'])]⟩, by decide +kernel, by decide +kernel, by decide +kernel⟩
  obtain ⟨cls, p, nodes, hcharset, hp, hnodes, hcheck⟩ := exists_ofText hrun
  obtain ⟨hseparated, hcheck⟩ := Bool.and_eq_true_iff.mp hcheck
  obtain ⟨hsupplies, hcheck⟩ := Bool.and_eq_true_iff.mp hcheck
  obtain ⟨hplain, hnames⟩ := Bool.and_eq_true_iff.mp hcheck
  obtain ⟨s, found, hr, hmatch, hfound⟩ :=
    match?_render hp hcharset hnodes hseparated hsupplies (Params.admits_of_arePlain hplain)
  rw [beq_iff_eq.mp hnames] at hfound
  refine ⟨p, params, s, found, hp, hr, hmatch, ?_, hother, ?_⟩
  · rw [hfound, if_pos (by decide), hid]
  · rw [hfound, if_neg (by decide)]

end Pattern

end RoutePattern
