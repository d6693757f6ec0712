import RoutePattern.Proofs.Pattern.Dealing

/-!
# Values that are missing

Filling in fails at the first node that is to be written and has no value. Until then one value has been dealt
for each node that was written, and never more than there are, so the error tells whether there was a value
at all. In a pattern without optional segments all nodes are to be written, and where it fails is known from
the names and the numbers of their values.

## Main definitions

* `Node.FailsAt` — where filling in fails, and what has been dealt until then.
* `Node.FirstShort` — the first occurrence of a name behind its last value.
* `Node.render_error` — the errors of filling in.
-/

namespace RoutePattern

/-- A name without values is not given, or has an empty list. -/
theorem Params.values_eq_nil_iff {params : Params} {name : Text} :
    params.values name = [] ↔ params.get? name = none ∨ params.get? name = some (.multiple []) := by
  unfold Params.values
  cases params.get? name with
  | none => simp
  | some value => cases value <;> simp [ParamValue.values]

theorem Dealt.next?_eq_none_iff {dealt : Dealt} {params : Params} {name : Text} :
    dealt.next? params name = none ↔ (params.values name).length ≤ dealt.count name := by
  rw [Dealt.next?_eq, List.getElem?_eq_none_iff]

namespace Node

variable {params : Params} {dealt dealt' : Dealt} {node : Node} {nodes : List Node} {pieces : List (Node × Text)}
  {names names' : List Text} {name : Text} {e : RenderError}

/-! ## Where filling in fails -/

/-- Is the node no optional segment? -/
def isRequired : Node → Bool
  | .optional _ => false
  | _ => true

/-- Nothing of a pattern without optional segments is left out. -/
theorem Fills.namesIn_eq (h : Fills params dealt nodes pieces dealt')
    (hrequired : nodes.all isRequired = true) : namesIn pieces = captureNames nodes := by
  induction h with
  | nil => rfl
  | text t _ ih => exact ih (Bool.and_eq_true_iff.mp hrequired).2
  | capture hname _ _ ih =>
    rw [captureNames_cons hname, namesIn_capture hname, ih (Bool.and_eq_true_iff.mp hrequired).2]
  | present => cases hrequired
  | absent => cases hrequired

theorem renderNodes_cons_error_iff :
    renderNodes params dealt (node :: nodes) = .error e ↔
      renderNode params dealt node = .error e ∨
        ∃ front dealt', renderNode params dealt node = .ok (front, dealt') ∧
          renderNodes params dealt' nodes = .error e := by
  rw [renderNodes]
  cases hnode : renderNode params dealt node with
  | error e' => simp [bind, Except.bind]
  | ok r =>
    obtain ⟨front, mid⟩ := r
    have hmid : (∃ front' dealt', (Except.ok (front, mid) : Except RenderError _) = .ok (front', dealt') ∧
        renderNodes params dealt' nodes = .error e) ↔ renderNodes params mid nodes = .error e := by
      constructor
      · rintro ⟨_, _, ⟨⟩, h⟩
        exact h
      · exact fun h => ⟨front, mid, rfl, h⟩
    rw [hmid]
    cases hnodes : renderNodes params mid nodes with
    | error e' => simp [bind, Except.bind, hnodes]
    | ok r => simp [bind, Except.bind, pure, Except.pure, hnodes]

theorem take_eq_error_iff :
    dealt.take params name = .error e ↔ dealt.next? params name = none ∧ e = dealt.shortage name := by
  unfold Dealt.take
  cases dealt.next? params name with
  | none => simp [eq_comm]
  | some value => simp

/-- Filling in fails behind these names, at a name without a value. -/
structure FailsAt (params : Params) (dealt : Dealt) (all names : List Text) (name : Text) (dealt' : Dealt) :
    Prop where
  sublist : (names ++ [name]).Sublist all
  serves : Serves params dealt names dealt'
  next?_eq : dealt'.next? params name = none

/-- An error is about a name of the pattern, behind names for which values were dealt. -/
theorem exists_failsAt (nodes : List Node) (dealt : Dealt) (h : renderNodes params dealt nodes = .error e) :
    ∃ names name dealt', FailsAt params dealt (captureNames nodes) names name dealt' ∧
      (nodes.all isRequired = true → names ++ [name] <+: captureNames nodes) ∧
      e = dealt'.shortage name := by
  match nodes with
  | [] => cases h
  | node :: nodes =>
    have hcapture (name : Text) (hname : node.captureName? = some name)
        (hnode : renderNode params dealt node = .error e) :
        ∃ names name dealt', FailsAt params dealt (captureNames (node :: nodes)) names name dealt' ∧
          ((node :: nodes).all isRequired = true → names ++ [name] <+: captureNames (node :: nodes)) ∧
          e = dealt'.shortage name := by
      rw [renderNode_capture hname] at hnode
      obtain ⟨hnone, rfl⟩ := take_eq_error_iff.mp hnode
      rw [captureNames_cons hname]
      refine ⟨[], name, dealt, ⟨?_, .nil params dealt, hnone⟩, fun _ => ?_, rfl⟩
      · exact (List.nil_sublist _).cons_cons name
      · exact (List.prefix_append [name] _)
    rcases renderNodes_cons_error_iff.mp h with hnode | ⟨front, mid, hnode, hnodes⟩
    · cases node with
      | text t => cases hnode
      | named name => exact hcapture name rfl hnode
      | wildcard => exact hcapture wildcardName rfl hnode
      | namedWildcard name => exact hcapture name rfl hnode
      | optional children =>
        rw [renderNode] at hnode
        split at hnode
        · obtain ⟨names, name, dealt', hfails, _, rfl⟩ := exists_failsAt children dealt hnode
          refine ⟨names, name, dealt', ⟨?_, hfails.serves, hfails.next?_eq⟩, fun hrequired => ?_, rfl⟩
          · exact hfails.sublist.trans (List.sublist_append_left _ _)
          · cases hrequired
        · cases hnode
    · -- the node by itself is filled in, and the rest stops
      obtain ⟨pieces, hpieces, _⟩ := fills_of_renderNodes [node] dealt mid _ (renderNodes_cons hnode rfl)
      obtain ⟨names, name, dealt', hfails, hfront, rfl⟩ := exists_failsAt nodes mid hnodes
      have hnames : captureNames (node :: nodes) = captureNames [node] ++ captureNames nodes := by
        rw [captureNames, captureNames, captureNames, List.append_nil]
      rw [hnames]
      refine ⟨namesIn pieces ++ names, name, dealt',
        ⟨?_, hpieces.serves.append hfails.serves, hfails.next?_eq⟩, fun hrequired => ?_, rfl⟩
      · rw [List.append_assoc]
        exact hpieces.sublist.append hfails.sublist
      · obtain ⟨hnode', hnodes'⟩ := Bool.and_eq_true_iff.mp hrequired
        rw [List.append_assoc, hpieces.namesIn_eq (by simpa using hnode'), List.prefix_append_right_inj]
        exact hfront hnodes'

/-! ## The first name without a value -/

/-- There is no value left for the occurrence at `i`, and there is one for each occurrence before it. -/
structure FirstShort (params : Params) (names : List Text) (i : Nat) (name : Text) : Prop where
  getElem?_eq : names[i]? = some name
  short : (params.values name).length ≤ (names.take i).count name
  first : ∀ j < i, ∀ other, names[j]? = some other →
    (names.take j).count other < (params.values other).length

theorem FirstShort.unique {i j : Nat} {other : Text} (h : FirstShort params names i name)
    (h' : FirstShort params names j other) : name = other := by
  rcases Nat.lt_trichotomy i j with hlt | rfl | hlt
  · exact absurd h.short (Nat.not_le.mpr (h'.first i hlt name h.getElem?_eq))
  · exact Option.some.inj (h.getElem?_eq.symm.trans h'.getElem?_eq)
  · exact absurd h'.short (Nat.not_le.mpr (h.first j hlt other h'.getElem?_eq))

theorem count_take_lt {i : Nat} (h : names[i]? = some name) : (names.take i).count name < names.count name := by
  have hsub := (List.take_sublist (i + 1) names).count_le name
  rw [List.take_add_one, h, List.count_append] at hsub
  exact Nat.lt_of_succ_le (by simpa using hsub)

/-- A pattern without optional segments stops at the first name without a value. -/
theorem FailsAt.firstShort (h : FailsAt params [] names names' name dealt)
    (hfront : names' ++ [name] <+: names) : FirstShort params names names'.length name := by
  obtain ⟨behind, rfl⟩ := hfront
  rw [List.append_assoc]
  refine ⟨?_, ?_, fun j hj other hother => ?_⟩
  · simp
  · rw [List.take_left, ← h.serves.count_eq]
    exact Dealt.next?_eq_none_iff.mp h.next?_eq
  · rw [List.getElem?_append_left hj] at hother
    rw [List.take_append_of_le_length (Nat.le_of_lt hj)]
    exact Nat.lt_of_lt_of_le (count_take_lt hother) (h.serves.count_le other)

/-- Which of the two errors it is depends on whether the name has values. -/
theorem FailsAt.shortage_eq (h : FailsAt params [] names names' name dealt) :
    dealt.shortage name =
      if params.values name = [] then .missingValue name else .tooFewValues name := by
  have hle := Dealt.next?_eq_none_iff.mp h.next?_eq
  have hge := h.serves.count_le name
  rw [← h.serves.count_eq] at hge
  have hiff : dealt.count name = 0 ↔ params.values name = [] := by
    rw [← List.length_eq_zero_iff]
    omega
  simp only [Dealt.shortage, hiff]

theorem render_eq_error_iff :
    render nodes params = .error e ↔ renderNodes params [] nodes = .error e := by
  unfold render
  cases renderNodes params [] nodes with
  | error e' => simp [Except.map]
  | ok r => simp [Except.map]

/-- Without optional segments there have to be values for all occurrences. -/
theorem render_isOk_iff (hrequired : nodes.all isRequired = true) :
    (∃ s, render nodes params = .ok s) ↔
      ∀ name, (captureNames nodes).count name ≤ (params.values name).length := by
  constructor
  · rintro ⟨s, hs⟩ name
    obtain ⟨pieces, dealt, hf, _⟩ := render_eq_ok_iff.mp hs
    rw [← hf.namesIn_eq hrequired]
    exact hf.serves.count_le name
  · intro h
    have hcovers : Covers params [] (captureNames nodes) := by
      intro name
      rw [List.count_nil, Nat.zero_add]
      exact h name
    obtain ⟨pieces, dealt, hf, _⟩ := exists_fills params nodes [] hcovers
    exact ⟨_, render_eq_ok_iff.mpr ⟨pieces, dealt, hf, rfl⟩⟩

/-- Without optional segments the error is about the first name without a value. -/
theorem firstShort_of_render (hrequired : nodes.all isRequired = true)
    (h : render nodes params = .error e) :
    ∃ i name, FirstShort params (captureNames nodes) i name ∧
      e = if params.values name = [] then .missingValue name else .tooFewValues name := by
  obtain ⟨names, name, dealt, hfails, hfront, rfl⟩ := exists_failsAt nodes [] (render_eq_error_iff.mp h)
  exact ⟨names.length, name, hfails.firstShort (hfront hrequired), hfails.shortage_eq⟩

theorem render_of_firstShort {i : Nat} (hrequired : nodes.all isRequired = true)
    (h : FirstShort params (captureNames nodes) i name) :
    render nodes params =
      .error (if params.values name = [] then .missingValue name else .tooFewValues name) := by
  cases hr : render nodes params with
  | ok s =>
    have hle := (render_isOk_iff hrequired).mp ⟨s, hr⟩ name
    have hlt := count_take_lt h.getElem?_eq
    have hshort := h.short
    omega
  | error e =>
    obtain ⟨j, other, hother, rfl⟩ := firstShort_of_render hrequired hr
    rw [h.unique hother]

/-! ## The errors -/

/-- **The errors of filling in.** A missing value is that of a name that occurs and has none at all; there are
too few values if there are some, but fewer than the name has occurrences. Without optional segments there is
an error just if some name has fewer values than occurrences, and it is about the first occurrence without
a value. -/
theorem render_error (nodes : List Node) (params : Params) :
    (∀ name, render nodes params = .error (.missingValue name) →
      name ∈ captureNames nodes ∧
        (params.get? name = none ∨ params.get? name = some (.multiple []))) ∧
    (∀ name, render nodes params = .error (.tooFewValues name) →
      ∃ k, 1 ≤ k ∧ (params.values name).length = k ∧ k < (captureNames nodes).count name) ∧
    (nodes.all isRequired = true →
      ((∃ s, render nodes params = .ok s) ↔
        ∀ name ∈ captureNames nodes,
          (captureNames nodes).count name ≤ (params.values name).length) ∧
      ∀ e, render nodes params = .error e ↔
        ∃ i name, FirstShort params (captureNames nodes) i name ∧
          e = if params.values name = [] then .missingValue name else .tooFewValues name) := by
  refine ⟨fun name h => ?_, fun name h => ?_, fun hrequired => ⟨?_, fun e => ⟨?_, ?_⟩⟩⟩
  · obtain ⟨names, other, dealt, hfails, _, he⟩ := exists_failsAt nodes [] (render_eq_error_iff.mp h)
    rw [hfails.shortage_eq] at he
    split at he
    · next hnil =>
      cases he
      exact ⟨hfails.sublist.subset (by simp), Params.values_eq_nil_iff.mp hnil⟩
    · cases he
  · obtain ⟨names, other, dealt, hfails, _, he⟩ := exists_failsAt nodes [] (render_eq_error_iff.mp h)
    rw [hfails.shortage_eq] at he
    split at he
    · cases he
    · next hne =>
      cases he
      have hle := Dealt.next?_eq_none_iff.mp hfails.next?_eq
      have hcount := hfails.sublist.count_le name
      rw [hfails.serves.count_eq] at hle
      rw [List.count_append, List.count_singleton_self] at hcount
      exact ⟨_, List.length_pos_iff.mpr hne, rfl, by omega⟩
  · rw [render_isOk_iff hrequired]
    refine ⟨fun h name _ => h name, fun h name => ?_⟩
    by_cases hname : name ∈ captureNames nodes
    · exact h name hname
    · rw [List.count_eq_zero_of_not_mem hname]
      exact Nat.zero_le _
  · exact firstShort_of_render hrequired
  · rintro ⟨i, name, hshort, rfl⟩
    exact render_of_firstShort hrequired hshort

/-- A name that is missing in a segment that is written for another one, and a name that has one value for
two occurrences. -/
theorem render_error_nested :
    render [.named ['a'], .optional [.named ['b'], .optional [.text ['-']], .named ['c']]]
        ⟨[(['a'], .single ['x']), (['b'], .single ['y'])]⟩ = .error (.missingValue ['c']) ∧
      ['c'] ∈ captureNames [.named ['a'], .optional [.named ['b'], .optional [.text ['-']], .named ['c']]] ∧
      render [.named ['a'], .wildcard, .named ['a']]
        ⟨[(['a'], .single ['x']), (wildcardName, .single ['y'])]⟩ = .error (.tooFewValues ['a']) ∧
      (∃ k, 1 ≤ k ∧
        (Params.values ⟨[(['a'], .single ['x']), (wildcardName, .single ['y'])]⟩ ['a']).length = k ∧
        k < (captureNames [.named ['a'], .wildcard, .named ['a']]).count ['a']) ∧
      ∃ i name, FirstShort ⟨[(['a'], .single ['x']), (wildcardName, .single ['y'])]⟩
        (captureNames [.named ['a'], .wildcard, .named ['a']]) i name := by
  have hmissing : render
      [.named ['a'], .optional [.named ['b'], .optional [.text ['-']], .named ['c']]]
      ⟨[(['a'], .single ['x']), (['b'], .single ['y'])]⟩ = .error (.missingValue ['c']) := rfl
  have hfew : render [.named ['a'], .wildcard, .named ['a']]
      ⟨[(['a'], .single ['x']), (wildcardName, .single ['y'])]⟩ = .error (.tooFewValues ['a']) := rfl
  obtain ⟨hmem, _⟩ := (render_error _ _).1 _ hmissing
  obtain ⟨_, htoofew, hrequired⟩ := render_error [.named ['a'], .wildcard, .named ['a']]
    ⟨[(['a'], .single ['x']), (wildcardName, .single ['y'])]⟩
  obtain ⟨i, name, hshort, _⟩ := ((hrequired rfl).2 _).mp hfew
  exact ⟨hmissing, hmem, hfew, htoofew _ hfew, i, name, hshort⟩

end Node

end RoutePattern
