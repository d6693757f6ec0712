import RoutePattern.Proofs.Pattern.Dealing

/-!
# What values are needed

Filling in deals the values of a name one after another, so what becomes of a pattern depends on how many
values there are for the names in it.

If each name has a value for each of its occurrences, filling in succeeds: all names are written, and the
only segments that are left out are those in which nothing captures. Values behind these cannot be reached,
since no more values of a name are dealt, and none is looked at, than the name has occurrences. A segment
that is written uses up a value or fails, because the value for which it was opened is still there where
the name of that value is to be written, unless another one was dealt in front of it.

## Main definitions

* `Node.entriesIn` — the names that are written, with their values.
* `Node.keptIn` — what is written of a pattern if there are enough values (`Node.render_of_enough`).
* `Node.Agree` — two supplies of values that are the same as far as they can be reached
  (`Node.render_congr`).
* `Node.renderNode_optional_uses` — what a segment does to the supply.
-/

namespace RoutePattern.Node

variable {params params' : Params} {dealt dealt' : Dealt} {node : Node} {nodes children : List Node}
  {pieces : List (Node × Text)} {names names' : List Text} {name : Text}

/-! ## Values by occurrence -/

/-- The names of pieces, with the values that were written for them. -/
def entriesIn (pieces : List (Node × Text)) : List (Text × Text) :=
  pieces.filterMap fun piece => piece.1.captureName?.map (·, piece.2)

theorem entriesIn_capture (h : node.captureName? = some name) (value : Text) (pieces : List (Node × Text)) :
    entriesIn ((node, value) :: pieces) = (name, value) :: entriesIn pieces := by
  simp [entriesIn, h]

theorem entriesIn_append (pieces pieces' : List (Node × Text)) :
    entriesIn (pieces ++ pieces') = entriesIn pieces ++ entriesIn pieces' :=
  List.filterMap_append

theorem map_fst_entriesIn (pieces : List (Node × Text)) : (entriesIn pieces).map Prod.fst = namesIn pieces := by
  simp [entriesIn, namesIn, List.map_filterMap, List.filterMap_map, Function.comp_def]

theorem length_entriesIn (pieces : List (Node × Text)) : (entriesIn pieces).length = (namesIn pieces).length := by
  rw [← map_fst_entriesIn, List.length_map]

/-- **The value of an occurrence** is the one behind those that have been dealt to the name until then. -/
theorem Fills.getElem?_values (h : Fills params dealt nodes pieces dealt') {i : Nat} {value : Text}
    (hi : (entriesIn pieces)[i]? = some (name, value)) :
    (params.values name)[dealt.count name + ((namesIn pieces).take i).count name]? = some value := by
  induction h generalizing i with
  | nil => simp [entriesIn] at hi
  | text t _ ih => exact ih hi
  | @capture dealt _ node _ pieces other value' hname hvalue _ ih =>
    rw [entriesIn_capture hname] at hi
    rw [namesIn_capture hname]
    cases i with
    | zero =>
      cases hi
      rw [Dealt.next?_eq] at hvalue
      exact hvalue
    | succ i =>
      have hrest := ih hi
      rw [List.count_cons, Nat.add_assoc, Nat.add_comm (ite _ _ _)] at hrest
      rw [List.take_succ_cons, List.count_cons]
      exact hrest
  | @present dealt mid _ _ _ inner pieces _ hc _ ihc ih =>
    rw [entriesIn_append, List.getElem?_append] at hi
    rw [namesIn_append, List.take_append, List.count_append]
    split at hi
    · next hlt =>
      rw [length_entriesIn] at hlt
      rw [Nat.sub_eq_zero_of_le (Nat.le_of_lt hlt), List.take_zero, List.count_nil, Nat.add_zero]
      exact ihc hi
    · next hge =>
      rw [length_entriesIn] at hi hge
      have hrest := ih hi
      rw [hc.serves.advances, Nat.add_assoc] at hrest
      rw [List.take_of_length_le (Nat.le_of_not_lt hge)]
      exact hrest
  | absent _ _ ih => exact ih hi

/-! ## Enough values -/

mutual

/-- The texts and the capturing nodes of a node, but not of segments in which nothing captures. -/
def kept : Node → List Node
  | .text t => [.text t]
  | .named name => [.named name]
  | .wildcard => [.wildcard]
  | .namedWildcard name => [.namedWildcard name]
  | .optional children => if captureNames children = [] then [] else keptIn children

/-- The texts and the capturing nodes of nodes, but not of segments in which nothing captures. -/
def keptIn : List Node → List Node
  | [] => []
  | node :: nodes => node.kept ++ keptIn nodes

end

theorem keptIn_capture (h : node.captureName? = some name) (nodes : List Node) :
    keptIn (node :: nodes) = node :: keptIn nodes := by
  cases node <;> cases h <;> rfl

/-- **With enough values, all names are written**, and of the pattern all that is not in a segment in which
nothing captures. -/
theorem Fills.eq_of_covers (h : Fills params dealt nodes pieces dealt')
    (hcovers : Covers params dealt (captureNames nodes)) :
    namesIn pieces = captureNames nodes ∧ pieces.map Prod.fst = keptIn nodes := by
  induction h with
  | nil => exact ⟨rfl, rfl⟩
  | text t _ ih =>
    obtain ⟨hnames, hkept⟩ := ih hcovers
    exact ⟨hnames, congrArg (Node.text t :: ·) hkept⟩
  | @capture dealt _ _ _ _ name _ hname _ _ ih =>
    rw [captureNames_cons hname, ← List.singleton_append] at hcovers
    obtain ⟨hnames, hkept⟩ := ih (hcovers.behind (.cons dealt name))
    rw [captureNames_cons hname, namesIn_capture hname, hnames, keptIn_capture hname, List.map_cons, hkept]
    exact ⟨rfl, rfl⟩
  | @present _ _ _ children nodes _ _ hvalue hc _ ihc ih =>
    have hcovers : Covers params _ (captureNames children ++ captureNames nodes) := hcovers
    obtain ⟨hnamesc, hkeptc⟩ := ihc hcovers.left
    have hadvances := hc.serves.advances
    rw [hnamesc] at hadvances
    obtain ⟨hnames, hkept⟩ := ih (hcovers.behind hadvances)
    rw [namesIn_append, List.map_append, hnamesc, hnames, hkeptc, hkept, keptIn, kept,
      if_neg (hcovers.left.hasValue_iff.mp hvalue)]
    exact ⟨rfl, rfl⟩
  | @absent _ _ children nodes _ hvalue _ ih =>
    have hcovers : Covers params _ (captureNames children ++ captureNames nodes) := hcovers
    have hnil : captureNames children = [] := by
      refine Classical.not_not.mp fun hne => ?_
      rw [hcovers.left.hasValue_iff.mpr hne] at hvalue
      cases hvalue
    rw [hnil] at hcovers
    obtain ⟨hnames, hkept⟩ := ih hcovers
    rw [keptIn, kept, if_pos hnil, captureNames, Node.names, hnil]
    exact ⟨hnames, hkept⟩

/-- Only the names of the pattern need values. -/
theorem covers_of_forall_mem (h : ∀ name ∈ names, names.count name ≤ (params.values name).length) :
    Covers params [] names := by
  intro name
  rw [List.count_nil, Nat.zero_add]
  by_cases hname : name ∈ names
  · exact h name hname
  · rw [List.count_eq_zero_of_not_mem hname]
    exact Nat.zero_le _

/-- **Enough values suffice.** If each name of a pattern has a value for each of its occurrences, filling in
succeeds. All that is written are the texts and the values of the capturing nodes, in the order of the
pattern, except for what is in a segment in which nothing captures. The names that are written are all names
of the pattern, and an occurrence gets the value that has as many values of the name in front of it as the
name has occurrences in front of this one. -/
theorem render_of_enough
    (h : ∀ name ∈ captureNames nodes, (captureNames nodes).count name ≤ (params.values name).length) :
    ∃ pieces, render nodes params = .ok (written pieces) ∧
      pieces.map Prod.fst = keptIn nodes ∧
      (∀ t u, (Node.text t, u) ∈ pieces → u = t) ∧
      ∀ i name, (captureNames nodes)[i]? = some name →
        ∃ value, (params.values name)[((captureNames nodes).take i).count name]? = some value ∧
          (entriesIn pieces)[i]? = some (name, value) := by
  have hcovers := covers_of_forall_mem h
  obtain ⟨pieces, dealt, hf, _⟩ := exists_fills params nodes [] hcovers
  obtain ⟨hnames, hkept⟩ := hf.eq_of_covers hcovers
  refine ⟨pieces, render_eq_ok_iff.mpr ⟨pieces, dealt, hf, rfl⟩, hkept, fun t u => hf.eq_of_text, ?_⟩
  intro i name hi
  rw [← hnames, ← map_fst_entriesIn, List.getElem?_map, Option.map_eq_some_iff] at hi
  obtain ⟨⟨_, value⟩, hentry, rfl⟩ := hi
  have hvalue := hf.getElem?_values hentry
  rw [List.count_nil, Nat.zero_add, hnames] at hvalue
  exact ⟨value, hvalue, hentry⟩

/-- A name that occurs again in a segment, next to a segment in which nothing captures, and a value more than it
needs. -/
theorem render_of_enough_nested :
    (∀ name ∈ captureNames [.named ['a'], .optional [.text ['-'], .optional [.text ['!']], .named ['a']]],
      (captureNames [.named ['a'], .optional [.text ['-'], .optional [.text ['!']], .named ['a']]]).count name ≤
        (Params.values ⟨[(['a'], .multiple [['x'], ['y'], ['z']])]⟩ name).length) ∧
      ∃ pieces,
        render [.named ['a'], .optional [.text ['-'], .optional [.text ['!']], .named ['a']]]
          ⟨[(['a'], .multiple [['x'], ['y'], ['z']])]⟩ = .ok (written pieces) ∧
        pieces.map Prod.fst = [.named ['a'], .text ['-'], .named ['a']] ∧
        (entriesIn pieces)[1]? = some (['a'], ['y']) := by
  have h : ∀ name ∈ captureNames [.named ['a'], .optional [.text ['-'], .optional [.text ['!']], .named ['a']]],
      (captureNames [.named ['a'], .optional [.text ['-'], .optional [.text ['!']], .named ['a']]]).count name ≤
        (Params.values ⟨[(['a'], .multiple [['x'], ['y'], ['z']])]⟩ name).length := by decide
  obtain ⟨pieces, hrender, hkept, _, hentries⟩ := render_of_enough h
  obtain ⟨value, hvalue, hentry⟩ := hentries 1 ['a'] rfl
  cases hvalue
  exact ⟨h, pieces, hrender, hkept, hentry⟩

/-! ## Values that cannot be reached -/

/-- Two supplies have the same next values for these names, as many of each as the name has occurrences. -/
def Agree (params params' : Params) (dealt : Dealt) (names : List Text) : Prop :=
  ∀ name i, dealt.count name ≤ i → i < dealt.count name + names.count name →
    (params.values name)[i]? = (params'.values name)[i]?

theorem Agree.left (h : Agree params params' dealt (names ++ names')) : Agree params params' dealt names := by
  intro name i hle hlt
  refine h name i hle ?_
  rw [List.count_append]
  omega

/-- No more values are dealt than there are names in front. -/
theorem Agree.behind (h : Agree params params' dealt (names ++ names')) {served : List Text}
    (hserves : Serves params dealt served dealt') (hsub : served.Sublist names) :
    Agree params params' dealt' names' := by
  intro name i hle hlt
  have hcount := hsub.count_le name
  rw [hserves.advances] at hle hlt
  refine h name i (by omega) ?_
  rw [List.count_append]
  omega

theorem Agree.next?_eq (h : Agree params params' dealt names) (hname : name ∈ names) :
    dealt.next? params name = dealt.next? params' name := by
  have hpos : 0 < names.count name := List.count_pos_iff.mpr hname
  rw [Dealt.next?_eq, Dealt.next?_eq]
  exact h name _ (Nat.le_refl _) (Nat.lt_add_of_pos_right hpos)

theorem Agree.take_eq (h : Agree params params' dealt names) (hname : name ∈ names) :
    dealt.take params name = dealt.take params' name := by
  unfold Dealt.take
  rw [h.next?_eq hname]

theorem Agree.hasValue_eq (h : Agree params params' dealt (captureNames nodes)) :
    hasValue params dealt nodes = hasValue params' dealt nodes := by
  rw [Bool.eq_iff_iff, hasValue_iff_exists, hasValue_iff_exists]
  refine exists_congr fun name => and_congr_right fun hname => ?_
  rw [h.next?_eq hname]

/-- The names that have been dealt a value by one node are among its names. -/
theorem exists_serves {front : Text} (h : renderNode params dealt node = .ok (front, dealt')) :
    ∃ served, Serves params dealt served dealt' ∧ served.Sublist node.names := by
  obtain ⟨pieces, hf, _⟩ := fills_of_renderNodes [node] dealt dealt' _ (renderNodes_cons h rfl)
  have hsub := hf.sublist
  rw [captureNames, captureNames, List.append_nil] at hsub
  exact ⟨_, hf.serves, hsub⟩

mutual

theorem renderNode_congr (node : Node) (dealt : Dealt) (h : Agree params params' dealt node.names) :
    renderNode params dealt node = renderNode params' dealt node := by
  cases node with
  | text t => rfl
  | named name => exact h.take_eq List.mem_cons_self
  | wildcard => exact h.take_eq List.mem_cons_self
  | namedWildcard name => exact h.take_eq List.mem_cons_self
  | optional children =>
    have h : Agree params params' dealt (captureNames children) := h
    rw [renderNode, renderNode, h.hasValue_eq, renderNodes_congr children dealt h]

/-- **Filling in depends on the values that can be reached.** -/
theorem renderNodes_congr (nodes : List Node) (dealt : Dealt)
    (h : Agree params params' dealt (captureNames nodes)) :
    renderNodes params dealt nodes = renderNodes params' dealt nodes := by
  cases nodes with
  | nil => rfl
  | cons node nodes =>
    have hnode := renderNode_congr node dealt h.left
    rw [renderNodes, renderNodes, ← hnode]
    cases hr : renderNode params dealt node with
    | error e => rfl
    | ok r =>
      obtain ⟨front, mid⟩ := r
      obtain ⟨served, hserves, hsub⟩ := exists_serves hr
      show (renderNodes params mid nodes >>= _) = (renderNodes params' mid nodes >>= _)
      rw [renderNodes_congr nodes mid (h.behind hserves hsub)]

end

/-- **Only values that can be used matter.** If each name of a pattern has the same first values in two
supplies, as many of them as it has occurrences, then the same comes of filling in the pattern, be it a text
or an error. -/
theorem render_congr
    (h : ∀ name ∈ captureNames nodes,
      (params.values name).take ((captureNames nodes).count name) =
        (params'.values name).take ((captureNames nodes).count name)) :
    render nodes params = render nodes params' := by
  have hagree : Agree params params' [] (captureNames nodes) := by
    intro name i _ hlt
    rw [List.count_nil, Nat.zero_add] at hlt
    have hname : name ∈ captureNames nodes := List.count_pos_iff.mp (Nat.zero_lt_of_lt hlt)
    rw [← List.getElem?_take_of_lt hlt, h name hname, List.getElem?_take_of_lt hlt]
  rw [render, render, renderNodes_congr nodes [] hagree]

/-- A value by itself or in a list, a value that cannot be used, and one of a name that is not in the pattern:
either way there are too few values of the name that is written twice. -/
theorem render_congr_error :
    (∀ name ∈ captureNames [.named ['a'], .optional [.named ['a'], .named ['b']]],
      (Params.values ⟨[(['a'], .single ['x']), (['b'], .multiple [['y'], ['z']]), (['c'], .single ['u'])]⟩ name).take
          ((captureNames [.named ['a'], .optional [.named ['a'], .named ['b']]]).count name) =
        (Params.values ⟨[(['b'], .single ['y']), (['a'], .multiple [['x']])]⟩ name).take
          ((captureNames [.named ['a'], .optional [.named ['a'], .named ['b']]]).count name)) ∧
      render [.named ['a'], .optional [.named ['a'], .named ['b']]]
          ⟨[(['a'], .single ['x']), (['b'], .multiple [['y'], ['z']]), (['c'], .single ['u'])]⟩ =
        render [.named ['a'], .optional [.named ['a'], .named ['b']]]
          ⟨[(['b'], .single ['y']), (['a'], .multiple [['x']])]⟩ ∧
      render [.named ['a'], .optional [.named ['a'], .named ['b']]]
          ⟨[(['b'], .single ['y']), (['a'], .multiple [['x']])]⟩ = .error (.tooFewValues ['a']) := by
  have h : ∀ name ∈ captureNames [.named ['a'], .optional [.named ['a'], .named ['b']]],
      (Params.values ⟨[(['a'], .single ['x']), (['b'], .multiple [['y'], ['z']]), (['c'], .single ['u'])]⟩ name).take
          ((captureNames [.named ['a'], .optional [.named ['a'], .named ['b']]]).count name) =
        (Params.values ⟨[(['b'], .single ['y']), (['a'], .multiple [['x']])]⟩ name).take
          ((captureNames [.named ['a'], .optional [.named ['a'], .named ['b']]]).count name) := by decide
  exact ⟨h, render_congr h, rfl⟩

/-! ## Segments that use up values -/

/-- A value that is there for some name makes a name be written. It may be another one: what is written in
front of a name can use up its values, and then that has been written. -/
theorem Fills.namesIn_ne_nil (h : Fills params dealt nodes pieces dealt')
    (hvalue : hasValue params dealt nodes = true) : namesIn pieces ≠ [] := by
  induction h with
  | nil => cases hvalue
  | text t _ ih => exact ih hvalue
  | capture hname _ _ _ =>
    rw [namesIn_capture hname]
    exact List.cons_ne_nil _ _
  | present hchildren _ _ ihc _ =>
    rw [namesIn_append]
    exact List.append_ne_nil_of_left_ne_nil (ihc hchildren) _
  | absent hchildren _ ih =>
    rw [hasValue, nodeHasValue, hchildren, Bool.false_or] at hvalue
    exact ih hvalue

/-- The first value that is dealt is one that was there before. -/
theorem Fills.exists_next? (h : Fills params dealt nodes pieces dealt') (hne : namesIn pieces ≠ []) :
    ∃ name ∈ captureNames nodes, ∃ value, dealt.next? params name = some value ∧
      dealt.count name < dealt'.count name := by
  have hpos : 0 < (entriesIn pieces).length := by
    rw [length_entriesIn]
    exact List.length_pos_iff.mpr hne
  obtain ⟨⟨name, value⟩, hentry⟩ : ∃ entry, (entriesIn pieces)[0]? = some entry :=
    ⟨_, List.getElem?_eq_getElem hpos⟩
  have hname : name ∈ namesIn pieces := by
    rw [← map_fst_entriesIn]
    exact List.mem_map.mpr ⟨_, List.mem_of_getElem? hentry, rfl⟩
  have hvalue := h.getElem?_values hentry
  rw [List.take_zero, List.count_nil, Nat.add_zero, ← Dealt.next?_eq] at hvalue
  refine ⟨name, h.sublist.subset hname, value, hvalue, ?_⟩
  rw [h.serves.advances]
  exact Nat.lt_add_of_pos_right (List.count_pos_iff.mpr hname)

/-- An optional segment is passed over: nothing is written, and of no name a value is dealt. -/
def PassedOver (params : Params) (dealt : Dealt) (children : List Node) : Prop :=
  ∃ dealt', renderNode params dealt (.optional children) = .ok ([], dealt') ∧
    ∀ name, dealt'.count name = dealt.count name

theorem passedOver_iff : PassedOver params dealt children ↔ hasValue params dealt children = false := by
  constructor
  · rintro ⟨dealt', hrender, hcount⟩
    refine Bool.eq_false_iff.mpr fun hvalue => ?_
    rw [renderNode, if_pos hvalue] at hrender
    obtain ⟨pieces, hf, _⟩ := fills_of_renderNodes children dealt dealt' _ hrender
    obtain ⟨name, _, _, _, hlt⟩ := hf.exists_next? (hf.namesIn_ne_nil hvalue)
    rw [hcount] at hlt
    exact Nat.lt_irrefl _ hlt
  · intro hvalue
    refine ⟨dealt, ?_, fun _ => rfl⟩
    rw [renderNode, if_neg (Bool.eq_false_iff.mp hvalue)]

/-- **A segment writes nothing on its own account**, whatever has been dealt before and whatever is in it. It
is passed over just if no name in it has a value left. If it is not, filling it in fails or uses up a value
that was left for a name in it. -/
theorem renderNode_optional_uses (params : Params) (dealt : Dealt) (children : List Node) :
    (PassedOver params dealt children ↔
      ∀ name ∈ captureNames children, (params.values name).length ≤ dealt.count name) ∧
    (PassedOver params dealt children ∨
      (∃ e, renderNode params dealt (.optional children) = .error e) ∨
      ∃ s dealt', renderNode params dealt (.optional children) = .ok (s, dealt') ∧
        (∀ name, dealt.count name ≤ dealt'.count name) ∧
        ∃ name ∈ captureNames children, ∃ value, dealt.next? params name = some value ∧
          dealt.count name < dealt'.count name) := by
  constructor
  · rw [passedOver_iff, Bool.eq_false_iff, Ne, hasValue_eq_true_iff]
    simp only [not_exists, not_and, Nat.not_lt]
  cases hvalue : hasValue params dealt children with
  | false => exact .inl (passedOver_iff.mpr hvalue)
  | true =>
    refine .inr ?_
    cases hrender : renderNode params dealt (.optional children) with
    | error e => exact .inl ⟨e, rfl⟩
    | ok r =>
      obtain ⟨s, dealt'⟩ := r
      rw [renderNode, if_pos hvalue] at hrender
      obtain ⟨pieces, hf, _⟩ := fills_of_renderNodes children dealt dealt' s hrender
      refine .inr ⟨s, dealt', rfl, fun name => ?_, hf.exists_next? (hf.namesIn_ne_nil hvalue)⟩
      rw [hf.serves.advances]
      exact Nat.le_add_right _ _

end RoutePattern.Node
