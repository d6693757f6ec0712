import RoutePattern.Proofs.Pattern.Derivation
import RoutePattern.Proofs.Pattern.Values
import RoutePattern.Proofs.Result

/-!
# Filling in

What is written for a pattern, piece by piece. Each piece is written for one node, a text or one that
captures, and nodes in an optional segment that is left out have no piece.

The pieces of a name are the values that have been dealt to it, in order (`Node.Fills.take_values`), and
there is one for each occurrence if there are enough values (`Node.exists_fills`). If each piece is one
that its node may capture, the text is derived from the nodes (`Node.Fills.derives`).

## Main definitions

* `Node.Fills` — the pieces that are written (`Node.renderNodes_eq_ok_iff`).
* `Node.taken` — the pieces of a name.
* `Node.Covers`, `Node.Advances` — enough values for some names, and one dealt for each.
* `Node.Emits`, `Node.Admits` — a value that is written for a node, and one that it may capture.
-/

namespace RoutePattern.Node

variable {cls : CharClass} {params : Params} {dealt dealt' dealt'' : Dealt} {node : Node}
  {nodes children : List Node} {pieces pieces' : List (Node × Text)} {name s t : Text}

/-! ## Nodes that capture -/

theorem captureNames_cons (h : node.captureName? = some name) (nodes : List Node) :
    captureNames (node :: nodes) = name :: captureNames nodes := by
  cases node <;> cases h <;> rfl

theorem renderNode_capture (h : node.captureName? = some name) (params : Params) (dealt : Dealt) :
    renderNode params dealt node = dealt.take params name := by
  cases node <;> cases h <;> rfl

/-! ## Pieces -/

/-- The pieces that are written for nodes in order, and what has been dealt before and after them. -/
inductive Fills (params : Params) : Dealt → List Node → List (Node × Text) → Dealt → Prop
  | nil (dealt : Dealt) : Fills params dealt [] [] dealt
  | text {dealt dealt' : Dealt} {nodes : List Node} {pieces : List (Node × Text)} (t : Text)
      (h : Fills params dealt nodes pieces dealt') :
    Fills params dealt (.text t :: nodes) ((.text t, t) :: pieces) dealt'
  | capture {dealt dealt' : Dealt} {node : Node} {nodes : List Node} {pieces : List (Node × Text)}
      {name value : Text} (hname : node.captureName? = some name)
      (hvalue : dealt.next? params name = some value)
      (h : Fills params (name :: dealt) nodes pieces dealt') :
    Fills params dealt (node :: nodes) ((node, value) :: pieces) dealt'
  | present {dealt dealt' dealt'' : Dealt} {children nodes : List Node}
      {pieces pieces' : List (Node × Text)} (hvalue : hasValue params dealt children = true)
      (hc : Fills params dealt children pieces dealt') (h : Fills params dealt' nodes pieces' dealt'') :
    Fills params dealt (.optional children :: nodes) (pieces ++ pieces') dealt''
  | absent {dealt dealt' : Dealt} {children nodes : List Node} {pieces : List (Node × Text)}
      (hvalue : hasValue params dealt children = false) (h : Fills params dealt nodes pieces dealt') :
    Fills params dealt (.optional children :: nodes) pieces dealt'

/-- The text of pieces. -/
def written (pieces : List (Node × Text)) : Text := pieces.flatMap (·.2)

@[simp] theorem written_cons (node : Node) (t : Text) (pieces : List (Node × Text)) :
    written ((node, t) :: pieces) = t ++ written pieces := List.flatMap_cons

@[simp] theorem written_append (pieces pieces' : List (Node × Text)) :
    written (pieces ++ pieces') = written pieces ++ written pieces' := List.flatMap_append

/-! ## What is written -/

theorem renderNodes_cons_iff :
    renderNodes params dealt (node :: nodes) = .ok (s, dealt'') ↔
      ∃ front rest dealt', renderNode params dealt node = .ok (front, dealt') ∧
        renderNodes params dealt' nodes = .ok (rest, dealt'') ∧ s = front ++ rest := by
  rw [renderNodes]
  simp only [bind_eq_ok_iff, Prod.exists]
  constructor
  · rintro ⟨front, dealt', hnode, rest, after, hnodes, h⟩
    cases h
    exact ⟨front, rest, dealt', hnode, hnodes, rfl⟩
  · rintro ⟨front, rest, dealt', hnode, hnodes, rfl⟩
    exact ⟨front, dealt', hnode, rest, dealt'', hnodes, rfl⟩

theorem renderNodes_cons (h : renderNode params dealt node = .ok (t, dealt'))
    (h' : renderNodes params dealt' nodes = .ok (s, dealt'')) :
    renderNodes params dealt (node :: nodes) = .ok (t ++ s, dealt'') :=
  renderNodes_cons_iff.mpr ⟨t, s, dealt', h, h', rfl⟩

theorem take_eq_ok_iff :
    dealt.take params name = .ok (s, dealt') ↔
      dealt.next? params name = some s ∧ dealt' = name :: dealt := by
  unfold Dealt.take
  cases dealt.next? params name with
  | none => simp
  | some value => simp [eq_comm]

theorem Fills.renderNodes (h : Fills params dealt nodes pieces dealt') :
    renderNodes params dealt nodes = .ok (written pieces, dealt') := by
  induction h with
  | nil dealt => rfl
  | text t _ ih =>
    rw [written_cons]
    exact renderNodes_cons rfl ih
  | capture hname hvalue _ ih =>
    rw [written_cons]
    refine renderNodes_cons ?_ ih
    rw [renderNode_capture hname]
    exact take_eq_ok_iff.mpr ⟨hvalue, rfl⟩
  | present hvalue _ _ ihc ih =>
    rw [written_append]
    refine renderNodes_cons ?_ ih
    rw [renderNode, if_pos hvalue]
    exact ihc
  | absent hvalue _ ih =>
    refine renderNodes_cons (t := []) ?_ ih
    rw [renderNode, if_neg (Bool.eq_false_iff.mp hvalue)]

theorem fills_of_renderNodes (nodes : List Node) (dealt dealt' : Dealt) (s : Text)
    (h : renderNodes params dealt nodes = .ok (s, dealt')) :
    ∃ pieces, Fills params dealt nodes pieces dealt' ∧ s = written pieces := by
  match nodes with
  | [] =>
    cases h
    exact ⟨[], .nil dealt, rfl⟩
  | node :: nodes =>
    obtain ⟨front, rest, mid, hnode, hnodes, rfl⟩ := renderNodes_cons_iff.mp h
    obtain ⟨pieces, hpieces, rfl⟩ := fills_of_renderNodes nodes mid dealt' rest hnodes
    have hcapture (name : Text) (hname : node.captureName? = some name) :
        ∃ pieces', Fills params dealt (node :: nodes) pieces' dealt' ∧
          front ++ written pieces = written pieces' := by
      rw [renderNode_capture hname] at hnode
      obtain ⟨hvalue, rfl⟩ := take_eq_ok_iff.mp hnode
      exact ⟨_, .capture hname hvalue hpieces, (written_cons _ _ _).symm⟩
    cases node with
    | text t =>
      cases hnode
      exact ⟨_, .text _ hpieces, (written_cons _ _ _).symm⟩
    | named name => exact hcapture name rfl
    | wildcard => exact hcapture wildcardName rfl
    | namedWildcard name => exact hcapture name rfl
    | optional children =>
      rw [renderNode] at hnode
      split at hnode
      · next hvalue =>
        obtain ⟨inner, hinner, rfl⟩ := fills_of_renderNodes children dealt mid front hnode
        exact ⟨_, .present hvalue hinner hpieces, (written_append _ _).symm⟩
      · next hvalue =>
        cases hnode
        exact ⟨_, .absent (Bool.eq_false_iff.mpr hvalue) hpieces, rfl⟩

/-- **What is written** is the text of the pieces. -/
theorem renderNodes_eq_ok_iff :
    renderNodes params dealt nodes = .ok (s, dealt') ↔
      ∃ pieces, Fills params dealt nodes pieces dealt' ∧ s = written pieces := by
  constructor
  · exact fills_of_renderNodes nodes dealt dealt' s
  · rintro ⟨pieces, h, rfl⟩
    exact h.renderNodes

theorem render_eq_ok_iff :
    render nodes params = .ok s ↔
      ∃ pieces dealt', Fills params [] nodes pieces dealt' ∧ s = written pieces := by
  unfold render
  constructor
  · intro h
    cases hr : renderNodes params [] nodes with
    | error e =>
      rw [hr] at h
      cases h
    | ok r =>
      obtain ⟨t, dealt'⟩ := r
      rw [hr] at h
      cases h
      obtain ⟨pieces, hpieces, hs⟩ := renderNodes_eq_ok_iff.mp hr
      exact ⟨pieces, dealt', hpieces, hs⟩
  · rintro ⟨pieces, dealt', h, rfl⟩
    rw [h.renderNodes]
    rfl

/-! ## The values that are dealt -/

/-- The pieces of a name, in order. -/
def taken (name : Text) (pieces : List (Node × Text)) : List Text :=
  pieces.filterMap fun piece => if piece.1.captureName? = some name then some piece.2 else none

@[simp] theorem taken_nil (name : Text) : taken name [] = [] := rfl

theorem taken_text (name t : Text) (pieces : List (Node × Text)) :
    taken name ((.text t, t) :: pieces) = taken name pieces := rfl

theorem taken_capture (h : node.captureName? = some name) (other t : Text)
    (pieces : List (Node × Text)) :
    taken other ((node, t) :: pieces) = (if other = name then [t] else []) ++ taken other pieces := by
  by_cases hother : other = name
  · simp [taken, h, hother]
  · simp [taken, h, hother, Ne.symm hother]

theorem taken_append (name : Text) (pieces pieces' : List (Node × Text)) :
    taken name (pieces ++ pieces') = taken name pieces ++ taken name pieces' :=
  List.filterMap_append

/-- **The values of a name are dealt in order**: its pieces are the values behind those that have been
dealt before. -/
theorem Fills.take_values (h : Fills params dealt nodes pieces dealt') (name : Text) :
    (params.values name).take (dealt'.count name) =
      (params.values name).take (dealt.count name) ++ taken name pieces := by
  induction h with
  | nil dealt => rw [taken_nil, List.append_nil]
  | text t _ ih =>
    rw [taken_text]
    exact ih
  | @capture dealt _ _ _ _ other value hname hvalue _ ih =>
    rw [ih, taken_capture hname, ← List.append_assoc]
    congr 1
    by_cases hother : name = other
    · subst hother
      rw [Dealt.next?_eq] at hvalue
      rw [List.count_cons_self, List.take_add_one, hvalue, if_pos rfl]
      rfl
    · rw [List.count_cons_of_ne (Ne.symm hother), if_neg hother, List.append_nil]
  | present _ _ _ ihc ih => rw [ih, ihc, taken_append, List.append_assoc]
  | absent _ _ ih => exact ih

/-! ## Enough values -/

/-- Each name still has as many values as it has occurrences among these names. -/
def Covers (params : Params) (dealt : Dealt) (names : List Text) : Prop :=
  ∀ name, dealt.count name + names.count name ≤ (params.values name).length

/-- A value has been dealt for each of these names. -/
def Advances (dealt : Dealt) (names : List Text) (dealt' : Dealt) : Prop :=
  ∀ name, dealt'.count name = dealt.count name + names.count name

section Covers

variable {names names' : List Text}

theorem Covers.left (h : Covers params dealt (names ++ names')) : Covers params dealt names := by
  intro name
  have hle := h name
  rw [List.count_append] at hle
  omega

theorem Covers.behind (h : Covers params dealt (names ++ names')) (hd : Advances dealt names dealt') :
    Covers params dealt' names' := by
  intro name
  have hle := h name
  rw [List.count_append] at hle
  rw [hd name]
  omega

theorem Covers.exists_value (h : Covers params dealt names) (hname : name ∈ names) :
    ∃ value, dealt.next? params name = some value := by
  have hlt : dealt.count name < (params.values name).length := by
    have hle := h name
    have hpos : 0 < names.count name := List.count_pos_iff.mpr hname
    omega
  rw [Dealt.next?_eq, List.getElem?_eq_getElem hlt]
  exact ⟨_, rfl⟩

theorem Advances.nil (dealt : Dealt) : Advances dealt [] dealt := fun _ => rfl

theorem Advances.cons (dealt : Dealt) (name : Text) : Advances dealt [name] (name :: dealt) := by
  intro other
  rw [List.count_cons, List.count_singleton]

theorem Advances.append (h : Advances dealt names dealt') (h' : Advances dealt' names' dealt'') :
    Advances dealt (names ++ names') dealt'' := by
  intro name
  rw [h' name, h name, List.count_append, Nat.add_assoc]

end Covers

/-- A segment with enough values is written if a name is in it. -/
theorem Covers.hasValue_iff (h : Covers params dealt (captureNames children)) :
    hasValue params dealt children = true ↔ captureNames children ≠ [] := by
  rw [hasValue_iff_exists]
  constructor
  · rintro ⟨name, hname, _⟩
    exact List.ne_nil_of_mem hname
  · intro hne
    obtain ⟨name, hname⟩ := List.exists_mem_of_ne_nil _ hne
    obtain ⟨value, hvalue⟩ := h.exists_value hname
    exact ⟨name, hname, by rw [hvalue]; rfl⟩

mutual

theorem exists_fills_cons (params : Params) (node : Node) (dealt : Dealt)
    (h : Covers params dealt node.names) :
    ∃ pieces dealt', Advances dealt node.names dealt' ∧
      ∀ {nodes pieces' dealt''}, Fills params dealt' nodes pieces' dealt'' →
        Fills params dealt (node :: nodes) (pieces ++ pieces') dealt'' :=
  have hcapture {node : Node} {name : Text} (hname : node.captureName? = some name)
      (h : Covers params dealt [name]) :
      ∃ pieces dealt', Advances dealt [name] dealt' ∧
        ∀ {nodes pieces' dealt''}, Fills params dealt' nodes pieces' dealt'' →
          Fills params dealt (node :: nodes) (pieces ++ pieces') dealt'' := by
    obtain ⟨value, hvalue⟩ := h.exists_value List.mem_cons_self
    exact ⟨[(node, value)], _, .cons dealt name, fun hf => .capture hname hvalue hf⟩
  match node with
  | .text t => ⟨[(.text t, t)], dealt, .nil dealt, fun hf => .text t hf⟩
  | .named _ => hcapture rfl h
  | .wildcard => hcapture rfl h
  | .namedWildcard _ => hcapture rfl h
  | .optional children => by
    by_cases hvalue : hasValue params dealt children = true
    · obtain ⟨inner, dealt', hinner, hadvances⟩ := exists_fills params children dealt h
      exact ⟨inner, dealt', hadvances, fun hf => .present hvalue hinner hf⟩
    · have hnil : captureNames children = [] :=
        Classical.not_not.mp (mt (Covers.hasValue_iff h).mpr hvalue)
      refine ⟨[], dealt, ?_, fun hf => .absent (Bool.eq_false_iff.mpr hvalue) hf⟩
      show Advances dealt (captureNames children) dealt
      rw [hnil]
      exact .nil dealt

/-- **Enough values suffice**: a value is dealt for each occurrence of each name. -/
theorem exists_fills (params : Params) (nodes : List Node) (dealt : Dealt)
    (h : Covers params dealt (captureNames nodes)) :
    ∃ pieces dealt', Fills params dealt nodes pieces dealt' ∧
      Advances dealt (captureNames nodes) dealt' :=
  match nodes with
  | [] => ⟨[], dealt, .nil dealt, .nil dealt⟩
  | node :: nodes => by
    rw [captureNames] at h ⊢
    obtain ⟨pieces, dealt', hadvances, hfills⟩ := exists_fills_cons params node dealt h.left
    obtain ⟨pieces', dealt'', hf, hadvances'⟩ := exists_fills params nodes dealt' (h.behind hadvances)
    exact ⟨_, dealt'', hfills hf, hadvances.append hadvances'⟩

end

/-- The pieces of a name are its first values, one for each occurrence. -/
theorem exists_fills_take (h : Covers params [] (captureNames nodes)) :
    ∃ pieces dealt', Fills params [] nodes pieces dealt' ∧
      ∀ name, taken name pieces = (params.values name).take ((captureNames nodes).count name) := by
  obtain ⟨pieces, dealt', hf, hadvances⟩ := exists_fills params nodes [] h
  refine ⟨pieces, dealt', hf, fun name => ?_⟩
  have htake := hf.take_values name
  rw [hadvances, List.count_nil, Nat.zero_add, List.take_zero, List.nil_append] at htake
  exact htake.symm

/-! ## What the pieces stand for -/

/-- May the node capture the value? Nothing is asked of nodes that capture nothing. -/
def Admits (cls : CharClass) : Node → Text → Prop
  | .text _, _ => True
  | .named _, v => v ≠ [] ∧ ∀ c ∈ v, cls.mem c = true
  | .wildcard, v => '\n' ∉ v
  | .namedWildcard _, v => '\n' ∉ v
  | .optional _, _ => True

/-- A value is written for a node. -/
def Emits (params : Params) (nodes : List Node) (node : Node) (value : Text) : Prop :=
  ∃ pieces dealt', Fills params [] nodes pieces dealt' ∧ (node, value) ∈ pieces

/-- A value that is written is one of the values of the name. -/
theorem Emits.mem_values {value : Text} (h : Emits params nodes node value)
    (hname : node.captureName? = some name) : value ∈ params.values name := by
  obtain ⟨pieces, dealt', hf, hpiece⟩ := h
  have htaken : value ∈ taken name pieces := by
    refine List.mem_filterMap.mpr ⟨(node, value), hpiece, ?_⟩
    rw [if_pos hname]
  have htake := hf.take_values name
  rw [List.count_nil, List.take_zero, List.nil_append] at htake
  rw [← htake] at htaken
  exact List.mem_of_mem_take htaken

theorem Derives.capture {choices : List Choice} {groups : List (Option Text)} {v : Text}
    (hname : node.captureName? = some name) (hv : node.Admits cls v)
    (h : Derives cls nodes choices s groups) :
    ∃ choice, Derives cls (node :: nodes) (choice :: choices) (v ++ s) (some v :: groups) := by
  cases node with
  | text t => cases hname
  | named name => exact ⟨_, .named name hv.1 hv.2 h⟩
  | wildcard => exact ⟨_, .wildcard hv h⟩
  | namedWildcard name => exact ⟨_, .namedWildcard name hv h⟩
  | optional children => cases hname

theorem zip_optional {held : List (Option Text)} (children nodes : List Node)
    (h : held.length = (captureNames children).length) (groups : List (Option Text)) :
    (captureNames (.optional children :: nodes)).zip (held ++ groups) =
      (captureNames children).zip held ++ (captureNames nodes).zip groups := by
  rw [captureNames, names, List.zip_append h.symm]

/-- **What is written is derived** from the nodes, with the pieces as what the groups of a name hold. -/
theorem Fills.derives (h : Fills params dealt nodes pieces dealt')
    (hadmits : ∀ piece ∈ pieces, piece.1.Admits cls piece.2) :
    ∃ choices groups, Derives cls nodes choices (written pieces) groups ∧
      ∀ name, Params.held name ((captureNames nodes).zip groups) = taken name pieces := by
  induction h with
  | nil dealt => exact ⟨[], [], .nil, fun _ => rfl⟩
  | text t _ ih =>
    obtain ⟨choices, groups, hd, hheld⟩ := ih fun piece hpiece =>
      hadmits piece (List.mem_cons_of_mem _ hpiece)
    exact ⟨choices, groups, .text t hd, hheld⟩
  | @capture _ _ node _ _ name value hname _ _ ih =>
    obtain ⟨choices, groups, hd, hheld⟩ := ih fun piece hpiece =>
      hadmits piece (List.mem_cons_of_mem _ hpiece)
    obtain ⟨choice, hd'⟩ := hd.capture hname (hadmits (node, value) List.mem_cons_self)
    refine ⟨_, _, hd', fun other => ?_⟩
    rw [captureNames_cons hname, List.zip_cons_cons, Params.held_cons, hheld, taken_capture hname]
  | present _ _ _ ihc ih =>
    obtain ⟨inner, held, hdc, hheldc⟩ := ihc fun piece hpiece =>
      hadmits piece (List.mem_append_left _ hpiece)
    obtain ⟨choices, groups, hd, hheld⟩ := ih fun piece hpiece =>
      hadmits piece (List.mem_append_right _ hpiece)
    refine ⟨_, _, by rw [written_append]; exact .present hdc hd, fun name => ?_⟩
    rw [zip_optional _ _ hdc.length_groups, Params.held_append, hheldc, hheld, taken_append]
  | @absent _ _ children _ _ _ _ ih =>
    obtain ⟨choices, groups, hd, hheld⟩ := ih hadmits
    refine ⟨_, _, .absent children hd, fun name => ?_⟩
    rw [zip_optional _ _ List.length_replicate, Params.held_append, Params.held_zip_none, hheld]
    rfl

theorem Fills.derives_of_emits (h : Fills params [] nodes pieces dealt')
    (hadmits : ∀ node value, Emits params nodes node value → node.Admits cls value) :
    ∃ choices groups, Derives cls nodes choices (written pieces) groups ∧
      ∀ name, Params.held name ((captureNames nodes).zip groups) = taken name pieces :=
  h.derives fun piece hpiece => hadmits piece.1 piece.2 ⟨pieces, dealt', h, hpiece⟩

end RoutePattern.Node
