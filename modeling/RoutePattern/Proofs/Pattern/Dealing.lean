import RoutePattern.Proofs.Pattern.Filling

/-!
# Who gets which value

What is filled in, said of the pattern as a whole. Each optional segment is either chosen or left out, and a
node is written if all segments around it are chosen. Of the nodes that are written, the `j`th of a name gets
the `j`th value of that name, however deep it stands. A segment is chosen if it can be reached and some name
in it has more values than were written in front of the segment.

## Main definitions

* `Node.Serves` — values that are dealt for some names.
* `Node.Decided` — a node with its segments decided; `Node.nodesOf` — the nodes that were there before.
* `Node.placesOf` — all nodes of a pattern from left to right, and which of them can be reached.
* `Node.Judged` — the segments are chosen for the values that are left.
* `Node.render_deals` — what is written, and which values.
-/

namespace RoutePattern.Node

variable {params : Params} {dealt dealt' dealt'' : Dealt} {node : Node} {nodes : List Node}
  {pieces : List (Node × Text)} {names names' : List Text} {name s : Text}

/-! ## Values that have been dealt -/

/-- The names of pieces. -/
def namesIn (pieces : List (Node × Text)) : List Text := (pieces.map Prod.fst).filterMap captureName?

/-- No more values of a name have been dealt than there are. -/
def Within (params : Params) (dealt : Dealt) : Prop :=
  ∀ name, dealt.count name ≤ (params.values name).length

/-- A value has been dealt for each of these names, and there was one. -/
structure Serves (params : Params) (dealt : Dealt) (names : List Text) (dealt' : Dealt) : Prop where
  advances : Advances dealt names dealt'
  within : Within params dealt → Within params dealt'

theorem Serves.nil (params : Params) (dealt : Dealt) : Serves params dealt [] dealt := ⟨.nil dealt, id⟩

theorem Serves.capture {value : Text} (hvalue : dealt.next? params name = some value) :
    Serves params dealt [name] (name :: dealt) := by
  refine ⟨.cons dealt name, fun h other => ?_⟩
  rw [List.count_cons]
  split
  · next hother =>
    rw [← beq_iff_eq.mp hother, Nat.add_one_le_iff]
    rw [Dealt.next?_eq] at hvalue
    exact (List.getElem?_eq_some_iff.mp hvalue).1
  · exact h other

theorem Serves.append (h : Serves params dealt names dealt') (h' : Serves params dealt' names' dealt'') :
    Serves params dealt (names ++ names') dealt'' :=
  ⟨h.advances.append h'.advances, fun hwithin => h'.within (h.within hwithin)⟩

theorem Serves.count_eq (h : Serves params [] names dealt) (name : Text) :
    dealt.count name = names.count name := by
  rw [h.advances, List.count_nil, Nat.zero_add]

theorem Serves.count_le (h : Serves params [] names dealt) (name : Text) :
    names.count name ≤ (params.values name).length := by
  rw [← h.count_eq]
  exact h.within (fun _ => Nat.zero_le _) name

@[simp] theorem namesIn_append (pieces pieces' : List (Node × Text)) :
    namesIn (pieces ++ pieces') = namesIn pieces ++ namesIn pieces' := by
  simp [namesIn]

theorem namesIn_capture (h : node.captureName? = some name) (t : Text) (pieces : List (Node × Text)) :
    namesIn ((node, t) :: pieces) = name :: namesIn pieces := by
  simp [namesIn, h]

theorem Fills.serves (h : Fills params dealt nodes pieces dealt') :
    Serves params dealt (namesIn pieces) dealt' := by
  induction h with
  | nil dealt => exact .nil params dealt
  | text t _ ih => exact ih
  | capture hname hvalue _ ih =>
    rw [namesIn_capture hname]
    exact (Serves.capture hvalue).append ih
  | present _ _ _ ihc ih =>
    rw [namesIn_append]
    exact ihc.append ih
  | absent _ _ ih => exact ih

/-- The names that are written are some of the names of the pattern, in their order. -/
theorem Fills.sublist (h : Fills params dealt nodes pieces dealt') :
    (namesIn pieces).Sublist (captureNames nodes) := by
  induction h with
  | nil => exact .slnil
  | text t _ ih => exact ih
  | capture hname _ _ ih =>
    rw [captureNames_cons hname, namesIn_capture hname]
    exact ih.cons_cons _
  | present _ _ _ ihc ih =>
    rw [namesIn_append]
    exact ihc.append ih
  | absent _ _ ih => exact ih.trans (List.sublist_append_right _ _)

/-! ## Decisions -/

/-- A node of which it is known for each optional segment whether it is chosen. -/
inductive Decided where
  | text (t : Text)
  | capture (node : Node) (name : Text) (h : node.captureName? = some name)
  | optional (chosen : Bool) (inner : List Decided)

namespace Decided

/-- The node itself, if it is a text or captures. -/
def leaf? : Decided → Option Node
  | .text t => some (.text t)
  | .capture node _ _ => some node
  | .optional _ _ => none

end Decided

mutual

/-- The node without its decisions. -/
def Decided.node : Decided → Node
  | .text t => .text t
  | .capture node _ _ => node
  | .optional _ inner => .optional (nodesOf inner)

/-- The nodes without their decisions. -/
def nodesOf : List Decided → List Node
  | [] => []
  | d :: ds => d.node :: nodesOf ds

end

mutual

/-- A node and all nodes in it, from left to right, and whether all segments around each are chosen. -/
def Decided.places (reached : Bool) : Decided → List (Bool × Decided)
  | .text t => [(reached, .text t)]
  | .capture node name h => [(reached, .capture node name h)]
  | .optional chosen inner =>
    (reached, .optional chosen inner) :: placesOf (reached && chosen) inner

/-- Nodes in a row and all nodes in them, from left to right, and whether all segments around each are
chosen. -/
def placesOf (reached : Bool) : List Decided → List (Bool × Decided)
  | [] => []
  | d :: ds => d.places reached ++ placesOf reached ds

end

/-- The texts and the capturing nodes that are written. -/
def leavesAt (places : List (Bool × Decided)) : List Node :=
  places.filterMap fun place => if place.1 then place.2.leaf? else none

/-- The names of the nodes that are written. -/
def namesAt (places : List (Bool × Decided)) : List Text := (leavesAt places).filterMap captureName?

/-- A segment is chosen just if it is reached and a name in it has more values than were written in front
of the segment. Before the first place, some have been dealt. -/
def Judged (params : Params) (dealt : Dealt) (places : List (Bool × Decided)) : Prop :=
  ∀ front reached chosen inner back, places = front ++ (reached, .optional chosen inner) :: back →
    (chosen = true ↔ reached = true ∧ ∃ name ∈ captureNames (nodesOf inner),
      dealt.count name + (namesAt front).count name < (params.values name).length)

variable {places places' : List (Bool × Decided)}

@[simp] theorem leavesAt_append (places places' : List (Bool × Decided)) :
    leavesAt (places ++ places') = leavesAt places ++ leavesAt places' := List.filterMap_append

@[simp] theorem namesAt_append (places places' : List (Bool × Decided)) :
    namesAt (places ++ places') = namesAt places ++ namesAt places' := by
  rw [namesAt, leavesAt_append, List.filterMap_append]
  rfl

/-! ## Segments that are not reached -/

mutual

theorem reached_of_mem_places (d : Decided) : ∀ place ∈ d.places false, place.1 = false := by
  cases d with
  | text t => simp [Decided.places]
  | capture node name h => simp [Decided.places]
  | optional chosen inner =>
    rw [Decided.places, Bool.false_and]
    exact List.forall_mem_cons.mpr ⟨rfl, reached_of_mem_placesOf inner⟩

/-- No node in a segment that is left out is reached. -/
theorem reached_of_mem_placesOf (ds : List Decided) : ∀ place ∈ placesOf false ds, place.1 = false := by
  cases ds with
  | nil => simp [placesOf]
  | cons d ds =>
    rw [placesOf]
    exact List.forall_mem_append.mpr ⟨reached_of_mem_places d, reached_of_mem_placesOf ds⟩

end

theorem leavesAt_eq_nil (h : ∀ place ∈ places, place.1 = false) : leavesAt places = [] := by
  rw [leavesAt, List.filterMap_eq_nil_iff]
  intro place hplace
  rw [h place hplace, if_neg Bool.false_ne_true]

mutual

/-- A node with all its segments left out. -/
def leftOut : Node → Decided
  | .text t => .text t
  | .named name => .capture (.named name) name rfl
  | .wildcard => .capture .wildcard wildcardName rfl
  | .namedWildcard name => .capture (.namedWildcard name) name rfl
  | .optional children => .optional false (allLeftOut children)

/-- Nodes with all their segments left out. -/
def allLeftOut : List Node → List Decided
  | [] => []
  | node :: nodes => leftOut node :: allLeftOut nodes

end

mutual

theorem node_leftOut (node : Node) : (leftOut node).node = node := by
  cases node with
  | text t => rfl
  | named name => rfl
  | wildcard => rfl
  | namedWildcard name => rfl
  | optional children => rw [leftOut, Decided.node, nodesOf_allLeftOut children]

theorem nodesOf_allLeftOut (nodes : List Node) : nodesOf (allLeftOut nodes) = nodes := by
  cases nodes with
  | nil => rfl
  | cons node nodes => rw [allLeftOut, nodesOf, node_leftOut node, nodesOf_allLeftOut nodes]

end

/-- Is it no segment that is chosen? -/
def Decided.isLeftOut : Decided → Bool
  | .optional chosen _ => !chosen
  | _ => true

mutual

theorem isLeftOut_of_mem_places (node : Node) (reached : Bool) :
    ∀ place ∈ (leftOut node).places reached, place.2.isLeftOut = true := by
  cases node with
  | text t => simp [leftOut, Decided.places, Decided.isLeftOut]
  | named name => simp [leftOut, Decided.places, Decided.isLeftOut]
  | wildcard => simp [leftOut, Decided.places, Decided.isLeftOut]
  | namedWildcard name => simp [leftOut, Decided.places, Decided.isLeftOut]
  | optional children =>
    rw [leftOut, Decided.places]
    exact List.forall_mem_cons.mpr ⟨rfl, isLeftOut_of_mem_placesOf children _⟩

theorem isLeftOut_of_mem_placesOf (nodes : List Node) (reached : Bool) :
    ∀ place ∈ placesOf reached (allLeftOut nodes), place.2.isLeftOut = true := by
  cases nodes with
  | nil => simp [allLeftOut, placesOf]
  | cons node nodes =>
    rw [allLeftOut, placesOf]
    exact List.forall_mem_append.mpr
      ⟨isLeftOut_of_mem_places node reached, isLeftOut_of_mem_placesOf nodes reached⟩

end

/-! ## Judging -/

theorem Judged.nil (params : Params) (dealt : Dealt) : Judged params dealt [] := by
  intro front reached chosen inner back h
  simp at h

/-- Segments that are not reached have to be left out. -/
theorem Judged.of_leftOut (hreached : ∀ place ∈ places, place.1 = false)
    (hleft : ∀ place ∈ places, place.2.isLeftOut = true) : Judged params dealt places := by
  rintro front reached chosen inner back rfl
  have hmem : (reached, Decided.optional chosen inner) ∈
      front ++ (reached, .optional chosen inner) :: back := by simp
  obtain rfl : reached = false := hreached _ hmem
  obtain rfl : chosen = false := by simpa [Decided.isLeftOut] using hleft _ hmem
  simp

/-- What was written at the first places has been dealt at the other ones. -/
theorem Judged.append (h : Judged params dealt places) (hdealt : Advances dealt (namesAt places) dealt')
    (h' : Judged params dealt' places') : Judged params dealt (places ++ places') := by
  intro front reached chosen inner back heq
  rcases List.append_eq_append_iff.mp heq with ⟨mid, rfl, hback⟩ | ⟨mid, rfl, hback⟩
  · have hj := h' mid reached chosen inner back hback
    simpa only [hdealt _, namesAt_append, List.count_append, Nat.add_assoc] using hj
  · cases mid with
    | nil =>
      have hj := h' [] reached chosen inner back hback.symm
      rw [List.append_nil] at hdealt
      simpa only [hdealt _, show namesAt [] = [] from rfl, List.count_nil, Nat.add_zero] using hj
    | cons place mid =>
      rw [List.cons_append, List.cons.injEq] at hback
      obtain ⟨rfl, rfl⟩ := hback
      exact h front reached chosen inner mid rfl

/-- A node that is no segment is not judged. -/
theorem Judged.leaf (params : Params) (dealt : Dealt) {place : Bool × Decided}
    (h : place.2.leaf?.isSome = true) : Judged params dealt [place] := by
  intro front reached chosen inner back heq
  cases front with
  | nil =>
    cases heq
    cases h
  | cons first front => simp at heq

theorem Judged.segment {chosen : Bool} {inner : List Decided}
    (h : chosen = true ↔ ∃ name ∈ captureNames (nodesOf inner),
      dealt.count name < (params.values name).length) :
    Judged params dealt [(true, .optional chosen inner)] := by
  intro front reached chosen' inner' back heq
  cases front with
  | nil =>
    cases heq
    simpa [namesAt, leavesAt] using h
  | cons first front => simp at heq

/-! ## From pieces to places -/

theorem hasValue_eq_true_iff :
    hasValue params dealt nodes = true ↔
      ∃ name ∈ captureNames nodes, dealt.count name < (params.values name).length := by
  rw [hasValue_iff_exists]
  simp only [Dealt.next?_eq, isSome_getElem?]

/-- The decisions by which pieces are written. -/
theorem Fills.exists_decided (h : Fills params dealt nodes pieces dealt') :
    ∃ tree, nodesOf tree = nodes ∧ pieces.map Prod.fst = leavesAt (placesOf true tree) ∧
      Judged params dealt (placesOf true tree) := by
  induction h with
  | nil dealt => exact ⟨[], rfl, rfl, .nil params dealt⟩
  | text t _ ih =>
    obtain ⟨tree, rfl, hleaves, hjudged⟩ := ih
    refine ⟨.text t :: tree, rfl, ?_, ?_⟩
    · rw [List.map_cons, hleaves]
      rfl
    · rw [placesOf, Decided.places]
      exact (Judged.leaf params _ rfl).append (.nil _) hjudged
  | @capture dealt _ node _ _ name _ hname _ _ ih =>
    obtain ⟨tree, rfl, hleaves, hjudged⟩ := ih
    refine ⟨.capture node name hname :: tree, rfl, ?_, ?_⟩
    · rw [List.map_cons, hleaves]
      rfl
    · have hnames : namesAt [(true, .capture node name hname)] = [name] := by
        simp [namesAt, leavesAt, Decided.leaf?, hname]
      rw [placesOf, Decided.places]
      refine (Judged.leaf params dealt rfl).append ?_ hjudged
      rw [hnames]
      exact .cons dealt name
  | @present dealt mid _ _ _ inner _ hvalue hc _ ihc ih =>
    obtain ⟨children, rfl, hleavesc, hjudgedc⟩ := ihc
    obtain ⟨tree, rfl, hleaves, hjudged⟩ := ih
    have hadvances : Advances dealt (namesAt (placesOf true children)) mid := by
      rw [namesAt, ← hleavesc]
      exact hc.serves.advances
    refine ⟨.optional true children :: tree, rfl, ?_, ?_⟩
    · rw [List.map_append, hleavesc, hleaves, placesOf, Decided.places, leavesAt_append]
      rfl
    · have hsegment : Judged params dealt [(true, .optional true children)] :=
        .segment (by simpa using hasValue_eq_true_iff.mp hvalue)
      rw [placesOf, Decided.places]
      exact (hsegment.append (.nil dealt) hjudgedc).append hadvances hjudged
  | @absent dealt _ children _ _ hvalue _ ih =>
    obtain ⟨tree, rfl, hleaves, hjudged⟩ := ih
    have hunreached := reached_of_mem_placesOf (allLeftOut children)
    have hnil := leavesAt_eq_nil hunreached
    have hadvances : Advances dealt
        (namesAt ((true, .optional false (allLeftOut children)) :: placesOf false (allLeftOut children)))
        dealt := by
      have hnames : namesAt ((true, .optional false (allLeftOut children)) ::
          placesOf false (allLeftOut children)) = namesAt (placesOf false (allLeftOut children)) := rfl
      rw [hnames, namesAt, hnil]
      exact .nil dealt
    refine ⟨.optional false (allLeftOut children) :: tree, ?_, ?_, ?_⟩
    · rw [nodesOf, Decided.node, nodesOf_allLeftOut]
    · rw [hleaves, placesOf, Decided.places, leavesAt_append]
      show _ = leavesAt (placesOf false (allLeftOut children)) ++ _
      rw [hnil, List.nil_append]
    · have hsegment : Judged params dealt [(true, .optional false (allLeftOut children))] := by
        refine .segment ?_
        rw [nodesOf_allLeftOut, ← hasValue_eq_true_iff, hvalue]
      have hjudgedc : Judged params dealt (placesOf false (allLeftOut children)) :=
        .of_leftOut hunreached (isLeftOut_of_mem_placesOf children _)
      rw [placesOf, Decided.places]
      exact (hsegment.append (.nil dealt) hjudgedc).append hadvances hjudged

/-- The piece of a text is that text. -/
theorem Fills.eq_of_text (h : Fills params dealt nodes pieces dealt') {t u : Text}
    (hmem : (Node.text t, u) ∈ pieces) : u = t := by
  induction h with
  | nil => cases hmem
  | text _ _ ih =>
    rcases List.mem_cons.mp hmem with heq | hmem
    · cases heq
      rfl
    · exact ih hmem
  | capture hname _ _ ih =>
    rcases List.mem_cons.mp hmem with heq | hmem
    · cases heq
      cases hname
    · exact ih hmem
  | present _ _ _ ihc ih => exact (List.mem_append.mp hmem).elim ihc ih
  | absent _ _ ih => exact ih hmem

/-- The pieces of a name are its first values. -/
theorem Fills.taken_prefix (h : Fills params [] nodes pieces dealt') (name : Text) :
    taken name pieces <+: params.values name := by
  have htake := h.take_values name
  rw [List.count_nil, List.take_zero, List.nil_append] at htake
  rw [← htake]
  exact List.take_prefix _ _

theorem getElem?_of_taken_prefix {front back : List (Node × Text)} {node : Node} {value : Text}
    (h : taken name (front ++ (node, value) :: back) <+: params.values name)
    (hname : node.captureName? = some name) :
    (params.values name)[(taken name front).length]? = some value := by
  rw [taken_append, taken_capture hname, if_pos rfl] at h
  obtain ⟨more, hvalues⟩ := h
  simp [← hvalues]

/-! ## What is written -/

/-- **Values are dealt in order.** What is written are the texts and the values of the nodes that are reached
by the segments that are chosen. The value of a node is the next one of its name, counted over the whole
pattern. A segment is chosen just if it is reached and some name in it has more values than were written in
front of it. -/
theorem render_deals (h : render nodes params = .ok s) :
    ∃ (tree : List Decided) (pieces : List (Node × Text)),
      nodesOf tree = nodes ∧ s = written pieces ∧
      pieces.map Prod.fst = leavesAt (placesOf true tree) ∧
      (∀ t u, (Node.text t, u) ∈ pieces → u = t) ∧
      (∀ front node value back name, pieces = front ++ (node, value) :: back →
        node.captureName? = some name →
        (params.values name)[(taken name front).length]? = some value) ∧
      (∀ name, taken name pieces <+: params.values name) ∧
      ∀ front reached chosen inner back,
        placesOf true tree = front ++ (reached, .optional chosen inner) :: back →
        (chosen = true ↔ reached = true ∧ ∃ name ∈ captureNames (nodesOf inner),
          (namesAt front).count name < (params.values name).length) := by
  obtain ⟨pieces, dealt, hf, rfl⟩ := render_eq_ok_iff.mp h
  obtain ⟨tree, hnodes, hleaves, hjudged⟩ := hf.exists_decided
  refine ⟨tree, pieces, hnodes, rfl, hleaves, fun t u => hf.eq_of_text, ?_, hf.taken_prefix, ?_⟩
  · rintro front node value back name rfl hname
    exact getElem?_of_taken_prefix (hf.taken_prefix name) hname
  · intro front reached chosen inner back hplaces
    simpa only [List.count_nil, Nat.zero_add] using hjudged front reached chosen inner back hplaces

/-- A name in three segments, one of them in another, and two values for it: the last one is left out. -/
theorem render_deals_nested :
    ∃ (tree : List Decided) (pieces : List (Node × Text)),
      nodesOf tree = [.optional [.named ['a'], .text ['-']], .named ['b'],
        .optional [.text ['.'], .optional [.named ['a']]], .optional [.named ['a'], .text ['!']]] ∧
      written pieces = Text.ofString "x-z.y" ∧
      pieces.map Prod.fst = leavesAt (placesOf true tree) ∧
      taken ['a'] pieces <+: [['x'], ['y']] := by
  have hrender : render [.optional [.named ['a'], .text ['-']], .named ['b'],
      .optional [.text ['.'], .optional [.named ['a']]], .optional [.named ['a'], .text ['!']]]
      ⟨[(['a'], .multiple [['x'], ['y']]), (['b'], .single ['z'])]⟩ = .ok (Text.ofString "x-z.y") := by
    rfl
  obtain ⟨tree, pieces, hnodes, hwritten, hleaves, _, _, htaken, _⟩ := render_deals hrender
  exact ⟨tree, pieces, hnodes, hwritten.symm, hleaves, htaken ['a']⟩

end RoutePattern.Node
