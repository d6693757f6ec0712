import RoutePattern.Proofs.Pattern.NormalForm
import RoutePattern.Proofs.Pattern.Recovery

/-!
# Where values come from

A match puts the texts of its groups under the names of the nodes that they belong to. Wildcards without a
name share one key with the nodes that were given this key as their name. Nothing keeps such a name out of a
pattern but the charset of names: if it does not have the character of the key, the key is left to wildcards
without a name.

## Main definitions

* `Node.piecesOf` — the pieces of a derivation, with the nodes that they belong to.
* `Node.textsOf` — the texts of some of the nodes.
* `Node.givenName?` — the name in the text of a pattern.
* `Pattern.match?_wildcardName` — what is found under the key of wildcards without a name.
-/

namespace RoutePattern

namespace Node

/-! ## Pieces of a derivation -/

mutual

/-- The pieces of a node and of the nodes in it, with the choice that was made for it. -/
def piecesIn : Node → Choice → List (Node × Text)
  | .optional children, .present inner => piecesOf children inner
  | .optional _, _ => []
  | node, .value v => [(node, v)]
  | node, .filler v => [(node, v)]
  | _, _ => []

/-- The pieces of nodes, with the choices that were made for them. A node in an optional segment that is
missing has no piece. -/
def piecesOf : List Node → List Choice → List (Node × Text)
  | .text t :: nodes, choices => (.text t, t) :: piecesOf nodes choices
  | node :: nodes, choice :: choices => piecesIn node choice ++ piecesOf nodes choices
  | _, _ => []

end

/-- The texts of some of the nodes, in order. -/
def textsOf (p : Node → Bool) (pieces : List (Node × Text)) : List Text :=
  (pieces.filter fun piece => p piece.1).map Prod.snd

/-- The name that a node was given. -/
def givenName? : Node → Option Text
  | .named name | .namedWildcard name => some name
  | .text _ | .wildcard | .optional _ => none

/-- Is it a wildcard without a name? -/
def isUnnamed : Node → Bool
  | .wildcard => true
  | _ => false

variable {o : Options} {cls : CharClass} {node : Node} {nodes : List Node} {choices : List Choice}
  {s : Text} {groups : List (Option Text)} {pieces : List (Node × Text)}

theorem piecesOf_present (children nodes : List Node) (inner choices : List Choice) :
    piecesOf (.optional children :: nodes) (.present inner :: choices) =
      piecesOf children inner ++ piecesOf nodes choices := rfl

theorem textsOf_congr {p q : Node → Bool} (h : ∀ piece ∈ pieces, p piece.1 = q piece.1) :
    textsOf p pieces = textsOf q pieces :=
  congrArg (List.map Prod.snd) (List.filter_congr h)

theorem taken_eq_textsOf (name : Text) (pieces : List (Node × Text)) :
    taken name pieces = textsOf (fun node => node.captureName? == some name) pieces := by
  rw [taken, textsOf, ← List.filterMap_eq_map, List.filterMap_filter]
  simp

/-- A node captures under the key of wildcards if it is one, or if it was given this name. -/
theorem captureName?_eq_wildcardName (node : Node) :
    (node.captureName? == some wildcardName) =
      (node.isUnnamed || node.givenName? == some wildcardName) := by
  cases node <;> rfl

/-! ## Pieces and groups -/

/-- The pieces make the text that is derived. -/
theorem Derives.written_piecesOf (h : Derives cls nodes choices s groups) :
    written (piecesOf nodes choices) = s := by
  induction h with
  | nil => rfl
  | text t _ ih => exact congrArg (t ++ ·) ih
  | named name _ _ _ ih => exact congrArg (_ ++ ·) ih
  | wildcard _ _ ih => exact congrArg (_ ++ ·) ih
  | namedWildcard name _ _ ih => exact congrArg (_ ++ ·) ih
  | present _ _ ihc ih => rw [piecesOf_present, written_append, ihc, ih]
  | absent children _ ih => exact ih

/-- What the groups of a name hold are the pieces of the nodes that capture under it. -/
theorem Derives.held_eq_taken (h : Derives cls nodes choices s groups) (name : Text) :
    Params.held name ((captureNames nodes).zip groups) = taken name (piecesOf nodes choices) := by
  have hcapture {node : Node} {other : Text} (hname : node.captureName? = some other) (v : Text)
      {nodes : List Node} {groups : List (Option Text)} {pieces : List (Node × Text)}
      (ih : Params.held name ((captureNames nodes).zip groups) = taken name pieces) :
      Params.held name ((captureNames (node :: nodes)).zip (some v :: groups)) =
        taken name ((node, v) :: pieces) := by
    rw [captureNames_cons hname, List.zip_cons_cons, Params.held_cons, taken_capture hname, ih]
  induction h with
  | nil => rfl
  | text t _ ih => exact ih
  | named name _ _ _ ih => exact hcapture rfl _ ih
  | wildcard _ _ ih => exact hcapture rfl _ ih
  | namedWildcard name _ _ ih => exact hcapture rfl _ ih
  | present hc _ ihc ih =>
    rw [zip_optional _ _ hc.length_groups, Params.held_append, piecesOf_present, taken_append, ihc,
      ih]
  | absent children _ ih =>
    rw [zip_optional _ _ List.length_replicate, Params.held_append, Params.held_zip_none, ih]
    rfl

/-- The pieces of nodes that capture belong to nodes of the pattern, in their order. -/
theorem Derives.sublist_captors (h : Derives cls nodes choices s groups) :
    (((piecesOf nodes choices).filter fun piece => piece.1.captureName?.isSome).map Prod.fst).Sublist
      (captors nodes) := by
  induction h with
  | nil => exact .refl _
  | text t _ ih => exact ih
  | named name _ _ _ ih => exact ih.cons_cons _
  | wildcard _ _ ih => exact ih.cons_cons _
  | namedWildcard name _ _ ih => exact ih.cons_cons _
  | present _ _ ihc ih =>
    rw [piecesOf_present, List.filter_append, List.map_append]
    exact ihc.append ih
  | absent children _ ih => exact ih.trans (List.sublist_append_right _ _)

theorem Derives.mem_captors (h : Derives cls nodes choices s groups) {piece : Node × Text}
    (hpiece : piece ∈ piecesOf nodes choices) (hname : piece.1.captureName?.isSome = true) :
    piece.1 ∈ captors nodes :=
  h.sublist_captors.subset (List.mem_map_of_mem (List.mem_filter.mpr ⟨hpiece, hname⟩))

/-- Nodes that capture have no more texts than there are such nodes in the pattern. -/
theorem Derives.length_textsOf_le (h : Derives cls nodes choices s groups) {q : Node → Bool}
    (hq : ∀ node, q node = true → node.captureName?.isSome = true) :
    (textsOf q (piecesOf nodes choices)).length ≤ (captors nodes).countP q := by
  refine Nat.le_trans (Nat.le_of_eq ?_) (h.sublist_captors.countP_le (p := q))
  rw [textsOf, List.length_map, ← List.countP_eq_length_filter, List.countP_map, List.countP_filter]
  refine List.countP_congr fun piece _ => ?_
  rw [Function.comp_apply, Bool.and_eq_true]
  exact ⟨fun h => ⟨h, hq _ h⟩, And.left⟩

/-! ## Names in patterns -/

theorem isSome_captureName?_of_isUnnamed (h : node.isUnnamed = true) : node.captureName?.isSome = true := by
  cases node with
  | wildcard => rfl
  | text | named | namedWildcard | optional => cases h

theorem captureName?_of_givenName? {name : Text} (h : node.givenName? = some name) :
    node.captureName? = some name := by
  cases node <;> cases h <;> rfl

theorem captors_eq_flatMap (nodes : List Node) : captors nodes = nodes.flatMap captorsIn := by
  induction nodes with
  | nil => rfl
  | cons node nodes ih => rw [captors, List.flatMap_cons, ih]

/-- Names are names of the pattern language at every depth. -/
theorem Normal.isName_of_mem_captors (h : Normal o nodes) :
    ∀ node ∈ captors nodes, ∀ name, node.givenName? = some name → o.IsName name := by
  induction h with
  | row _ _ _ hnamed hwildcard _ ih =>
    intro node hnode name hname
    rw [captors_eq_flatMap, List.mem_flatMap] at hnode
    obtain ⟨outer, houter, hnode⟩ := hnode
    cases outer with
    | text t => cases hnode
    | named other =>
      obtain rfl := List.mem_singleton.mp hnode
      cases hname
      exact hnamed _ houter
    | wildcard =>
      obtain rfl := List.mem_singleton.mp hnode
      cases hname
    | namedWildcard other =>
      obtain rfl := List.mem_singleton.mp hnode
      cases hname
      exact hwildcard _ houter
    | optional children => exact ih children houter node hnode name hname

theorem normal_of_parse (h : parse s o = .ok nodes) : Normal o nodes := by
  cases hg : Grammar.ofOptions o with
  | error e =>
    unfold parse at h
    rw [hg] at h
    split at h
    · cases h
    · split at h <;> cases h
  | ok g =>
    obtain ⟨_, _, hpattern⟩ := (parse_eq_ok hg).mp h
    exact Grammar.normal_of_nested hg _ s nodes [] hpattern

end Node

/-! ## The key of wildcards without a name -/

namespace Pattern

open Node (Derives piecesOf textsOf captors isUnnamed givenName? wildcardName)

variable {text : Text} {o : Options} {p : Pattern} {cls names : CharClass} {nodes : List Node}
  {input : Text} {found : MatchResult}

/-- **What is found under the key of wildcards without a name** are the texts of these wildcards and of the
nodes that were given this key as a name, as far as they took part, in the order of the pattern. If the
charset of names does not have the character of the key, no node is given this name, and what is found are
the texts of the wildcards alone. -/
theorem match?_wildcardName (hp : ofText text o = .ok p)
    (hvalues : CharClass.ofCharset? o.valueCharset = some cls)
    (hnames : CharClass.ofCharset? o.nameCharset = some names) (hnodes : p.nodes = some nodes)
    (h : p.match? input = some found) :
    ∃ params choices groups, found = .named params ∧ Derives cls nodes choices input groups ∧
      (∀ choices' groups', Derives cls nodes choices' input groups' →
        choices' = choices ∨ Choice.Earlier choices choices') ∧
      Node.written (piecesOf nodes choices) = input ∧
      params.get? wildcardName =
        ParamValue.ofList? (textsOf (fun node => node.isUnnamed || node.givenName? == some wildcardName)
          (piecesOf nodes choices)) ∧
      (names.mem '_' = false →
        (∀ node ∈ captors nodes, node.givenName? ≠ some wildcardName) ∧
          params.get? wildcardName =
            ParamValue.ofList? (textsOf isUnnamed (piecesOf nodes choices))) := by
  rw [match?_ofText hp hvalues hnodes, Option.map_eq_some_iff] at h
  obtain ⟨groups, hcaptures, rfl⟩ := h
  obtain ⟨choices, hd, hfirst⟩ := Node.firstDerived_of_captures hcaptures
  have hget : (collect (Node.captureNames nodes) groups).get? wildcardName =
      ParamValue.ofList? (textsOf (fun node => node.isUnnamed || node.givenName? == some wildcardName)
        (piecesOf nodes choices)) := by
    rw [get?_collect, hd.held_eq_taken, Node.taken_eq_textsOf]
    exact congrArg (fun q => ParamValue.ofList? (textsOf q _)) (funext Node.captureName?_eq_wildcardName)
  refine ⟨_, choices, groups, rfl, hd, hfirst, hd.written_piecesOf, hget, fun hkey => ?_⟩
  have hgiven : ∀ node ∈ captors nodes, node.givenName? ≠ some wildcardName := by
    intro node hnode hname
    obtain ⟨nodes', hparse, hnodes', _⟩ := of_ofText hp
    obtain rfl : nodes' = nodes := Option.some.inj (hnodes'.symm.trans hnodes)
    obtain ⟨_, hmem⟩ := (Node.normal_of_parse hparse).isName_of_mem_captors node hnode _ hname names hnames
    rw [hmem '_' (List.mem_singleton_self _)] at hkey
    cases hkey
  refine ⟨hgiven, ?_⟩
  rw [hget]
  refine congrArg ParamValue.ofList? (Node.textsOf_congr fun piece hpiece => ?_)
  have hother : (piece.1.givenName? == some wildcardName) = false := by
    rw [beq_eq_false_iff_ne]
    intro hname
    refine hgiven _ (hd.mem_captors hpiece ?_) hname
    rw [Node.captureName?_of_givenName? hname]
    rfl
  rw [hother, Bool.or_false]

/-- A wildcard in an optional segment, and one behind it. -/
theorem match?_wildcardName_optional :
    ∃ p nodes found, ofText (Text.ofString "/:id(-*)/*") {} = .ok p ∧ p.nodes = some nodes ∧
      p.match? (Text.ofString "/7-x/y") = some found ∧
      ∃ cls params choices groups, found = .named params ∧
        Derives cls nodes choices (Text.ofString "/7-x/y") groups ∧
        (∀ node ∈ captors nodes, node.givenName? ≠ some wildcardName) ∧
        params.get? wildcardName = ParamValue.ofList? (textsOf isUnnamed (piecesOf nodes choices)) := by
  obtain ⟨names, hnames, hkey⟩ : ∃ names, CharClass.ofCharset? ({} : Options).nameCharset = some names ∧
      names.mem '_' = false := by
    have hrun : (CharClass.ofCharset? ({} : Options).nameCharset).any (·.mem '_' == false) = true := by
      decide +kernel
    obtain ⟨names, hnames, hkey⟩ := (Option.any_eq_true _ _).mp hrun
    exact ⟨names, hnames, beq_iff_eq.mp hkey⟩
  have hrun : ((CharClass.ofCharset? ({} : Options).valueCharset).any fun _ =>
      (ofText (Text.ofString "/:id(-*)/*") {}).toOption.any fun p => p.nodes.any fun _ =>
        (p.match? (Text.ofString "/7-x/y")).isSome) = true := by
    decide +kernel
  obtain ⟨cls, p, nodes, hvalues, hp, hnodes, hmatch⟩ := exists_ofText hrun
  obtain ⟨found, hfound⟩ := Option.isSome_iff_exists.mp hmatch
  obtain ⟨params, choices, groups, hnamed, hd, _, _, _, halone⟩ :=
    match?_wildcardName hp hvalues hnames hnodes hfound
  exact ⟨p, nodes, found, hp, hnodes, hfound, cls, params, choices, groups, hnamed, hd, halone hkey⟩

/-- A segment that is given the key as its name has its value put in front of that of the wildcard. -/
theorem match?_wildcardName_given :
    ∃ p nodes params, ofText (Text.ofString "/:_/*") { nameCharset := Text.ofString "a-z_" } = .ok p ∧
      (CharClass.ofCharset? ({} : Options).valueCharset).isSome = true ∧
      (CharClass.ofCharset? (Text.ofString "a-z_")).isSome = true ∧ p.nodes = some nodes ∧
      p.match? (Text.ofString "/a/b") = some (.named params) ∧
      params.get? wildcardName = some (.multiple [['a'], ['b']]) ∧
      ∀ cls choices groups, Derives cls nodes choices (Text.ofString "/a/b") groups →
        params.get? wildcardName ≠ ParamValue.ofList? (textsOf isUnnamed (piecesOf nodes choices)) := by
  have hrun : ((CharClass.ofCharset? ({} : Options).valueCharset).any fun _ =>
      (ofText (Text.ofString "/:_/*") { nameCharset := Text.ofString "a-z_" }).toOption.any fun p =>
        p.nodes.any fun nodes => (captors nodes).countP isUnnamed == 1 &&
          (p.match? (Text.ofString "/a/b")).any fun found => found.named?.any fun params =>
            params.get? wildcardName == some (.multiple [['a'], ['b']])) = true := by
    decide +kernel
  obtain ⟨cls, p, nodes, hvalues, hp, hnodes, hcheck⟩ := exists_ofText hrun
  obtain ⟨hcount, hmatch⟩ := Bool.and_eq_true_iff.mp hcheck
  obtain ⟨found, hfound, hnamed⟩ := (Option.any_eq_true _ _).mp hmatch
  obtain ⟨params, hparams, hget⟩ := (Option.any_eq_true _ _).mp hnamed
  rw [beq_iff_eq] at hcount hget
  cases found with
  | positional groups => cases hparams
  | named =>
    cases hparams
    refine ⟨p, nodes, params, hp, Option.isSome_iff_exists.mpr ⟨cls, hvalues⟩, by decide +kernel, hnodes,
      hfound, hget, ?_⟩
    intro cls' choices groups hd heq
    have hle := hd.length_textsOf_le fun _ h => Node.isSome_captureName?_of_isUnnamed h
    rw [hget] at heq
    -- there is just one wildcard for the two values
    match htexts : textsOf isUnnamed (piecesOf nodes choices) with
    | [] => simp [htexts, ParamValue.ofList?] at heq
    | [_] => simp [htexts, ParamValue.ofList?] at heq
    | _ :: _ :: _ => simp [htexts, hcount] at hle

end Pattern

end RoutePattern
