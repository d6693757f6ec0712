import RoutePattern.Proofs.Pattern.Filling
import RoutePattern.Proofs.Pattern.Matching

/-!
# Filling in what was matched

The values of a match, dealt out again, give back the text that was matched. Both go through the nodes in
the same order: the values that have been dealt are at any time those of the groups that have been passed
(`Node.Tracks`), so the next value of a name is what its next group holds.

An optional segment is written if a name in it still has a value. That it was there is seen from a value
directly in it, and that it was missing from there being no more values of its names, as these do not
occur again behind it.

## Main definitions

* `Node.areEvident`, `Node.areApart` — the patterns for which this is so.
* `Node.renderNodes_of_derives` — what is written for the values of a derivation.
* `Pattern.render_match?` — filling in what was matched.
-/

namespace RoutePattern

namespace Node

/-! ## Patterns that can be filled in again -/

mutual

/-- Does each optional segment in the node have a node that captures directly in it? -/
def isEvident : Node → Bool
  | .text _ => true
  | .named _ => true
  | .wildcard => true
  | .namedWildcard _ => true
  | .optional children => children.any (fun node => node.captureName?.isSome) && areEvident children

/-- Does each optional segment have a node that captures directly in it? -/
def areEvident : List Node → Bool
  | [] => true
  | node :: nodes => node.isEvident && areEvident nodes

end

/-- The names in a node that may be missing. -/
def optionalNames : Node → List Text
  | .optional children => captureNames children
  | _ => []

mutual

/-- Does no name of an optional segment occur again behind it, within the node? -/
def isApart : Node → Bool
  | .text _ => true
  | .named _ => true
  | .wildcard => true
  | .namedWildcard _ => true
  | .optional children => areApart children

/-- Does no name of an optional segment occur again behind it? -/
def areApart : List Node → Bool
  | [] => true
  | node :: nodes =>
    node.optionalNames.all (fun name => !(captureNames nodes).contains name) && node.isApart &&
      areApart nodes

end

theorem areApart_cons_iff {node : Node} {nodes : List Node} :
    areApart (node :: nodes) = true ↔
      (∀ name ∈ node.optionalNames, name ∉ captureNames nodes) ∧ node.isApart = true ∧
        areApart nodes = true := by
  simp only [areApart, Bool.and_eq_true, and_assoc, List.all_eq_true, Bool.not_eq_true',
    List.contains_eq_mem, decide_eq_false_iff_not]

theorem optionalNames_subset {nodes : List Node} {name : Text}
    (h : name ∈ nodes.flatMap optionalNames) : name ∈ captureNames nodes := by
  induction nodes with
  | nil => exact h
  | cons node nodes ih =>
    rw [captureNames, List.mem_append]
    rcases List.mem_append.mp h with h | h
    · cases node with
      | optional children => exact .inl h
      | text t | named n | wildcard | namedWildcard n => cases h
    · exact .inr (ih h)

/-! ## Dealing along the groups -/

/-- As many values of each name have been dealt as the groups that were passed hold. -/
def Tracks (dealt : Dealt) (passed : List (Text × Option Text)) : Prop :=
  ∀ name, dealt.count name = (Params.held name passed).length

section Dealing

variable {params : Params} {dealt : Dealt} {passed behind : List (Text × Option Text)}

theorem Tracks.next?_eq (ht : Tracks dealt passed)
    (hparams : ∀ name, params.values name = Params.held name (passed ++ behind)) (name : Text) :
    dealt.next? params name = (Params.held name behind).head? := by
  rw [Dealt.next?_eq, hparams, ht name, Params.held_append, List.getElem?_append_right (Nat.le_refl _),
    Nat.sub_self, List.head?_eq_getElem?]

theorem Tracks.hasValue_iff (ht : Tracks dealt passed)
    (hparams : ∀ name, params.values name = Params.held name (passed ++ behind)) (nodes : List Node) :
    hasValue params dealt nodes = true ↔ ∃ name ∈ captureNames nodes, Params.held name behind ≠ [] := by
  rw [hasValue_iff_exists]
  refine exists_congr fun name => and_congr_right fun _ => ?_
  rw [ht.next?_eq hparams, List.isSome_head?]

/-- The next value is the one of the next group. -/
theorem Tracks.take_eq (ht : Tracks dealt passed) {name value : Text}
    (hparams : ∀ other, params.values other = Params.held other (passed ++ (name, some value) :: behind)) :
    dealt.take params name = .ok (value, name :: dealt) := by
  rw [Dealt.take, ht.next?_eq hparams, Params.held_cons, if_pos rfl]
  rfl

theorem Tracks.cons (ht : Tracks dealt passed) (name value : Text) :
    Tracks (name :: dealt) (passed ++ [(name, some value)]) := by
  intro other
  rw [List.count_cons, ht other, Params.held_append, Params.held_cons, List.length_append]
  by_cases h : other = name
  · simp [h]
  · simp [h, Ne.symm h]

/-- Groups that took no part leave things as they are. -/
theorem Tracks.skip (ht : Tracks dealt passed) (names : List Text) (n : Nat) :
    Tracks dealt (passed ++ names.zip (List.replicate n none)) := by
  intro name
  rw [Params.held_append, Params.held_zip_none, List.append_nil]
  exact ht name

end Dealing

/-! ## What is written -/

section Render

variable {cls : CharClass} {params : Params} {node : Node} {nodes children : List Node}
  {choices inner : List Choice} {s t : Text} {groups held : List (Option Text)} {dealt dealt' dealt'' : Dealt}

/-- Nodes of which one captures directly hold a value. -/
theorem Derives.exists_held (h : Derives cls nodes choices s groups)
    (hany : nodes.any (fun node => node.captureName?.isSome) = true) :
    ∃ name ∈ captureNames nodes, Params.held name ((captureNames nodes).zip groups) ≠ [] := by
  have hfirst (name value : Text) (entries : List (Text × Option Text)) :
      Params.held name ((name, some value) :: entries) ≠ [] := by
    simp [Params.held_cons]
  induction h with
  | nil => cases hany
  | text t _ ih => exact ih hany
  | named name _ _ _ _ => exact ⟨name, List.mem_cons_self, hfirst name _ _⟩
  | wildcard _ _ _ => exact ⟨wildcardName, List.mem_cons_self, hfirst wildcardName _ _⟩
  | namedWildcard name _ _ _ => exact ⟨name, List.mem_cons_self, hfirst name _ _⟩
  | present hc _ _ ih =>
    obtain ⟨name, hname, hheld⟩ := ih hany
    refine ⟨name, List.mem_append_right _ hname, ?_⟩
    rw [zip_optional _ _ hc.length_groups, Params.held_append]
    exact List.append_ne_nil_of_right_ne_nil _ hheld
  | absent children _ ih =>
    obtain ⟨name, hname, hheld⟩ := ih hany
    refine ⟨name, List.mem_append_right _ hname, ?_⟩
    rw [zip_optional _ _ List.length_replicate, Params.held_append]
    exact List.append_ne_nil_of_right_ne_nil _ hheld

/-- Filling in writes the text for the nodes, if their groups hold these values. They may stand behind
others that have been passed, and before others with no more values for the names that may be missing. -/
def WrittenAs (params : Params) (nodes : List Node) (s : Text) (groups : List (Option Text)) : Prop :=
  ∀ (passed after : List (Text × Option Text)) (dealt : Dealt),
    (∀ name, params.values name =
      Params.held name (passed ++ ((captureNames nodes).zip groups ++ after))) →
    (∀ name ∈ nodes.flatMap optionalNames, Params.held name after = []) →
    Tracks dealt passed →
    ∃ dealt', renderNodes params dealt nodes = .ok (s, dealt') ∧
      Tracks dealt' (passed ++ (captureNames nodes).zip groups)

namespace WrittenAs

theorem nil : WrittenAs params [] [] [] := by
  intro passed after dealt _ _ ht
  refine ⟨dealt, rfl, ?_⟩
  show Tracks dealt (passed ++ [])
  rw [List.append_nil]
  exact ht

theorem text (h : WrittenAs params nodes s groups) (t : Text) :
    WrittenAs params (.text t :: nodes) (t ++ s) groups := by
  intro passed after dealt hparams hafter ht
  obtain ⟨dealt', hr, ht'⟩ := h passed after dealt hparams hafter ht
  exact ⟨dealt', renderNodes_cons rfl hr, ht'⟩

/-- A node that captures takes the value of its own group. -/
theorem capture {name : Text} (h : WrittenAs params nodes s groups)
    (hname : node.captureName? = some name) (v : Text) :
    WrittenAs params (node :: nodes) (v ++ s) (some v :: groups) := by
  have hoptional : node.optionalNames = [] := by
    cases node <;> cases hname <;> rfl
  intro passed after dealt hparams hafter ht
  rw [captureNames_cons hname, List.zip_cons_cons] at hparams ⊢
  rw [List.flatMap_cons, hoptional] at hafter
  have htake : dealt.take params name = .ok (v, name :: dealt) := ht.take_eq hparams
  obtain ⟨dealt', hr, ht'⟩ := h (passed ++ [(name, some v)]) after (name :: dealt)
    (fun other => by rw [hparams other, List.append_assoc]; rfl) hafter (ht.cons name v)
  refine ⟨dealt', renderNodes_cons ((renderNode_capture hname params dealt).trans htake) hr, ?_⟩
  rw [List.append_assoc] at ht'
  exact ht'

/-- The values of the names in an optional segment are all held by its own groups, which are seen to be
there from the first one that captures directly. -/
theorem present (hc : WrittenAs params children t held) (h : WrittenAs params nodes s groups)
    (hd : Derives cls children inner t held)
    (hany : children.any (fun node => node.captureName?.isSome) = true)
    (hapart : ∀ name ∈ captureNames children, name ∉ captureNames nodes) :
    WrittenAs params (.optional children :: nodes) (t ++ s) (held ++ groups) := by
  intro passed after dealt hparams hafter ht
  rw [zip_optional _ _ hd.length_groups, List.append_assoc] at hparams
  rw [zip_optional _ _ hd.length_groups]
  have hvalue : hasValue params dealt children = true := by
    obtain ⟨name, hname, hheld⟩ := hd.exists_held hany
    refine (ht.hasValue_iff hparams children).mpr ⟨name, hname, ?_⟩
    rw [Params.held_append]
    exact List.append_ne_nil_of_left_ne_nil hheld _
  -- behind the segment, its names hold nothing
  obtain ⟨dealt', hr, ht'⟩ := hc passed _ dealt hparams
    (fun name hname => by
      have hmem := optionalNames_subset hname
      rw [Params.held_append, Params.held_zip_of_not_mem (hapart name hmem),
        hafter name (List.mem_append_left _ hmem)]
      rfl) ht
  obtain ⟨dealt'', hr', ht''⟩ := h (passed ++ (captureNames children).zip held) after dealt'
    (fun name => by rw [hparams name, List.append_assoc])
    (fun name hname => hafter name (List.mem_append_right _ hname)) ht'
  refine ⟨dealt'', renderNodes_cons ?_ hr', by rwa [← List.append_assoc]⟩
  rw [renderNode, if_pos hvalue]
  exact hr

/-- There are no more values of the names in an optional segment that is missing. -/
theorem absent (h : WrittenAs params nodes s groups) (children : List Node)
    (hapart : ∀ name ∈ captureNames children, name ∉ captureNames nodes) :
    WrittenAs params (.optional children :: nodes) s
      (List.replicate (captureNames children).length none ++ groups) := by
  intro passed after dealt hparams hafter ht
  rw [zip_optional _ _ List.length_replicate, List.append_assoc] at hparams
  rw [zip_optional _ _ List.length_replicate]
  have hvalue : ¬hasValue params dealt children = true := by
    rw [ht.hasValue_iff hparams]
    rintro ⟨name, hname, hheld⟩
    apply hheld
    rw [Params.held_append, Params.held_zip_none, Params.held_append,
      Params.held_zip_of_not_mem (hapart name hname), hafter name (List.mem_append_left _ hname)]
    rfl
  obtain ⟨dealt', hr, ht'⟩ := h _ after dealt (fun name => by rw [hparams name, List.append_assoc])
    (fun name hname => hafter name (List.mem_append_right _ hname)) (ht.skip (captureNames children) _)
  refine ⟨dealt', renderNodes_cons (t := []) ?_ hr, by rwa [← List.append_assoc]⟩
  rw [renderNode, if_neg hvalue]

end WrittenAs

/-- **What is written for the values of a derivation** is the text that it derives. -/
theorem Derives.writtenAs (h : Derives cls nodes choices s groups) (hevident : areEvident nodes = true)
    (hapart : areApart nodes = true) (params : Params) : WrittenAs params nodes s groups := by
  induction h with
  | nil => exact .nil
  | text t _ ih =>
    rw [areEvident, Bool.and_eq_true] at hevident
    rw [areApart_cons_iff] at hapart
    exact (ih hevident.2 hapart.2.2).text t
  | named name _ _ _ ih =>
    rw [areEvident, Bool.and_eq_true] at hevident
    rw [areApart_cons_iff] at hapart
    exact (ih hevident.2 hapart.2.2).capture rfl _
  | wildcard _ _ ih =>
    rw [areEvident, Bool.and_eq_true] at hevident
    rw [areApart_cons_iff] at hapart
    exact (ih hevident.2 hapart.2.2).capture rfl _
  | namedWildcard name _ _ ih =>
    rw [areEvident, Bool.and_eq_true] at hevident
    rw [areApart_cons_iff] at hapart
    exact (ih hevident.2 hapart.2.2).capture rfl _
  | present hc _ ihc ih =>
    rw [areEvident, isEvident, Bool.and_eq_true, Bool.and_eq_true] at hevident
    rw [areApart_cons_iff] at hapart
    exact (ihc hevident.1.2 hapart.2.1).present (ih hevident.2 hapart.2.2) hc hevident.1.1 hapart.1
  | absent children _ ih =>
    rw [areEvident, Bool.and_eq_true] at hevident
    rw [areApart_cons_iff] at hapart
    exact (ih hevident.2 hapart.2.2).absent children hapart.1

/-- What a pattern matched is written again for the values that were found. -/
theorem render_collect (h : Derives cls nodes choices s groups) (hevident : areEvident nodes = true)
    (hapart : areApart nodes = true) :
    render nodes (Pattern.collect (captureNames nodes) groups) = .ok s := by
  obtain ⟨dealt, hr, _⟩ := h.writtenAs hevident hapart (Pattern.collect (captureNames nodes) groups)
    [] [] [] (fun name => by rw [Pattern.values_collect, List.append_nil]; rfl) (fun _ _ => rfl)
    (fun _ => rfl)
  rw [render, hr]
  rfl

end Render

end Node

/-! ## Patterns -/

namespace Pattern

theorem of_ofText {text : Text} {o : Options} {p : Pattern} (h : ofText text o = .ok p) :
    ∃ nodes, Node.parse text o = .ok nodes ∧ p.nodes = some nodes ∧
      p.names = some (Node.captureNames nodes) ∧ compile text nodes o.valueCharset = .ok p.regex := by
  simp only [ofText, bind_eq_ok_iff, mapError_eq_ok_iff] at h
  obtain ⟨_, _, nodes, hparse, r, hcompile, h⟩ := h
  cases h
  exact ⟨nodes, hparse, rfl, rfl, hcompile⟩

/-- The regex of a pattern is that of its nodes. -/
theorem eq_tree_of_compile {cls : CharClass} {text charset : Text} {nodes : List Node} {r : Regex}
    (hcharset : CharClass.ofCharset? charset = some cls) (h : compile text nodes charset = .ok r) :
    r = Node.tree cls nodes := by
  rw [Node.compile_eq hcharset] at h
  split at h
  · cases h
  · split at h
    · cases h
      rfl
    · cases h

/-- A match of a pattern reports the groups of its nodes. -/
theorem match?_ofText {text : Text} {o : Options} {p : Pattern} {cls : CharClass} {nodes : List Node}
    (hp : ofText text o = .ok p) (hcharset : CharClass.ofCharset? o.valueCharset = some cls)
    (hnodes : p.nodes = some nodes) (input : Text) :
    p.match? input = ((Node.tree cls nodes).captures input).map fun groups =>
      .named (collect (Node.captureNames nodes) groups) := by
  obtain ⟨nodes', _, hnodes', hnames, hcompile⟩ := of_ofText hp
  obtain rfl : nodes' = nodes := Option.some.inj (hnodes'.symm.trans hnodes)
  rw [match?, hnames, eq_tree_of_compile hcharset hcompile]

theorem render_eq_ok_iff {p : Pattern} {nodes : List Node} {params : Params} {s : Text}
    (hnodes : p.nodes = some nodes) :
    p.render params = .ok s ↔ Node.render nodes params = .ok s := by
  rw [render, hnodes]
  exact mapError_eq_ok_iff

/-- **Filling in what was matched gives back the text.** Each optional segment has to have a node that
captures directly in it, and its names must not occur again behind it. -/
theorem render_match? {text : Text} {o : Options} {p : Pattern} {cls : CharClass} {nodes : List Node}
    (hp : ofText text o = .ok p) (hcharset : CharClass.ofCharset? o.valueCharset = some cls)
    (hnodes : p.nodes = some nodes) (hevident : Node.areEvident nodes = true)
    (hapart : Node.areApart nodes = true) {input : Text} {params : Params}
    (h : p.match? input = some (.named params)) : p.render params = .ok input := by
  obtain ⟨nodes', _, hnodes', hnames, hcompile⟩ := of_ofText hp
  obtain rfl : nodes' = nodes := Option.some.inj (hnodes'.symm.trans hnodes)
  rw [match?, hnames, eq_tree_of_compile hcharset hcompile, Option.map_eq_some_iff] at h
  obtain ⟨groups, hcaptures, hparams⟩ := h
  obtain rfl : collect (Node.captureNames nodes') groups = params := MatchResult.named.inj hparams
  obtain ⟨choices, hd⟩ := Node.derives_of_captures hcaptures
  rw [render, hnodes]
  show (Node.render nodes' _).mapError _ = _
  rw [Node.render_collect hd hevident hapart]
  rfl

/-- A version with a part that may be missing, and anything behind it. -/
theorem render_match?_version :
    ∃ p params, ofText (Text.ofString "/v:major(.:minor)/*") {} = .ok p ∧
      p.match? (Text.ofString "/v1.2/resource") = some (.named params) ∧
      p.render params = .ok (Text.ofString "/v1.2/resource") := by
  obtain ⟨cls, hcharset⟩ : ∃ cls, CharClass.ofCharset? ({} : Options).valueCharset = some cls :=
    Option.isSome_iff_exists.mp (by decide +kernel)
  have hrun : (ofText (Text.ofString "/v:major(.:minor)/*") {}).toOption.any (fun p =>
      (p.nodes.any fun nodes => Node.areEvident nodes && Node.areApart nodes) &&
        (p.match? (Text.ofString "/v1.2/resource")).any fun result => result.named?.isSome) = true := by
    decide +kernel
  cases hp : ofText (Text.ofString "/v:major(.:minor)/*") {} with
  | error e =>
    rw [hp] at hrun
    cases hrun
  | ok p =>
    rw [hp] at hrun
    obtain ⟨hnodes, hmatch⟩ := Bool.and_eq_true_iff.mp hrun
    obtain ⟨nodes, hnodes, hboth⟩ := (Option.any_eq_true _ _).mp hnodes
    obtain ⟨hevident, hapart⟩ := Bool.and_eq_true_iff.mp hboth
    obtain ⟨result, hresult, hnamed⟩ := (Option.any_eq_true _ _).mp hmatch
    cases result with
    | positional groups => cases hnamed
    | named params =>
      exact ⟨p, params, rfl, hresult, render_match? hp hcharset hnodes hevident hapart hresult⟩

end Pattern

end RoutePattern
