import RoutePattern.Pattern.Live
import RoutePattern.Proofs.Parser.Depth
import RoutePattern.Proofs.Parser.Pure
import RoutePattern.Proofs.Pattern.Rules

/-!
# The recursion of the pattern language

A grammar in use has a reference from the optional segment to the pattern, which is resolved when an optional
segment is first opened. Nothing of that can be seen: the reference leads to the pattern before and after its
first use, so that all rules give what the equations of the language say, after any uses of any rules.

Each rule follows its equation if the reference does where an optional segment has been opened. That takes a
character off the text, so the reference follows the equations of the pattern by induction on how deeply its
uses are nested.

## Main definitions

* `Grammar.reading` — what a rule gives by the equations of the language.
* `Grammar.Tied` — the reference leads to the pattern.
* `Grammar.Reads` — an assembly reads what a parser reads, at one place of the text.
* `Grammar.uses` — a grammar after uses of rules, and what its rules then give (`Grammar.use_after_uses`).
-/

namespace RoutePattern.Grammar

open Assembly (run runs_eq_map call)
open Live (Follows Row)

/-- What a rule gives by the equations of the language. -/
def reading (g : Grammar) : Rule → Parser Reading
  | .escapedChar => .map .text g.escapedChar
  | .staticText => .map .node g.staticText
  | .namedSegment => .map .node g.namedSegment
  | .wildcard => .map .node g.wildcard
  | .namedWildcard => .map .node g.namedWildcard
  | .optionalSegment => .map .node g.optionalSegment
  | .token => .map .node g.token
  | .pattern => .map .nodes g.pattern

/-- The reference leads to the pattern. -/
def Tied (g : Grammar) (w : World) : Prop := w.target? patternReference = some g.patternParts

variable {g : Grammar} {w u : World} {s : Text} {α β : Type} {call' : Nat → Live Value}

theorem tied_world (g : Grammar) : g.Tied g.world := rfl

theorem Tied.resolve (h : g.Tied w) (i : Nat) : g.Tied (w.resolve i) :=
  (w.target?_resolve i patternReference).trans h

/-- No use of a reference unties a grammar. -/
theorem Tied.reaches (h : g.Tied w) (hu : w.Reaches u) : g.Tied u := by
  induction hu with
  | refl => exact h
  | use _ i ih => exact ih.resolve i

/-! ## Reading the same -/

/-- An assembly reads what a parser reads, in worlds where the reference leads to the pattern. -/
def Reads (g : Grammar) (call' : Nat → Live Value) (V : Value → α → Prop) (a : Assembly) (p : Parser α)
    (s : Text) : Prop :=
  Follows (fun u _ => g.Tied u) (fun v x _ => V v x) s (run call' a) (.pure p)

/-- A value that is a text. -/
def IsText (v : Value) (t : Text) : Prop := v = .text t

/-- A value that is a node. -/
def IsNode (v : Value) (node : Node) : Prop := Node.ofValue? v = some node

/-- A value that is a row of nodes. -/
def IsNodes (v : Value) (nodes : List Node) : Prop :=
  ∃ items, v = .list items ∧ Node.ofValues? items = some nodes

theorem reads_map {V : Value → α → Prop} {U : Value → β → Prop} {a : Assembly} {p : Parser α} {f : Value → Value}
    {f' : α → β} (h : Reads g call' V a p s) (hV : ∀ v x, V v x → U (f v) (f' x)) :
    Reads g call' U (.map f a) (.map f' p) s := by
  unfold Reads
  rw [run, Live.pure_map]
  exact Follows.map h fun v x _ _ hv => hV v x hv

/-- An atom that gives its text. -/
theorem follows_atom {p : Parser Text} (hp : ∀ v rest, p s = some (v, rest) → rest <:+ s) :
    Follows (fun u _ => g.Tied u) (fun v t _ => IsText v t) s (.map .text (.pure p)) (.pure p) := by
  refine Follows.map_left (V := Live.Same) (.pure fun w w' hw => ?_) fun t t' _ h => congrArg Value.text h
  cases h : p s with
  | none => exact .none hw
  | some r => exact .some (hp _ _ h) rfl hw

theorem reads_literal (t s : Text) : Reads g call' IsText (.literal t) (.literal t) s := by
  unfold Reads
  rw [run]
  exact follows_atom fun _ _ h => Parser.suffix_of_literal h

theorem reads_fragment (r : Regex) (s : Text) : Reads g call' IsText (.fragment r) (.fragment r) s := by
  unfold Reads
  rw [run]
  exact follows_atom fun _ _ h => Parser.suffix_of_fragment h

theorem reads_anyChar (s : Text) : Reads g call' IsText .anyChar .anyChar s := by
  unfold Reads
  rw [run]
  exact follows_atom fun _ _ h => Parser.suffix_of_anyChar h

theorem reads_pick {V : Value → α → Prop} {index : Nat} {parts : List Assembly} {ps : List (Parser α)}
    (h : List.Forall₂ (fun a p => ∀ s, Reads g call' V a p s) parts ps) (s : Text) :
    Reads g call' V (.pick index parts) (.pick index ps) s := by
  unfold Reads
  rw [run, runs_eq_map, Live.pure_pick]
  refine Follows.pick (V := fun _ v x _ => V v x) ?_ fun vs xs rest hrow => hrow.rel_getElem? index
  rw [List.forall₂_map_left_iff, List.forall₂_map_right_iff]
  exact h.imp fun _ _ hreads s' _ => hreads s'

theorem reads_firstOf {V : Value → α → Prop} {parts : List Assembly} {ps : List (Parser α)}
    (h : List.Forall₂ (fun a p => Reads g call' V a p s) parts ps) :
    Reads g call' V (.firstOf parts) (.firstOf ps) s := by
  unfold Reads
  rw [run, runs_eq_map, Live.pure_firstOf]
  refine .firstOf ?_
  rw [List.forall₂_map_left_iff, List.forall₂_map_right_iff]
  exact h

/-! ## Rules without a pattern in them -/

theorem reads_escapedChar (s : Text) : Reads g call' IsText g.escapedCharParts g.escapedChar s :=
  reads_pick (.cons (reads_literal _) (.cons reads_anyChar .nil)) s

theorem reads_nameEnd (g : Grammar) :
    List.Forall₂ (fun a p => ∀ s, Reads g call' IsText a p s) g.nameEndParts g.nameEnd := by
  unfold nameEndParts nameEnd
  cases g.options.nameEnd with
  | none => exact .nil
  | some c => exact .cons (reads_literal _) .nil

theorem reads_delimitedName (s : Text) : Reads g call' IsText g.delimitedNameParts g.delimitedName s :=
  reads_pick (.cons (reads_literal _) (.cons (reads_fragment _) (reads_nameEnd g))) s

theorem reads_namedSegment (s : Text) : Reads g call' IsNode g.namedSegmentParts g.namedSegment s := by
  refine reads_map (reads_delimitedName s) ?_
  rintro v t rfl
  rfl

theorem reads_wildcard (s : Text) : Reads g call' IsNode g.wildcardParts g.wildcard s := by
  refine reads_map (reads_literal _ s) ?_
  rintro v t rfl
  rfl

theorem reads_namedWildcard (s : Text) : Reads g call' IsNode g.namedWildcardParts g.namedWildcard s := by
  refine reads_map (reads_pick (.cons (reads_literal _) (.cons reads_delimitedName .nil)) s) ?_
  rintro v t rfl
  rfl

/-- A parser of which only the text that it takes counts. -/
theorem Reads.dropped {V : Value → α → Prop} {a : Assembly} {p : Parser α} (h : Reads g call' V a p s) :
    Reads g call' (fun _ _ => True) a (.map (fun _ => ()) p) s := by
  unfold Reads
  rw [Live.pure_map]
  exact Follows.map_right h fun _ _ _ _ => trivial

theorem reads_special (s : Text) : Reads g call' (fun _ _ => True) g.specialParts g.special s :=
  reads_firstOf (.cons (reads_literal _ s).dropped (.cons (reads_literal _ s).dropped
    (.cons (reads_literal _ s).dropped (.cons (reads_wildcard s).dropped
      (.cons (reads_namedWildcard s).dropped .nil)))))

theorem reads_staticText (s : Text) : Reads g call' IsNode g.staticTextParts g.staticText s := by
  have hcharacter (s : Text) : Reads g call' IsText (.firstOf [g.escapedCharParts, .anyChar])
      (.firstOf [g.escapedChar, .anyChar]) s :=
    reads_firstOf (.cons (reads_escapedChar s) (.cons (reads_anyChar s) .nil))
  have htexts : Reads g call' IsText
      (.concatUntil (.firstOf [g.escapedCharParts, .anyChar]) g.specialParts)
      (.concatUntil (.firstOf [g.escapedChar, .anyChar]) g.special) s := by
    unfold Reads
    rw [run, Live.pure_concatUntil]
    refine Follows.map_left (V := Live.Same) ?_ fun t t' _ h => congrArg Value.text h
    refine .concatUntil (fun s' _ => ?_) (fun s' _ => reads_special s') fun ts ts' _ h => congrArg List.flatten h.eq
    refine Follows.map_left (hcharacter s') ?_
    rintro v t _ rfl
    rfl
  refine reads_map htexts ?_
  rintro v t rfl
  rfl

/-! ## Rules around a pattern -/

section Around

variable {inner : Parser (List Node)}

/-- What begins or ends an optional segment takes a character off the text. -/
theorem follows_delimiter (c : Char) :
    Follows (fun u _ => g.Tied u) (fun _ _ rest => rest.length < s.length) s (run call' (.literal [c]))
      (.pure (.map (fun _ => ([] : List Node)) (.literal [c]))) := by
  rw [run, ← Live.pure_map]
  refine .pure fun w w' hw => ?_
  unfold Parser.map
  cases h : Parser.literal [c] s with
  | none => exact .none hw
  | some r =>
    obtain ⟨_, rfl⟩ := Parser.literal_iff.mp h
    exact .some (List.suffix_cons c _) (Nat.lt_succ_self _) hw

/-- The pattern in an optional segment is read where the segment has been opened. -/
theorem reads_optionalSegment
    (hinner : ∀ y, y.length < s.length → Reads g call' IsNodes (.reference patternReference) inner y) :
    Reads g call' IsNode g.optionalSegmentParts (g.optionalAround inner) s := by
  have hpick : Reads g call' IsNodes
      (.pick 1 [.literal [g.options.optionalStart], .reference patternReference,
        .literal [g.options.optionalEnd]])
      (.pick 1 [.map (fun _ => []) (.literal [g.options.optionalStart]), inner,
        .map (fun _ => []) (.literal [g.options.optionalEnd])]) s := by
    unfold Reads
    rw [run, runs_eq_map, Live.pure_pick]
    simp only [List.map_cons, List.map_nil, Live.pick_three]
    refine (follows_delimiter _).andThen fun _ _ y _ hlt => ?_
    refine Follows.andThen (hinner y hlt) fun v nodes mid _ hv => ?_
    exact (follows_delimiter _).map fun _ _ _ _ _ => hv
  refine reads_map hpick ?_
  rintro v nodes ⟨items, rfl, h⟩
  show (Node.ofValues? items).map Node.optional = some (Node.optional nodes)
  rw [h]
  rfl

theorem reads_token
    (hinner : ∀ y, y.length < s.length → Reads g call' IsNodes (.reference patternReference) inner y) :
    Reads g call' IsNode g.tokenParts (g.tokenAround inner) s :=
  reads_firstOf <|
    .cons (reads_namedWildcard s) <| .cons (reads_wildcard s) <| .cons (reads_optionalSegment hinner) <|
      .cons (reads_namedSegment s) <| .cons (reads_staticText s) .nil

theorem isNodes_of_row {vs : List Value} {nodes : List Node} {rest : Text}
    (h : Row (fun _ v node _ => IsNode v node) s vs nodes rest) : IsNodes (.list vs) nodes := by
  refine ⟨vs, rfl, ?_⟩
  induction h with
  | nil => rfl
  | cons hv _ ih =>
    rw [Node.ofValues?, hv, ih]
    rfl

theorem reads_many
    (hinner : ∀ y, y.length < s.length → Reads g call' IsNodes (.reference patternReference) inner y) :
    Reads g call' IsNodes g.patternParts (.many (g.tokenAround inner)) s := by
  unfold Reads
  rw [patternParts, run, Live.pure_many]
  refine Follows.map_left (.many fun s' hs' => ?_) fun vs nodes _ h => isNodes_of_row h
  exact reads_token fun y hy => hinner y (Nat.lt_of_lt_of_le hy hs'.length_le)

end Around

/-! ## The recursion -/

/-- The reference reads a pattern, if its uses may be nested as deeply as the text is long. -/
theorem reads_reference {depth limit : Nat} {s : Text} (hdepth : s.length < depth) (hlimit : s.length < limit) :
    Reads g (call depth) IsNodes (.reference patternReference) (g.nested limit) s := by
  induction depth generalizing limit s with
  | zero => exact absurd hdepth (Nat.not_lt_zero _)
  | succ depth ih =>
    cases limit with
    | zero => exact absurd hlimit (Nat.not_lt_zero _)
    | succ limit =>
      intro w w' r' hw hr'
      rw [run, Assembly.call_succ, hw]
      exact reads_many (fun y hy => ih (by omega) (by omega)) _ w' r' (hw.resolve _) hr'

/-! ## Rules -/

/-- What a rule gives, as a reading. -/
def IsReading (v : Value) (r : Reading) : Prop := Reading.ofValue? v = some r

theorem isReading_of_isNode {v : Value} {node : Node} (h : IsNode v node) : IsReading v (.node node) := by
  cases v with
  | text t | list items => cases h
  | tagged key value => exact congrArg (Option.map Reading.node) h

theorem isReading_of_isNodes {v : Value} {nodes : List Node} (h : IsNodes v nodes) : IsReading v (.nodes nodes) := by
  obtain ⟨items, rfl, h⟩ := h
  exact congrArg (Option.map Reading.nodes) h

theorem reads_reading {V : Value → α → Prop} {a : Assembly} {p : Parser α} {f : α → Reading}
    (h : Reads g call' V a p s) (hV : ∀ {v x}, V v x → IsReading v (f x)) :
    Reads g call' IsReading a (.map f p) s := by
  unfold Reads
  rw [Live.pure_map]
  exact Follows.map_right h fun _ _ _ hv => hV hv

/-- **Each rule reads what its equation says.** -/
theorem reads_rule {depth : Nat} {s : Text} (h : s.length ≤ depth) (rule : Rule) :
    Reads g (call depth) IsReading (g.assembly rule) (g.reading rule) s := by
  have hnested (y : Text) (hy : y.length < s.length) {limit : Nat} (hlimit : y.length < limit) :
      Reads g (call depth) IsNodes (.reference patternReference) (g.nested limit) y :=
    reads_reference (Nat.lt_of_lt_of_le hy h) hlimit
  have hinner (y : Text) (hy : y.length < s.length) :
      Reads g (call depth) IsNodes (.reference patternReference) g.pattern y :=
    hnested y hy (Nat.lt_succ_self y.length)
  cases rule with
  | escapedChar => exact reads_reading (reads_escapedChar s) fun h => h ▸ rfl
  | staticText => exact reads_reading (reads_staticText s) isReading_of_isNode
  | namedSegment => exact reads_reading (reads_namedSegment s) isReading_of_isNode
  | wildcard => exact reads_reading (reads_wildcard s) isReading_of_isNode
  | namedWildcard => exact reads_reading (reads_namedWildcard s) isReading_of_isNode
  | optionalSegment => exact reads_reading (reads_optionalSegment hinner) isReading_of_isNode
  | token => exact reads_reading (reads_token hinner) isReading_of_isNode
  | pattern =>
    have hpattern : Reads g (call depth) IsNodes g.patternParts (g.nested (s.length + 1)) s :=
      reads_many fun y hy => hnested y hy hy
    exact reads_reading hpattern isReading_of_isNodes

/-! ## Use -/

/-- **One use of a rule** comes to an end, gives what the equation of the rule says, and does not untie the
grammar. -/
theorem Tied.use_eq (hw : g.Tied w) (rule : Rule) (s : Text) :
    ∃ u, g.use rule s w = some (g.reading rule s, u) ∧ g.Tied u := by
  obtain ⟨r, hr, halike⟩ := reads_rule (w.length_le_depth s) rule w w (g.reading rule s, w) hw rfl
  unfold use Assembly.parse
  rw [hr]
  generalize g.reading rule s = found at halike
  cases halike with
  | none hu => exact ⟨_, rfl, hu⟩
  | @some v x rest u _ _ hv hu =>
    refine ⟨u, ?_, hu⟩
    show some ((Reading.ofValue? v).map (·, rest), u) = some (some (x, rest), u)
    rw [hv]
    rfl

/-- A grammar after uses of its rules, if all of them come to an end. -/
def uses (g : Grammar) : List (Rule × Text) → World → Option World
  | [], w => some w
  | (rule, s) :: earlier, w =>
    match g.use rule s w with
    | none => none
    | some (_, w) => uses g earlier w

theorem Tied.exists_uses (hw : g.Tied w) (earlier : List (Rule × Text)) :
    ∃ u, g.uses earlier w = some u ∧ g.Tied u := by
  induction earlier generalizing w with
  | nil => exact ⟨w, rfl, hw⟩
  | cons call earlier ih =>
    obtain ⟨rule, s⟩ := call
    obtain ⟨u, huse, hu⟩ := hw.use_eq rule s
    rw [uses, huse]
    exact ih hu

/-- The equation of an optional segment. -/
theorem reading_optionalSegment_iff {nodes : List Node} {rest : Text} :
    g.reading .optionalSegment s = some (.node (.optional nodes), rest) ↔
      ∃ y, s = g.options.optionalStart :: y ∧
        g.reading .pattern y = some (.nodes nodes, g.options.optionalEnd :: rest) := by
  unfold reading Parser.map optionalSegment
  simp only [Option.map_eq_some_iff]
  constructor
  · rintro ⟨⟨node, rest'⟩, h, heq⟩
    cases heq
    obtain ⟨children, y, hnode, rfl, hy⟩ := optionalAround_iff.mp h
    cases hnode
    exact ⟨y, rfl, _, hy, rfl⟩
  · rintro ⟨y, rfl, ⟨children, rest'⟩, hy, heq⟩
    cases heq
    exact ⟨_, optionalAround_iff.mpr ⟨_, y, rfl, rfl, hy⟩, rfl⟩

/-- **The recursion cannot be seen.** After any uses of rules, all of which come to an end,

* the reference leads to the pattern, wherever further uses of references lead to;
* each rule gives what it gives in a grammar that has not been used, which is what its equation says;
* an optional segment is read if and only if a pattern is read between the characters that begin and end it. -/
theorem use_after_uses (g : Grammar) (earlier : List (Rule × Text)) :
    ∃ w, g.uses earlier g.world = some w ∧
      (∀ u, w.Reaches u → (u.use patternReference).1 = some g.patternParts) ∧
      (∀ rule s, (g.use rule s w).map Prod.fst = (g.use rule s g.world).map Prod.fst ∧
        (g.use rule s w).map Prod.fst = some (g.reading rule s)) ∧
      ∀ s nodes rest,
        (g.use .optionalSegment s w).map Prod.fst = some (some (.node (.optional nodes), rest)) ↔
          ∃ y, s = g.options.optionalStart :: y ∧
            (g.use .pattern y w).map Prod.fst = some (some (.nodes nodes, g.options.optionalEnd :: rest)) := by
  have hgives {w : World} (hw : g.Tied w) (rule : Rule) (s : Text) :
      (g.use rule s w).map Prod.fst = some (g.reading rule s) := by
    obtain ⟨u, huse, _⟩ := hw.use_eq rule s
    rw [huse]
    rfl
  obtain ⟨w, huses, hw⟩ := (tied_world g).exists_uses earlier
  refine ⟨w, huses, fun u hu => hw.reaches hu, fun rule s => ⟨?_, hgives hw rule s⟩, fun s nodes rest => ?_⟩
  · rw [hgives hw, hgives (tied_world g)]
  · simp only [hgives hw, Option.some.injEq]
    exact reading_optionalSegment_iff

end RoutePattern.Grammar
