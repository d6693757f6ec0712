import RoutePattern.Proofs.Parser.Lossless
import RoutePattern.Proofs.Pattern.Recursion

/-!
# Parsing comes to an end

Every rule of the pattern language takes at least one character off the text, whatever the options are and
whatever the regex of names matches: a name is read behind a character of its own, wildcards and optional
segments begin with one, and static text is read character by character. So no round of a repetition takes
nothing, and a pattern in an optional segment is read behind a character that has been taken: uses of the
reference are nested no more deeply than the text is long.

Each node costs a character of its own, also inside optional segments, so what is read has no more nodes than
characters.

## Main definitions

* `Node.size`, `Node.sizes` — how many nodes there are, at every depth.
* `Parser.Costs` — a parser that takes off as many characters as its value weighs.
* `Assembly.IsRepeatedIn` — the parsers that are repeated inside another one.
* `Grammar.use_ends` — uses of rules come to an end, and what they take.
-/

namespace RoutePattern

/-! ## The size of what is read -/

namespace Node

mutual

/-- How many nodes a node and the nodes in it are. -/
def size : Node → Nat
  | .text _ | .named _ | .wildcard | .namedWildcard _ => 1
  | .optional children => sizes children + 1

/-- How many nodes these and the nodes in them are. -/
def sizes : List Node → Nat
  | [] => 0
  | node :: nodes => node.size + sizes nodes

end

theorem size_pos (node : Node) : 0 < node.size := by
  cases node <;> simp [size]

theorem sizes_eq_sum (nodes : List Node) : sizes nodes = (nodes.map size).sum := by
  induction nodes with
  | nil => rfl
  | cons node nodes ih => rw [sizes, ih, List.map_cons, List.sum_cons]

theorem sizes_pos {nodes : List Node} (h : nodes ≠ []) : 0 < sizes nodes := by
  cases nodes with
  | nil => exact absurd rfl h
  | cons node nodes => exact Nat.add_pos_left node.size_pos _

end Node

/-- How many nodes a rule gives. -/
def Grammar.Reading.size : Reading → Nat
  | .text _ => 0
  | .node n => n.size
  | .nodes ns => Node.sizes ns

/-! ## What values cost -/

namespace Parser

variable {α β : Type} {weight : α → Nat} {p : Parser α} {s rest : Text} {a : α} {as : List α}

/-- A parser takes at least as many characters off the text as its value weighs. -/
def Costs (weight : α → Nat) (p : Parser α) : Prop :=
  ∀ s a rest, p s = some (a, rest) → weight a + rest.length ≤ s.length

theorem RunUntil.sum_le {stop : Parser β} (hp : Costs weight p) (h : RunUntil p stop s as rest) :
    (as.map weight).sum + rest.length ≤ s.length := by
  induction h with
  | stop _ => simp
  | none _ _ => simp
  | stall _ h _ => simpa using hp _ _ _ h
  | round _ h _ _ ih =>
    have hround := hp _ _ _ h
    rw [List.map_cons, List.sum_cons]
    omega

theorem Run.sum_le (hp : Costs weight p) (h : Run p s as rest) :
    (as.map weight).sum + rest.length ≤ s.length :=
  h.runUntil.sum_le hp

theorem Costs.map {weight' : β → Nat} (hp : Costs weight p) {f : α → β} (hf : ∀ a, weight' (f a) ≤ weight a) :
    Costs weight' (.map f p) := by
  intro s b rest h
  unfold Parser.map at h
  rw [Option.map_eq_some_iff] at h
  obtain ⟨⟨a, rest'⟩, h, heq⟩ := h
  cases heq
  exact Nat.le_trans (Nat.add_le_add_right (hf a) _) (hp s a rest h)

theorem Costs.firstOf {ps : List (Parser α)} (hps : ∀ p ∈ ps, Costs weight p) : Costs weight (.firstOf ps) := by
  induction ps with
  | nil =>
    intro s a rest h
    cases h
  | cons p ps ih =>
    intro s a rest h
    rw [List.forall_mem_cons] at hps
    rw [Parser.firstOf, Option.or_eq_some_iff] at h
    rcases h with h | ⟨_, h⟩
    · exact hps.1 s a rest h
    · exact ih hps.2 s a rest h

end Parser

namespace Grammar

open RoutePattern.Parser (Costs)

variable {g : Grammar} {s rest : Text} {node : Node} {nodes : List Node} {inner : Parser (List Node)}

/-! ## What tokens cost -/

/-- One character, escaped or not, costs at least one. -/
theorem costs_character : Costs (fun _ => 1) g.character := by
  intro s v rest h
  show 1 + rest.length ≤ s.length
  have hlt := (character_eq_some h).2.2
  omega

theorem costs_escapedChar : Costs (fun _ => 1) g.escapedChar := by
  intro s v rest h
  refine costs_character (g := g) s v rest ?_
  rw [character, Parser.firstOf, h]
  rfl

/-- A name costs the character in front of it, whatever its regex matches. -/
theorem costs_delimitedName : Costs (fun _ => 1) g.delimitedName := by
  intro s name rest h
  obtain ⟨s', rfl, hname⟩ := delimitedName_eq_some.mp h
  have hle := (Parser.suffix_of_fragment hname).length_le
  rw [List.length_append] at hle
  show 1 + rest.length ≤ s'.length + 1
  omega

theorem costs_staticText : Costs Node.size g.staticText := by
  intro s node rest h
  unfold staticText Parser.map at h
  rw [Option.map_eq_some_iff] at h
  obtain ⟨⟨t, rest'⟩, h, heq⟩ := h
  cases heq
  obtain ⟨texts, hne, _, hrun⟩ := Parser.concatUntil_eq_some_iff.mp h
  have hsum := hrun.sum_le costs_character
  have hpos := List.length_pos_iff.mpr hne
  rw [List.map_const', List.sum_replicate_nat] at hsum
  rw [Node.size]
  omega

theorem costs_namedSegment : Costs Node.size g.namedSegment :=
  costs_delimitedName.map fun _ => Nat.le_refl _

theorem costs_wildcard : Costs Node.size g.wildcard := by
  intro s node rest h
  obtain ⟨rfl, rfl⟩ := wildcard_iff.mp h
  rw [Node.size, List.length_cons]
  omega

theorem costs_namedWildcard : Costs Node.size g.namedWildcard := by
  intro s node rest h
  obtain ⟨name, s', rfl, rfl, hname⟩ := namedWildcard_eq_some.mp h
  have hle : 1 + rest.length ≤ s'.length := costs_delimitedName _ _ _ hname
  rw [Node.size, List.length_cons]
  omega

/-- An optional segment costs a character more than what is read inside it. -/
theorem costs_optionalAround (hinner : Costs Node.sizes inner) : Costs Node.size (g.optionalAround inner) := by
  intro s node rest h
  obtain ⟨children, s', rfl, rfl, hchildren⟩ := optionalAround_iff.mp h
  have hle := hinner _ _ _ hchildren
  rw [List.length_cons] at hle
  rw [Node.size, List.length_cons]
  omega

/-- **A token costs a character for each node** that it gives, if what is read inside optional segments does. -/
theorem costs_tokenAround (hinner : Costs Node.sizes inner) : Costs Node.size (g.tokenAround inner) := by
  refine .firstOf ?_
  simp only [List.forall_mem_cons]
  exact ⟨costs_namedWildcard, costs_wildcard, costs_optionalAround hinner, costs_namedSegment, costs_staticText,
    fun _ hp => absurd hp List.not_mem_nil⟩

theorem ne_nil_of_nested {depth : Nat} (h : g.nested depth s = some (nodes, rest)) : nodes ≠ [] := by
  cases depth with
  | zero => cases h
  | succ depth => exact (Parser.many_eq_some_iff.mp h).1

/-- **A pattern costs a character for each node**, by induction on how deeply segments are nested. -/
theorem costs_nested (g : Grammar) (depth : Nat) : Costs Node.sizes (g.nested depth) := by
  induction depth with
  | zero =>
    intro s nodes rest h
    cases h
  | succ depth ih =>
    intro s nodes rest h
    obtain ⟨_, hrun⟩ := Parser.many_eq_some_iff.mp h
    rw [Node.sizes_eq_sum]
    exact hrun.sum_le (costs_tokenAround ih)

theorem costs_pattern (g : Grammar) : Costs Node.sizes g.pattern := by
  intro s nodes rest h
  exact costs_nested g _ s nodes rest h

/-- **Each rule takes a character**, and at least one for each node that it gives. -/
theorem costs_reading (g : Grammar) (rule : Rule) : Costs (fun r : Reading => max r.size 1) (g.reading rule) := by
  have hnode {p : Parser Node} (hp : Costs Node.size p) : Costs (fun r : Reading => max r.size 1) (.map .node p) :=
    hp.map fun node => Nat.max_le.mpr ⟨Nat.le_refl _, node.size_pos⟩
  cases rule with
  | escapedChar => exact costs_escapedChar.map fun _ => Nat.le_refl _
  | staticText => exact hnode costs_staticText
  | namedSegment => exact hnode costs_namedSegment
  | wildcard => exact hnode costs_wildcard
  | namedWildcard => exact hnode costs_namedWildcard
  | optionalSegment => exact hnode (costs_optionalAround (costs_pattern g))
  | token => exact hnode (costs_tokenAround (costs_pattern g))
  | pattern =>
    intro s r rest h
    unfold reading Parser.map at h
    rw [Option.map_eq_some_iff] at h
    obtain ⟨⟨nodes, rest'⟩, h, heq⟩ := h
    cases heq
    have hpos := Node.sizes_pos (ne_nil_of_nested h)
    have hle := costs_pattern g _ _ _ h
    show max (Node.sizes nodes) 1 + _ ≤ _
    omega

end Grammar

/-! ## What is repeated -/

namespace Assembly

variable {w : World} {a b part : Assembly} {parts bodies : List Assembly}

mutual

/-- What is repeated in a parser, other than behind its references. -/
def repeats : Assembly → List Assembly
  | .sequence parts | .pick _ parts | .firstOf parts => repeatsIn parts
  | .many part => part :: part.repeats
  | .concatUntil part stop => part :: (part.repeats ++ stop.repeats)
  | .map _ part | .deferred part | .weak _ part => part.repeats
  | .literal _ | .fragment _ | .anyChar | .fail | .reference _ => []

/-- What is repeated in parsers, other than behind their references. -/
def repeatsIn : List Assembly → List Assembly
  | [] => []
  | part :: parts => part.repeats ++ repeatsIn parts

end

/-- A parser is repeated somewhere inside another one, maybe behind references. -/
def IsRepeatedIn (w : World) (part a : Assembly) : Prop :=
  Contains w a (.many part) ∨ ∃ stop, Contains w a (.concatUntil part stop)

theorem repeats_subset_repeatsIn (h : part ∈ parts) : part.repeats ⊆ repeatsIn parts := by
  induction parts with
  | nil => cases h
  | cons other parts ih =>
    rw [repeatsIn]
    rcases List.mem_cons.mp h with rfl | h
    · exact List.subset_append_left _ _
    · exact List.subset_append_of_subset_right _ (ih h)

/-- What is repeated in a part is repeated in the whole, or behind a reference. -/
theorem repeats_subset_of_mem_parts (hw : ∀ i b, w.target? i = some b → b.repeats ⊆ bodies)
    (ha : a.repeats ⊆ bodies) (hb : b ∈ a.parts w) : b.repeats ⊆ bodies := by
  cases a with
  | sequence parts | pick _ parts | firstOf parts => exact List.Subset.trans (repeats_subset_repeatsIn hb) ha
  | many part =>
    obtain rfl := List.mem_singleton.mp hb
    exact List.Subset.trans (List.subset_cons_self _ _) ha
  | concatUntil part stop =>
    have hinner : part.repeats ++ stop.repeats ⊆ bodies := List.Subset.trans (List.subset_cons_self _ _) ha
    rcases List.mem_pair.mp hb with rfl | rfl
    · exact List.Subset.trans (List.subset_append_left _ _) hinner
    · exact List.Subset.trans (List.subset_append_right _ _) hinner
  | map _ part | deferred part | weak _ part =>
    obtain rfl := List.mem_singleton.mp hb
    exact ha
  | reference i => exact hw i b (Option.mem_toList.mp hb)
  | literal _ | fragment _ | anyChar | fail => cases hb

/-- **What is repeated inside a parser** is among what is repeated in it and in what references lead to. -/
theorem IsRepeatedIn.mem (hw : ∀ i b, w.target? i = some b → b.repeats ⊆ bodies) (ha : a.repeats ⊆ bodies)
    (h : IsRepeatedIn w part a) : part ∈ bodies := by
  have hinside {b : Assembly} (hb : Contains w a b) : b.repeats ⊆ bodies :=
    hb.forall (P := fun b => b.repeats ⊆ bodies) (fun _ hb _ hc => repeats_subset_of_mem_parts hw hb hc) ha
  rcases h with h | ⟨stop, h⟩
  · exact hinside h List.mem_cons_self
  · exact hinside h List.mem_cons_self

end Assembly

namespace Grammar

open Assembly (run call IsRepeatedIn repeats repeatsIn)

variable {g : Grammar} {w u : World} {s rest : Text} {α : Type} {call' : Nat → Live Value}

/-- One character of static text. -/
def characterParts (g : Grammar) : Assembly := .firstOf [g.escapedCharParts, .anyChar]

/-- Characters of static text and tokens are repeated in a grammar, and nothing else. -/
theorem repeats_assembly (g : Grammar) (rule : Rule) :
    (g.assembly rule).repeats ⊆ [g.tokenParts, g.characterParts] := by
  have hend : repeatsIn g.nameEndParts = [] := by
    unfold nameEndParts
    cases g.options.nameEnd <;> rfl
  have hname : g.delimitedNameParts.repeats = [] := hend
  have hstatic : g.staticTextParts.repeats = [g.characterParts] := by
    simp [staticTextParts, specialParts, wildcardParts, namedWildcardParts, escapedCharParts, characterParts,
      repeats, repeatsIn, hname]
  have htoken : g.tokenParts.repeats = [g.characterParts] := by
    simp [tokenParts, namedWildcardParts, wildcardParts, optionalSegmentParts, namedSegmentParts, repeats,
      repeatsIn, hname, hstatic]
  cases rule with
  | escapedChar | wildcard | optionalSegment => exact List.nil_subset _
  | staticText => simp [assembly, hstatic]
  | namedSegment => simp [assembly, namedSegmentParts, repeats, hname]
  | namedWildcard => simp [assembly, namedWildcardParts, repeats, repeatsIn, hname]
  | token => simp [assembly, htoken]
  | pattern => simp [assembly, patternParts, repeats, htoken]

/-- All references of a grammar lead to the pattern. -/
theorem eq_of_target? (hw : g.world.Reaches w) {i : Nat} {a : Assembly} (h : w.target? i = some a) :
    a = g.patternParts := by
  induction hw with
  | refl =>
    cases i with
    | zero => exact (Option.some.inj h).symm
    | succ i => cases h
  | use _ j ih =>
    rw [World.target?_resolve] at h
    exact ih h

theorem reaches_of_uses {earlier : List (Rule × Text)} (h : g.uses earlier w = some u) : w.Reaches u := by
  induction earlier generalizing w with
  | nil =>
    cases h
    exact .refl
  | cons first earlier ih =>
    obtain ⟨rule, s⟩ := first
    rw [uses] at h
    cases hr : (g.assembly rule).parse s w with
    | none => simp [use, hr] at h
    | some r =>
      rw [use, hr] at h
      exact (Assembly.proceeds_of_parse hr).reaches.trans (ih h)

/-- What an assembly reads is what the parser reads. -/
theorem Reads.exists_eq {V : Value → α → Prop} {a : Assembly} {p : Parser α} (h : Reads g call' V a p s)
    (hu : g.Tied u) {v : Value} (hrun : run call' a s u = some (some (v, rest), w)) :
    ∃ x, p s = some (x, rest) := by
  obtain ⟨r, hr, halike⟩ := h u u (p s, u) hu rfl
  rw [hrun] at hr
  cases hr
  generalize p s = found at halike
  cases halike with
  | some _ _ _ => exact ⟨_, rfl⟩

/-- **No round of a repetition takes nothing**, at whatever depth it is run. -/
theorem Tied.length_lt_of_run (hu : g.Tied u) {part : Assembly} (hpart : part ∈ [g.tokenParts, g.characterParts])
    {depth : Nat} {v : Value} (hrun : run (call depth) part s u = some (some (v, rest), w)) :
    rest.length < s.length := by
  rcases List.mem_pair.mp hpart with rfl | rfl
  · have hparse : g.tokenParts.parse s u = some (some (v, rest), w) := Assembly.parse_eq_some_iff.mpr ⟨depth, hrun⟩
    obtain ⟨x, hx⟩ := (reads_rule (u.length_le_depth s) .token).exists_eq hu hparse
    have hle : max x.size 1 + rest.length ≤ s.length := costs_reading g .token s x rest hx
    omega
  · have hreads : Reads g (call depth) IsText g.characterParts g.character s :=
      reads_firstOf (.cons (reads_escapedChar s) (.cons (reads_anyChar s) .nil))
    obtain ⟨x, hx⟩ := hreads.exists_eq hu hrun
    exact (character_eq_some hx).2.2

/-- What a rule takes off the front of a text: something, and no less than it gives nodes. -/
theorem exists_taken {rule : Rule} {r : Reading} (h : g.reading rule s = some (r, rest)) :
    ∃ taken, s = taken ++ rest ∧ taken ≠ [] ∧ r.size ≤ taken.length := by
  have hsuffix : rest <:+ s := by
    obtain ⟨_, _, halike⟩ := reads_rule (g.world.length_le_depth s) rule g.world g.world _ (tied_world g) rfl
    rw [h] at halike
    cases halike with
    | some hrest _ _ => exact hrest
  have hle : max r.size 1 + rest.length ≤ s.length := costs_reading g rule s r rest h
  obtain ⟨taken, rfl⟩ := hsuffix
  rw [List.length_append] at hle
  refine ⟨taken, rfl, ?_, by omega⟩
  rintro rfl
  rw [List.length_nil] at hle
  omega

/-! ## Parsing comes to an end -/

/-- **Parsing comes to an end** for all options, after any uses of rules, all of which come to an end.

* Each rule comes to an end on each text, with uses of the reference nested no more deeply than the text is
  long. If it matches, it takes at least one character off the front, and no fewer than it gives nodes,
  those in optional segments included.
* No parser that is repeated inside a rule ever takes nothing, wherever it is run. -/
theorem use_ends (g : Grammar) (earlier : List (Rule × Text)) :
    ∃ w, g.uses earlier g.world = some w ∧
      (∀ rule s,
        (∀ depth, s.length ≤ depth → (run (call depth) (g.assembly rule) s w).isSome = true) ∧
        ∃ found u, g.use rule s w = some (found, u) ∧
          ∀ r rest, found = some (r, rest) →
            ∃ taken, s = taken ++ rest ∧ taken ≠ [] ∧ r.size ≤ taken.length) ∧
      ∀ rule part, IsRepeatedIn w part (g.assembly rule) →
        ∀ depth s v rest u u', w.Reaches u → run (call depth) part s u = some (some (v, rest), u') →
          rest.length < s.length := by
  obtain ⟨w, huses, hw⟩ := (tied_world g).exists_uses earlier
  refine ⟨w, huses, fun rule s => ⟨fun depth hdepth => ?_, ?_⟩, ?_⟩
  · obtain ⟨r, hr, _⟩ := reads_rule hdepth rule w w _ hw rfl
    rw [hr]
    rfl
  · obtain ⟨u, huse, _⟩ := hw.use_eq rule s
    exact ⟨_, u, huse, fun r rest hfound => exists_taken hfound⟩
  · intro rule part hpart depth s v rest u u' hu hrun
    have hmem : part ∈ [g.tokenParts, g.characterParts] := by
      refine hpart.mem (fun i b hb => ?_) (repeats_assembly g rule)
      rw [eq_of_target? (reaches_of_uses huses) hb]
      exact repeats_assembly g .pattern
    exact (hw.reaches hu).length_lt_of_run hmem hrun

end Grammar

end RoutePattern
