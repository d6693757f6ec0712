import RoutePattern.Pattern.Grammar
import RoutePattern.Proofs.Parser.Combinators
import RoutePattern.Proofs.Pattern.Writing

/-!
# The rules of the pattern language

What the rules read, whatever the options are. Characters with a meaning of their own may coincide here,
so a token that is read need not be the only one that could be: the order in which the rules are tried
decides. What is left of this order in a token is that a wildcard without a name is read only where no
name follows it.

## Main definitions

* `Grammar.special_isSome`, `Grammar.delimitedName_eq_some` — the parts of rules.
* `Grammar.staticText_spec` — where static text begins and ends.
* `Grammar.TokenRead` — what is known of a token that was read (`Grammar.tokenRead`).
-/

namespace RoutePattern.Grammar

open Node (Stops)
open RoutePattern.Parser (literal_iff literal_eq_none literal_isSome literal_bind pick_two pick_three)

variable {g : Grammar} {s rest : Text} {node : Node}

/-! ## Names -/

theorem delimitedName_eq_some {name : Text} :
    g.delimitedName s = some (name, rest) ↔
      ∃ s', s = g.options.nameStart :: s' ∧
        Parser.fragment g.name s' = some (name, g.options.nameEnd.toList ++ rest) := by
  unfold delimitedName nameEnd
  cases g.options.nameEnd with
  | none =>
    rw [pick_two, literal_bind]
    rfl
  | some e =>
    rw [pick_three, literal_bind]
    refine exists_congr fun s' => and_congr_right fun _ => ?_
    simp only [Option.bind_eq_some_iff, Option.map_eq_some_iff]
    constructor
    · rintro ⟨⟨v, mid⟩, hv, ⟨w, rest'⟩, hw, h⟩
      cases h
      obtain ⟨_, rfl⟩ := literal_iff.mp hw
      exact hv
    · intro h
      exact ⟨_, h, ([e], rest), literal_iff.mpr ⟨rfl, rfl⟩, rfl⟩

/-! ## Wildcards -/

theorem namedWildcard_eq_some :
    g.namedWildcard s = some (node, rest) ↔
      ∃ name s', node = .namedWildcard name ∧ s = g.options.wildcard :: s' ∧
        g.delimitedName s' = some (name, rest) := by
  unfold namedWildcard Parser.map
  rw [Option.map_eq_some_iff]
  constructor
  · rintro ⟨⟨name, rest'⟩, h, heq⟩
    cases heq
    rw [pick_two, literal_bind] at h
    obtain ⟨s', rfl, h⟩ := h
    exact ⟨name, s', rfl, rfl, h⟩
  · rintro ⟨name, s', rfl, rfl, h⟩
    refine ⟨(name, rest), ?_, rfl⟩
    rw [pick_two, literal_bind]
    exact ⟨s', rfl, h⟩

theorem wildcard_iff :
    g.wildcard s = some (node, rest) ↔ node = .wildcard ∧ s = g.options.wildcard :: rest := by
  unfold wildcard Parser.map
  rw [Option.map_eq_some_iff]
  constructor
  · rintro ⟨⟨v, rest'⟩, h, heq⟩
    cases heq
    exact ⟨rfl, (literal_iff.mp h).2⟩
  · rintro ⟨rfl, rfl⟩
    exact ⟨([g.options.wildcard], rest), literal_iff.mpr ⟨rfl, rfl⟩, rfl⟩

/-! ## Static text -/

theorem special_isSome : (g.special s).isSome = true ↔ ∃ c ∈ s.head?, g.options.Ends c := by
  have hspecial : (g.special s).isSome = true ↔
      g.options.nameStart ∈ s.head? ∨ g.options.optionalStart ∈ s.head? ∨
        g.options.optionalEnd ∈ s.head? ∨ g.options.wildcard ∈ s.head? ∨
          (g.namedWildcard s).isSome = true := by
    simp [special, wildcard, Parser.firstOf, Parser.map, literal_isSome]
  -- behind a wildcard, a wildcard with a name is nothing new
  have hnamed (h : (g.namedWildcard s).isSome = true) : g.options.wildcard ∈ s.head? := by
    obtain ⟨⟨node, rest⟩, hsome⟩ := Option.isSome_iff_exists.mp h
    obtain ⟨_, _, _, rfl, _⟩ := namedWildcard_eq_some.mp hsome
    rfl
  rw [hspecial]
  constructor
  · rintro (h | h | h | h | h)
    · exact ⟨_, h, .inl rfl⟩
    · exact ⟨_, h, .inr (.inl rfl)⟩
    · exact ⟨_, h, .inr (.inr (.inl rfl))⟩
    · exact ⟨_, h, .inr (.inr (.inr rfl))⟩
    · exact ⟨_, hnamed h, .inr (.inr (.inr rfl))⟩
  · rintro ⟨c, hc, rfl | rfl | rfl | rfl⟩
    · exact .inl hc
    · exact .inr (.inl hc)
    · exact .inr (.inr (.inl hc))
    · exact .inr (.inr (.inr (.inl hc)))

/-- The parser of one character of static text. -/
def character (g : Grammar) : Parser Text := .firstOf [g.escapedChar, .anyChar]

theorem character_escaped (c : Char) (s : Text) :
    g.character (g.options.escape :: c :: s) = some ([c], s) := by
  have hescaped : g.escapedChar (g.options.escape :: c :: s) = some ([c], s) := by
    rw [escapedChar, pick_two, literal_bind]
    exact ⟨c :: s, rfl, rfl⟩
  rw [character, Parser.firstOf, hescaped]
  rfl

theorem character_bare {c : Char} (hc : c ≠ g.options.escape) (s : Text) :
    g.character (c :: s) = some ([c], s) := by
  have hescaped : g.escapedChar (c :: s) = none := by
    rw [escapedChar, pick_two]
    have hnone : Parser.literal [g.options.escape] (c :: s) = none :=
      literal_eq_none fun h => hc (Option.mem_some.mp h)
    rw [hnone]
    rfl
  rw [character, Parser.firstOf, hescaped]
  rfl

theorem character_last : g.character [g.options.escape] = some ([g.options.escape], []) := by
  have hescaped : g.escapedChar [g.options.escape] = none := by
    rw [escapedChar, pick_two, Option.eq_none_iff_forall_ne_some]
    intro r hr
    rw [literal_bind] at hr
    obtain ⟨rest, hrest, h⟩ := hr
    cases hrest
    cases h
  rw [character, Parser.firstOf, hescaped]
  rfl

/-- One character is read at the front of every text that is not empty. -/
theorem exists_character (hne : s ≠ []) :
    ∃ c rest, g.character s = some ([c], rest) ∧ rest.length < s.length := by
  cases s with
  | nil => exact absurd rfl hne
  | cons c s =>
    by_cases hc : c = g.options.escape
    · subst hc
      cases s with
      | nil => exact ⟨_, _, character_last, by simp⟩
      | cons d s =>
        refine ⟨d, s, character_escaped d s, ?_⟩
        rw [List.length_cons, List.length_cons]
        omega
    · exact ⟨c, s, character_bare hc s, by simp⟩

theorem character_eq_some {v : Text} (h : g.character s = some (v, rest)) :
    s ≠ [] ∧ v ≠ [] ∧ rest.length < s.length := by
  have hne : s ≠ [] := by
    rintro rfl
    cases h
  obtain ⟨c, rest', hc, hlt⟩ := exists_character (g := g) hne
  rw [h] at hc
  cases hc
  exact ⟨hne, List.cons_ne_nil _ _, hlt⟩

/-- Text that goes on begins with a character that does not end it. -/
theorem exists_not_ends (hgo : (g.special s).isSome = false) (hne : s ≠ []) :
    ∃ c ∈ s.head?, ¬g.options.Ends c := by
  cases s with
  | nil => exact absurd rfl hne
  | cons c s =>
    refine ⟨c, rfl, ?_⟩
    intro hends
    rw [special_isSome.mpr ⟨c, rfl, hends⟩] at hgo
    cases hgo

/-- Characters are read until text ends: each round takes one off, and there is always one to take. -/
theorem stops_of_runUntil {texts : List Text} (h : Parser.RunUntil g.character g.special s texts rest) :
    Stops g.options rest := by
  induction h with
  | stop hstop =>
    intro c hc
    obtain ⟨d, hd, hends⟩ := special_isSome.mp hstop
    rwa [Option.mem_unique hc hd]
  | none _ hp =>
    intro c hc
    obtain ⟨_, _, hsome, _⟩ := exists_character (g := g) (List.ne_nil_of_mem (List.mem_of_mem_head? hc))
    rw [hp] at hsome
    cases hsome
  | stall _ hp hlt => exact absurd (character_eq_some hp).2.2 hlt
  | round _ _ _ _ ih => exact ih

/-- **Static text** is not empty, begins with no character that would end it, and goes on as long as it
can. -/
theorem staticText_spec (h : g.staticText s = some (node, rest)) :
    ∃ t, node = .text t ∧ t ≠ [] ∧ (∃ c ∈ s.head?, ¬g.options.Ends c) ∧ Stops g.options rest := by
  unfold staticText Parser.map at h
  rw [Option.map_eq_some_iff] at h
  obtain ⟨⟨t, rest'⟩, h, heq⟩ := h
  cases heq
  obtain ⟨texts, hne, rfl, hrun⟩ := Parser.concatUntil_eq_some_iff.mp h
  refine ⟨_, rfl, ?_, ?_, stops_of_runUntil hrun⟩
  · cases hrun with
    | stop | none => exact absurd rfl hne
    | stall _ hp _ | round _ hp _ _ => simp [(character_eq_some hp).2.1]
  · cases hrun with
    | stop | none => exact absurd rfl hne
    | stall hgo hp _ | round hgo hp _ _ => exact exists_not_ends hgo (character_eq_some hp).1

/-! ## Other tokens -/

theorem namedSegment_eq_some :
    g.namedSegment s = some (node, rest) ↔
      ∃ name, node = .named name ∧ g.delimitedName s = some (name, rest) := by
  unfold namedSegment Parser.map
  rw [Option.map_eq_some_iff]
  constructor
  · rintro ⟨⟨name, rest'⟩, h, heq⟩
    cases heq
    exact ⟨name, rfl, h⟩
  · rintro ⟨name, rfl, h⟩
    exact ⟨(name, rest), h, rfl⟩

variable {inner : Parser (List Node)}

theorem optionalAround_iff :
    g.optionalAround inner s = some (node, rest) ↔
      ∃ children s', node = .optional children ∧ s = g.options.optionalStart :: s' ∧
        inner s' = some (children, g.options.optionalEnd :: rest) := by
  unfold optionalAround Parser.map
  rw [pick_three, Option.map_eq_some_iff]
  simp only [Option.bind_eq_some_iff, Option.map_eq_some_iff]
  constructor
  · rintro ⟨r, ⟨_, ⟨⟨v, s'⟩, hv, rfl⟩, ⟨children, mid⟩, hinner, _, ⟨⟨w, rest'⟩, hw, rfl⟩, rfl⟩, heq⟩
    cases heq
    obtain ⟨_, rfl⟩ := literal_iff.mp hv
    obtain ⟨_, rfl⟩ := literal_iff.mp hw
    exact ⟨children, s', rfl, rfl, hinner⟩
  · rintro ⟨children, s', rfl, rfl, hinner⟩
    refine ⟨(children, rest), ⟨([], s'), ⟨([g.options.optionalStart], s'), literal_iff.mpr ⟨rfl, rfl⟩, rfl⟩,
      (children, g.options.optionalEnd :: rest), hinner, ([], rest), ?_, rfl⟩, rfl⟩
    exact ⟨([g.options.optionalEnd], rest), literal_iff.mpr ⟨rfl, rfl⟩, rfl⟩

/-! ## The token that is read -/

/-- A token at the front of a text, up to a rest, where `inner` reads the pattern in an optional segment. -/
inductive TokenRead (g : Grammar) (inner : Parser (List Node)) : Text → Node → Text → Prop
  | namedWildcard {name s rest : Text} (h : g.delimitedName s = some (name, rest)) :
    TokenRead g inner (g.options.wildcard :: s) (.namedWildcard name) rest
  | wildcard {rest : Text} (h : g.delimitedName rest = none) :
    TokenRead g inner (g.options.wildcard :: rest) .wildcard rest
  | optional {s rest : Text} {children : List Node}
      (h : inner s = some (children, g.options.optionalEnd :: rest)) :
    TokenRead g inner (g.options.optionalStart :: s) (.optional children) rest
  | named {name s rest : Text} (h : g.delimitedName s = some (name, rest)) :
    TokenRead g inner s (.named name) rest
  | text {t s rest : Text} (h : g.staticText s = some (.text t, rest)) :
    TokenRead g inner s (.text t) rest

/-- **What is known of a token that was read.** -/
theorem tokenRead (h : g.tokenAround inner s = some (node, rest)) : TokenRead g inner s node rest := by
  simp only [tokenAround, Parser.firstOf, Option.or_eq_some_iff, reduceCtorEq, and_false, or_false] at h
  rcases h with h | ⟨hnone, h | ⟨_, h | ⟨_, h | ⟨_, h⟩⟩⟩⟩
  · obtain ⟨name, s', rfl, rfl, hname⟩ := namedWildcard_eq_some.mp h
    exact .namedWildcard hname
  · obtain ⟨rfl, rfl⟩ := wildcard_iff.mp h
    refine .wildcard ?_
    rw [Option.eq_none_iff_forall_ne_some]
    rintro ⟨name, mid⟩ hname
    rw [namedWildcard_eq_some.mpr ⟨name, rest, rfl, rfl, hname⟩] at hnone
    cases hnone
  · obtain ⟨children, s', rfl, rfl, hinner⟩ := optionalAround_iff.mp h
    exact .optional hinner
  · obtain ⟨name, rfl, hname⟩ := namedSegment_eq_some.mp h
    exact .named hname
  · obtain ⟨t, rfl, _⟩ := staticText_spec h
    exact .text h

/-! ## Whole texts -/

/-- A pattern inside so many optional segments is read in rounds of tokens. -/
theorem nested_of_rounds {nodes : List Node} (hne : nodes ≠ []) {depth : Nat}
    (h : Parser.rounds (g.tokenAround (g.nested depth)) s = (nodes, rest)) :
    g.nested (depth + 1) s = some (nodes, rest) := by
  rw [nested, Parser.many, h]
  cases nodes with
  | nil => exact absurd rfl hne
  | cons node nodes => rfl

end RoutePattern.Grammar

namespace RoutePattern.Node

/-- What becomes of a text that could be a pattern is decided by what is read at its front. -/
theorem parse_eq {o : Options} {g : Grammar} (hg : Grammar.ofOptions o = .ok g) {s : Text} (hne : s ≠ [])
    (hblank : s.any Text.isBlank = false) :
    parse s o =
      match g.pattern s with
      | none => .error (.unparsable s)
      | some (nodes, []) => .ok nodes
      | some (_, rest) => .error (.partialParse s (s.length - rest.length + 1)) := by
  rw [parse, if_neg hne, if_neg (Bool.eq_false_iff.mp hblank), hg]
  rfl

theorem parse_eq_error {o : Options} {e : PatternError} (hg : Grammar.ofOptions o = .error e) {s : Text}
    (hne : s ≠ []) (hblank : s.any Text.isBlank = false) : parse s o = .error e := by
  rw [parse, if_neg hne, if_neg (Bool.eq_false_iff.mp hblank), hg]
  rfl

theorem parse_eq_ok {o : Options} {g : Grammar} (hg : Grammar.ofOptions o = .ok g) {s : Text}
    {nodes : List Node} :
    parse s o = .ok nodes ↔
      s ≠ [] ∧ s.any Text.isBlank = false ∧ g.pattern s = some (nodes, []) := by
  by_cases hne : s = []
  · simp [parse, hne]
  by_cases hblank : s.any Text.isBlank = true
  · simp [parse, hne, hblank]
  rw [Bool.not_eq_true] at hblank
  rw [parse_eq hg hne hblank]
  constructor
  · intro h
    split at h
    · cases h
    · next hp =>
      cases h
      exact ⟨hne, hblank, hp⟩
    · cases h
  · rintro ⟨_, _, hp⟩
    rw [hp]

end RoutePattern.Node
