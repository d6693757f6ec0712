import RoutePattern.Pattern.Node
import RoutePattern.Regex.CharClass

/-!
# Derivations

What a pattern describes, read off its tree. A derivation cuts a text into pieces, one for each node,
and says of each optional segment whether it is there. Of two derivations, the one that differs in the
more preferred way at the first choice comes first.

## Main definitions

* `Choice` — what is left open by a node.
* `Node.Derives` — a text that is derived from nodes, with the choices made and the groups captured.
* `Choice.Earlier` — the order of derivations by their choices.
* `Node.FirstDerived` — the derivation of a text that comes first.
-/

namespace RoutePattern

/-- What is left open by a node. -/
inductive Choice where
  /-- The value of a named segment. -/
  | value (v : Text)
  /-- What a wildcard stands for. -/
  | filler (v : Text)
  /-- An optional segment is there, with the choices in it. -/
  | present (inner : List Choice)
  /-- An optional segment is missing. -/
  | absent

namespace Node

/-- A text that is the concatenation of pieces, one for each node, with the choices that are made and
what the capturing nodes hold. Nodes in an optional segment that is missing hold nothing. -/
inductive Derives (cls : CharClass) : List Node → List Choice → Text → List (Option Text) → Prop
  | nil : Derives cls [] [] [] []
  | text {nodes : List Node} {choices : List Choice} {s : Text} {groups : List (Option Text)}
      (t : Text) (h : Derives cls nodes choices s groups) :
    Derives cls (.text t :: nodes) choices (t ++ s) groups
  | named {nodes : List Node} {choices : List Choice} {s v : Text} {groups : List (Option Text)}
      (name : Text) (hne : v ≠ []) (hv : ∀ c ∈ v, cls.mem c = true)
      (h : Derives cls nodes choices s groups) :
    Derives cls (.named name :: nodes) (.value v :: choices) (v ++ s) (some v :: groups)
  | wildcard {nodes : List Node} {choices : List Choice} {s v : Text} {groups : List (Option Text)}
      (hv : '\n' ∉ v) (h : Derives cls nodes choices s groups) :
    Derives cls (.wildcard :: nodes) (.filler v :: choices) (v ++ s) (some v :: groups)
  | namedWildcard {nodes : List Node} {choices : List Choice} {s v : Text}
      {groups : List (Option Text)} (name : Text) (hv : '\n' ∉ v)
      (h : Derives cls nodes choices s groups) :
    Derives cls (.namedWildcard name :: nodes) (.filler v :: choices) (v ++ s) (some v :: groups)
  | present {children nodes : List Node} {inner choices : List Choice} {t s : Text}
      {held groups : List (Option Text)} (hc : Derives cls children inner t held)
      (h : Derives cls nodes choices s groups) :
    Derives cls (.optional children :: nodes) (.present inner :: choices) (t ++ s) (held ++ groups)
  | absent {nodes : List Node} {choices : List Choice} {s : Text} {groups : List (Option Text)}
      (children : List Node) (h : Derives cls nodes choices s groups) :
    Derives cls (.optional children :: nodes) (.absent :: choices) s
      (List.replicate (captureNames children).length none ++ groups)

end Node

/-! ## The order of derivations -/

/-- The first choices that differ decide: a longer value comes before a shorter one, a shorter filler
before a longer one, and an optional segment that is there before one that is missing. -/
inductive Choice.Earlier : List Choice → List Choice → Prop
  | value {v v' : Text} (h : v'.length < v.length) (choices choices' : List Choice) :
    Earlier (.value v :: choices) (.value v' :: choices')
  | filler {v v' : Text} (h : v.length < v'.length) (choices choices' : List Choice) :
    Earlier (.filler v :: choices) (.filler v' :: choices')
  | present (inner choices choices' : List Choice) :
    Earlier (.present inner :: choices) (.absent :: choices')
  | inside {inner inner' : List Choice} (h : Earlier inner inner') (choices choices' : List Choice) :
    Earlier (.present inner :: choices) (.present inner' :: choices')
  | later {choices choices' : List Choice} (choice : Choice) (h : Earlier choices choices') :
    Earlier (choice :: choices) (choice :: choices')

namespace Choice.Earlier

variable {a b c : List Choice}

theorem ne (h : Earlier a b) : a ≠ b := by
  induction h with
  | value h choices choices' =>
    rintro ⟨⟩
    exact Nat.lt_irrefl _ h
  | filler h choices choices' =>
    rintro ⟨⟩
    exact Nat.lt_irrefl _ h
  | present inner choices choices' => rintro ⟨⟩
  | inside h choices choices' ih =>
    rintro ⟨⟩
    exact ih rfl
  | later choice h ih =>
    rintro ⟨⟩
    exact ih rfl

theorem asymm (h : Earlier a b) : ¬Earlier b a := by
  induction h with
  | value h choices choices' =>
    intro h'
    cases h' with
    | value h' => exact Nat.lt_asymm h h'
    | later => exact Nat.lt_irrefl _ h
  | filler h choices choices' =>
    intro h'
    cases h' with
    | filler h' => exact Nat.lt_asymm h h'
    | later => exact Nat.lt_irrefl _ h
  | present inner choices choices' => rintro ⟨⟩
  | inside h choices choices' ih =>
    intro h'
    cases h' with
    | inside h' => exact ih h'
    | later => exact h.ne rfl
  | later choice h ih =>
    intro h'
    cases h' with
    | value h' | filler h' => exact Nat.lt_irrefl _ h'
    | inside h' => exact h'.ne rfl
    | later _ h' => exact ih h'

/-- What follows does not matter. -/
theorem append_right (h : Earlier a b) (c d : List Choice) : Earlier (a ++ c) (b ++ d) := by
  induction h with
  | value h choices choices' => exact value h _ _
  | filler h choices choices' => exact filler h _ _
  | present inner choices choices' => exact present inner _ _
  | inside h choices choices' _ => exact inside h _ _
  | later choice h ih => exact later choice ih

theorem append_left (a : List Choice) (h : Earlier b c) : Earlier (a ++ b) (a ++ c) := by
  induction a with
  | nil => exact h
  | cons choice a ih => exact later choice ih

end Choice.Earlier

/-! ## The first derivation -/

namespace Node

variable {cls : CharClass} {nodes nodes' : List Node} {choices choices' : List Choice} {s s' : Text}
  {groups groups' : List (Option Text)}

/-- The derivation of a text that comes before all others. -/
def FirstDerived (cls : CharClass) (nodes : List Node) (s : Text) (groups : List (Option Text)) : Prop :=
  ∃ choices, Derives cls nodes choices s groups ∧
    ∀ choices' groups', Derives cls nodes choices' s groups' →
      choices' = choices ∨ Choice.Earlier choices choices'

namespace Derives

/-- The choices determine the text and what is captured. -/
theorem unique (h : Derives cls nodes choices s groups) (h' : Derives cls nodes choices s' groups') :
    s = s' ∧ groups = groups' := by
  induction h generalizing s' groups' with
  | nil =>
    cases h'
    exact ⟨rfl, rfl⟩
  | text t _ ih =>
    cases h' with
    | text _ h' =>
      obtain ⟨rfl, rfl⟩ := ih h'
      exact ⟨rfl, rfl⟩
  | named name _ _ _ ih =>
    cases h' with
    | named _ _ _ h' =>
      obtain ⟨rfl, rfl⟩ := ih h'
      exact ⟨rfl, rfl⟩
  | wildcard _ _ ih =>
    cases h' with
    | wildcard _ h' =>
      obtain ⟨rfl, rfl⟩ := ih h'
      exact ⟨rfl, rfl⟩
  | namedWildcard name _ _ ih =>
    cases h' with
    | namedWildcard _ _ h' =>
      obtain ⟨rfl, rfl⟩ := ih h'
      exact ⟨rfl, rfl⟩
  | present _ _ ihc ih =>
    cases h' with
    | present hc' h' =>
      obtain ⟨rfl, rfl⟩ := ihc hc'
      obtain ⟨rfl, rfl⟩ := ih h'
      exact ⟨rfl, rfl⟩
  | absent children _ ih =>
    cases h' with
    | absent _ h' =>
      obtain ⟨rfl, rfl⟩ := ih h'
      exact ⟨rfl, rfl⟩

theorem append (h : Derives cls nodes choices s groups) (h' : Derives cls nodes' choices' s' groups') :
    Derives cls (nodes ++ nodes') (choices ++ choices') (s ++ s') (groups ++ groups') := by
  induction h with
  | nil => exact h'
  | text t _ ih =>
    rw [List.append_assoc]
    exact text t ih
  | named name hne hv _ ih =>
    rw [List.append_assoc]
    exact named name hne hv ih
  | wildcard hv _ ih =>
    rw [List.append_assoc]
    exact wildcard hv ih
  | namedWildcard name hv _ ih =>
    rw [List.append_assoc]
    exact namedWildcard name hv ih
  | present hc _ _ ih =>
    rw [List.append_assoc, List.append_assoc]
    exact present hc ih
  | absent children _ ih =>
    rw [List.append_assoc]
    exact absent children ih

/-- A derivation from nodes in a row is one from the first node, and one from those behind it. -/
theorem of_cons {node : Node} (h : Derives cls (node :: nodes) choices s groups) :
    ∃ c₁ c₂ s₁ s₂ g₁ g₂, Derives cls [node] c₁ s₁ g₁ ∧ Derives cls nodes c₂ s₂ g₂ ∧
      choices = c₁ ++ c₂ ∧ s = s₁ ++ s₂ ∧ groups = g₁ ++ g₂ := by
  cases h with
  | text t h => exact ⟨_, _, _, _, _, _, text t nil, h, rfl, by simp, rfl⟩
  | named name hne hv h => exact ⟨_, _, _, _, _, _, named name hne hv nil, h, rfl, by simp, rfl⟩
  | wildcard hv h => exact ⟨_, _, _, _, _, _, wildcard hv nil, h, rfl, by simp, rfl⟩
  | namedWildcard name hv h => exact ⟨_, _, _, _, _, _, namedWildcard name hv nil, h, rfl, by simp, rfl⟩
  | present hc h => exact ⟨_, _, _, _, _, _, present hc nil, h, rfl, by simp, by simp⟩
  | absent children h => exact ⟨_, _, _, _, _, _, absent children nil, h, rfl, by simp, by simp⟩

/-- A derivation has a group for each name. -/
theorem length_groups (h : Derives cls nodes choices s groups) :
    groups.length = (captureNames nodes).length := by
  induction h with
  | nil => rfl
  | text t _ ih => exact ih
  | named name _ _ _ ih => exact congrArg (· + 1) ih
  | wildcard _ _ ih => exact congrArg (· + 1) ih
  | namedWildcard name _ _ ih => exact congrArg (· + 1) ih
  | present _ _ ihc ih => rw [List.length_append, ihc, ih, captureNames, names, List.length_append]
  | absent children _ ih =>
    rw [List.length_append, List.length_replicate, ih, captureNames, names, List.length_append]

end Derives

/-- There is one first derivation at most. -/
theorem FirstDerived.unique (h : FirstDerived cls nodes s groups) (h' : FirstDerived cls nodes s groups') :
    groups = groups' := by
  obtain ⟨choices, hd, hfirst⟩ := h
  obtain ⟨choices', hd', hfirst'⟩ := h'
  have heq : choices' = choices := by
    rcases hfirst choices' groups' hd' with heq | hearlier
    · exact heq
    rcases hfirst' choices groups hd with heq | hearlier'
    · exact heq.symm
    · exact absurd hearlier' hearlier.asymm
  subst heq
  exact (hd.unique hd').2

end Node

end RoutePattern
