import Mathlib.Data.List.Basic
import RoutePattern.Proofs.Pattern.Derivation

/-!
# All derivations in order

From a place in a text on there are finitely many derivations from nodes, each of which leaves a rest of
the text. They are listed here in their order.

## Main definitions

* `Text.runs` — the beginnings of a text that hold only certain characters.
* `Node.outcomes` — the derivations from nodes (`mem_outcomes`), the first one first
  (`pairwise_outcomes`).
-/

namespace RoutePattern

/-! ## Beginnings of a text -/

namespace Text

/-- The beginnings of a text that hold only such characters, each with what is left. The longest or the
shortest comes first. -/
def runs (longest : Bool) (p : Char → Bool) : Text → List (Text × Text)
  | [] => [([], [])]
  | c :: s =>
    let longer := if p c then (runs longest p s).map fun run => (c :: run.1, run.2) else []
    if longest then longer ++ [([], c :: s)] else ([], c :: s) :: longer

variable {longest : Bool} {p : Char → Bool} {s : Text}

theorem mem_runs_cons {c : Char} {run : Text × Text} :
    run ∈ runs longest p (c :: s) ↔
      run = ([], c :: s) ∨ p c = true ∧ ∃ r ∈ runs longest p s, run = (c :: r.1, r.2) := by
  by_cases hc : p c = true <;> cases longest <;> simp [runs, hc, or_comm, eq_comm]

theorem mem_runs {v rest : Text} :
    (v, rest) ∈ runs longest p s ↔ s = v ++ rest ∧ ∀ c ∈ v, p c = true := by
  induction s generalizing v with
  | nil =>
    constructor
    · intro h
      cases List.mem_singleton.mp h
      exact ⟨rfl, by simp⟩
    · rintro ⟨h, _⟩
      obtain ⟨rfl, rfl⟩ := List.append_eq_nil_iff.mp h.symm
      exact List.mem_singleton_self _
  | cons c s ih =>
    rw [mem_runs_cons]
    constructor
    · rintro (h | ⟨hc, ⟨v', rest'⟩, hr, h⟩)
      · cases h
        exact ⟨rfl, by simp⟩
      · cases h
        obtain ⟨rfl, hv⟩ := ih.mp hr
        exact ⟨rfl, List.forall_mem_cons.mpr ⟨hc, hv⟩⟩
    · rintro ⟨h, hv⟩
      cases v with
      | nil => exact .inl (by rw [h]; rfl)
      | cons d v =>
        obtain ⟨rfl, hs⟩ := List.cons_eq_cons.mp h
        obtain ⟨hc, hv⟩ := List.forall_mem_cons.mp hv
        exact .inr ⟨hc, (v, rest), ih.mpr ⟨hs, hv⟩, rfl⟩

/-- The order of the beginnings. -/
def Sooner (longest : Bool) (v v' : Text) : Prop :=
  if longest then v'.length < v.length else v.length < v'.length

theorem pairwise_runs (longest : Bool) (p : Char → Bool) (s : Text) :
    (runs longest p s).Pairwise (fun run run' => Sooner longest run.1 run'.1) := by
  induction s with
  | nil => exact List.pairwise_singleton _ _
  | cons c s ih =>
    have hlonger : (if p c then (runs longest p s).map fun run => (c :: run.1, run.2) else []).Pairwise
        fun run run' => Sooner longest run.1 run'.1 := by
      split
      · rw [List.pairwise_map]
        refine ih.imp fun {run run'} h => ?_
        cases longest <;> simpa [Sooner] using h
      · exact List.Pairwise.nil
    -- all of these are longer than the run that takes nothing
    have hpos : ∀ run ∈ (if p c then (runs longest p s).map fun run => (c :: run.1, run.2) else []),
        0 < run.1.length := by
      intro run hrun
      split at hrun
      · obtain ⟨r, _, rfl⟩ := List.mem_map.mp hrun
        exact Nat.succ_pos _
      · cases hrun
    cases longest with
    | false => exact List.pairwise_cons.mpr ⟨hpos, hlonger⟩
    | true =>
      refine List.pairwise_append.mpr ⟨hlonger, List.pairwise_singleton _ _, fun run hrun run' hrun' => ?_⟩
      rw [List.mem_singleton.mp hrun']
      exact hpos run hrun

end Text

/-! ## Outcomes -/

/-- A derivation of the front of a text. -/
structure Outcome where
  choices : List Choice
  groups : List (Option Text)
  /-- What is left of the text. -/
  rest : Text

/-- One derivation and another one behind it. -/
def Outcome.andThen (o o' : Outcome) : Outcome :=
  ⟨o.choices ++ o'.choices, o.groups ++ o'.groups, o'.rest⟩

namespace Node

/-- The values of a named segment, each with what is left. -/
def values (cls : CharClass) : Text → List (Text × Text)
  | [] => []
  | c :: s => if cls.mem c then (Text.runs true cls.mem s).map fun run => (c :: run.1, run.2) else []

/-- What a wildcard can stand for. -/
def fillers (s : Text) : List Outcome :=
  (Text.runs false (· != '\n') s).map fun run => ⟨[.filler run.1], [some run.1], run.2⟩

mutual

/-- The derivations of the front of a text from a node, the first one first. -/
def outcomesOf (cls : CharClass) : Node → Text → List Outcome
  | .text t, s => (List.isPrefixOf? t s).toList.map fun rest => ⟨[], [], rest⟩
  | .named _, s => (values cls s).map fun run => ⟨[.value run.1], [some run.1], run.2⟩
  | .wildcard, s => fillers s
  | .namedWildcard _, s => fillers s
  | .optional children, s =>
    (outcomes cls children s).map (fun o => ⟨[.present o.choices], o.groups, o.rest⟩) ++
      [⟨[.absent], List.replicate (captureNames children).length none, s⟩]

/-- The derivations of the front of a text from nodes in a row, the first one first. -/
def outcomes (cls : CharClass) : List Node → Text → List Outcome
  | [], s => [⟨[], [], s⟩]
  | node :: nodes, s =>
    (node.outcomesOf cls s).flatMap fun o => (outcomes cls nodes o.rest).map o.andThen

end

/-! ## Every derivation -/

theorem mem_values {cls : CharClass} {s v rest : Text} :
    (v, rest) ∈ values cls s ↔ s = v ++ rest ∧ v ≠ [] ∧ ∀ c ∈ v, cls.mem c = true := by
  cases s with
  | nil =>
    constructor
    · intro h
      cases h
    · rintro ⟨h, hne, _⟩
      exact absurd (List.append_eq_nil_iff.mp h.symm).1 hne
  | cons c s =>
    constructor
    · intro h
      rw [values] at h
      split at h
      · next hc =>
        obtain ⟨⟨v', rest'⟩, hr, h⟩ := List.mem_map.mp h
        cases h
        obtain ⟨rfl, hv⟩ := Text.mem_runs.mp hr
        exact ⟨rfl, List.cons_ne_nil _ _, List.forall_mem_cons.mpr ⟨hc, hv⟩⟩
      · cases h
    · rintro ⟨h, hne, hv⟩
      cases v with
      | nil => exact absurd rfl hne
      | cons d v =>
        obtain ⟨rfl, hs⟩ := List.cons_eq_cons.mp h
        obtain ⟨hc, hv⟩ := List.forall_mem_cons.mp hv
        rw [values, if_pos hc]
        exact List.mem_map.mpr ⟨(v, rest), Text.mem_runs.mpr ⟨hs, hv⟩, rfl⟩

theorem mem_fillers {s : Text} {o : Outcome} :
    o ∈ fillers s ↔ ∃ v, s = v ++ o.rest ∧ '\n' ∉ v ∧ o = ⟨[.filler v], [some v], o.rest⟩ := by
  have hline (v : Text) : (∀ c ∈ v, (c != '\n') = true) ↔ '\n' ∉ v := by
    simp only [bne_iff_ne, ne_eq]
    exact ⟨fun h hmem => h _ hmem rfl, fun h c hc heq => h (heq ▸ hc)⟩
  constructor
  · intro h
    obtain ⟨⟨v, rest⟩, hr, rfl⟩ := List.mem_map.mp h
    obtain ⟨hs, hv⟩ := Text.mem_runs.mp hr
    exact ⟨v, hs, (hline v).mp hv, rfl⟩
  · rintro ⟨v, hs, hv, ho⟩
    rw [ho]
    exact List.mem_map.mpr ⟨(v, o.rest), Text.mem_runs.mpr ⟨hs, (hline v).mpr hv⟩, rfl⟩

/-- The outcome is a derivation of what it has taken off the text. -/
def Derived (cls : CharClass) (nodes : List Node) (s : Text) (o : Outcome) : Prop :=
  ∃ t, s = t ++ o.rest ∧ Derives cls nodes o.choices t o.groups

section Membership

variable {cls : CharClass} {s : Text} {o : Outcome}

theorem derived_text {t : Text} : Derived cls [.text t] s o ↔ s = t ++ o.rest ∧ o = ⟨[], [], o.rest⟩ := by
  obtain ⟨choices, groups, rest⟩ := o
  constructor
  · rintro ⟨u, hs, h⟩
    cases h with
    | text _ h =>
      cases h
      exact ⟨by rw [hs, List.append_nil], rfl⟩
  · rintro ⟨hs, ho⟩
    cases ho
    exact ⟨t ++ [], by rw [hs, List.append_nil], .text t .nil⟩

theorem derived_named {name : Text} :
    Derived cls [.named name] s o ↔
      ∃ v, s = v ++ o.rest ∧ v ≠ [] ∧ (∀ c ∈ v, cls.mem c = true) ∧
        o = ⟨[.value v], [some v], o.rest⟩ := by
  obtain ⟨choices, groups, rest⟩ := o
  constructor
  · rintro ⟨u, hs, h⟩
    cases h with
    | named _ hne hv h =>
      cases h
      exact ⟨_, by rw [hs, List.append_nil], hne, hv, rfl⟩
  · rintro ⟨v, hs, hne, hv, ho⟩
    cases ho
    exact ⟨v ++ [], by rw [hs, List.append_nil], .named name hne hv .nil⟩

theorem derived_wildcard :
    Derived cls [.wildcard] s o ↔
      ∃ v, s = v ++ o.rest ∧ '\n' ∉ v ∧ o = ⟨[.filler v], [some v], o.rest⟩ := by
  obtain ⟨choices, groups, rest⟩ := o
  constructor
  · rintro ⟨u, hs, h⟩
    cases h with
    | wildcard hv h =>
      cases h
      exact ⟨_, by rw [hs, List.append_nil], hv, rfl⟩
  · rintro ⟨v, hs, hv, ho⟩
    cases ho
    exact ⟨v ++ [], by rw [hs, List.append_nil], .wildcard hv .nil⟩

theorem derived_namedWildcard {name : Text} :
    Derived cls [.namedWildcard name] s o ↔
      ∃ v, s = v ++ o.rest ∧ '\n' ∉ v ∧ o = ⟨[.filler v], [some v], o.rest⟩ := by
  obtain ⟨choices, groups, rest⟩ := o
  constructor
  · rintro ⟨u, hs, h⟩
    cases h with
    | namedWildcard _ hv h =>
      cases h
      exact ⟨_, by rw [hs, List.append_nil], hv, rfl⟩
  · rintro ⟨v, hs, hv, ho⟩
    cases ho
    exact ⟨v ++ [], by rw [hs, List.append_nil], .namedWildcard name hv .nil⟩

theorem derived_optional {children : List Node} :
    Derived cls [.optional children] s o ↔
      (∃ o', Derived cls children s o' ∧ o = ⟨[.present o'.choices], o'.groups, o'.rest⟩) ∨
        o = ⟨[.absent], List.replicate (captureNames children).length none, s⟩ := by
  obtain ⟨choices, groups, rest⟩ := o
  constructor
  · rintro ⟨u, hs, h⟩
    cases h with
    | @present _ _ inner _ t _ held _ hc h =>
      cases h
      rw [List.append_nil] at hs
      refine .inl ⟨⟨inner, held, rest⟩, ⟨t, hs, hc⟩, ?_⟩
      exact congrArg (Outcome.mk _ · rest) (List.append_nil _)
    | absent _ h =>
      cases h
      rw [hs]
      exact .inr (congrArg (Outcome.mk _ · rest) (List.append_nil _))
  · rintro (⟨o', ⟨u, hs, hc⟩, ho⟩ | ho)
    · cases ho
      refine ⟨u ++ [], by rw [hs, List.append_nil], ?_⟩
      simpa using Derives.present hc .nil
    · cases ho
      refine ⟨[], rfl, ?_⟩
      simpa using Derives.absent children .nil

theorem derived_cons {node : Node} {nodes : List Node} :
    Derived cls (node :: nodes) s o ↔
      ∃ o₁, Derived cls [node] s o₁ ∧ ∃ o₂, Derived cls nodes o₁.rest o₂ ∧ o = o₁.andThen o₂ := by
  obtain ⟨choices, groups, rest⟩ := o
  constructor
  · rintro ⟨u, hs, h⟩
    obtain ⟨c₁, c₂, s₁, s₂, g₁, g₂, h₁, h₂, rfl, rfl, rfl⟩ := h.of_cons
    rw [List.append_assoc] at hs
    exact ⟨⟨c₁, g₁, s₂ ++ rest⟩, ⟨s₁, hs, h₁⟩, ⟨c₂, g₂, rest⟩, ⟨s₂, rfl, h₂⟩, rfl⟩
  · rintro ⟨o₁, ⟨s₁, hs₁, h₁⟩, o₂, ⟨s₂, hs₂, h₂⟩, ho⟩
    cases ho
    exact ⟨s₁ ++ s₂, by rw [hs₁, hs₂, List.append_assoc], h₁.append h₂⟩

end Membership

mutual

theorem mem_outcomesOf (cls : CharClass) (node : Node) (s : Text) (o : Outcome) :
    o ∈ node.outcomesOf cls s ↔ Derived cls [node] s o :=
  match node with
  | .text t => by
    rw [derived_text, outcomesOf, List.mem_map]
    constructor
    · rintro ⟨rest, hrest, rfl⟩
      rw [Option.mem_toList, List.isPrefixOf?_eq_some_iff_append_eq] at hrest
      exact ⟨hrest.symm, rfl⟩
    · rintro ⟨hs, ho⟩
      refine ⟨o.rest, ?_, ho.symm⟩
      rw [Option.mem_toList, List.isPrefixOf?_eq_some_iff_append_eq, hs]
  | .named name => by
    rw [derived_named, outcomesOf, List.mem_map]
    constructor
    · rintro ⟨⟨v, rest⟩, hr, rfl⟩
      obtain ⟨hs, hne, hv⟩ := mem_values.mp hr
      exact ⟨v, hs, hne, hv, rfl⟩
    · rintro ⟨v, hs, hne, hv, ho⟩
      exact ⟨(v, o.rest), mem_values.mpr ⟨hs, hne, hv⟩, ho.symm⟩
  | .wildcard => mem_fillers.trans derived_wildcard.symm
  | .namedWildcard _ => mem_fillers.trans derived_namedWildcard.symm
  | .optional children => by
    rw [derived_optional, outcomesOf, List.mem_append, List.mem_map, List.mem_singleton]
    simp only [mem_outcomes cls children s, eq_comm]

/-- **The outcomes are the derivations** of the front of a text. -/
theorem mem_outcomes (cls : CharClass) (nodes : List Node) (s : Text) (o : Outcome) :
    o ∈ outcomes cls nodes s ↔ Derived cls nodes s o :=
  match nodes with
  | [] => by
    obtain ⟨choices, groups, rest⟩ := o
    rw [outcomes, List.mem_singleton]
    constructor
    · intro h
      cases h
      exact ⟨[], rfl, .nil⟩
    · rintro ⟨u, hs, h⟩
      cases h
      rw [hs]
      rfl
  | node :: nodes => by
    rw [derived_cons, outcomes, List.mem_flatMap]
    simp only [List.mem_map, mem_outcomesOf cls node s, mem_outcomes cls nodes, eq_comm]

end

/-! ## In order -/

/-- The order of outcomes. -/
def Before (o o' : Outcome) : Prop := Choice.Earlier o.choices o'.choices

theorem pairwise_values (cls : CharClass) (s : Text) :
    (values cls s).Pairwise fun run run' => run'.1.length < run.1.length := by
  cases s with
  | nil => exact List.Pairwise.nil
  | cons c s =>
    rw [values]
    split
    · rw [List.pairwise_map]
      exact (Text.pairwise_runs true _ s).imp fun h => Nat.succ_lt_succ h
    · exact List.Pairwise.nil

theorem pairwise_fillers (s : Text) : (fillers s).Pairwise Before := by
  rw [fillers, List.pairwise_map]
  exact (Text.pairwise_runs false _ s).imp fun h => .filler h _ _

mutual

theorem pairwise_outcomesOf (cls : CharClass) (node : Node) (s : Text) :
    (node.outcomesOf cls s).Pairwise Before :=
  match node with
  | .text t => by
    rw [outcomesOf, List.pairwise_map]
    cases List.isPrefixOf? t s with
    | none => exact List.Pairwise.nil
    | some rest => exact List.pairwise_singleton _ _
  | .named _ => by
    rw [outcomesOf, List.pairwise_map]
    exact (pairwise_values cls s).imp fun h => .value h _ _
  | .wildcard => pairwise_fillers s
  | .namedWildcard _ => pairwise_fillers s
  | .optional children => by
    rw [outcomesOf, List.pairwise_append, List.pairwise_map]
    refine ⟨(pairwise_outcomes cls children s).imp fun h => .inside h _ _,
      List.pairwise_singleton _ _, fun o ho o' ho' => ?_⟩
    obtain ⟨inner, _, rfl⟩ := List.mem_map.mp ho
    rw [List.mem_singleton.mp ho']
    exact .present _ _ _

/-- **The outcomes are in order**, the first derivation first. -/
theorem pairwise_outcomes (cls : CharClass) (nodes : List Node) (s : Text) :
    (outcomes cls nodes s).Pairwise Before :=
  match nodes with
  | [] => List.pairwise_singleton _ _
  | node :: nodes => by
    rw [outcomes, List.pairwise_flatMap]
    -- outcomes with the same front, and with different ones
    refine ⟨fun o _ => ?_, (pairwise_outcomesOf cls node s).imp fun h o ho o' ho' => ?_⟩
    · rw [List.pairwise_map]
      exact (pairwise_outcomes cls nodes o.rest).imp fun h => h.append_left _
    · obtain ⟨_, _, rfl⟩ := List.mem_map.mp ho
      obtain ⟨_, _, rfl⟩ := List.mem_map.mp ho'
      exact h.append_right _ _

end

end Node

end RoutePattern
