import Mathlib.Data.List.Forall2
import RoutePattern.Pattern.Basic
import RoutePattern.Proofs.Pattern.Outcomes
import RoutePattern.Proofs.Pattern.Tree

/-!
# Matching a pattern

The ways through the regex of nodes are the derivations from these nodes, in the same order
(`Node.follows_sequence`), and the groups that a way leaves marks of are those of the derivation. So a
match reports the groups of the derivation that comes first.

## Main definitions

* `Node.Matches` — a way and a derivation that agree; `Node.Follows` — all of them, in order.
* `Node.captures_tree` — the groups of a match, from the derivations.
-/

namespace RoutePattern.Node

open Regex (Passage Walk textOf?)

/-! ## Marks -/

section Marks

variable {marks marks' : List Mark} {k : Nat}

/-- Only the marks of a group matter for its text. -/
theorem textOf?_filter (marks : List Mark) (k : Nat) :
    textOf? (marks.filter fun m => m.group == k) k = textOf? marks k := by
  have hfind (q : Mark → Bool) : (marks.filter fun m => m.group == k).find? (fun m => m.group == k && q m) =
      marks.find? fun m => m.group == k && q m := by
    rw [List.find?_filter]
    congr 1
    funext m
    by_cases hm : m.group = k <;> simp [hm]
  unfold textOf?
  rw [hfind fun m => m.opens, hfind fun m => !m.opens]

theorem filter_group_eq_nil (h : ∀ m ∈ marks, m.group ≠ k) :
    (marks.filter fun m => m.group == k) = [] := by
  rw [List.filter_eq_nil_iff]
  intro m hm
  simp [h m hm]

theorem textOf?_append_left (h : ∀ m ∈ marks', m.group ≠ k) :
    textOf? (marks ++ marks') k = textOf? marks k := by
  rw [← textOf?_filter, List.filter_append, filter_group_eq_nil h, List.append_nil, textOf?_filter]

theorem textOf?_append_right (h : ∀ m ∈ marks, m.group ≠ k) :
    textOf? (marks ++ marks') k = textOf? marks' k := by
  rw [← textOf?_filter, List.filter_append, filter_group_eq_nil h, List.nil_append, textOf?_filter]

end Marks

/-! ## Ways and derivations -/

/-- A way leaves the same rest as a derivation, and marks of its groups, which are the `n` groups behind
the first `opened`. -/
structure Matches (opened n : Nat) (p : Passage) (o : Outcome) : Prop where
  rest_eq : p.rest = o.rest
  numbers : ∀ m ∈ p.marks, opened < m.group ∧ m.group ≤ opened + n
  texts : (List.range' (opened + 1) n).map (textOf? p.marks) = o.groups

/-- The ways are the derivations, in the same order. -/
def Follows (opened n : Nat) (w : Walk) (f : Text → List Outcome) : Prop :=
  ∀ before s, List.Forall₂ (Matches opened n) (w before s) (f s)

theorem Matches.andThen {opened n m : Nat} {p q : Passage} {o o' : Outcome}
    (h : Matches opened n p o) (h' : Matches (opened + n) m q o') :
    Matches opened (n + m) (p.andThen q) (o.andThen o') := by
  refine ⟨h'.rest_eq, ?_, ?_⟩
  · intro mark hmark
    rcases List.mem_append.mp hmark with hmark | hmark
    · have := h'.numbers mark hmark
      omega
    · have := h.numbers mark hmark
      omega
  · -- each part leaves the groups of the other one alone
    have hfirst : (List.range' (opened + 1) n).map (textOf? (q.marks ++ p.marks)) = o.groups := by
      rw [← h.texts]
      refine List.map_congr_left fun k hk => textOf?_append_right fun mark hmark => ?_
      have := h'.numbers mark hmark
      have := List.mem_range'_1.mp hk
      omega
    have hsecond : (List.range' (opened + 1 + n) m).map (textOf? (q.marks ++ p.marks)) = o'.groups := by
      rw [← h'.texts, Nat.add_right_comm]
      refine List.map_congr_left fun k hk => textOf?_append_left fun mark hmark => ?_
      have := h.numbers mark hmark
      have := List.mem_range'_1.mp hk
      omega
    show (List.range' (opened + 1) (n + m)).map (textOf? (q.marks ++ p.marks)) = o.groups ++ o'.groups
    rw [← List.range'_append_1, List.map_append, hfirst, hsecond]

theorem Follows.andThen {opened n m : Nat} {w w' : Walk} {f f' : Text → List Outcome}
    (h : Follows opened n w f) (h' : Follows (opened + n) m w' f') :
    Follows opened (n + m) (w.andThen w') fun s => (f s).flatMap fun o => (f' o.rest).map o.andThen := by
  intro before s
  refine List.rel_flatMap (h before s) fun p o hpo => ?_
  rw [hpo.rest_eq]
  exact List.rel_map (fun q o' hqo => hpo.andThen hqo) (h' p.before o.rest)

/-- Nothing is taken, and `n` groups are left out. -/
theorem follows_stay (opened n : Nat) (choices : List Choice) :
    Follows opened n Walk.stay fun s => [⟨choices, List.replicate n none, s⟩] := by
  intro before s
  refine .cons ⟨rfl, by simp, ?_⟩ .nil
  rw [List.eq_replicate_iff]
  refine ⟨by simp, fun g hg => ?_⟩
  obtain ⟨k, _, rfl⟩ := List.mem_map.mp hg
  rfl

/-! ## Characters -/

theorem one_andThen (cls : CharClass) (w : Walk) (before : Option Char) (c : Char) (s : Text) :
    (Walk.one cls).andThen w before (c :: s) = if cls.mem c then w (some c) s else [] := by
  by_cases hc : cls.mem c = true
  · have hone : Walk.one cls before (c :: s) = [⟨[], some c, s⟩] := by simp [Walk.one, hc]
    rw [Walk.andThen, hone, if_pos hc, List.flatMap_singleton]
    exact (List.map_congr_left fun p _ => Passage.stay_andThen _ _ p).trans (List.map_id _)
  · simp [Walk.andThen, Walk.one, hc]

theorem one_andThen_nil (cls : CharClass) (w : Walk) (before : Option Char) :
    (Walk.one cls).andThen w before [] = [] := by
  simp [Walk.andThen, Walk.one]

theorem follows_text (opened : Nat) (t : Text) :
    Follows opened 0 (Regex.walkAll (t.map Regex.char))
      fun s => (List.isPrefixOf? t s).toList.map fun rest => ⟨[], [], rest⟩ := by
  induction t with
  | nil => exact follows_stay opened 0 []
  | cons c t ih =>
    intro before s
    rw [List.map_cons, Regex.walkAll_cons, Regex.char, Regex.walk]
    cases s with
    | nil =>
      rw [one_andThen_nil]
      exact .nil
    | cons d s =>
      have hprefix : List.isPrefixOf? (c :: t) (d :: s) =
          if c == d then List.isPrefixOf? t s else none := rfl
      rw [one_andThen]
      by_cases hd : d = c
      · subst hd
        simpa [CharClass.mem, hprefix] using ih (some d) s
      · simp [CharClass.mem, hprefix, hd, Ne.symm hd]

/-! ## Runs of characters -/

/-- A way over the front of a text, without any marks. -/
structure Over (s : Text) (p : Passage) (run : Text × Text) : Prop where
  marks_eq : p.marks = []
  rest_eq : p.rest = run.2
  text_eq : s = run.1 ++ run.2

theorem Over.cons {s : Text} {p : Passage} {run : Text × Text} (h : Over s p run) (c : Char) :
    Over (c :: s) p (c :: run.1, run.2) :=
  ⟨h.marks_eq, h.rest_eq, congrArg (c :: ·) h.text_eq⟩

theorem takes_one (cls : CharClass) : (Walk.one cls).Takes := by
  intro before rest p hp
  obtain ⟨c, cs, rfl, _, rfl⟩ := Walk.mem_one.mp hp
  exact Nat.lt_succ_self _

/-- The ways through a repeated class are the runs of its characters. -/
theorem forall₂_many (cls : CharClass) (greedy : Bool) (before : Option Char) (s : Text) :
    List.Forall₂ (Over s) ((Walk.one cls).many greedy before s) (Text.runs greedy cls.mem s) := by
  induction s generalizing before with
  | nil => exact .cons ⟨rfl, rfl, rfl⟩ .nil
  | cons c s ih =>
    have hstay : List.Forall₂ (Over (c :: s)) (Walk.stay before (c :: s)) [([], c :: s)] :=
      .cons ⟨rfl, rfl, rfl⟩ .nil
    have hlonger : List.Forall₂ (Over (c :: s))
        ((Walk.one cls).andThen ((Walk.one cls).many greedy) before (c :: s))
        (if cls.mem c then (Text.runs greedy cls.mem s).map fun run => (c :: run.1, run.2) else []) := by
      rw [one_andThen]
      split
      · rw [List.forall₂_map_right_iff]
        exact (ih (some c)).imp fun p run h => h.cons c
      · exact .nil
    rw [Walk.many_eq (takes_one cls)]
    cases greedy with
    | false => exact List.rel_append hstay hlonger
    | true => exact List.rel_append hlonger hstay

/-! ## Nodes -/

theorem Over.inGroup {s : Text} {p : Passage} {run : Text × Text} (h : Over s p run) (opened : Nat)
    (choices : List Choice) :
    Matches opened 1 (p.inGroup (opened + 1) s) ⟨choices, [some run.1], run.2⟩ := by
  have hmarks : (p.inGroup (opened + 1) s).marks = [⟨opened + 1, false, run.2⟩, ⟨opened + 1, true, s⟩] := by
    rw [Passage.inGroup, h.marks_eq, h.rest_eq]
    rfl
  refine ⟨h.rest_eq, ?_, ?_⟩
  · rw [hmarks]
    simp
  · rw [hmarks, List.range'_one, List.map_singleton, h.text_eq]
    simp [textOf?]

/-- A group that captures, around a part whose ways leave no marks. -/
theorem follows_group (opened : Nat) {r : Regex} {f : Text → List (Text × Text)}
    (h : ∀ before s, List.Forall₂ (Over s) (r.walk before s) (f s)) (choice : Text → Choice) :
    Follows opened 1 (Regex.walkAll [.group (some (opened + 1)) r])
      fun s => (f s).map fun run => ⟨[choice run.1], [some run.1], run.2⟩ := by
  intro before s
  rw [Regex.walkAll_singleton, Regex.walk, Walk.captured, List.forall₂_map_left_iff,
    List.forall₂_map_right_iff]
  exact (h before s).imp fun p run hover => hover.inGroup opened _

theorem forall₂_value (cls : CharClass) (before : Option Char) (s : Text) :
    List.Forall₂ (Over s) ((valueRegex cls).walk before s) (values cls s) := by
  have hwalk : (valueRegex cls).walk = (Walk.one cls).andThen ((Walk.one cls).many true) := by
    rw [valueRegex, Regex.walk, Walk.rounds, Walk.rounds, Walk.andThen_stay]
    rfl
  rw [hwalk]
  cases s with
  | nil =>
    rw [one_andThen_nil]
    exact .nil
  | cons c s =>
    rw [one_andThen, values]
    split
    · rw [List.forall₂_map_right_iff]
      exact (forall₂_many cls true (some c) s).imp fun p run h => h.cons c
    · exact .nil

theorem forall₂_any (before : Option Char) (s : Text) :
    List.Forall₂ (Over s) (anyRegex.walk before s) (Text.runs false (· != '\n') s) := by
  have hwalk : anyRegex.walk = (Walk.one .anyButNewline).many false := Walk.stay_andThen _
  have hmem : CharClass.anyButNewline.mem = (· != '\n') := funext CharClass.mem_anyButNewline
  rw [hwalk, ← hmem]
  exact forall₂_many _ _ before s

/-- Parts that may be missing, which take part if they can. -/
theorem follows_optional {opened n : Nat} {rs : List Regex} {f : Text → List Outcome}
    (h : Follows opened n (Regex.walkAll rs) f) :
    Follows opened n (Regex.walkAll [optionalRegex rs]) fun s =>
      (f s).map (fun o => ⟨[.present o.choices], o.groups, o.rest⟩) ++
        [⟨[.absent], List.replicate n none, s⟩] := by
  have hwalk : Regex.walkAll [optionalRegex rs] = (Regex.walkAll rs).orElse Walk.stay := by
    rw [Regex.walkAll_singleton, optionalRegex, Regex.walk, Regex.walk, Regex.walk_ofParts, Walk.rounds,
      Walk.stay_andThen]
    show ((Regex.walkAll rs).andThen Walk.stay).orElse Walk.stay = _
    rw [Walk.andThen_stay]
  intro before s
  rw [hwalk]
  refine List.rel_append ?_ (follows_stay opened n [.absent] before s)
  rw [List.forall₂_map_right_iff]
  exact (h before s).imp fun p o hpo => ⟨hpo.rest_eq, hpo.numbers, hpo.texts⟩

mutual

theorem follows_parts (cls : CharClass) (opened : Nat) (node : Node) :
    Follows opened node.names.length (Regex.walkAll (node.parts cls opened)) (node.outcomesOf cls) :=
  match node with
  | .text t => follows_text opened t
  | .named _ => follows_group opened (forall₂_value cls) .value
  | .wildcard => follows_group opened forall₂_any .filler
  | .namedWildcard _ => follows_group opened forall₂_any .filler
  | .optional children => follows_optional (follows_sequence cls opened children)

/-- **The ways through the regex of nodes are the derivations from them**, in the same order. -/
theorem follows_sequence (cls : CharClass) (opened : Nat) (nodes : List Node) :
    Follows opened (captureNames nodes).length (Regex.walkAll (sequence cls opened nodes))
      (outcomes cls nodes) :=
  match nodes with
  | [] => follows_stay opened 0 []
  | node :: nodes => by
    rw [sequence, Regex.walkAll_append, captureNames, List.length_append]
    exact (follows_parts cls opened node).andThen (follows_sequence cls _ nodes)

end

/-! ## Whole texts -/

theorem andThen_textEnd (w : Walk) (before : Option Char) (s : Text) :
    w.andThen (.check .textEnd) before s = (w before s).filter fun p => p.rest.isEmpty := by
  rw [Walk.andThen]
  generalize w before s = ps
  induction ps with
  | nil => rfl
  | cons p ps ih =>
    rw [List.flatMap_cons, ih]
    by_cases hp : p.rest.isEmpty = true
    · simp [Walk.check, Look.holds, hp, Passage.andThen]
    · simp [Walk.check, Look.holds, hp]

theorem way?_tree (cls : CharClass) (nodes : List Node) (s : Text) :
    (tree cls nodes).way? s =
      ((Regex.walkAll (sequence cls 0 nodes) none s).find? fun p => p.rest.isEmpty).map
        fun p => ⟨s, p.marks, p.rest⟩ := by
  have hne : sequence cls 0 nodes ++ [.look .textEnd] ≠ [] := by simp
  have hstraight : (Regex.ofParts (sequence cls 0 nodes ++ [.look .textEnd])).Straight := by
    have h := straight_tree cls nodes
    rw [tree, Regex.ofParts_cons _ hne] at h
    exact h.2
  have hend : (Regex.look .textEnd).walk = Walk.check .textEnd := rfl
  rw [tree, Regex.ofParts_cons _ hne, Regex.way?_anchored hstraight, Regex.walk_ofParts,
    Regex.walkAll_append, Regex.walkAll_singleton, hend, andThen_textEnd, List.head?_filter]

theorem forall₂_find? {α β : Type} {R : α → β → Prop} {p : α → Bool} {q : β → Bool}
    (hpq : ∀ a b, R a b → p a = q b) {as : List α} {bs : List β} (h : List.Forall₂ R as bs) :
    Option.Rel R (as.find? p) (bs.find? q) := by
  induction h with
  | nil => exact .none
  | @cons a b as bs hab _ ih =>
    rw [List.find?_cons, List.find?_cons, hpq a b hab]
    split
    · exact .some hab
    · exact ih

/-- **The groups of a match** are those of the first derivation of the whole text. -/
theorem captures_tree (cls : CharClass) (nodes : List Node) (s : Text) :
    (tree cls nodes).captures s =
      ((outcomes cls nodes s).find? fun o => o.rest.isEmpty).map Outcome.groups := by
  -- the first way that leaves nothing agrees with the first outcome that does
  have hfind := forall₂_find? (fun p o (h : Matches 0 _ p o) => congrArg List.isEmpty h.rest_eq)
    (follows_sequence cls 0 nodes none s)
  rw [Regex.captures, Regex.find, way?_tree, Option.map_map, Option.map_map]
  generalize (Regex.walkAll (sequence cls 0 nodes) none s).find? _ = a at hfind ⊢
  generalize (outcomes cls nodes s).find? _ = b at hfind ⊢
  cases hfind with
  | none => rfl
  | @some p o h =>
    simp only [Option.map_some, Function.comp_apply, Regex.foundBy, groups_tree, ← h.texts]
    rw [List.range'_eq_map_range, List.map_map]
    refine congrArg some (List.map_congr_left fun i _ => ?_)
    rw [Function.comp_apply, Nat.zero_add, Nat.add_comm]

/-! ## The first derivation -/

variable {cls : CharClass} {nodes : List Node} {s : Text} {groups : List (Option Text)}

/-- A whole text is derived as one of the outcomes. -/
theorem Derives.mem_outcomes {choices : List Choice} (h : Derives cls nodes choices s groups) :
    ⟨choices, groups, []⟩ ∈ outcomes cls nodes s :=
  (Node.mem_outcomes cls nodes s _).mpr ⟨s, (List.append_nil s).symm, h⟩

theorem firstDerived_of_captures (h : (tree cls nodes).captures s = some groups) :
    FirstDerived cls nodes s groups := by
  rw [captures_tree, Option.map_eq_some_iff] at h
  obtain ⟨o, ho, rfl⟩ := h
  obtain ⟨hempty, front, behind, hsplit, hfront⟩ := List.find?_eq_some_iff_append.mp ho
  have hmem : o ∈ outcomes cls nodes s := by
    rw [hsplit]
    exact List.mem_append_right _ List.mem_cons_self
  obtain ⟨t, hs, hd⟩ := (mem_outcomes cls nodes s o).mp hmem
  rw [List.isEmpty_iff.mp hempty, List.append_nil] at hs
  subst hs
  refine ⟨o.choices, hd, fun choices' groups' hd' => ?_⟩
  have hmem' := hd'.mem_outcomes
  have hpairwise := pairwise_outcomes cls nodes s
  rw [hsplit] at hmem' hpairwise
  rcases List.mem_append.mp hmem' with hmem' | hmem'
  · -- what stands in front leaves something of the text
    exact absurd (hfront _ hmem') (by simp)
  rcases List.mem_cons.mp hmem' with heq | hmem'
  · exact .inl (congrArg Outcome.choices heq)
  · exact .inr ((List.pairwise_cons.mp (List.pairwise_append.mp hpairwise).2.1).1 _ hmem')

/-- What is captured is captured by a derivation of the whole text. -/
theorem derives_of_captures (h : (tree cls nodes).captures s = some groups) :
    ∃ choices, Derives cls nodes choices s groups := by
  obtain ⟨choices, hd, _⟩ := firstDerived_of_captures h
  exact ⟨choices, hd⟩

theorem captures_isSome_iff :
    ((tree cls nodes).captures s).isSome = true ↔ ∃ choices groups, Derives cls nodes choices s groups := by
  rw [captures_tree, Option.isSome_map, List.find?_isSome]
  constructor
  · rintro ⟨o, ho, hempty⟩
    obtain ⟨t, hs, hd⟩ := (mem_outcomes cls nodes s o).mp ho
    rw [List.isEmpty_iff.mp hempty, List.append_nil] at hs
    exact ⟨o.choices, o.groups, hs ▸ hd⟩
  · rintro ⟨choices, groups, hd⟩
    exact ⟨_, hd.mem_outcomes, rfl⟩

theorem captures_eq_some_iff :
    (tree cls nodes).captures s = some groups ↔ FirstDerived cls nodes s groups := by
  refine ⟨firstDerived_of_captures, fun h => ?_⟩
  obtain ⟨choices, hd, _⟩ := id h
  obtain ⟨groups', hc⟩ := Option.isSome_iff_exists.mp (captures_isSome_iff.mpr ⟨choices, groups, hd⟩)
  rw [hc, (firstDerived_of_captures hc).unique h]

/-- The regex of a pattern is made within its limits. -/
theorem compile_eq {charset : Text} (hcharset : CharClass.ofCharset? charset = some cls)
    (pattern : Text) (nodes : List Node) :
    Pattern.compile pattern nodes charset =
      if Regex.maxLevels < (tree cls nodes).levels .none then
        .error (.invalidRegex pattern (regexSource nodes charset) .tooDeep)
      else if (tree cls nodes).fits then .ok (tree cls nodes)
      else .error (.invalidRegex pattern (regexSource nodes charset) .tooLarge) := by
  simp only [Pattern.compile, Regex.read_of_readFrom (readFrom_regexSource hcharset nodes)]
  by_cases hdeep : Regex.maxLevels < (tree cls nodes).levels .none
  · simp only [if_pos hdeep]
  · by_cases hfits : (tree cls nodes).fits = true
    · simp only [if_neg hdeep, if_pos hfits]
    · simp only [if_neg hdeep, if_neg hfits]

/-- **Matching agrees with the derivations.** Within the limits of regexes, the regex of a pattern matches
the texts that are derived from its nodes, and reports the groups of the derivation that comes first. -/
theorem compile_captures {charset : Text} (hcharset : CharClass.ofCharset? charset = some cls)
    (pattern : Text) (nodes : List Node) :
    Pattern.compile pattern nodes charset =
        (if Regex.maxLevels < (tree cls nodes).levels .none then
          .error (.invalidRegex pattern (regexSource nodes charset) .tooDeep)
        else if (tree cls nodes).fits then .ok (tree cls nodes)
        else .error (.invalidRegex pattern (regexSource nodes charset) .tooLarge)) ∧
      ∀ input,
        (((tree cls nodes).captures input).isSome = true ↔
          ∃ choices groups, Derives cls nodes choices input groups) ∧
        ∀ groups, (tree cls nodes).captures input = some groups ↔
          FirstDerived cls nodes input groups :=
  ⟨compile_eq hcharset pattern nodes, fun _ => ⟨captures_isSome_iff, fun _ => captures_eq_some_iff⟩⟩

/-- A named segment leaves what it can to an optional segment only if it has to. -/
theorem compile_captures_optional :
    CharClass.ofCharset? ['a', '-', 'z'] = some (.bracket false (.range 'a' 'z')) ∧
      FirstDerived (.bracket false (.range 'a' 'z'))
        [.named ['x'], .optional [.text ['b'], .named ['y']], .optional [.wildcard, .text ['/']]]
        ['a', 'b', 'c', '/'] [some ['a', 'b', 'c'], none, some []] := by
  have hcharset : CharClass.ofCharset? ['a', '-', 'z'] = some (.bracket false (.range 'a' 'z')) := by
    decide +kernel
  exact ⟨hcharset, (((compile_captures hcharset [] _).2 _).2 _).mp (by decide +kernel)⟩

end RoutePattern.Node
