import RoutePattern.Proofs.Pattern.Rules

/-!
# Static text

Static text is read unit by unit. The escape character takes the character behind it along; any other
character, and the escape character where nothing follows, is a unit of its own. Text ends in front of a
unit that begins with a character that ends it, even if that is the escape character, and it does not end
before: a special character in the second place of a unit is passed over. All of this holds whichever
characters coincide.

## Main definitions

* `Glyph` — a unit of static text; `Glyph.read` — the units of a text, from the left.
* `Glyph.LongestRun` — the units up to the first one that ends static text.
* `Grammar.staticText_longest` — what is read as static text.
-/

namespace RoutePattern

/-- A unit of static text. -/
inductive Glyph where
  /-- A character behind the escape character. -/
  | escaped (c : Char)
  /-- A character of its own. -/
  | bare (c : Char)
  deriving DecidableEq, Repr

namespace Glyph

/-- What a unit stands for. -/
def char : Glyph → Char
  | .escaped c => c
  | .bare c => c

/-- How a unit is written. -/
def written (escape : Char) : Glyph → Text
  | .escaped c => [escape, c]
  | .bare c => [c]

/-- The character that a unit begins with. -/
def first (escape : Char) : Glyph → Char
  | .escaped _ => escape
  | .bare c => c

/-- The units of a text, from the left. -/
def read (escape : Char) : Text → List Glyph
  | [] => []
  | [c] => [.bare c]
  | c :: d :: s => if c = escape then .escaped d :: read escape s else .bare c :: read escape (d :: s)

/-- Units at the front of a text, up to a rest: none of them begins with a character that ends static text,
and there is no longer run of such units. -/
structure LongestRun (o : Options) (s : Text) (run : List Glyph) (rest : Text) : Prop where
  isPrefix : run <+: read o.escape s
  goesOn : ∀ u ∈ run, ¬o.Ends (u.first o.escape)
  longest : ∀ run', run' <+: read o.escape s → (∀ u ∈ run', ¬o.Ends (u.first o.escape)) →
    run'.length ≤ run.length
  written : s = run.flatMap (Glyph.written o.escape) ++ rest

variable {o : Options} {s mid rest rest' : Text} {u : Glyph} {run run' : List Glyph}

@[simp] theorem head?_written_append (escape : Char) (u : Glyph) (s : Text) :
    (u.written escape ++ s).head? = some (u.first escape) := by
  cases u <;> rfl

/-- The character at the front of a text is the one that its first unit begins with. -/
theorem head?_eq_first {escape : Char} {us : List Glyph} (h : read escape s = u :: us) :
    s.head? = some (u.first escape) := by
  unfold read at h
  split at h
  · cases h
  · cases h
    rfl
  · split at h
    · next hc =>
      cases h
      exact congrArg some hc
    · cases h
      rfl

/-! ## Longest runs -/

namespace LongestRun

/-- There is only one longest run. -/
theorem unique (h : LongestRun o s run rest) (h' : LongestRun o s run' rest') :
    run = run' ∧ rest = rest' := by
  have hlength : run.length = run'.length :=
    Nat.le_antisymm (h'.longest run h.isPrefix h.goesOn) (h.longest run' h'.isPrefix h'.goesOn)
  obtain rfl : run = run' :=
    (List.prefix_of_prefix_length_le h.isPrefix h'.isPrefix hlength.le).eq_of_length hlength
  exact ⟨rfl, List.append_cancel_left (h.written.symm.trans h'.written)⟩

/-- There is no unit where static text ends. -/
theorem stop (h : Node.Stops o s) : LongestRun o s [] s := by
  refine ⟨List.nil_prefix, by simp, ?_, rfl⟩
  rintro run' ⟨us, hus⟩ hgo
  cases run' with
  | nil => exact Nat.le_refl _
  | cons u run' =>
    have hhead : s.head? = some (u.first o.escape) := head?_eq_first hus.symm
    exact absurd (h _ hhead) (hgo u List.mem_cons_self)

/-- One more unit in front. -/
theorem cons (hread : read o.escape s = u :: read o.escape mid) (hs : s = u.written o.escape ++ mid)
    (hu : ¬o.Ends (u.first o.escape)) (h : LongestRun o mid run rest) :
    LongestRun o s (u :: run) rest := by
  refine ⟨?_, ?_, ?_, ?_⟩
  · rw [hread]
    exact List.cons_prefix_cons.mpr ⟨rfl, h.isPrefix⟩
  · exact List.forall_mem_cons.mpr ⟨hu, h.goesOn⟩
  · intro run' hprefix hgo
    cases run' with
    | nil => exact Nat.zero_le _
    | cons u' run' =>
      rw [hread, List.cons_prefix_cons] at hprefix
      exact Nat.succ_le_succ (h.longest run' hprefix.2 (List.forall_mem_cons.mp hgo).2)
  · rw [List.flatMap_cons, List.append_assoc, ← h.written]
    exact hs

end LongestRun

end Glyph

namespace Grammar

open Glyph (LongestRun)
open Node (Stops)

variable {g : Grammar} {s rest : Text}

/-! ## Units are what the rule reads -/

/-- The character that is read at the front of a text is its first unit. -/
theorem exists_unit (hne : s ≠ []) :
    ∃ u mid, Glyph.read g.options.escape s = u :: Glyph.read g.options.escape mid ∧
      s = u.written g.options.escape ++ mid ∧ g.character s = some ([u.char], mid) := by
  match s with
  | [] => exact absurd rfl hne
  | [c] =>
    refine ⟨.bare c, [], rfl, rfl, ?_⟩
    by_cases hc : c = g.options.escape
    · rw [hc]
      exact character_last
    · exact character_bare hc []
  | c :: d :: s =>
    by_cases hc : c = g.options.escape
    · refine ⟨.escaped d, s, ?_, ?_, ?_⟩
      · rw [Glyph.read, if_pos hc]
      · rw [hc]
        rfl
      · rw [hc]
        exact character_escaped d s
    · refine ⟨.bare c, d :: s, ?_, rfl, character_bare hc (d :: s)⟩
      rw [Glyph.read, if_neg hc]

/-- Rounds up to the end of static text read the longest run of units. -/
theorem exists_longestRun {texts : List Text} (h : Parser.RunUntil g.character g.special s texts rest) :
    ∃ run : List Glyph, texts = run.map (fun u => [u.char]) ∧ LongestRun g.options s run rest := by
  induction h with
  | stop hstop =>
    obtain ⟨c, hc, hends⟩ := special_isSome.mp hstop
    exact ⟨[], rfl, .stop fun d hd => Option.mem_unique hc hd ▸ hends⟩
  | @none s hgo hp => exact ⟨[], rfl, .stop (stops_of_runUntil (.none hgo hp))⟩
  | stall _ hp hlt => exact absurd (character_eq_some hp).2.2 hlt
  | round hgo hp _ _ ih =>
    obtain ⟨u, mid', hread, hs, hcharacter⟩ := exists_unit (g := g) (character_eq_some hp).1
    rw [hp] at hcharacter
    cases hcharacter
    obtain ⟨run, rfl, hrun⟩ := ih
    refine ⟨u :: run, rfl, hrun.cons hread hs fun hends => ?_⟩
    rw [special_isSome.mpr ⟨_, hs ▸ Glyph.head?_written_append _ u _, hends⟩] at hgo
    cases hgo

theorem exists_run_of_staticText {node : Node} (h : g.staticText s = some (node, rest)) :
    ∃ run, run ≠ [] ∧ LongestRun g.options s run rest ∧ node = .text (run.map Glyph.char) := by
  unfold staticText Parser.map at h
  rw [Option.map_eq_some_iff] at h
  obtain ⟨⟨t, rest'⟩, h, heq⟩ := h
  cases heq
  obtain ⟨texts, hne, rfl, hrun⟩ := Parser.concatUntil_eq_some_iff.mp h
  obtain ⟨run, rfl, hlongest⟩ := exists_longestRun hrun
  refine ⟨run, fun hnil => hne (by rw [hnil, List.map_nil]), hlongest, ?_⟩
  rw [← List.flatMap_def, ← List.map_eq_flatMap]

theorem staticText_of_run {run : List Glyph} (hne : run ≠ []) (h : LongestRun g.options s run rest) :
    g.staticText s = some (.text (run.map Glyph.char), rest) := by
  obtain ⟨run', htexts, hlongest⟩ := exists_longestRun (Parser.runUntil_roundsUntil g.character g.special s)
  obtain ⟨rfl, hrest⟩ := h.unique hlongest
  have hrun : Parser.RunUntil g.character g.special s (run.map fun u => [u.char]) rest :=
    Parser.roundsUntil_eq_iff.mp (Prod.ext htexts hrest.symm)
  have hconcat : Parser.concatUntil g.character g.special s = some (run.map Glyph.char, rest) := by
    refine Parser.concatUntil_eq_some_iff.mpr ⟨_, by simpa using hne, ?_, hrun⟩
    rw [← List.flatMap_def, ← List.map_eq_flatMap]
  exact congrArg (Option.map fun found => (Node.text found.1, found.2)) hconcat

/-- A run begins where static text does not end. -/
theorem run_ne_nil_iff {run : List Glyph} (h : LongestRun g.options s run rest) :
    run ≠ [] ↔ ∃ c ∈ s.head?, ¬g.options.Ends c := by
  constructor
  · intro hne
    obtain ⟨u, run, rfl⟩ := List.exists_cons_of_ne_nil hne
    refine ⟨u.first g.options.escape, ?_, h.goesOn u List.mem_cons_self⟩
    rw [h.written, List.flatMap_cons, List.append_assoc]
    exact Glyph.head?_written_append _ _ _
  · rintro ⟨c, hc, hends⟩ rfl
    -- the first unit would have been taken
    obtain ⟨u, mid, hread, hs, _⟩ := exists_unit (g := g) (List.ne_nil_of_mem (List.mem_of_mem_head? hc))
    have hfirst : u.first g.options.escape = c := by
      rw [hs, Glyph.head?_written_append] at hc
      exact Option.mem_some.mp hc
    have hlength := h.longest [u] (hread ▸ ⟨_, rfl⟩) (by simpa [hfirst] using hends)
    exact absurd hlength (by simp)

/-- The rest begins with a character that ends static text, if anything is left. -/
theorem stops_of_longestRun {run : List Glyph} (h : LongestRun g.options s run rest) :
    Stops g.options rest := by
  have hrun := Parser.runUntil_roundsUntil g.character g.special s
  obtain ⟨_, _, hlongest⟩ := exists_longestRun hrun
  rw [(h.unique hlongest).2]
  exact stops_of_runUntil hrun

/-- **Static text is the longest run of units** that do not begin with a character that ends it, without the
escape characters of these units. It is there if the text begins with some other character, and it leaves
nothing or a text that begins with such a character. -/
theorem staticText_longest (g : Grammar) (s : Text) :
    ((g.staticText s).isSome = true ↔ ∃ c ∈ s.head?, ¬g.options.Ends c) ∧
      ∀ node rest, g.staticText s = some (node, rest) ↔
        ∃ run, run ≠ [] ∧ LongestRun g.options s run rest ∧ node = .text (run.map Glyph.char) ∧
          Stops g.options rest := by
  obtain ⟨run, _, hrun⟩ := exists_longestRun (Parser.runUntil_roundsUntil g.character g.special s)
  refine ⟨?_, fun node rest => ⟨fun h => ?_, ?_⟩⟩
  · rw [← run_ne_nil_iff hrun]
    constructor
    · intro h
      obtain ⟨⟨node, rest⟩, h⟩ := Option.isSome_iff_exists.mp h
      obtain ⟨run', hne, hrun', _⟩ := exists_run_of_staticText h
      exact (hrun.unique hrun').1 ▸ hne
    · intro hne
      rw [staticText_of_run hne hrun]
      rfl
  · obtain ⟨run', hne, hrun', hnode⟩ := exists_run_of_staticText h
    exact ⟨run', hne, hrun', hnode, stops_of_longestRun hrun'⟩
  · rintro ⟨run', hne, hrun', rfl, _⟩
    exact staticText_of_run hne hrun'

/-- The escape character takes a special character along, and stands for itself at the end. -/
example : Glyph.read '/' (Text.ofString "a/:b//c/") =
    [.bare 'a', .escaped ':', .bare 'b', .escaped '/', .bare 'c', .bare '/'] := by decide

end Grammar

end RoutePattern
