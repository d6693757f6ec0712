import Mathlib.Logic.Function.Iterate
import RoutePattern.Parser.Live
import RoutePattern.Proofs.Parser.Combinators

/-!
# Parsers that have nothing to do with the world

Combinators of parsers that have nothing to do with the world have nothing to do with it either: they are
the combinators of `Parser`. Such parsers come to an end and leave the world as it was. Repetitions are followed
with a parser that leaves a mark on the world whenever it matches, so that its matches are counted.

## Main definitions

* `Live.pure_map`, `Live.pure_pick`, `Live.pure_firstOf`, `Live.pure_many`, `Live.pure_concatUntil`.
* `Live.pick_three` — the second of three parsers.
* `Live.marking` — a mark for each match (`Live.many_marking`, `Live.concatUntil_marking`).
-/

namespace RoutePattern.Live

variable {α β : Type} (p : Parser α) (ps : List (Parser α))

/-! ## Several parsers -/

theorem pure_map (f : α → β) : pure (.map f p) = map f (pure p) := by
  funext s w
  have hpure : pure p s w = some (p s, w) := rfl
  show some (Parser.map f p s, w) = map f (pure p) s w
  unfold map andThen Parser.map
  rw [hpure]
  cases p s <;> rfl

theorem pure_sequence : pure (.sequence ps) = sequence (ps.map pure) := by
  induction ps with
  | nil => rfl
  | cons p ps ih =>
    funext s w
    rw [List.map_cons, sequence, ← ih]
    unfold andThen pure
    rw [Parser.sequence]
    cases p s with
    | none => rfl
    | some r =>
      show some ((Parser.sequence ps r.2).bind fun r' => some (r.1 :: r'.1, r'.2), w) =
        map (r.1 :: ·) (pure (.sequence ps)) r.2 w
      rw [← pure_map]
      unfold pure Parser.map
      cases Parser.sequence ps r.2 <;> rfl

theorem pure_pick (index : Nat) : pure (.pick index ps) = pick index (ps.map pure) := by
  funext s w
  unfold pick
  rw [← pure_sequence]
  unfold andThen pure Parser.pick
  cases Parser.sequence ps s with
  | none => rfl
  | some r =>
    show some ((r.1[index]?).bind fun value => some (value, r.2), w) = some (r.1[index]?.map (·, r.2), w)
    cases r.1[index]? <;> rfl

theorem pure_firstOf : pure (.firstOf ps) = firstOf (ps.map pure) := by
  induction ps with
  | nil => rfl
  | cons p ps ih =>
    funext s w
    rw [List.map_cons, firstOf, ← ih]
    unfold orElse pure
    rw [Parser.firstOf]
    cases p s <;> rfl

/-! ## Parts in a row -/

theorem give_andThen {α β : Type} (value : α) (next : α → Live β) : (give value).andThen next = next value :=
  rfl

theorem andThen_assoc {α β γ : Type} (p : Live α) (f : α → Live β) (g : β → Live γ) :
    (p.andThen f).andThen g = p.andThen fun value => (f value).andThen g := by
  funext s w
  unfold andThen
  rcases p s w with _ | ⟨_ | ⟨value, rest⟩, w⟩ <;> rfl

/-- The second of three parsers in a row. -/
theorem pick_three (p q r : Live α) :
    pick 1 [p, q, r] = p.andThen fun _ => q.andThen fun value => map (fun _ => value) r := by
  unfold pick sequence sequence sequence sequence map
  simp only [andThen_assoc, give_andThen]
  rfl

/-! ## Rounds -/

/-- A parser each of whose matches leaves a mark on the world. -/
def marking (mark : World → World) (p : Parser α) : Live α := fun s w =>
  some (p s, if (p s).isSome = true then mark w else w)

theorem marking_id : marking id p = pure p := by
  funext s w
  unfold marking pure
  rw [id_eq, ite_self]

section Marking

variable (mark : World → World) (stop : Parser β) (s : Text) (w : World)

/-- Each round is one match. -/
theorem roundsUntil_marking : roundsUntil (marking mark p) (pure stop) s w =
    some (some (Parser.roundsUntil p stop s), mark^[(Parser.roundsUntil p stop s).1.length] w) := by
  fun_induction Parser.roundsUntil p stop s generalizing w with
  | case1 s hstop =>
    obtain ⟨r, hr⟩ := Option.isSome_iff_exists.mp hstop
    rw [roundsUntil]
    simp only [pure, hr]
    rfl
  | case2 s hstop hp =>
    rw [Option.not_isSome_iff_eq_none] at hstop
    rw [roundsUntil]
    simp only [pure, marking, hstop, hp]
    rfl
  | case3 s hstop a mid hp hlt as rest hrounds ih =>
    rw [Option.not_isSome_iff_eq_none] at hstop
    rw [hrounds] at ih
    rw [roundsUntil]
    simp only [pure, marking, hstop, hp, if_pos hlt, Option.isSome_some, if_true] at ih ⊢
    rw [ih]
    rfl
  | case4 s hstop a rest hp hlt =>
    rw [Option.not_isSome_iff_eq_none] at hstop
    rw [roundsUntil]
    simp only [pure, marking, hstop, hp, if_neg hlt]
    rfl

theorem concatUntil_marking (p : Parser Text) : concatUntil (marking mark p) (pure stop) s w =
    some (Parser.concatUntil p stop s, mark^[(Parser.roundsUntil p stop s).1.length] w) := by
  unfold concatUntil manyUntil map andThen
  rw [roundsUntil_marking]
  unfold Parser.concatUntil
  rcases Parser.roundsUntil p stop s with ⟨_ | ⟨t, texts⟩, rest⟩ <;> rfl

theorem many_marking : many (marking mark p) s w =
    some (Parser.many p s, mark^[(Parser.rounds p s).1.length] w) := by
  unfold many manyUntil andThen
  rw [roundsUntil_marking, ← Parser.rounds_eq_roundsUntil]
  unfold Parser.many
  rcases Parser.rounds p s with ⟨_ | ⟨a, as⟩, rest⟩ <;> rfl

end Marking

theorem pure_concatUntil (p : Parser Text) (stop : Parser β) :
    pure (.concatUntil p stop) = concatUntil (pure p) (pure stop) := by
  funext s w
  have h := concatUntil_marking id stop s w p
  rw [marking_id, Function.iterate_id] at h
  exact h.symm

theorem pure_many : pure (.many p) = many (pure p) := by
  funext s w
  have h := many_marking p id s w
  rw [marking_id, Function.iterate_id] at h
  exact h.symm

end RoutePattern.Live
