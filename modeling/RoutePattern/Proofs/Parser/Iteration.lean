import Mathlib.Order.Bounds.Basic
import RoutePattern.Proofs.Parser.Combinators
import RoutePattern.Proofs.Parser.Pure

/-!
# Repetition is iteration

A repetition uses a parser on a text, then on what that leaves, and so on. How many rounds there are can be told
from these texts alone: as many as it takes until `stop` matches, the parser does not, or a round has taken
nothing. Any parser can be repeated that leaves a suffix of its text, also one that takes nothing.

## Main definitions

* `Parser.left` — what a number of rounds leaves; `Parser.Iterates` — what the first rounds read.
* `Parser.IsOver` — no round follows; `Parser.EndsAt` — the number of rounds.
* `Parser.runUntil_iff` — a run ends as soon as it is over.
* `Parser.many_iterates`, `Parser.concatUntil_iterates` — what both repetitions give, and how often they use
  their parser.
-/

namespace RoutePattern.Parser

variable {α β : Type} {p : Parser α} {stop : Parser β} {s mid rest : Text} {a : α} {as : List α} {n : ℕ}

/-! ## What rounds leave -/

/-- What a number of rounds leaves of a text. A round without a match leaves all of it. -/
def left (p : Parser α) (s : Text) (n : ℕ) : Text := (fun s => (p s).elim s Prod.snd)^[n] s

theorem left_zero : left p s 0 = s := rfl

theorem left_succ (h : p s = some (a, mid)) (n : ℕ) : left p s (n + 1) = left p mid n := by
  unfold left
  rw [Function.iterate_succ_apply, h, Option.elim_some]

/-- The values of the first rounds, each of which matches. -/
def Iterates (p : Parser α) (s : Text) (as : List α) : Prop :=
  ∀ i (hi : i < as.length), p (left p s i) = some (as[i], left p s (i + 1))

theorem iterates_nil : Iterates p s [] := nofun

theorem iterates_cons : Iterates p s (a :: as) ↔ ∃ mid, p s = some (a, mid) ∧ Iterates p mid as := by
  constructor
  · intro h
    have hp : p s = some (a, left p s 1) := h 0 (Nat.succ_pos _)
    refine ⟨_, hp, fun i hi => ?_⟩
    rw [← left_succ hp, ← left_succ hp]
    exact h (i + 1) (Nat.succ_lt_succ hi)
  · rintro ⟨mid, hp, h⟩ i hi
    cases i with
    | zero => rwa [left_zero, left_succ hp, left_zero]
    | succ i =>
      rw [left_succ hp, left_succ hp]
      exact h i (Nat.lt_of_succ_lt_succ hi)

/-! ## When rounds are over -/

/-- After some rounds no other one follows: `stop` matches, the parser does not, or the last round has taken
nothing. -/
def IsOver (p : Parser α) (stop : Parser β) (s : Text) (n : ℕ) : Prop :=
  (stop (left p s n)).isSome = true ∨ p (left p s n) = none ∨ n ≠ 0 ∧ left p s n = left p s (n - 1)

theorem isOver_zero : IsOver p stop s 0 ↔ (stop s).isSome = true ∨ p s = none := by
  simp [IsOver, left_zero]

theorem isOver_one (h : p s = some (a, s)) : IsOver p stop s 1 :=
  .inr (.inr ⟨Nat.one_ne_zero, left_succ h 0⟩)

/-- After a round that takes something, the next ones decide. -/
theorem isOver_succ (h : p s = some (a, mid)) (hne : mid ≠ s) (n : ℕ) :
    IsOver p stop s (n + 1) ↔ IsOver p stop mid n := by
  unfold IsOver
  rw [left_succ h]
  cases n with
  | zero => simp [left_zero, hne]
  | succ n => simp [left_succ h]

/-- The number of rounds: after so many no other one follows, and after none before. -/
def EndsAt (p : Parser α) (stop : Parser β) (s : Text) (n : ℕ) : Prop :=
  IsOver p stop s n ∧ ∀ i < n, ¬IsOver p stop s i

theorem endsAt_zero : EndsAt p stop s 0 ↔ (stop s).isSome = true ∨ p s = none := by
  simp [EndsAt, isOver_zero]

theorem endsAt_succ (h : p s = some (a, mid)) (hne : mid ≠ s) (n : ℕ) :
    EndsAt p stop s (n + 1) ↔ (stop s).isSome = false ∧ EndsAt p stop mid n := by
  unfold EndsAt
  rw [Nat.forall_lt_succ_left, isOver_zero, isOver_succ h hne]
  simp only [isOver_succ h hne, h, reduceCtorEq, or_false, Bool.not_eq_true]
  exact and_left_comm

/-- A round that takes nothing is the last one. -/
theorem endsAt_succ_of_stall (h : p s = some (a, s)) (n : ℕ) :
    EndsAt p stop s (n + 1) ↔ (stop s).isSome = false ∧ n = 0 := by
  unfold EndsAt
  rw [Nat.forall_lt_succ_left, isOver_zero]
  constructor
  · rintro ⟨_, hgo, hbefore⟩
    rw [not_or, Bool.not_eq_true] at hgo
    refine ⟨hgo.1, Nat.eq_zero_of_not_pos fun hpos => hbefore 0 hpos (isOver_one h)⟩
  · rintro ⟨hgo, rfl⟩
    exact ⟨isOver_one h, by simp [hgo, h], nofun⟩

/-! ## How far a run goes -/

/-- What is left is shorter, unless nothing was taken. -/
theorem length_lt_iff_ne (h : rest <:+ s) : rest.length < s.length ↔ rest ≠ s := by
  constructor
  · rintro hlt rfl
    exact Nat.lt_irrefl _ hlt
  · intro hne
    exact Nat.lt_of_le_of_ne h.length_le fun heq => hne (h.eq_of_length heq)

theorem RunUntil.endsAt (hp : ∀ s a rest, p s = some (a, rest) → rest <:+ s) (h : RunUntil p stop s as rest) :
    Iterates p s as ∧ rest = left p s as.length ∧ EndsAt p stop s as.length := by
  induction h with
  | stop hstop => exact ⟨iterates_nil, rfl, endsAt_zero.mpr (.inl hstop)⟩
  | none _ h => exact ⟨iterates_nil, rfl, endsAt_zero.mpr (.inr h)⟩
  | @stall s rest a hgo h hlt =>
    rw [length_lt_iff_ne (hp s a rest h), not_not] at hlt
    subst hlt
    refine ⟨iterates_cons.mpr ⟨_, h, iterates_nil⟩, (left_succ h 0).symm, ?_⟩
    exact (endsAt_succ_of_stall h 0).mpr ⟨hgo, rfl⟩
  | @round s mid rest a as hgo h hlt _ ih =>
    rw [length_lt_iff_ne (hp s a mid h)] at hlt
    obtain ⟨hread, rfl, hends⟩ := ih
    refine ⟨iterates_cons.mpr ⟨mid, h, hread⟩, (left_succ h _).symm, ?_⟩
    exact (endsAt_succ h hlt _).mpr ⟨hgo, hends⟩

theorem runUntil_of_endsAt (hp : ∀ s a rest, p s = some (a, rest) → rest <:+ s) (hread : Iterates p s as)
    (hends : EndsAt p stop s as.length) : RunUntil p stop s as (left p s as.length) := by
  induction as generalizing s with
  | nil =>
    cases hstop : (stop s).isSome with
    | true => exact .stop hstop
    | false => exact .none hstop ((endsAt_zero.mp hends).resolve_left (by simp [hstop]))
  | cons a as ih =>
    obtain ⟨mid, h, hread⟩ := iterates_cons.mp hread
    rw [List.length_cons, left_succ h]
    by_cases hne : mid = s
    · subst hne
      obtain ⟨hgo, hnil⟩ := (endsAt_succ_of_stall h _).mp hends
      obtain rfl := List.length_eq_zero_iff.mp hnil
      exact .stall hgo h (Nat.lt_irrefl _)
    · obtain ⟨hgo, hends⟩ := (endsAt_succ h hne _).mp hends
      exact .round hgo h ((length_lt_iff_ne (hp s a mid h)).mpr hne) (ih hread hends)

/-- A run is as long as it takes until it is over. -/
theorem runUntil_iff (hp : ∀ s a rest, p s = some (a, rest) → rest <:+ s) :
    RunUntil p stop s as rest ↔
      Iterates p s as ∧ rest = left p s as.length ∧ EndsAt p stop s as.length := by
  constructor
  · exact RunUntil.endsAt hp
  · rintro ⟨hread, rfl, hends⟩
    exact runUntil_of_endsAt hp hread hends

/-- The number of rounds, if there are any, is the first one after which no other follows. -/
theorem isLeast_iff (hstart : ¬IsOver p stop s 0) :
    IsLeast {n | 1 ≤ n ∧ ((stop (left p s n)).isSome = true ∨ p (left p s n) = none ∨
      left p s n = left p s (n - 1))} n ↔ EndsAt p stop s n := by
  have hset : {n | 1 ≤ n ∧ ((stop (left p s n)).isSome = true ∨ p (left p s n) = none ∨
      left p s n = left p s (n - 1))} = {n | IsOver p stop s n} := by
    ext n
    cases n with
    | zero => simp [hstart]
    | succ n => simp [IsOver]
  rw [hset]
  constructor
  · intro h
    exact ⟨h.1, fun i hi hover => Nat.not_le_of_lt hi (h.2 hover)⟩
  · intro h
    exact ⟨h.1, fun i hover => Nat.le_of_not_lt fun hi => h.2 i hi hover⟩

/-- A run of one round or more. -/
theorem runUntil_iff_isLeast (hp : ∀ s a rest, p s = some (a, rest) → rest <:+ s) :
    as ≠ [] ∧ RunUntil p stop s as rest ↔
      Iterates p s as ∧ rest = left p s as.length ∧ (∀ i < as.length, stop (left p s i) = none) ∧
        IsLeast {n | 1 ≤ n ∧ ((stop (left p s n)).isSome = true ∨ p (left p s n) = none ∨
          left p s n = left p s (n - 1))} as.length := by
  rw [runUntil_iff hp]
  constructor
  · rintro ⟨hne, hread, hrest, hends⟩
    refine ⟨hread, hrest, fun i hi => ?_, ?_⟩
    · have hgo := hends.2 i hi
      rw [IsOver, not_or, Option.not_isSome_iff_eq_none] at hgo
      exact hgo.1
    · exact (isLeast_iff (hends.2 0 (List.length_pos_iff.mpr hne))).mpr hends
  · rintro ⟨hread, hrest, hgo, hleast⟩
    have hpos : 0 < as.length := hleast.1.1
    have hmatch : p s = some (as[0], left p s 1) := hread 0 hpos
    have hstart : stop s = none := hgo 0 hpos
    have hgoes : ¬IsOver p stop s 0 := by simp [isOver_zero, hstart, hmatch]
    exact ⟨List.length_pos_iff.mp hpos, hread, hrest, (isLeast_iff hgoes).mp hleast⟩

/-! ## Repetitions -/

theorem fst_roundsUntil_eq_nil_iff :
    (roundsUntil p stop s).1 = [] ↔ (stop s).isSome = true ∨ p s = none := by
  rw [roundsUntil]
  split
  · next hstop => simp [hstop]
  · next hstop =>
    cases hp : p s with
    | none => simp
    | some r => by_cases hlt : r.2.length < s.length <;> simp [hstop, hlt]

theorem concatUntil_eq_none_iff {p : Parser Text} :
    concatUntil p stop s = none ↔ (stop s).isSome = true ∨ p s = none := by
  rw [← fst_roundsUntil_eq_nil_iff]
  unfold concatUntil
  rcases roundsUntil p stop s with ⟨_ | _, rest⟩ <;> simp

theorem many_eq_none_iff : many p s = none ↔ p s = none := by
  have hnil : (rounds p s).1 = [] ↔ p s = none := by
    rw [rounds_eq_roundsUntil, fst_roundsUntil_eq_nil_iff]
    simp [fail]
  rw [← hnil]
  unfold many
  rcases rounds p s with ⟨_ | _, rest⟩ <;> simp

/-- **One round or more** is what a parser reads from place to place.

* There is no match if and only if the parser does not match at the start.
* The values are those of the first rounds. Their number is the least one, from 1 on, after which the parser does
  not match or the last round has left all of its text.
* So all rounds but the last one take something.
* The parser matches at most once more often than the text is long, whatever its matches do to the world. -/
theorem many_iterates {p : Parser α} (hp : ∀ s a rest, p s = some (a, rest) → rest <:+ s) (s : Text) :
    (many p s = none ↔ p s = none) ∧
      (∀ as rest, many p s = some (as, rest) ↔
        Iterates p s as ∧ rest = left p s as.length ∧
          IsLeast {n | 1 ≤ n ∧ (p (left p s n) = none ∨ left p s n = left p s (n - 1))} as.length) ∧
      (∀ as rest, many p s = some (as, rest) → ∀ i, i + 1 < as.length → left p s (i + 1) ≠ left p s i) ∧
      ∃ n ≤ s.length + 1, ∀ mark w,
        Live.many (Live.marking mark p) s w = some (many p s, mark^[n] w) := by
  have hsome (as : List α) (rest : Text) : many p s = some (as, rest) ↔
      Iterates p s as ∧ rest = left p s as.length ∧
        IsLeast {n | 1 ≤ n ∧ (p (left p s n) = none ∨ left p s n = left p s (n - 1))} as.length := by
    rw [many_eq_some_iff, run_iff_runUntil, runUntil_iff_isLeast hp]
    simp [fail]
  refine ⟨many_eq_none_iff, hsome, fun as rest h i hi heq => ?_, ?_⟩
  · obtain ⟨_, _, hleast⟩ := (hsome as rest).mp h
    exact Nat.not_le_of_lt hi (hleast.2 ⟨Nat.succ_pos i, .inr heq⟩)
  · refine ⟨(rounds p s).1.length, ?_, fun mark w => Live.many_marking p mark s w⟩
    rw [rounds_eq_roundsUntil]
    exact (runUntil_roundsUntil p _ s).length_le

/-- The last of as many matches as there can be takes nothing. -/
theorem many_iterates_stalling :
    many (firstOf [anyChar, literal []]) ['a', 'b'] = some ([['a'], ['b'], []], []) := by
  have hp (s a rest : Text) (h : firstOf [anyChar, literal []] s = some (a, rest)) : rest <:+ s := by
    refine suffix_of_firstOf ?_ h
    simp only [List.forall_mem_cons, List.not_mem_nil, false_imp_iff, implies_true, and_true]
    exact ⟨fun _ _ _ => suffix_of_anyChar, fun _ _ _ => suffix_of_literal⟩
  obtain ⟨_, hsome, _⟩ := many_iterates hp ['a', 'b']
  refine (hsome _ _).mpr ⟨by unfold Iterates; decide, rfl, ⟨by decide, .inr rfl⟩, ?_⟩
  rintro n ⟨hpos, h⟩
  rcases n with _ | _ | _ | n
  · cases hpos
  · exact absurd h (by decide)
  · exact absurd h (by decide)
  · exact Nat.le_add_left 3 n

/-- **One round or more until a stop** is what a parser reads from place to place, up to the first one where the
stop matches.

* There is no match if and only if the stop matches at the start or the parser does not.
* The texts that are joined are those of the first rounds. Their number is the least one, from 1 on, after which
  the stop matches, the parser does not match or the last round has left all of its text. Nothing behind them is
  taken, and the stop matches at no place before.
* The parser matches at most once more often than the text is long, whatever its matches do to the world. -/
theorem concatUntil_iterates {p : Parser Text} (hp : ∀ s t rest, p s = some (t, rest) → rest <:+ s)
    (stop : Parser β) (s : Text) :
    (concatUntil p stop s = none ↔ (stop s).isSome = true ∨ p s = none) ∧
      (∀ t rest, concatUntil p stop s = some (t, rest) ↔
        ∃ texts, t = texts.flatten ∧ Iterates p s texts ∧ rest = left p s texts.length ∧
          (∀ i < texts.length, stop (left p s i) = none) ∧
          IsLeast {n | 1 ≤ n ∧ ((stop (left p s n)).isSome = true ∨ p (left p s n) = none ∨
            left p s n = left p s (n - 1))} texts.length) ∧
      ∃ n ≤ s.length + 1, ∀ mark w,
        Live.concatUntil (Live.marking mark p) (.pure stop) s w = some (concatUntil p stop s, mark^[n] w) := by
  refine ⟨concatUntil_eq_none_iff, fun t rest => ?_, ?_⟩
  · rw [concatUntil_eq_some_iff]
    refine exists_congr fun texts => ?_
    rw [and_left_comm, runUntil_iff_isLeast hp]
  · refine ⟨(roundsUntil p stop s).1.length, (runUntil_roundsUntil p stop s).length_le, ?_⟩
    exact fun mark w => Live.concatUntil_marking mark stop s w p

/-- A round can take the text past a place where the stop would match. -/
theorem concatUntil_iterates_jumping :
    concatUntil (firstOf [literal ['a', 'b'], anyChar]) (literal ['b']) ['x', 'a', 'b', 'b', 'c'] =
      some (['x', 'a', 'b'], ['b', 'c']) := by
  have hp (s t rest : Text) (h : firstOf [literal ['a', 'b'], anyChar] s = some (t, rest)) : rest <:+ s := by
    refine suffix_of_firstOf ?_ h
    simp only [List.forall_mem_cons, List.not_mem_nil, false_imp_iff, implies_true, and_true]
    exact ⟨fun _ _ _ => suffix_of_literal, fun _ _ _ => suffix_of_anyChar⟩
  obtain ⟨_, hsome, _⟩ := concatUntil_iterates hp (literal ['b']) ['x', 'a', 'b', 'b', 'c']
  refine (hsome _ _).mpr ⟨[['x'], ['a', 'b']], rfl, by unfold Iterates; decide, rfl, by decide, ?_⟩
  refine ⟨⟨by decide, .inl rfl⟩, ?_⟩
  rintro n ⟨hpos, h⟩
  rcases n with _ | _ | n
  · cases hpos
  · exact absurd h (by decide)
  · exact Nat.le_add_left 2 n

end RoutePattern.Parser
