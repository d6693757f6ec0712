import Mathlib.Data.List.Chain
import RoutePattern.Parser.Basic

/-!
# What parsers read

Laws of the parsers that others are put together from, for all parts they may have. Rounds are followed by
an induction on their run, so that it is enough to know of one round what it reads, and of a round and the
next one how their values go together.

## Main definitions

* `Parser.literal_iff`, `Parser.pick_two`, `Parser.pick_three` — what a character and a few parts in a row
  read.
* `Parser.suffix_of_literal`, `Parser.suffix_of_anyChar`, `Parser.suffix_of_fragment`,
  `Parser.suffix_of_firstOf` — what is left.
* `Parser.Run`, `Parser.RunUntil` — rounds one after another (`Parser.rounds_eq_iff`, `Parser.roundsUntil_eq_iff`).
* `Parser.Run.forall`, `Parser.Run.isChain` — what holds of each value, and of neighbours.
-/

namespace RoutePattern

/-! ## What a match leaves -/

/-- A match ends at one of the places that the text is read at. -/
theorem Regex.suffix_of_run {code : Code} {anchored : Bool} {before : Option Char} {s : Text}
    {visited : Visited} {best : Option Way} {threads : List Thread} {way : Way}
    (h : run code anchored before s visited best threads = some way) : best = some way ∨ way.rest <:+ s := by
  induction s generalizing before visited best threads with
  | nil =>
    rw [run, Option.or_eq_some_iff, Option.map_eq_some_iff] at h
    rcases h with ⟨t, _, rfl⟩ | ⟨_, h⟩
    · exact .inr (List.suffix_refl [])
    · exact .inl h
  | cons c s ih =>
    -- the match that is taken unless a thread completes another
    have hbest (complete : Option Thread)
        (h : (complete.map fun t => (⟨t.start, t.marks, c :: s⟩ : Way)).or best = some way) :
        best = some way ∨ way.rest <:+ c :: s := by
      rw [Option.or_eq_some_iff, Option.map_eq_some_iff] at h
      rcases h with ⟨t, _, rfl⟩ | ⟨_, h⟩
      · exact .inr (List.suffix_refl _)
      · exact .inl h
    rw [run] at h
    split at h
    · split at h
      · exact hbest _ h
      · rcases ih h with h | h
        · exact hbest _ h
        · exact .inr (h.trans (List.suffix_cons c s))
    · rcases ih h with h | h
      · exact hbest _ h
      · exact .inr (h.trans (List.suffix_cons c s))

theorem Regex.suffix_of_way? {r : Regex} {s : Text} {way : Way} (h : r.way? s = some way) :
    way.rest <:+ s := by
  rcases suffix_of_run h with h | h
  · cases h
  · exact h

namespace Parser

variable {α : Type} {s mid rest : Text}

theorem suffix_of_literal {expected v : Text} (h : literal expected s = some (v, rest)) : rest <:+ s := by
  unfold literal at h
  rw [Option.map_eq_some_iff] at h
  obtain ⟨rest', hrest, h⟩ := h
  cases h
  rw [List.isPrefixOf?_eq_some_iff_append_eq] at hrest
  exact ⟨expected, hrest⟩

theorem suffix_of_anyChar {v : Text} (h : anyChar s = some (v, rest)) : rest <:+ s := by
  cases s with
  | nil => cases h
  | cons c s =>
    cases h
    exact List.suffix_cons c _

theorem suffix_of_fragment {r : Regex} {v : Text} (h : fragment r s = some (v, rest)) : rest <:+ s := by
  unfold fragment Regex.find at h
  simp only [Option.map_map, Option.map_eq_some_iff] at h
  obtain ⟨way, hway, h⟩ := h
  cases h
  exact Regex.suffix_of_way? hway

theorem suffix_of_firstOf {ps : List (Parser α)} {a : α}
    (hps : ∀ p ∈ ps, ∀ s a rest, p s = some (a, rest) → rest <:+ s) (h : firstOf ps s = some (a, rest)) :
    rest <:+ s := by
  induction ps with
  | nil => cases h
  | cons p ps ih =>
    rw [firstOf, Option.or_eq_some_iff] at h
    rcases h with h | ⟨_, h⟩
    · exact hps p List.mem_cons_self s a rest h
    · exact ih (fun q hq => hps q (List.mem_cons_of_mem p hq)) h

/-! ## Characters -/

theorem literal_iff {c : Char} {v : Text} : literal [c] s = some (v, rest) ↔ v = [c] ∧ s = c :: rest := by
  unfold literal
  rw [Option.map_eq_some_iff]
  constructor
  · rintro ⟨rest', hrest, h⟩
    cases h
    rw [List.isPrefixOf?_eq_some_iff_append_eq] at hrest
    exact ⟨rfl, hrest.symm⟩
  · rintro ⟨rfl, rfl⟩
    exact ⟨rest, List.isPrefixOf?_eq_some_iff_append_eq.mpr rfl, rfl⟩

theorem literal_eq_none {c : Char} (h : c ∉ s.head?) : literal [c] s = none := by
  rw [Option.eq_none_iff_forall_ne_some]
  rintro ⟨v, rest⟩ hs
  obtain ⟨_, rfl⟩ := literal_iff.mp hs
  exact h rfl

theorem literal_isSome {c : Char} : (literal [c] s).isSome = true ↔ c ∈ s.head? := by
  rw [Option.isSome_iff_exists]
  constructor
  · rintro ⟨⟨v, rest⟩, h⟩
    obtain ⟨_, rfl⟩ := literal_iff.mp h
    rfl
  · intro h
    cases s with
    | nil => cases h
    | cons d s =>
      obtain rfl := Option.mem_some.mp h
      exact ⟨([d], s), literal_iff.mpr ⟨rfl, rfl⟩⟩

theorem literal_bind {c : Char} {f : Text × Text → Option α} {a : α} :
    (literal [c] s).bind f = some a ↔ ∃ rest, s = c :: rest ∧ f ([c], rest) = some a := by
  rw [Option.bind_eq_some_iff]
  constructor
  · rintro ⟨⟨v, rest⟩, h, hf⟩
    obtain ⟨rfl, rfl⟩ := literal_iff.mp h
    exact ⟨rest, rfl, hf⟩
  · rintro ⟨rest, rfl, hf⟩
    exact ⟨([c], rest), literal_iff.mpr ⟨rfl, rfl⟩, hf⟩

/-! ## Parts in a row -/

theorem pick_two (p q : Parser α) (s : Text) : pick 1 [p, q] s = (p s).bind fun r => q r.2 := by
  unfold pick
  simp only [sequence, Option.bind_eq_bind, Option.bind_assoc, Option.bind_some]
  cases p s with
  | none => rfl
  | some r => cases hq : q r.2 <;> simp [hq]

theorem pick_three (p q r : Parser α) (s : Text) :
    pick 1 [p, q, r] s = (p s).bind fun a => (q a.2).bind fun b => (r b.2).map fun c => (b.1, c.2) := by
  unfold pick
  simp only [sequence, Option.bind_eq_bind, Option.bind_assoc, Option.bind_some]
  cases p s with
  | none => rfl
  | some a =>
    cases hq : q a.2 with
    | none => simp [hq]
    | some b => cases hr : r b.2 <;> simp [hq, hr]

/-! ## Rounds -/

/-- Rounds of a parser, with what they read and what they leave. They are over where the parser does not
match, and after a round that takes nothing. -/
inductive Run (p : Parser α) : Text → List α → Text → Prop
  | stop {s : Text} (h : p s = none) : Run p s [] s
  | stall {s rest : Text} {a : α} (h : p s = some (a, rest)) (hlt : ¬rest.length < s.length) :
    Run p s [a] rest
  | round {s mid rest : Text} {a : α} {as : List α} (h : p s = some (a, mid))
      (hlt : mid.length < s.length) (hrun : Run p mid as rest) : Run p s (a :: as) rest

theorem run_rounds (p : Parser α) (s : Text) : Run p s (rounds p s).1 (rounds p s).2 := by
  fun_induction rounds p s with
  | case1 s hp => exact .stop hp
  | case2 s a mid hp hlt as rest hrounds ih =>
    rw [hrounds] at ih
    exact .round hp hlt ih
  | case3 s a rest hp hlt => exact .stall hp hlt

section Rounds

variable {p : Parser α} {a : α} {as : List α}

/-- One more round. -/
theorem rounds_cons (hp : p s = some (a, mid)) (hlt : mid.length < s.length)
    (h : rounds p mid = (as, rest)) : rounds p s = (a :: as, rest) := by
  rw [rounds, hp]
  simp only [if_pos hlt, h]

theorem rounds_eq_iff : rounds p s = (as, rest) ↔ Run p s as rest := by
  constructor
  · intro h
    have hrun := run_rounds p s
    rwa [h] at hrun
  · intro h
    induction h with
    | stop hp => rw [rounds, hp]
    | stall hp hlt =>
      rw [rounds, hp]
      simp only [if_neg hlt]
    | round hp hlt _ ih => exact rounds_cons hp hlt ih

theorem many_eq_some_iff : many p s = some (as, rest) ↔ as ≠ [] ∧ Run p s as rest := by
  rw [← rounds_eq_iff]
  unfold many
  rcases rounds p s with ⟨_ | ⟨a, as'⟩, rest'⟩
  · constructor
    · exact nofun
    · rintro ⟨hne, h⟩
      exact absurd (Prod.ext_iff.mp h).1.symm hne
  · constructor
    · intro h
      cases h
      exact ⟨List.cons_ne_nil a as', rfl⟩
    · rintro ⟨_, h⟩
      exact congrArg some h

/-- What each round reads. -/
theorem Run.forall {Q : α → Prop} (hQ : ∀ s a rest, p s = some (a, rest) → Q a) (h : Run p s as rest) :
    ∀ a ∈ as, Q a := by
  induction h with
  | stop hp => simp
  | stall hp _ => simpa using hQ _ _ _ hp
  | round hp _ _ ih => simpa using ⟨hQ _ _ _ hp, ih⟩

/-- What is read first is what the parser reads. -/
theorem Run.head? (h : Run p s as rest) (ha : a ∈ as.head?) : ∃ mid, p s = some (a, mid) := by
  cases h with
  | stop hp => cases ha
  | stall hp _ | round hp _ _ =>
    cases ha
    exact ⟨_, hp⟩

/-- What a round reads in view of the one before it. -/
theorem Run.isChain {R : α → α → Prop}
    (hR : ∀ s a mid b rest, p s = some (a, mid) → p mid = some (b, rest) → R a b)
    (h : Run p s as rest) : as.IsChain R := by
  induction h with
  | stop hp => exact .nil
  | stall hp _ => exact .singleton _
  | round hp _ hrun ih =>
    rw [List.isChain_cons]
    refine ⟨?_, ih⟩
    intro b hb
    obtain ⟨_, hnext⟩ := hrun.head? hb
    exact hR _ _ _ _ _ hp hnext

end Rounds

/-! ## Rounds up to a stop -/

/-- Rounds of a parser, with what they read and what they leave. They are over where `stop` matches or the
parser does not, and after a round that takes nothing. -/
inductive RunUntil {β : Type} (p : Parser α) (stop : Parser β) : Text → List α → Text → Prop
  | stop {s : Text} (hstop : (stop s).isSome = true) : RunUntil p stop s [] s
  | none {s : Text} (hgo : (stop s).isSome = false) (h : p s = none) : RunUntil p stop s [] s
  | stall {s rest : Text} {a : α} (hgo : (stop s).isSome = false) (h : p s = some (a, rest))
      (hlt : ¬rest.length < s.length) : RunUntil p stop s [a] rest
  | round {s mid rest : Text} {a : α} {as : List α} (hgo : (stop s).isSome = false)
      (h : p s = some (a, mid)) (hlt : mid.length < s.length) (hrun : RunUntil p stop mid as rest) :
      RunUntil p stop s (a :: as) rest

section RoundsUntil

variable {β : Type} {p : Parser α} {stop : Parser β} {a : α} {as : List α}

theorem runUntil_roundsUntil (p : Parser α) (stop : Parser β) (s : Text) :
    RunUntil p stop s (roundsUntil p stop s).1 (roundsUntil p stop s).2 := by
  fun_induction roundsUntil p stop s with
  | case1 s hstop => exact .stop hstop
  | case2 s hstop hp => exact .none (Bool.eq_false_iff.mpr hstop) hp
  | case3 s hstop a mid hp hlt as rest hrounds ih =>
    rw [hrounds] at ih
    exact .round (Bool.eq_false_iff.mpr hstop) hp hlt ih
  | case4 s hstop a rest hp hlt => exact .stall (Bool.eq_false_iff.mpr hstop) hp hlt

/-- One more round. -/
theorem roundsUntil_cons (hstop : (stop s).isSome = false) (hp : p s = some (a, mid))
    (hlt : mid.length < s.length) (h : roundsUntil p stop mid = (as, rest)) :
    roundsUntil p stop s = (a :: as, rest) := by
  rw [roundsUntil, if_neg (Bool.eq_false_iff.mp hstop), hp]
  simp only [if_pos hlt, h]

theorem roundsUntil_eq_iff : roundsUntil p stop s = (as, rest) ↔ RunUntil p stop s as rest := by
  constructor
  · intro h
    have hrun := runUntil_roundsUntil p stop s
    rwa [h] at hrun
  · intro h
    induction h with
    | stop hstop => rw [roundsUntil, if_pos hstop]
    | none hgo hp => rw [roundsUntil, if_neg (Bool.eq_false_iff.mp hgo), hp]
    | stall hgo hp hlt =>
      rw [roundsUntil, if_neg (Bool.eq_false_iff.mp hgo), hp]
      simp only [if_neg hlt]
    | round hgo hp hlt _ ih => exact roundsUntil_cons hgo hp hlt ih

/-- All rounds but the last one take something. -/
theorem RunUntil.length_le (h : RunUntil p stop s as rest) : as.length ≤ s.length + 1 := by
  induction h with
  | stop _ | none _ _ => exact Nat.zero_le _
  | stall _ _ _ => exact Nat.succ_le_succ (Nat.zero_le _)
  | round _ _ hlt _ ih =>
    rw [List.length_cons]
    omega

/-- Texts that are joined are those of a run with one round or more. -/
theorem concatUntil_eq_some_iff {p : Parser Text} {t : Text} :
    concatUntil p stop s = some (t, rest) ↔
      ∃ texts, texts ≠ [] ∧ t = texts.flatten ∧ RunUntil p stop s texts rest := by
  simp only [← roundsUntil_eq_iff]
  unfold concatUntil
  rcases roundsUntil p stop s with ⟨_ | ⟨t', texts⟩, rest'⟩
  · constructor
    · exact nofun
    · rintro ⟨texts, hne, _, h⟩
      exact absurd (Prod.ext_iff.mp h).1.symm hne
  · constructor
    · intro h
      cases h
      exact ⟨t' :: texts, List.cons_ne_nil t' texts, rfl, rfl⟩
    · rintro ⟨_, _, rfl, h⟩
      cases h
      rfl

theorem Run.runUntil (h : Run p s as rest) : RunUntil p (fail : Parser Text) s as rest := by
  induction h with
  | stop hp => exact .none rfl hp
  | stall hp hlt => exact .stall rfl hp hlt
  | round hp hlt _ ih => exact .round rfl hp hlt ih

/-- With nothing to stop them, rounds go on for as long as they can. -/
theorem rounds_eq_roundsUntil (p : Parser α) (s : Text) : rounds p s = roundsUntil p (fail : Parser Text) s :=
  (roundsUntil_eq_iff.mpr (run_rounds p s).runUntil).symm

theorem run_iff_runUntil : Run p s as rest ↔ RunUntil p (fail : Parser Text) s as rest := by
  rw [← rounds_eq_iff, rounds_eq_roundsUntil, roundsUntil_eq_iff]

end RoundsUntil

end Parser

end RoutePattern
