import RoutePattern.Regex.Match

/-!
# Backtracking

A program can also be run one match at a time: at a choice the first way is tried, and the second one
only if the first does not come to a complete match. That is what the preference between matches means.
Nothing is remembered about instructions visited before, so a match may run without end; the steps are
bounded, and more of them do not change an end that has been reached.

## Main definitions

* `Regex.Ending` — what a match from an instruction on comes to.
* `Regex.backtrack` — the end of a match in so many steps; `Regex.Ends` — its end in any number of steps.
-/

namespace RoutePattern.Regex

/-- The end of a match: the parentheses that it passes on its way, the last one first, and the rest. -/
abbrev Ending := List Mark × Text

/-- The end of a match that has passed a parenthesis before. -/
def Ending.behind (mark : Mark) (e : Ending) : Ending := (e.1 ++ [mark], e.2)

/-- A match from an instruction on, which takes no more than so many steps to come to an end. -/
def backtrack (code : Code) : Nat → Nat → Option Char → Text → Option (Option Ending)
  | 0, _, _, _ => none
  | n + 1, i, before, rest =>
    match code[i]? with
    | none => some none
    | some (.set cls next) =>
      if rest.head?.any cls.mem then backtrack code n next rest.head? rest.tail else some none
    | some (.look place next) =>
      if place.holds before rest then backtrack code n next before rest else some none
    | some (.mark k opens next) =>
      (backtrack code n next before rest).map fun e => e.map (Ending.behind ⟨k, opens, rest⟩)
    | some (.split first second) =>
      match backtrack code n first before rest with
      | none => none
      | some (some e) => some (some e)
      | some none => backtrack code n second before rest
    | some (.jump next) => backtrack code n next before rest
    | some .accept => some (some ([], rest))

variable {code : Code} {i : Nat} {before : Option Char} {rest : Text} {e : Option Ending}

/-- More steps do not change the end. -/
theorem backtrack_succ {n : Nat} (h : backtrack code n i before rest = some e) :
    backtrack code (n + 1) i before rest = some e := by
  induction n generalizing i before rest e with
  | zero => simp [backtrack] at h
  | succ n ih =>
    rw [backtrack] at h ⊢
    split at h
    · exact h
    · split at h
      · next hc => rw [if_pos hc]; exact ih h
      · next hc => rw [if_neg hc]; exact h
    · split at h
      · next hp => rw [if_pos hp]; exact ih h
      · next hp => rw [if_neg hp]; exact h
    · obtain ⟨e', he', rfl⟩ := Option.map_eq_some_iff.mp h
      rw [ih he', Option.map_some]
    · split at h
      · cases h
      · next he' => rw [ih he']; exact h
      · -- the first way has come to nothing, so the second one has had its steps too
        next he' => rw [ih he']; exact ih h
    · exact ih h
    · exact h

theorem backtrack_mono {n m : Nat} (h : backtrack code n i before rest = some e) (hnm : n ≤ m) :
    backtrack code m i before rest = some e := by
  induction hnm with
  | refl => exact h
  | step _ ih => exact backtrack_succ ih

/-- A match from an instruction on comes to an end, which is none if it is never complete. -/
def Ends (code : Code) (i : Nat) (before : Option Char) (rest : Text) (e : Option Ending) : Prop :=
  ∃ n, backtrack code n i before rest = some e

namespace Ends

theorem unique {e' : Option Ending} (h : Ends code i before rest e) (h' : Ends code i before rest e') :
    e = e' := by
  obtain ⟨n, hn⟩ := h
  obtain ⟨m, hm⟩ := h'
  have h1 := backtrack_mono hn (Nat.le_max_left n m)
  have h2 := backtrack_mono hm (Nat.le_max_right n m)
  rw [h1] at h2
  exact Option.some.inj h2

/-! ### Single instructions -/

theorem take {cls : CharClass} {next : Nat} (hi : code[i]? = some (.set cls next))
    (hc : rest.head?.any cls.mem = true) (h : Ends code next rest.head? rest.tail e) :
    Ends code i before rest e := by
  obtain ⟨n, hn⟩ := h
  refine ⟨n + 1, ?_⟩
  simp only [backtrack, hi, if_pos hc]
  exact hn

theorem stuck {cls : CharClass} {next : Nat} (hi : code[i]? = some (.set cls next))
    (hc : rest.head?.any cls.mem = false) : Ends code i before rest none := by
  refine ⟨1, ?_⟩
  simp [backtrack, hi, hc]

theorem pass {place : Look} {next : Nat} (hi : code[i]? = some (.look place next))
    (hp : place.holds before rest = true) (h : Ends code next before rest e) :
    Ends code i before rest e := by
  obtain ⟨n, hn⟩ := h
  refine ⟨n + 1, ?_⟩
  simp only [backtrack, hi, if_pos hp]
  exact hn

theorem blocked {place : Look} {next : Nat} (hi : code[i]? = some (.look place next))
    (hp : place.holds before rest = false) : Ends code i before rest none := by
  refine ⟨1, ?_⟩
  simp [backtrack, hi, hp]

theorem mark {k next : Nat} {opens : Bool} (hi : code[i]? = some (.mark k opens next))
    (h : Ends code next before rest e) :
    Ends code i before rest (e.map (Ending.behind ⟨k, opens, rest⟩)) := by
  obtain ⟨n, hn⟩ := h
  refine ⟨n + 1, ?_⟩
  simp only [backtrack, hi, hn, Option.map_some]

theorem jump {next : Nat} (hi : code[i]? = some (.jump next)) (h : Ends code next before rest e) :
    Ends code i before rest e := by
  obtain ⟨n, hn⟩ := h
  refine ⟨n + 1, ?_⟩
  simp only [backtrack, hi]
  exact hn

theorem accept (hi : code[i]? = some .accept) : Ends code i before rest (some ([], rest)) := by
  refine ⟨1, ?_⟩
  simp only [backtrack, hi]

/-- At a choice the second way counts only if the first comes to nothing. -/
theorem split {first second : Nat} {e' : Option Ending} (hi : code[i]? = some (.split first second))
    (h : Ends code first before rest e) (h' : Ends code second before rest e') :
    Ends code i before rest (e.or e') := by
  obtain ⟨n, hn⟩ := h
  obtain ⟨m, hm⟩ := h'
  refine ⟨max n m + 1, ?_⟩
  simp only [backtrack, hi, backtrack_mono hn (Nat.le_max_left n m)]
  cases e with
  | some e => rfl
  | none => rw [backtrack_mono hm (Nat.le_max_right n m), Option.none_or]

end Ends

end RoutePattern.Regex
