import RoutePattern.Proofs.Regex.Charset
import RoutePattern.Regex.Reader

/-!
# Reading a regex piece by piece

Where a regex is put together of pieces, the reader goes on from one piece to the next. What a piece has
added is known from the piece alone (`Regex.Reading.advance`).
-/

namespace RoutePattern.Regex

/-! ## Steps -/

theorem readFrom_of_step {st st' : Reading} {s rest : Text} (h : step st s = some (st', rest)) :
    readFrom st s = readFrom st' rest := by
  cases s with
  | nil => cases h
  | cons c s =>
    rw [readFrom]
    split
    · next hn => rw [h] at hn; cases hn
    · next hs =>
      rw [h] at hs
      cases hs
      rfl

/-- What is read is refused only for its limits. -/
theorem read_of_readFrom {s : Text} {r : Regex} (h : readFrom .start s = some r) :
    read s =
      if maxLevels < r.levels .none then .error .tooDeep
      else if r.fits then .ok r
      else .error .tooLarge := by
  simp only [read, h, limit?]
  by_cases hlevels : maxLevels < r.levels .none
  · simp only [if_pos hlevels]
  · by_cases hfits : r.fits = true
    · simp only [if_neg hlevels, if_pos hfits]
    · simp only [if_neg hlevels, if_neg hfits]

/-- A character without a meaning of its own stands for itself. -/
theorem step_char {c : Char} (hc : isMeta c = false) (st : Reading) (s : Text) :
    step st (c :: s) = some (st.push (char c), s) := by
  have hne : ∀ d, isMeta d = true → c ≠ d := by
    rintro d hd rfl
    rw [hd] at hc
    cases hc
  unfold step
  split
  · next h => cases h
  all_goals
    next h =>
    first
      | exact absurd (List.head_eq_of_cons_eq h) (hne _ rfl)
      | cases h; rfl

/-- An escaped character stands for itself. -/
theorem step_escaped {c : Char} (hc : isMeta c = true) (st : Reading) (s : Text) :
    step st ('\\' :: c :: s) = some (st.push (char c), s) := by
  rw [step, Escape.read_meta hc]
  rfl

/-- A bracket opens the class of a charset. -/
theorem step_charset {charset : Text} {cls : CharClass} (h : CharClass.ofCharset? charset = some cls)
    (st : Reading) (s : Text) :
    step st ('[' :: (charset ++ ']' :: s)) = some (st.push (.set cls), s) := by
  rw [step, CharClass.read_charset h]
  rfl

theorem readGreedy_of_ne {s : Text} (hs : s.head? ≠ some '?') : readGreedy s = (true, s) := by
  unfold readGreedy
  split
  · exact absurd rfl hs
  · rfl

namespace Reading

/-! ## Pieces -/

/-- Some more parts, in which so many groups capture. -/
def advance (st : Reading) (parts : List Regex) (captures : Nat) : Reading :=
  { st with
    top := { st.top with items := parts.reverse ++ st.top.items }
    opened := st.opened + captures }

@[simp] theorem opened_advance (st : Reading) (parts : List Regex) (captures : Nat) :
    (st.advance parts captures).opened = st.opened + captures := rfl

theorem advance_advance (st : Reading) (rs rs' : List Regex) (m n : Nat) :
    (st.advance rs m).advance rs' n = st.advance (rs ++ rs') (m + n) := by
  simp [advance, Nat.add_assoc]

theorem push_eq (st : Reading) (r : Regex) : st.push r = st.advance [r] 0 := rfl

end Reading

/-- The characters of an escaped text are read one by one. -/
theorem readFrom_escape (st : Reading) (t rest : Text) :
    readFrom st (escape t ++ rest) = readFrom (st.advance (t.map char) 0) rest := by
  induction t generalizing st with
  | nil => rfl
  | cons c t ih =>
    have hc : readFrom st ((if isMeta c then ['\\', c] else [c]) ++ (escape t ++ rest)) =
        readFrom (st.push (char c)) (escape t ++ rest) := by
      split
      · next hmeta => exact readFrom_of_step (step_escaped hmeta st _)
      · next hmeta => exact readFrom_of_step (step_char (Bool.eq_false_iff.mpr hmeta) st _)
    rw [escape_cons, List.append_assoc, hc, ih, Reading.push_eq, Reading.advance_advance]
    rfl

end RoutePattern.Regex
