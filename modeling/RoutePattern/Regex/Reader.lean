import RoutePattern.Regex.CharClass.Reader
import RoutePattern.Regex.Room
import RoutePattern.Text.Letter
import RoutePattern.Text.Number

/-!
# Reading regexes

The reader keeps the parentheses that are open on a stack; each step takes one character, escape,
class, parenthesis, bar or quantifier off the text and changes the innermost group.

* A quantifier applies to the part before it, which may already be quantified. With nothing before
  it, it is refused.
* A bar ends an alternative, which may be empty.
* Groups are numbered by their opening parentheses, from one. Their names are checked and dropped.
* There is no look-around and no reference back to a group.
* Flags are left out. The full dialect has groups that set them, such as `(?i)` and `(?s:a)`. What the
  pattern language writes has none; in a regex from elsewhere they are refused here as malformed.

## Main definitions

* `Regex.Group`, `Regex.Reading` — an open group, and all that has been read.
* `Regex.step` — one item of the text.
* `Regex.readFrom` — all the rest.
* `Regex.limit?` — the limits of regexes, which are neither nested too deeply nor take too much room.
* `Regex.read` — the regex of a text, within these limits.
-/

namespace RoutePattern.Regex

/-! ## Groups that are open -/

/-- An open group and what has been read since. -/
structure Group where
  /-- Its number, if it captures. -/
  index : Option Nat
  /-- The alternatives before the current one, the last one first. -/
  branches : List Regex
  /-- The parts of the current alternative, the last one first. -/
  items : List Regex
  deriving DecidableEq, Repr

namespace Group

/-- A group with nothing in it. -/
def start (index : Option Nat) : Group := ⟨index, [], []⟩

/-- One more part. -/
def push (g : Group) (item : Regex) : Group := { g with items := item :: g.items }

/-- A bar. -/
def bar (g : Group) : Group := { g with branches := seqOf g.items :: g.branches, items := [] }

/-- What stands between the parentheses. -/
def body (g : Group) : Regex := altOf (seqOf g.items :: g.branches)

/-- A quantifier for the last part. -/
def quantify? (g : Group) (times : Times) : Option Group :=
  match g.items with
  | [] => none
  | last :: items => some { g with items := .loop times last :: items }

end Group

/-- All that has been read. -/
structure Reading where
  /-- The innermost group. -/
  top : Group
  /-- The groups around it. -/
  outer : List Group
  /-- How many capturing groups have been opened. -/
  opened : Nat
  /-- The names given so far. -/
  names : List Text
  deriving DecidableEq, Repr

namespace Reading

/-- Nothing read yet. -/
def start : Reading := ⟨.start none, [], 0, []⟩

/-- One more part. -/
def push (st : Reading) (item : Regex) : Reading := { st with top := st.top.push item }

/-- A group that does not capture. -/
def openPlain (st : Reading) : Reading :=
  { st with top := .start none, outer := st.top :: st.outer }

/-- A group that captures. -/
def openCapture (st : Reading) : Reading :=
  { st with
    top := .start (some (st.opened + 1)), outer := st.top :: st.outer, opened := st.opened + 1 }

/-- A closing parenthesis. -/
def close? (st : Reading) : Option Reading :=
  match st.outer with
  | [] => none
  | up :: outer => some { st with top := up.push (.group st.top.index st.top.body), outer }

/-- A quantifier. -/
def quantify? (st : Reading) (times : Times) : Option Reading :=
  (st.top.quantify? times).map fun top => { st with top }

/-- The end of the text: no group may be open. -/
def finish? (st : Reading) : Option Regex :=
  match st.outer with
  | [] => some st.top.body
  | _ :: _ => none

end Reading

/-! ## Names of groups -/

/-- May a name begin with this character? -/
def isNameStart (c : Char) : Bool := c == '_' || Text.isLetter c

/-- May a name go on with this character? -/
def isNameRest (c : Char) : Bool :=
  ['_', '.', '[', ']'].contains c || Text.isLetter c || Text.isNumber c

/-- Is this the name of a group? -/
def isGroupName : Text → Bool
  | [] => false
  | c :: cs => isNameStart c && cs.all isNameRest

/-- A capturing group with a name, from behind the bracket that opens the name. -/
def openNamed (st : Reading) (s : Text) : Option (Reading × Text) :=
  let name := s.takeWhile (· != '>')
  match s.dropWhile (· != '>') with
  | _ :: rest =>
    if isGroupName name && !st.names.contains name then
      some ({ st.openCapture with names := name :: st.names }, rest)
    else none
  | [] => none

/-- An opening parenthesis with what belongs to it, from behind the parenthesis. Flags are no group. -/
def openGroup (st : Reading) : Text → Option (Reading × Text)
  | '?' :: ':' :: s => some (st.openPlain, s)
  | '?' :: 'P' :: '<' :: s => openNamed st s
  | '?' :: '<' :: s => openNamed st s
  | '?' :: _ => none
  | s => some (st.openCapture, s)

/-! ## Quantifiers -/

/-- A question mark behind a quantifier makes it try fewer rounds first. -/
def readGreedy : Text → Bool × Text
  | '?' :: s => (false, s)
  | s => (true, s)

/-- Counts are 32 bits wide. -/
def maxCount : Nat := UInt32.size - 1

/-- A decimal number between optional blanks. -/
def readDecimal (s : Text) : Option Nat × Text :=
  let s := s.dropWhile Text.isBlank
  let digits := s.takeWhile Char.isDigit
  let value := digits.foldl (fun n d => 10 * n + (d.toNat - '0'.toNat)) 0
  (if digits ≠ [] ∧ value ≤ maxCount then some value else none,
    (s.dropWhile Char.isDigit).dropWhile Text.isBlank)

/-- The bounds of a counted repetition, from behind its opening brace. -/
def readBounds (s : Text) : Option ((Nat × Option Nat) × Text) :=
  match readDecimal s with
  | (some n, '}' :: rest) => some ((n, some n), rest)
  | (some n, ',' :: '}' :: rest) => some ((n, none), rest)
  | (some n, ',' :: rest) =>
    match readDecimal rest with
    | (some m, '}' :: rest) => if n ≤ m then some ((n, some m), rest) else none
    | _ => none
  | _ => none

/-- A quantifier with these bounds. -/
def readQuantifier (st : Reading) (min : Nat) (max : Option Nat) (s : Text) :
    Option (Reading × Text) :=
  let (greedy, rest) := readGreedy s
  (st.quantify? ⟨min, max, greedy⟩).map (·, rest)

/-! ## Steps -/

/-- What an escape adds. -/
def ofEscape : Escape → Regex
  | .char c => char c
  | .table negated chars => .set (.table negated chars)
  | .look place => .look place

/-- The next item of the text. -/
def step (st : Reading) : Text → Option (Reading × Text)
  | [] => none
  | '(' :: s => openGroup st s
  | ')' :: s => st.close?.map (·, s)
  | '|' :: s => some ({ st with top := st.top.bar }, s)
  | '*' :: s => readQuantifier st 0 none s
  | '+' :: s => readQuantifier st 1 none s
  | '?' :: s => readQuantifier st 0 (some 1) s
  | '{' :: s => do
    let ((min, max), rest) ← readBounds s
    readQuantifier st min max rest
  | '[' :: s => (CharClass.read s).map fun (cls, rest) => (st.push (.set cls), rest)
  | '\\' :: s => (Escape.read s).map fun (e, rest) => (st.push (ofEscape e), rest)
  | '.' :: s => some (st.push (.set .anyButNewline), s)
  | '^' :: s => some (st.push (.look .textStart), s)
  | '$' :: s => some (st.push (.look .textEnd), s)
  | c :: s => some (st.push (char c), s)

theorem openNamed_length {st st' : Reading} {s rest : Text}
    (h : openNamed st s = some (st', rest)) : rest.length < s.length := by
  unfold openNamed at h
  split at h
  · rename_i hd
    dsimp only at h
    split at h
    · cases h
      have hlen := congrArg List.length hd
      have := (List.dropWhile_sublist (l := s) (· != '>')).length_le
      simp only [List.length_cons] at hlen
      omega
    · cases h
  · cases h

theorem openGroup_length {st st' : Reading} {s rest : Text}
    (h : openGroup st s = some (st', rest)) : rest.length ≤ s.length := by
  unfold openGroup at h
  split at h
  · cases h
    simp only [List.length_cons]
    omega
  · have := openNamed_length h
    simp only [List.length_cons]
    omega
  · have := openNamed_length h
    simp only [List.length_cons]
    omega
  · cases h
  · cases h
    exact Nat.le_refl _

theorem readDecimal_length (s : Text) : (readDecimal s).2.length ≤ s.length := by
  have h1 := (List.dropWhile_sublist (l := s) Text.isBlank).length_le
  have h2 := (List.dropWhile_sublist (l := s.dropWhile Text.isBlank) Char.isDigit).length_le
  have h3 := (List.dropWhile_sublist
    (l := (s.dropWhile Text.isBlank).dropWhile Char.isDigit) Text.isBlank).length_le
  simp only [readDecimal]
  omega

theorem readBounds_length {s rest : Text} {bounds : Nat × Option Nat}
    (h : readBounds s = some (bounds, rest)) : rest.length < s.length := by
  have hs := readDecimal_length s
  unfold readBounds at h
  split at h
  · rename_i hd
    cases h
    simp only [hd, List.length_cons] at hs
    omega
  · rename_i hd
    cases h
    simp only [hd, List.length_cons] at hs
    omega
  · rename_i tail _ hd
    have ht := readDecimal_length tail
    simp only [hd, List.length_cons] at hs
    split at h
    · rename_i hd'
      split at h
      · cases h
        simp only [hd', List.length_cons] at ht
        omega
      · cases h
    · cases h
  · cases h

theorem readQuantifier_length {st st' : Reading} {min : Nat} {max : Option Nat} {s rest : Text}
    (h : readQuantifier st min max s = some (st', rest)) : rest.length ≤ s.length := by
  obtain ⟨_, _, h⟩ := Option.map_eq_some_iff.mp h
  cases h
  show (readGreedy s).2.length ≤ s.length
  unfold readGreedy
  split <;> simp

/-- A step takes at least one character. -/
theorem step_length {st st' : Reading} {s rest : Text} (h : step st s = some (st', rest)) :
    rest.length < s.length := by
  unfold step at h
  split at h
  · cases h
  · exact Nat.lt_succ_of_le (openGroup_length h)
  · obtain ⟨_, _, h⟩ := Option.map_eq_some_iff.mp h
    cases h
    simp
  · cases h
    simp
  · exact Nat.lt_succ_of_le (readQuantifier_length h)
  · exact Nat.lt_succ_of_le (readQuantifier_length h)
  · exact Nat.lt_succ_of_le (readQuantifier_length h)
  · obtain ⟨⟨_, after⟩, hb, h⟩ := Option.bind_eq_some_iff.mp h
    have h1 := readBounds_length hb
    have h2 : rest.length ≤ after.length := readQuantifier_length h
    simp only [List.length_cons]
    omega
  · obtain ⟨⟨_, _⟩, hc, h⟩ := Option.map_eq_some_iff.mp h
    cases h
    exact Nat.lt_succ_of_lt (CharClass.read_length hc)
  · obtain ⟨⟨_, _⟩, he, h⟩ := Option.map_eq_some_iff.mp h
    cases h
    exact Nat.lt_succ_of_lt (Escape.read_length he)
  · cases h
    simp
  · cases h
    simp
  · cases h
    simp
  · cases h
    simp

/-! ## Whole regexes -/

/-- The regex that the rest of the text completes. -/
def readFrom (st : Reading) : Text → Option Regex
  | [] => st.finish?
  | c :: cs =>
    match h : step st (c :: cs) with
    | none => none
    | some (st', rest) =>
      have _hlt : rest.length < (c :: cs).length := step_length h
      readFrom st' rest
termination_by s => s.length
decreasing_by exact _hlt

/-- Why a text is no regex. -/
inductive ReadError where
  | malformed
  /-- It is nested too deeply. -/
  | tooDeep
  /-- It takes too much room. -/
  | tooLarge
  deriving DecidableEq, Repr

/-- The wording is left open. -/
def ReadError.message (_ : ReadError) : String := "<regex error>"

/-- Why a regex is refused for its limits, if it is. -/
def limit? (r : Regex) : Option ReadError :=
  if maxLevels < r.levels .none then some .tooDeep
  else if r.fits then none
  else some .tooLarge

theorem limit?_eq_none_iff {r : Regex} : r.limit? = none ↔ r.levels .none ≤ maxLevels ∧ r.fits = true := by
  rw [limit?, ← Nat.not_lt]
  split <;> simp [*]

/-- The regex that a text writes. -/
def read (s : Text) : Except ReadError Regex :=
  match readFrom .start s with
  | none => .error .malformed
  | some r =>
    match r.limit? with
    | none => .ok r
    | some cause => .error cause

end RoutePattern.Regex
