import RoutePattern.Regex.CharClass.Posix
import RoutePattern.Regex.Escape

/-!
# Reading character classes

A class is written in brackets: single characters and escapes, ranges, named classes, further
brackets, and operators between them. The reader keeps the brackets that are open on a stack; each
step takes one item, bracket or operator off the text.

* A caret directly after the bracket negates the class.
* Dashes that open the class are literal, and so is a closing bracket that opens it.
* A dash makes a range of the characters around it, unless the class ends behind it. Two dashes that
  do not open the class are the difference operator, so a range that ends in a dash needs an escape.
* Operators are read from the left and bind more loosely than the union of items side by side.

## Main definitions

* `CharClass.Bracket` — an open bracket and what has been read since.
* `CharClass.step` — one item, bracket or operator.
* `CharClass.readFrom` — the rest of a class, given the brackets that are open.
* `CharClass.read` — a class, from behind its opening bracket.
* `CharClass.ofCharset?` — the class that a charset forms when it is put in brackets.
-/

namespace RoutePattern.CharClass

/-! ## Single items -/

/-- A character or an escaped set, standing alone. -/
def readPrimitive : Text → Option (CharClass × Text)
  | [] => none
  | '\\' :: s =>
    match Escape.read s with
    | some (.char c, rest) => some (.one c, rest)
    | some (.table negated chars, rest) => some (.table negated chars, rest)
    | _ => none
  | c :: s => some (.one c, s)

/-- The range between two single characters in order. -/
def rangeOf? : CharClass → CharClass → Option CharClass
  | .one lo, .one hi => if lo ≤ hi then some (.range lo hi) else none
  | _, _ => none

/-- A single character, an escaped set or a range. -/
def readItem (s : Text) : Option (CharClass × Text) := do
  let (first, rest) ← readPrimitive s
  match rest with
  | '-' :: ']' :: _ => some (first, rest)
  | '-' :: '-' :: _ => some (first, rest)
  | '-' :: after => do
    let (last, after) ← readPrimitive after
    (rangeOf? first last).map (·, after)
  | _ => some (first, rest)

/-! ## Brackets -/

/-- An open bracket and what has been read since. -/
structure Bracket where
  negated : Bool
  /-- The operand and the operator before the current operand. -/
  left : Option (CharClass × SetOp)
  /-- The items of the current operand. -/
  items : CharClass
  deriving DecidableEq, Repr

namespace Bracket

/-- All that has been read, as one operand. -/
def operand (b : Bracket) : CharClass :=
  match b.left with
  | none => b.items
  | some (left, op) => .combine op left b.items

/-- One more item. -/
def push (b : Bracket) (item : CharClass) : Bracket := { b with items := b.items.add item }

/-- An operator: what was read before it is its left operand. -/
def operator (b : Bracket) (op : SetOp) : Bracket :=
  { b with left := some (b.operand, op), items := .nothing }

/-- The class of a bracket that ends here. -/
def close (b : Bracket) : CharClass := .bracket b.negated b.operand

end Bracket

/-- The negating caret. -/
def readCaret : Text → Bool × Text
  | '^' :: s => (true, s)
  | s => (false, s)

/-- The dashes or the closing bracket that are literal because they open the class. -/
def readLeading : Text → CharClass × Text
  | ']' :: s => (.one ']', s)
  | s => ((s.takeWhile (· == '-')).foldl (fun items dash => items.add (.one dash)) .nothing,
      s.dropWhile (· == '-'))

/-- A new bracket, from behind its opening character. -/
def openBracket (s : Text) : Bracket × Text :=
  let (negated, s) := readCaret s
  let (items, s) := readLeading s
  (⟨negated, none, items⟩, s)

/-! ## Steps -/

/-- What a step leads to: a state with a bracket open, or the finished class. -/
inductive Step where
  | more (top : Bracket) (outer : List Bracket) (rest : Text)
  | done (cls : CharClass) (rest : Text)

/-- What a step leaves of the text. -/
def Step.rest : Step → Text
  | .more _ _ rest => rest
  | .done _ rest => rest

/-- A closing bracket ends the innermost class, which is an item of the class around it. -/
def closeTop (top : Bracket) (rest : Text) : List Bracket → Step
  | [] => .done top.close rest
  | up :: outer => .more (up.push top.close) outer rest

/-- An inner bracket: a named class or a class of its own. -/
def openInner (top : Bracket) (outer : List Bracket) (s : Text) : Step :=
  match readPosix s with
  | some (cls, rest) => .more (top.push cls) outer rest
  | none => .more (openBracket s).1 (top :: outer) (openBracket s).2

/-- The next item, bracket or operator. A text that ends inside brackets is no class. -/
def step (top : Bracket) (outer : List Bracket) : Text → Option Step
  | [] => none
  | '[' :: s => some (openInner top outer s)
  | ']' :: s => some (closeTop top s outer)
  | '&' :: '&' :: s => some (.more (top.operator .intersection) outer s)
  | '-' :: '-' :: s => some (.more (top.operator .difference) outer s)
  | '~' :: '~' :: s => some (.more (top.operator .symmetricDifference) outer s)
  | s => (readItem s).map fun (item, rest) => .more (top.push item) outer rest

theorem readPrimitive_length {s : Text} {cls : CharClass} {rest : Text}
    (h : readPrimitive s = some (cls, rest)) : rest.length < s.length := by
  unfold readPrimitive at h
  split at h
  · cases h
  · split at h
    · rename_i he
      cases h
      have := Escape.read_length he
      simp only [List.length_cons]
      omega
    · rename_i he
      cases h
      have := Escape.read_length he
      simp only [List.length_cons]
      omega
    · cases h
  · cases h
    simp

theorem readItem_length {s : Text} {cls : CharClass} {rest : Text}
    (h : readItem s = some (cls, rest)) : rest.length < s.length := by
  obtain ⟨⟨first, mid⟩, hf, h⟩ := Option.bind_eq_some_iff.mp h
  have hmid := readPrimitive_length hf
  dsimp only at h
  split at h
  · cases h
    exact hmid
  · cases h
    exact hmid
  · obtain ⟨⟨last, after⟩, hl, h⟩ := Option.bind_eq_some_iff.mp h
    obtain ⟨_, _, h⟩ := Option.map_eq_some_iff.mp h
    cases h
    have hlast := readPrimitive_length hl
    simp only [List.length_cons] at hmid ⊢
    omega
  · cases h
    exact hmid

theorem openBracket_length (s : Text) : (openBracket s).2.length ≤ s.length := by
  have hc : (readCaret s).2.length ≤ s.length := by
    unfold readCaret
    split <;> simp
  have hl : ∀ t : Text, (readLeading t).2.length ≤ t.length := by
    intro t
    unfold readLeading
    split
    · simp
    · exact (List.dropWhile_sublist _).length_le
  exact Nat.le_trans (hl _) hc

/-- A step takes at least one character. -/
theorem step_length {top : Bracket} {outer : List Bracket} {s : Text} {st : Step}
    (h : step top outer s = some st) : st.rest.length < s.length := by
  unfold step at h
  split at h
  · cases h
  · rename_i s
    cases h
    unfold openInner
    split
    · rename_i hp
      have := readPosix_length hp
      simp only [Step.rest, List.length_cons]
      omega
    · have := openBracket_length s
      simp only [Step.rest, List.length_cons]
      omega
  · cases h
    cases outer <;> simp [closeTop, Step.rest]
  · cases h
    simp only [Step.rest, List.length_cons]
    omega
  · cases h
    simp only [Step.rest, List.length_cons]
    omega
  · cases h
    simp only [Step.rest, List.length_cons]
    omega
  · obtain ⟨⟨item, rest⟩, hi, h⟩ := Option.map_eq_some_iff.mp h
    cases h
    exact readItem_length hi

/-! ## Whole classes -/

/-- The class that ends the brackets that are open, and what follows it. -/
def readFrom (top : Bracket) (outer : List Bracket) (s : Text) : Option (CharClass × Text) :=
  match h : step top outer s with
  | none => none
  | some (.done cls rest) => some (cls, rest)
  | some (.more top outer rest) =>
    have _hlt : rest.length < s.length := step_length h
    readFrom top outer rest
termination_by s.length
decreasing_by exact _hlt

theorem readFrom_length {top : Bracket} {outer : List Bracket} {s : Text} {cls : CharClass}
    {rest : Text} (h : readFrom top outer s = some (cls, rest)) : rest.length < s.length := by
  fun_induction readFrom top outer s with
  | case1 => cases h
  | case2 top outer s _ _ hs =>
    cases h
    exact step_length hs
  | case3 top outer s _ _ _ _ hlt ih =>
    have hle := ih h
    omega

/-- The class that begins behind its opening bracket, and what follows it. -/
def read (s : Text) : Option (CharClass × Text) :=
  readFrom (openBracket s).1 [] (openBracket s).2

theorem read_length {s : Text} {cls : CharClass} {rest : Text}
    (h : read s = some (cls, rest)) : rest.length < s.length := by
  have h1 := readFrom_length h
  have h2 := openBracket_length s
  omega

/-- The class of a charset that forms exactly one class when it is put in brackets. -/
def ofCharset? (charset : Text) : Option CharClass :=
  match read (charset ++ [']']) with
  | some (cls, []) => some cls
  | _ => none

end RoutePattern.CharClass
