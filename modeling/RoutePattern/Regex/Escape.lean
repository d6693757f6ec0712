import RoutePattern.Text.Blank
import RoutePattern.Text.Digit
import RoutePattern.Text.Word

/-!
# Escapes of regexes

In a regex a backslash takes away the meaning of the character after it, or gives a letter one.

Properties of characters are left out. The full dialect has classes for them, such as `\p{L}` and `\PN`.
What the pattern language writes has none; in a charset or a regex from elsewhere they are refused here as
malformed.

## Main definitions

* `Look` — the places in a text that an assertion can ask for.
* `Escape.read` — what the text after a backslash stands for.
* `Regex.escape` — a text as a regex that accepts just this text.

`Escape.read_meta` is what makes `Regex.escape` right: an escaped special character is read as
itself, with nothing else consumed.
-/

namespace RoutePattern

/-! ## Assertions -/

/-- A condition on a place between two characters. -/
inductive Look where
  | textStart
  | textEnd
  /-- A word begins or ends. -/
  | wordEdge
  | notWordEdge
  /-- A word begins. -/
  | wordStart
  /-- A word ends. -/
  | wordEnd
  /-- No word character comes before. -/
  | wordStartHalf
  /-- No word character follows. -/
  | wordEndHalf
  deriving DecidableEq, Repr

/-- Does the condition hold after the character `before` (none at the start) and before `rest`? -/
def Look.holds (before : Option Char) (rest : Text) (look : Look) : Bool :=
  let inBefore := before.any Text.isWord
  let inRest := rest.head?.any Text.isWord
  match look with
  | .textStart => before.isNone
  | .textEnd => rest.isEmpty
  | .wordEdge => inBefore != inRest
  | .notWordEdge => inBefore == inRest
  | .wordStart => !inBefore && inRest
  | .wordEnd => inBefore && !inRest
  | .wordStartHalf => !inBefore
  | .wordEndHalf => !inRest

/-! ## Special characters -/

namespace Regex

/-- The characters that have a meaning of their own somewhere in a regex. -/
def metaChars : List Char :=
  ['\\', '.', '+', '*', '?', '(', ')', '|', '[', ']', '{', '}', '^', '$', '#', '&', '-', '~']

/-- Does the character have a meaning of its own? -/
def isMeta (c : Char) : Bool := metaChars.contains c

/-- A text as a regex that accepts just this text. -/
def escape (t : Text) : Text := t.flatMap fun c => if isMeta c then ['\\', c] else [c]

theorem escape_cons (c : Char) (t : Text) :
    escape (c :: t) = (if isMeta c then ['\\', c] else [c]) ++ escape t := rfl

end Regex

/-! ## Reading -/

/-- What an escape stands for. -/
inductive Escape where
  | char (c : Char)
  | table (negated : Bool) (chars : CharTable)
  | look (place : Look)
  deriving DecidableEq, Repr

namespace Escape

/-- The value of a hexadecimal digit. -/
def hexValue? (c : Char) : Option Nat :=
  if '0' ≤ c ∧ c ≤ '9' then some (c.toNat - '0'.toNat)
  else if 'a' ≤ c ∧ c ≤ 'f' then some (c.toNat - 'a'.toNat + 10)
  else if 'A' ≤ c ∧ c ≤ 'F' then some (c.toNat - 'A'.toNat + 10)
  else none

/-- The character with a code point written in hexadecimal, if there is one. -/
def ofHex? (digits : Text) : Option Char := do
  let values ← digits.mapM hexValue?
  let code := values.foldl (fun code value => 16 * code + value) 0
  if digits ≠ [] ∧ code.isValidChar then some (Char.ofNat code) else none

/-- A code point of so many digits, or of any number of digits in braces. -/
def readHex (count : Nat) : Text → Option (Char × Text)
  | '{' :: rest =>
    match rest.dropWhile (· != '}') with
    | _ :: after => (ofHex? (rest.takeWhile (· != '}'))).map (·, after)
    | [] => none
  | rest =>
    if count ≤ rest.length then (ofHex? (rest.take count)).map (·, rest.drop count) else none

/-- The letters that stand for one character. -/
def controlOf? : Char → Option Char
  | 'a' => some '\x07'
  | 'f' => some '\x0c'
  | 't' => some '\t'
  | 'n' => some '\n'
  | 'r' => some '\r'
  | 'v' => some '\x0b'
  | _ => none

/-- The letters that stand for a known set of characters; a capital stands for all others. -/
def tableOf? : Char → Option (Bool × CharTable)
  | 'd' => some (false, Text.digitTable)
  | 'D' => some (true, Text.digitTable)
  | 's' => some (false, Text.blankTable)
  | 'S' => some (true, Text.blankTable)
  | 'w' => some (false, Text.wordTable)
  | 'W' => some (true, Text.wordTable)
  | _ => none

/-- The characters that stand for a place in the text. -/
def lookOf? : Char → Option Look
  | 'A' => some .textStart
  | 'z' => some .textEnd
  | 'B' => some .notWordEdge
  | '<' => some .wordStart
  | '>' => some .wordEnd
  | _ => none

/-- The places that a word in braces stands for. -/
def edgeOf? (word : Text) : Option Look :=
  if word = Text.ofString "start" then some .wordStart
  else if word = Text.ofString "end" then some .wordEnd
  else if word = Text.ofString "start-half" then some .wordStartHalf
  else if word = Text.ofString "end-half" then some .wordEndHalf
  else none

/-- May the name of a place hold this character? -/
def isEdgeChar (c : Char) : Bool := c.isAlpha || c == '-'

/--
What `\b` stands for, from behind it. A brace with a word behind it names the place; any other brace
belongs to a counted repetition.
-/
def readEdge : Text → Option (Look × Text)
  | '{' :: rest =>
    match rest.takeWhile isEdgeChar, rest.dropWhile isEdgeChar with
    | _, [] => none
    | [], _ => some (.wordEdge, '{' :: rest)
    | word, '}' :: after => (edgeOf? word).map (·, after)
    | _, _ => none
  | rest => some (.wordEdge, rest)

/-- The letters that are followed by a code point, with the number of its digits. -/
def hexCountOf? : Char → Option Nat
  | 'x' => some 2
  | 'u' => some 4
  | 'U' => some 8
  | _ => none

/-- May this character, which has no meaning of its own, be escaped needlessly? -/
def isPlain (c : Char) : Bool := decide (c.toNat < 128) && !c.isAlphanum

/-- The escape at the start of a text that follows a backslash, and what is left of the text. -/
def read : Text → Option (Escape × Text)
  | [] => none
  | c :: rest =>
    if Regex.isMeta c then some (.char c, rest)
    else if let some d := controlOf? c then some (.char d, rest)
    else if let some (negated, chars) := tableOf? c then some (.table negated chars, rest)
    else if c = 'b' then (readEdge rest).map fun (place, rest) => (.look place, rest)
    else if let some place := lookOf? c then some (.look place, rest)
    else if let some count := hexCountOf? c then
      (readHex count rest).map fun (d, rest) => (.char d, rest)
    else if isPlain c then some (.char c, rest)
    else none

/-- An escaped special character is that character. -/
theorem read_meta {c : Char} (h : Regex.isMeta c = true) (rest : Text) :
    read (c :: rest) = some (.char c, rest) := by
  simp [read, h]

theorem readHex_length {count : Nat} {s : Text} {c : Char} {rest : Text}
    (h : readHex count s = some (c, rest)) : rest.length ≤ s.length := by
  unfold readHex at h
  split at h
  · rename_i s
    split at h
    · rename_i d after hd
      obtain ⟨_, _, h⟩ := Option.map_eq_some_iff.mp h
      obtain ⟨_, rfl⟩ := Prod.mk.inj h
      have hle := congrArg List.length hd
      have := (List.dropWhile_sublist (l := s) (· != '}')).length_le
      simp only [List.length_cons] at hle ⊢
      omega
    · cases h
  · split at h
    · obtain ⟨_, _, h⟩ := Option.map_eq_some_iff.mp h
      obtain ⟨_, rfl⟩ := Prod.mk.inj h
      simp
    · cases h

theorem readEdge_length {s : Text} {place : Look} {rest : Text}
    (h : readEdge s = some (place, rest)) : rest.length ≤ s.length := by
  unfold readEdge at h
  split at h
  · rename_i s
    split at h
    · cases h
    · cases h
      exact Nat.le_refl _
    · rename_i after hd _
      obtain ⟨_, _, h⟩ := Option.map_eq_some_iff.mp h
      obtain ⟨_, rfl⟩ := Prod.mk.inj h
      have hle := congrArg List.length hd
      have := (List.dropWhile_sublist (l := s) isEdgeChar).length_le
      simp only [List.length_cons] at hle ⊢
      omega
    · cases h
  · cases h
    exact Nat.le_refl _

/-- An escape takes at least one character. -/
theorem read_length {s : Text} {e : Escape} {rest : Text} (h : read s = some (e, rest)) :
    rest.length < s.length := by
  cases s with
  | nil => cases h
  | cons c s =>
    refine Nat.lt_succ_of_le ?_
    simp only [read] at h
    split at h
    · cases h
      exact Nat.le_refl _
    split at h
    · cases h
      exact Nat.le_refl _
    split at h
    · cases h
      exact Nat.le_refl _
    split at h
    · obtain ⟨⟨_, _⟩, hr, h⟩ := Option.map_eq_some_iff.mp h
      cases h
      exact readEdge_length hr
    split at h
    · cases h
      exact Nat.le_refl _
    split at h
    · obtain ⟨⟨_, _⟩, hr, h⟩ := Option.map_eq_some_iff.mp h
      cases h
      exact readHex_length hr
    split at h
    · cases h
      exact Nat.le_refl _
    · cases h

end Escape

end RoutePattern
