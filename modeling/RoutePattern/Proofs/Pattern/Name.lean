import RoutePattern.Pattern.Grammar
import RoutePattern.Proofs.Pattern.Matching

/-!
# Names in patterns

A name is read as a fragment of the text: the regex of one or more characters of a charset, put behind
the start of the text. Its match takes all characters of the charset that stand there.

## Main definitions

* `Grammar.nameRegex` — the regex of a name; `Grammar.nameLimit?` — its limits.
* `Grammar.ofOptions_eq` — the language of some options.
* `Grammar.fragment_nameRegex` — what is read as a name.
-/

namespace RoutePattern.Grammar

/-! ## The regex of a name -/

/-- One or more characters of a class, behind the start of the text. -/
def nameRegex (cls : CharClass) : Regex :=
  .seq (.look .textStart) (.group none (Node.valueRegex cls))

theorem readFrom_nameRegex {charset : Text} {cls : CharClass}
    (h : CharClass.ofCharset? charset = some cls) :
    Regex.readFrom .start
      (Text.ofString "^(?:" ++ '[' :: (charset ++ Text.ofString "]+") ++ Text.ofString ")") =
        some (nameRegex cls) := by
  have hsource : Text.ofString "^(?:" ++ '[' :: (charset ++ Text.ofString "]+") ++ Text.ofString ")" =
      '^' :: '(' :: '?' :: ':' :: '[' :: (charset ++ ']' :: ['+', ')']) := by
    simp [Text.ofString]
  have hstart (s : Text) : Regex.step .start ('^' :: '(' :: '?' :: ':' :: s) =
      some (Regex.Reading.start.push (.look .textStart), '(' :: '?' :: ':' :: s) := rfl
  have hopen (st : Regex.Reading) (s : Text) :
      Regex.step st ('(' :: '?' :: ':' :: s) = some (st.openPlain, s) := rfl
  rw [hsource, Regex.readFrom_of_step (hstart _), Regex.readFrom_of_step (hopen _ _),
    Regex.readFrom_of_step (Regex.step_charset h _ _)]
  -- the quantifier, the closing parenthesis and the end
  rw [Regex.readFrom_of_step rfl, Regex.readFrom_of_step rfl, Regex.readFrom]
  rfl

/-- Why there are no names of a class, if there are none: their regex is beyond the limits of regexes. -/
def nameLimit? (cls : CharClass) : Option Regex.ReadError := (nameRegex cls).limit?

/-- The language of some options is there within the limits of regexes. -/
theorem ofOptions_eq {o : Options} {cls : CharClass} (h : CharClass.ofCharset? o.nameCharset = some cls) :
    ofOptions o =
      match nameLimit? cls with
      | none => .ok ⟨o, nameRegex cls⟩
      | some cause => .error (.invalidCharset o.nameCharset cause) := by
  simp only [ofOptions, Parser.fragmentRegex, Regex.read, readFrom_nameRegex h, nameLimit?]
  cases (nameRegex cls).limit? <;> rfl

theorem ofOptions_eq_ok {o : Options} {cls : CharClass} (h : CharClass.ofCharset? o.nameCharset = some cls)
    (hlimit : nameLimit? cls = none) : ofOptions o = .ok ⟨o, nameRegex cls⟩ := by
  rw [ofOptions_eq h, hlimit]

theorem ofOptions_eq_error {o : Options} {cls : CharClass} {cause : Regex.ReadError}
    (h : CharClass.ofCharset? o.nameCharset = some cls) (hlimit : nameLimit? cls = some cause) :
    ofOptions o = .error (.invalidCharset o.nameCharset cause) := by
  rw [ofOptions_eq h, hlimit]

/-! ## Reading a name -/

/-- The longest run of characters comes first. -/
theorem head?_runs (p : Char → Bool) (s : Text) :
    (Text.runs true p s).head? = some (s.takeWhile p, s.dropWhile p) := by
  induction s with
  | nil => rfl
  | cons c s ih =>
    by_cases hc : p c = true
    · simp [Text.runs, hc, ih]
    · simp [Text.runs, hc]

theorem head?_values (cls : CharClass) (s : Text) :
    (Node.values cls s).head? =
      if s.takeWhile cls.mem = [] then none else some (s.takeWhile cls.mem, s.dropWhile cls.mem) := by
  cases s with
  | nil => rfl
  | cons c s =>
    by_cases hc : cls.mem c = true
    · simp [Node.values, hc, head?_runs]
    · simp [Node.values, hc]

/-- **A name is read** as far as its characters go. -/
theorem fragment_nameRegex (cls : CharClass) (s : Text) :
    Parser.fragment (nameRegex cls) s =
      if s.takeWhile cls.mem = [] then none else some (s.takeWhile cls.mem, s.dropWhile cls.mem) := by
  have hstraight : (Regex.group none (Node.valueRegex cls)).Straight := ⟨.inr ⟨rfl, rfl⟩, trivial⟩
  have hway : (nameRegex cls).way? s =
      ((Node.valueRegex cls).walk none s).head?.map fun p => ⟨s, p.marks, p.rest⟩ :=
    Regex.way?_anchored hstraight s
  have hvalues := Node.forall₂_value cls none s
  rw [← head?_values, Parser.fragment, Regex.find, hway]
  generalize (Node.valueRegex cls).walk none s = ps at hvalues ⊢
  generalize Node.values cls s = runs at hvalues ⊢
  cases hvalues with
  | nil => rfl
  | @cons p run ps runs hover _ =>
    simp only [List.head?_cons, Option.map_some, Regex.foundBy]
    rw [hover.rest_eq, hover.text_eq, Text.upTo_append]

end RoutePattern.Grammar
