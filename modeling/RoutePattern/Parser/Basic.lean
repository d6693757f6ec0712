import RoutePattern.Regex.Match
import RoutePattern.Regex.Reader

/-!
# Parsers

A parser takes a value off the front of a text and leaves the rest, or does not match. There are no
errors and no state, and a parser that has matched is never asked for another match.

## Main definitions

* `Parser` — and its atoms `literal`, `fragment`, `anyChar` and `fail`.
* `Parser.sequence`, `Parser.pick`, `Parser.firstOf` — several parsers.
* `Parser.many`, `Parser.concatUntil` — repetition. Both stop as soon as a round takes nothing off the
  text, so they end with every parser.
-/

namespace RoutePattern

/-- Takes a value off the front of a text. -/
abbrev Parser (α : Type) := Text → Option (α × Text)

namespace Parser

variable {α β : Type}

/-! ## Atoms -/

/-- Never matches. -/
def fail : Parser α := fun _ => none

/-- A given text. -/
def literal (expected : Text) : Parser Text := fun s =>
  (List.isPrefixOf? expected s).map (expected, ·)

/-- Any one character. -/
def anyChar : Parser Text
  | [] => none
  | c :: s => some ([c], s)

/-- The leftmost match of a regex. What lies before the match is left out. -/
def fragment (r : Regex) : Parser Text := fun s =>
  (r.find s).map fun found => (found.matched, found.after)

/-- The regex of a fragment, which is put into a group behind the start of the text. -/
def fragmentRegex (source : Text) : Except Regex.ReadError Regex :=
  Regex.read (Text.ofString "^(?:" ++ source ++ Text.ofString ")")

/-! ## Several parsers -/

/-- A parser whose value is changed. -/
def map (f : α → β) (p : Parser α) : Parser β := fun s =>
  (p s).map fun (value, rest) => (f value, rest)

/-- One parser after another; all have to match. -/
def sequence : List (Parser α) → Parser (List α)
  | [], s => some ([], s)
  | p :: ps, s => do
    let (value, s) ← p s
    let (values, s) ← sequence ps s
    some (value :: values, s)

/-- One parser after another, of which only one value is kept. -/
def pick (index : Nat) (ps : List (Parser α)) : Parser α := fun s => do
  let (values, rest) ← sequence ps s
  let value ← values[index]?
  some (value, rest)

/-- The first parser that matches. -/
def firstOf : List (Parser α) → Parser α
  | [], _ => none
  | p :: ps, s => (p s).or (firstOf ps s)

/-! ## Repetition -/

/-- The rounds of a parser until it does not match or takes nothing off the text. -/
def rounds (p : Parser α) (s : Text) : List α × Text :=
  match p s with
  | none => ([], s)
  | some (value, rest) =>
    if rest.length < s.length then
      let (values, rest) := rounds p rest
      (value :: values, rest)
    else ([value], rest)
termination_by s.length

/-- One round or more. -/
def many (p : Parser α) : Parser (List α) := fun s =>
  match rounds p s with
  | ([], _) => none
  | result => some result

/-- The rounds of a parser until `stop` matches, it does not match or takes nothing off the text. -/
def roundsUntil (p : Parser α) (stop : Parser β) (s : Text) : List α × Text :=
  if (stop s).isSome then ([], s)
  else
    match p s with
    | none => ([], s)
    | some (value, rest) =>
      if rest.length < s.length then
        let (values, rest) := roundsUntil p stop rest
        (value :: values, rest)
      else ([value], rest)
termination_by s.length

/-- One round or more until `stop` matches, whose match is left in the text; the texts are joined. -/
def concatUntil (p : Parser Text) (stop : Parser β) : Parser Text := fun s =>
  match roundsUntil p stop s with
  | ([], _) => none
  | (texts, rest) => some (texts.flatten, rest)

end Parser

end RoutePattern
