import RoutePattern.Options.Basic
import RoutePattern.Parser.Basic
import RoutePattern.Pattern.Error
import RoutePattern.Pattern.Node

/-!
# The pattern language

A pattern is a row of tokens. At each place the kinds of token are tried in a fixed order: a wildcard
with a name, a wildcard, an optional segment, a named segment, and static text. Static text goes on
until a character that begins or ends another token, so it is always as long as it can be.

An optional segment holds a pattern again. The rules therefore take the parser of the inner pattern
as an argument, and `Grammar.nested` ties the knot to a depth: each optional segment takes at least
its opening character off the text, so a text of `n` characters nests no deeper than `n`.

## Main definitions

* `Grammar` — the options with the regex of a name; `Grammar.ofOptions` checks the charset of names.
* `Grammar.staticText`, `Grammar.namedSegment`, `Grammar.wildcard`, `Grammar.namedWildcard`,
  `Grammar.optionalSegment`, `Grammar.token`, `Grammar.pattern` — the rules.
-/

namespace RoutePattern

/-- The pattern language for one choice of options. -/
structure Grammar where
  options : Options
  /-- One or more characters of the charset of names. -/
  name : Regex

namespace Grammar

/-- The language of some options, whose charset of names has to form a class. -/
def ofOptions (o : Options) : Except PatternError Grammar :=
  match Parser.fragmentRegex ('[' :: (o.nameCharset ++ Text.ofString "]+")) with
  | .ok name => .ok ⟨o, name⟩
  | .error cause => .error (.invalidCharset o.nameCharset cause)

variable (g : Grammar)

/-! ## Tokens without a pattern in them -/

/-- The escape character with the character after it, which is the value. -/
def escapedChar : Parser Text := .pick 1 [.literal [g.options.escape], .anyChar]

/-- What ends a name, if names are closed. -/
def nameEnd : List (Parser Text) :=
  match g.options.nameEnd with
  | some c => [.literal [c]]
  | none => []

/-- A name with what surrounds it. -/
def delimitedName : Parser Text :=
  .pick 1 (.literal [g.options.nameStart] :: .fragment g.name :: g.nameEnd)

/-- A segment with a name. -/
def namedSegment : Parser Node := .map .named g.delimitedName

/-- A wildcard. -/
def wildcard : Parser Node := .map (fun _ => .wildcard) (.literal [g.options.wildcard])

/-- A wildcard with a name. -/
def namedWildcard : Parser Node :=
  .map .namedWildcard (.pick 1 [.literal [g.options.wildcard], g.delimitedName])

/-- The beginning of another token, or the end of an optional segment, even if it is the escape
character. A wildcard with a name begins with a wildcard, so the last alternative is never the first
that matches. -/
def special : Parser Unit :=
  .firstOf
    [.map (fun _ => ()) (.literal [g.options.nameStart]),
      .map (fun _ => ()) (.literal [g.options.optionalStart]),
      .map (fun _ => ()) (.literal [g.options.optionalEnd]),
      .map (fun _ => ()) g.wildcard,
      .map (fun _ => ()) g.namedWildcard]

/-- Static text. An escape character with nothing after it stands for itself. -/
def staticText : Parser Node :=
  .map .text (.concatUntil (.firstOf [g.escapedChar, .anyChar]) g.special)

/-! ## Tokens around a pattern -/

/-- An optional segment around what `inner` reads. -/
def optionalAround (inner : Parser (List Node)) : Parser Node :=
  .map .optional <| .pick 1
    [.map (fun _ => []) (.literal [g.options.optionalStart]), inner,
      .map (fun _ => []) (.literal [g.options.optionalEnd])]

/-- A token, of which an optional segment holds what `inner` reads. -/
def tokenAround (inner : Parser (List Node)) : Parser Node :=
  .firstOf [g.namedWildcard, g.wildcard, g.optionalAround inner, g.namedSegment, g.staticText]

/-- A pattern with optional segments nested less deeply than the number says. -/
def nested : Nat → Parser (List Node)
  | 0 => .fail
  | depth + 1 => .many (g.tokenAround (nested depth))

/-- A pattern: one token or more. -/
def pattern : Parser (List Node) := fun s => g.nested (s.length + 1) s

/-- An optional segment. -/
def optionalSegment : Parser Node := g.optionalAround g.pattern

/-- A token. -/
def token : Parser Node := g.tokenAround g.pattern

end Grammar

/-! ## Whole patterns -/

namespace Node

/-- The nodes of a pattern, which has to be read to its end. -/
def parse (pattern : Text) (o : Options) : Except PatternError (List Node) :=
  if pattern = [] then .error .empty
  else if pattern.any Text.isBlank then .error (.containsWhitespace pattern)
  else do
    let g ← Grammar.ofOptions o
    match g.pattern pattern with
    | none => .error (.unparsable pattern)
    | some (nodes, []) => .ok nodes
    | some (_, rest) => .error (.partialParse pattern (pattern.length - rest.length + 1))

end Node

end RoutePattern
