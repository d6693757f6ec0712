import RoutePattern.Regex.Reader

/-!
# Errors of patterns

Why a text is no pattern, and why a pattern cannot be filled in, with the wording of each.
-/

namespace RoutePattern

/-- Why a text is refused as a pattern. -/
inductive PatternError where
  /-- There is no text. -/
  | empty
  /-- There is white space in the text. -/
  | containsWhitespace (pattern : Text)
  /-- No start of the text can be read. -/
  | unparsable (pattern : Text)
  /-- The character at `index`, counted from one, and those behind it cannot be read. -/
  | partialParse (pattern : Text) (index : Nat)
  /-- The charset of names forms no class. -/
  | invalidCharset (charset : Text) (cause : Regex.ReadError)
  /-- The regex of the pattern is refused. -/
  | invalidRegex (pattern source : Text) (cause : Regex.ReadError)
  deriving DecidableEq, Repr

/-- The wording of an error. The place of a partial parse is also pointed at. -/
def PatternError.message : PatternError → String
  | .empty => "pattern must not be the empty string"
  | .containsWhitespace pattern => "pattern '" ++ pattern.toString ++ "' must not contain whitespace"
  | .unparsable pattern => "couldn't parse pattern '" ++ pattern.toString ++ "'"
  | .partialParse pattern index =>
    "could only partially parse pattern.\nfailure at character " ++ toString index ++
      " in pattern:\n" ++ pattern.toString ++ "\n" ++
      Text.toString (List.replicate (index - 1) ' ') ++ "^ parsing failed here"
  | .invalidCharset charset cause =>
    "charset '" ++ charset.toString ++ "' does not form a valid regex character class: " ++ cause.message
  | .invalidRegex pattern source cause =>
    "pattern '" ++ pattern.toString ++ "' compiled to an invalid regex '" ++ source.toString ++
      "': " ++ cause.message

/-- Why a pattern cannot be filled in. -/
inductive RenderError where
  /-- There is no value at all for a name. -/
  | missingValue (name : Text)
  /-- A name occurs more often than there are values for it. -/
  | tooFewValues (name : Text)
  deriving DecidableEq, Repr

/-- The wording of an error. -/
def RenderError.message : RenderError → String
  | .missingValue name => "no value provided for name `" ++ name.toString ++ "`"
  | .tooFewValues name => "too few values provided for name `" ++ name.toString ++ "`"

end RoutePattern
