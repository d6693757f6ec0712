import RoutePattern.Document

/-!
# Options

The special characters of the pattern language and the characters of names and values. The special
characters may coincide, and the charsets are put into brackets as they are: a choice that makes no
sense shows only when patterns are read.

## Main definitions

* `Options` — the record, with the usual choice as its default.
* `Options.Field` — its fields by name, in order.
* `Options.Setting`, `Options.ofSettings`, `Options.build` — options made setting by setting.
* `Options.validate` — charsets must not be empty.
-/

namespace RoutePattern

/-- The configuration of the pattern language. -/
structure Options where
  /-- Takes away the meaning of the character after it. -/
  escape : Char := '\\'
  /-- Begins a name. -/
  nameStart : Char := ':'
  /-- Ends a name, if names are closed. -/
  nameEnd : Option Char := none
  /-- The characters of the value of a named segment. -/
  valueCharset : Text := Text.ofString "a-zA-Z0-9-_~ %"
  /-- The characters of a name. -/
  nameCharset : Text := Text.ofString "a-zA-Z0-9"
  /-- Opens an optional segment. -/
  optionalStart : Char := '('
  /-- Closes an optional segment. -/
  optionalEnd : Char := ')'
  /-- Stands for anything. -/
  wildcard : Char := '*'
  deriving DecidableEq, Repr

namespace Options

instance : Inhabited Options := ⟨{}⟩

/-! ## Fields -/

/-- The fields of the options. -/
inductive Field where
  | escape
  | nameStart
  | nameEnd
  | valueCharset
  | nameCharset
  | optionalStart
  | optionalEnd
  | wildcard
  deriving DecidableEq, Repr

/-- The fields in order. -/
def Field.all : List Field :=
  [.escape, .nameStart, .nameEnd, .valueCharset, .nameCharset, .optionalStart, .optionalEnd, .wildcard]

/-- The name of a field in documents and messages. -/
def Field.key : Field → String
  | .escape => "escape_char"
  | .nameStart => "segment_name_start_char"
  | .nameEnd => "segment_name_end_char"
  | .valueCharset => "segment_value_charset"
  | .nameCharset => "segment_name_charset"
  | .optionalStart => "optional_segment_start_char"
  | .optionalEnd => "optional_segment_end_char"
  | .wildcard => "wildcard_char"

/-- The field with a given name. -/
def Field.ofKey? (key : String) : Option Field := Field.all.find? (·.key == key)

/-! ## Settings -/

/-- A value for one field. -/
inductive Setting where
  | escape (c : Char)
  | nameStart (c : Char)
  | nameEnd (c : Option Char)
  | valueCharset (charset : Text)
  | nameCharset (charset : Text)
  | optionalStart (c : Char)
  | optionalEnd (c : Char)
  | wildcard (c : Char)
  deriving DecidableEq, Repr

/-- The options with one field set. -/
def apply (o : Options) : Setting → Options
  | .escape c => { o with escape := c }
  | .nameStart c => { o with nameStart := c }
  | .nameEnd c => { o with nameEnd := c }
  | .valueCharset charset => { o with valueCharset := charset }
  | .nameCharset charset => { o with nameCharset := charset }
  | .optionalStart c => { o with optionalStart := c }
  | .optionalEnd c => { o with optionalEnd := c }
  | .wildcard c => { o with wildcard := c }

/-- The default options, changed by the settings in order. -/
def ofSettings (settings : List Setting) : Options := settings.foldl apply {}

/-! ## Validation -/

/-- Why options are refused. -/
inductive Fault where
  | emptyCharset (field : Field)
  deriving DecidableEq, Repr

/-- The wording of a fault. -/
def Fault.message : Fault → String
  | .emptyCharset field => field.key ++ " must not be empty"

/-- Both charsets must hold something; the charset of values is looked at first. -/
def validate (o : Options) : Except Fault Unit :=
  if o.valueCharset = [] then .error (.emptyCharset .valueCharset)
  else if o.nameCharset = [] then .error (.emptyCharset .nameCharset)
  else .ok ()

/-- Valid options from settings in order. -/
def build (settings : List Setting) : Except Fault Options := do
  (ofSettings settings).validate
  return ofSettings settings

end Options

end RoutePattern
