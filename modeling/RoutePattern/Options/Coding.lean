import RoutePattern.Options.Basic

/-!
# Options as documents

Options are written as an object with one member a field, or read from a list of values in the order
of the fields. What a document leaves out keeps its default.

## Main definitions

* `Options.encode` — the object of all fields.
* `Options.decode?` — the options of an object or a list. Members of other names are ignored; a
  field that is given twice, a value of the wrong kind and a list that is too long are refused.
-/

namespace RoutePattern.Options

/-- The value of a field. -/
def Field.encode (o : Options) : Field → Document
  | .escape => .text [o.escape]
  | .nameStart => .text [o.nameStart]
  | .nameEnd => match o.nameEnd with
    | some c => .text [c]
    | none => .null
  | .valueCharset => .text o.valueCharset
  | .nameCharset => .text o.nameCharset
  | .optionalStart => .text [o.optionalStart]
  | .optionalEnd => .text [o.optionalEnd]
  | .wildcard => .text [o.wildcard]

/-- The setting that a value makes of a field, if the value is of the right kind. -/
def Field.setting? (value : Document) : Field → Option Setting
  | .escape => value.asChar?.map .escape
  | .nameStart => value.asChar?.map .nameStart
  | .nameEnd => value.asOptionalChar?.map .nameEnd
  | .valueCharset => value.asText?.map .valueCharset
  | .nameCharset => value.asText?.map .nameCharset
  | .optionalStart => value.asChar?.map .optionalStart
  | .optionalEnd => value.asChar?.map .optionalEnd
  | .wildcard => value.asChar?.map .wildcard

/-- The name of a field as a text. -/
def Field.name (field : Field) : Text := Text.ofString field.key

/-- All fields of the options. -/
def encode (o : Options) : Document :=
  .object (Field.all.map fun field => (field.name, field.encode o))

/-- The setting that the members make of a field, or none if they leave it out. -/
def memberSetting? (members : List (Text × Document)) (field : Field) : Option (Option Setting) :=
  match Document.valuesOf members field.name with
  | [] => some none
  | [value] => (field.setting? value).map some
  | _ => none

/-- The settings of an object. -/
def memberSettings? (members : List (Text × Document)) : Option (List Setting) :=
  (Field.all.mapM (memberSetting? members)).map fun settings => settings.filterMap id

/-- The settings of a list, one for each of the first fields. -/
def itemSettings? : List Field → List Document → Option (List Setting)
  | _, [] => some []
  | [], _ :: _ => none
  | field :: fields, value :: values => do
    let setting ← field.setting? value
    let settings ← itemSettings? fields values
    some (setting :: settings)

/-- The options that a document describes. -/
def decode? : Document → Option Options
  | .object members => (memberSettings? members).map ofSettings
  | .list items => (itemSettings? Field.all items).map ofSettings
  | _ => none

end RoutePattern.Options
