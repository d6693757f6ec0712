import RoutePattern.Parser.Live

/-!
# Blueprints

A blueprint says how a parser is to be assembled, with names for the parsers that are declared before
they are defined. A name stands for one reference, which all its uses share. To build a blueprint
gives an assembly and the world of its slots and references.

## Main definitions

* `Blueprint` — the plan of a parser.
* `Blueprint.build` — the assembly of a blueprint, given the references that names stand for.
* `Blueprint.parseAll` — what the parser of a blueprint gives for one text after another.
-/

namespace RoutePattern

/-- The plan of a parser. -/
inductive Blueprint where
  | literal (expected : Text)
  /-- A regex that has to match at the start of the text. -/
  | fragment (source : Text)
  | anyChar
  | fail
  | sequence (parts : List Blueprint)
  | pick (index : Nat) (parts : List Blueprint)
  | firstOf (parts : List Blueprint)
  | many (part : Blueprint)
  | concatUntil (part stop : Blueprint)
  | tag (key : Text) (part : Blueprint)
  | deferred (part : Blueprint)
  /-- A parser that somebody else owns. -/
  | weak (part : Blueprint)
  /-- A parser that nobody owns. -/
  | dropped (part : Blueprint)
  /-- A parser that may refer to itself by the name. -/
  | recursive (name : Text) (body : Blueprint)
  /-- A second definition for the name, which is the parser, though the name keeps to the first. -/
  | redefined (name : Text) (body again : Blueprint)
  /-- As `recursive`, but the parser is used on a text before it is defined. -/
  | probed (name : Text) (body : Blueprint) (probe : Text)
  /-- As `recursive`, but the name is never defined. -/
  | undefined (name : Text) (body : Blueprint)
  /-- As `recursive`, but the slot of the name is dropped after the definition. -/
  | freed (name : Text) (body : Blueprint)
  /-- The parser of a name. -/
  | reference (name : Text)
  deriving Repr

namespace Blueprint

/-- Why a parser cannot be built. -/
inductive BuildError where
  /-- A fragment is no regex. -/
  | fragment (cause : Regex.ReadError)
  /-- A name stands for nothing. -/
  | unbound (name : Text)
  deriving DecidableEq, Repr

/-- The references that names stand for, the innermost first. -/
abbrev Scope := List (Text × Nat)

mutual

/-- The assembly of a blueprint, and the world with its slots and references. -/
def build (scope : Scope) : Blueprint → World → Except BuildError (Assembly × World)
  | .literal expected, w => .ok (.literal expected, w)
  | .fragment source, w =>
    match Parser.fragmentRegex source with
    | .ok r => .ok (.fragment r, w)
    | .error cause => .error (.fragment cause)
  | .anyChar, w => .ok (.anyChar, w)
  | .fail, w => .ok (.fail, w)
  | .sequence parts, w => do
    let (parts, w) ← buildAll scope parts w
    return (.sequence parts, w)
  | .pick index parts, w => do
    let (parts, w) ← buildAll scope parts w
    return (.pick index parts, w)
  | .firstOf parts, w => do
    let (parts, w) ← buildAll scope parts w
    return (.firstOf parts, w)
  | .many part, w => do
    let (part, w) ← build scope part w
    return (.many part, w)
  | .concatUntil part stop, w => do
    let (part, w) ← build scope part w
    let (stop, w) ← build scope stop w
    return (.concatUntil part stop, w)
  | .tag key part, w => do
    let (part, w) ← build scope part w
    return (.map (.tagged key) part, w)
  | .deferred part, w => do
    let (part, w) ← build scope part w
    return (.deferred part, w)
  | .weak part, w => do
    let (part, w) ← build scope part w
    return (.weak true part, w)
  | .dropped part, w => do
    let (part, w) ← build scope part w
    return (.weak false part, w)
  | .recursive name body, w => do
    let (slot, i, w) := w.declareReferred
    let (body, w) ← build ((name, i) :: scope) body w
    return (body, w.define slot body)
  | .redefined name body again, w => do
    let (slot, i, w) := w.declareReferred
    let (body, w) ← build ((name, i) :: scope) body w
    let (again, w) ← build ((name, i) :: scope) again (w.define slot body)
    return (again, w.define slot again)
  | .probed name body probe, w => do
    let (slot, i, w) := w.declareReferred
    let (body, w) ← build ((name, i) :: scope) body w
    let w := (body.parse probe w).elim w Prod.snd
    return (body, w.define slot body)
  | .undefined name body, w =>
    let (_, i, w) := w.declareReferred
    build ((name, i) :: scope) body w
  | .freed name body, w => do
    let (slot, i, w) := w.declareReferred
    let (body, w) ← build ((name, i) :: scope) body w
    return (body, (w.define slot body).drop slot)
  | .reference name, w =>
    match scope.lookup name with
    | some i => .ok (.reference i, w)
    | none => .error (.unbound name)

/-- The assemblies of blueprints. -/
def buildAll (scope : Scope) : List Blueprint → World → Except BuildError (List Assembly × World)
  | [], w => .ok ([], w)
  | part :: parts, w => do
    let (part, w) ← build scope part w
    let (parts, w) ← buildAll scope parts w
    return (part :: parts, w)

end

/-- What the parser of a blueprint gives for one text after another. -/
def parseAll (b : Blueprint) (texts : List Text) :
    Except BuildError (List (Option (Value × Text))) := do
  let (a, w) ← b.build [] ∅
  return a.parseAll texts w

end Blueprint

end RoutePattern
