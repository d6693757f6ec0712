import RoutePattern.Options.Coding
import RoutePattern.Pattern.Basic

/-!
# Sessions

A session keeps patterns by id, results of matches by name and one set of parameters, and answers
requests one after another. A request that fails changes nothing.

## Main definitions

* `Session.Request`, `Session.Answer`, `Session.Error` — what goes in and what comes out.
* `Session.step` — one request; `Session.run` — one after another.
-/

namespace RoutePattern

/-- What is kept between requests. -/
structure Session where
  patterns : NameMap Pattern := ∅
  /-- Results by name; a match that failed is kept too. -/
  results : NameMap (Option MatchResult) := ∅
  params : Params := ∅

namespace Session

/-- What can be asked for. -/
inductive Request where
  /-- A pattern of the pattern language, with options if there are any. -/
  | create (id text : Text) (options : Option Document)
  /-- A pattern of a regex, with names for its groups if there are any. -/
  | createRegex (id source : Text) (names : Option (List Text))
  | clone (id target : Text)
  | drop (id : Text)
  | info (id : Text)
  /-- A match, which is kept under a name if there is one. -/
  | find (id input : Text) (name : Option Text)
  /-- The single value of a key in a result. -/
  | get (result key : Text)
  /-- All that is in a result. -/
  | inspect (result : Text)
  /-- Are two results the same? -/
  | compare (result other : Text)
  /-- The values of a result become parameters. -/
  | load (result : Text)
  | set (key : Text) (value : Document)
  | unset (key : Text)
  | clear
  /-- The text that the parameters make of a pattern. -/
  | render (id : Text)
  /-- The same text, matched against the pattern again. -/
  | roundTrip (id : Text)

/-- Why a request fails. -/
inductive Error where
  | invalidOptions
  | invalidParams
  | regex (cause : Regex.ReadError)
  | pattern (error : Pattern.Error)
  | noSuchPattern
  | noSuchMatch
  /-- A result of bare groups has no values to load. -/
  | notNamed
  deriving DecidableEq, Repr

/-- What a request gives. -/
inductive Answer where
  | pattern (p : Pattern)
  | flag (b : Bool)
  | found (result : Option MatchResult)
  | value (value : Option Text)
  | result (m : MatchResult)
  | params (p : Params)
  | text (t : Text)
  /-- The text, what it matches, and whether that is the parameters it was made with. -/
  | roundTrip (t : Text) (result : Option MatchResult) (same : Bool)

/-- The pattern with an id. -/
def pattern? (s : Session) (id : Text) : Except Error Pattern :=
  match s.patterns.get? id with
  | some p => .ok p
  | none => .error .noSuchPattern

/-- The result with a name, of a match that did not fail. -/
def result? (s : Session) (name : Text) : Except Error MatchResult :=
  match s.results.get? name with
  | some (some m) => .ok m
  | _ => .error .noSuchMatch

/-- The options of a request. -/
def options? : Option Document → Except Error Options
  | none => .ok {}
  | some document =>
    match Options.decode? document with
    | some o => .ok o
    | none => .error .invalidOptions

/-- A pattern of a regex. -/
def regexPattern (source : Text) (names : Option (List Text)) : Except Error Pattern := do
  let regex ← (Regex.read source).mapError .regex
  match names with
  | none => return .ofRegex source regex
  | some names => (Pattern.ofNamedRegex source regex names).mapError .pattern

/-- The session with a pattern, which is the answer. -/
def store (s : Session) (id : Text) (p : Pattern) : Answer × Session :=
  (.pattern p, { s with patterns := s.patterns.insert id p })

/-- The session with other parameters, which are the answer. -/
def setParams (s : Session) (params : Params) : Answer × Session :=
  (.params params, { s with params })

/-- Is this a result with just these values? -/
def holds (params : Params) : Option MatchResult → Bool
  | some (.named found) => found.sameAs params
  | _ => false

/-- The answer to a request, and the session after it. -/
def step (s : Session) : Request → Except Error (Answer × Session)
  | .create id text options => do
    let o ← options? options
    let p ← (Pattern.ofText text o).mapError .pattern
    return s.store id p
  | .createRegex id source names => do
    let p ← regexPattern source names
    return s.store id p
  | .clone id target => do
    let p ← s.pattern? id
    return s.store target p
  | .drop id => .ok (.flag (s.patterns.contains id), { s with patterns := s.patterns.erase id })
  | .info id => do
    let p ← s.pattern? id
    return (.pattern p, s)
  | .find id input name => do
    let p ← s.pattern? id
    let result := p.match? input
    match name with
    | none => return (.found result, s)
    | some name => return (.found result, { s with results := s.results.insert name result })
  | .get result key => do
    let m ← s.result? result
    return (.value (m.get? key), s)
  | .inspect result => do
    let m ← s.result? result
    return (.result m, s)
  | .compare result other => do
    let m ← s.result? result
    let m' ← s.result? other
    return (.flag (m.sameAs m'), s)
  | .load result => do
    let m ← s.result? result
    match m.named? with
    | some params => return s.setParams (s.params.merge params)
    | none => throw .notNamed
  | .set key value =>
    match ParamValue.ofDocument? value with
    | some value => .ok (s.setParams (s.params.insert key value))
    | none => .error .invalidParams
  | .unset key => .ok (s.setParams (s.params.erase key))
  | .clear => .ok (s.setParams ∅)
  | .render id => do
    let p ← s.pattern? id
    let text ← (p.render s.params).mapError .pattern
    return (.text text, s)
  | .roundTrip id => do
    let p ← s.pattern? id
    let text ← (p.render s.params).mapError .pattern
    let result := p.match? text
    return (.roundTrip text result (holds s.params result), s)

/-- The answers to requests, one after another. -/
def run (s : Session) : List Request → List (Except Error Answer)
  | [] => []
  | request :: requests =>
    match s.step request with
    | .ok (answer, s) => .ok answer :: run s requests
    | .error error => .error error :: run s requests

end Session

end RoutePattern
