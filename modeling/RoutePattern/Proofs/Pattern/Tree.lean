import RoutePattern.Pattern.Node
import RoutePattern.Proofs.Regex.Reading
import RoutePattern.Proofs.Regex.Sequence

/-!
# The regex of a pattern

The regex of a pattern is put together as a text, and read again. What is read has the structure of the
pattern: no piece is mixed up with its neighbours, whatever stands in it, since special characters are
escaped and no piece begins with a question mark.

## Main definitions

* `Node.parts`, `Node.sequence` — what a node, and nodes in a row, stand for in a regex.
* `Node.tree` — the regex of a whole text.
* `Node.captors` — the nodes that capture, from left to right.
* `Node.readFrom_regexSource` — the regex that is read.
-/

namespace RoutePattern.Node

open Regex (Reading)

/-! ## Trees -/

/-- One or more characters of a class. -/
def valueRegex (cls : CharClass) : Regex := .loop ⟨1, none, true⟩ (.set cls)

/-- Anything within a line, as little as possible. -/
def anyRegex : Regex := .loop ⟨0, none, false⟩ (.set .anyButNewline)

/-- Parts that may be missing. -/
def optionalRegex (parts : List Regex) : Regex :=
  .loop ⟨0, some 1, true⟩ (.group none (.ofParts parts))

mutual

/-- What a node stands for behind so many capturing groups. -/
def parts (cls : CharClass) (opened : Nat) : Node → List Regex
  | .text t => t.map Regex.char
  | .named _ => [.group (some (opened + 1)) (valueRegex cls)]
  | .wildcard => [.group (some (opened + 1)) anyRegex]
  | .namedWildcard _ => [.group (some (opened + 1)) anyRegex]
  | .optional children => [optionalRegex (sequence cls opened children)]

/-- What nodes in a row stand for behind so many capturing groups. -/
def sequence (cls : CharClass) (opened : Nat) : List Node → List Regex
  | [] => []
  | node :: nodes => node.parts cls opened ++ sequence cls (opened + node.names.length) nodes

end

/-- The regex of a whole text. -/
def tree (cls : CharClass) (nodes : List Node) : Regex :=
  .ofParts (.look .textStart :: (sequence cls 0 nodes ++ [.look .textEnd]))

/-! ## Reading -/

theorem step_capture {c : Char} (hc : c ≠ '?') (st : Reading) (s : Text) :
    Regex.step st ('(' :: c :: s) = some (st.openCapture, c :: s) := by
  show Regex.openGroup st (c :: s) = _
  unfold Regex.openGroup
  split <;> first | rfl | next h => exact absurd (List.head_eq_of_cons_eq h) hc

theorem readFrom_namedSource {charset : Text} {cls : CharClass}
    (h : CharClass.ofCharset? charset = some cls) (st : Reading) (rest : Text) :
    Regex.readFrom st (namedSource charset ++ rest) =
      Regex.readFrom (st.advance [.group (some (st.opened + 1)) (valueRegex cls)] 1) rest := by
  have hsource : namedSource charset ++ rest = '(' :: '[' :: (charset ++ ']' :: '+' :: ')' :: rest) := by
    simp [namedSource, Text.ofString]
  rw [hsource, Regex.readFrom_of_step (step_capture (by decide) _ _),
    Regex.readFrom_of_step (Regex.step_charset h _ _)]
  -- the quantifier and the closing parenthesis
  rw [Regex.readFrom_of_step rfl, Regex.readFrom_of_step rfl]
  rfl

theorem readFrom_wildcardSource (st : Reading) (rest : Text) :
    Regex.readFrom st (wildcardSource ++ rest) =
      Regex.readFrom (st.advance [.group (some (st.opened + 1)) anyRegex] 1) rest := by
  have hsource : wildcardSource ++ rest = '(' :: '.' :: '*' :: '?' :: ')' :: rest := by
    simp [wildcardSource, Text.ofString]
  rw [hsource, Regex.readFrom_of_step (step_capture (by decide) _ _)]
  -- the full stop, the lazy quantifier and the closing parenthesis
  rw [Regex.readFrom_of_step rfl, Regex.readFrom_of_step rfl, Regex.readFrom_of_step rfl]
  rfl

/-- Parts that may be missing, with no question mark behind them. -/
theorem readFrom_optionalSource {st : Reading} {inner rest : Text} {parts : List Regex} {n : Nat}
    (hrest : rest.head? ≠ some '?')
    (h : ∀ rest : Text, rest.head? ≠ some '?' →
      Regex.readFrom st.openPlain (inner ++ rest) = Regex.readFrom (st.openPlain.advance parts n) rest) :
    Regex.readFrom st (Text.ofString "(?:" ++ inner ++ Text.ofString ")?" ++ rest) =
      Regex.readFrom (st.advance [optionalRegex parts] n) rest := by
  have hsource : Text.ofString "(?:" ++ inner ++ Text.ofString ")?" ++ rest =
      '(' :: '?' :: ':' :: (inner ++ ')' :: '?' :: rest) := by
    simp [Text.ofString]
  have hopen (s : Text) : Regex.step st ('(' :: '?' :: ':' :: s) = some (st.openPlain, s) := rfl
  rw [hsource, Regex.readFrom_of_step (hopen _), h _ (by simp)]
  have hclose (s : Text) : Regex.step (st.openPlain.advance parts n) (')' :: s) =
      some (st.advance [.group none (.ofParts parts)] n, s) := by
    simp [Regex.step, Reading.close?, Reading.openPlain, Reading.advance, Regex.Group.start,
      Regex.Group.push, Regex.Group.body, Regex.ofParts, Regex.altOf]
  have hquestion : Regex.step (st.advance [.group none (.ofParts parts)] n) ('?' :: rest) =
      some (st.advance [optionalRegex parts] n, rest) := by
    rw [Regex.step, Regex.readQuantifier, Regex.readGreedy_of_ne hrest]
    rfl
  rw [Regex.readFrom_of_step (hclose _), Regex.readFrom_of_step hquestion]

theorem head?_escape {t rest : Text} (hrest : rest.head? ≠ some '?') :
    (Regex.escape t ++ rest).head? ≠ some '?' := by
  cases t with
  | nil => exact hrest
  | cons c t =>
    rw [Regex.escape_cons]
    split
    · simp
    · next hc =>
      intro h
      rw [List.append_assoc, List.singleton_append, List.head?_cons, Option.some.injEq] at h
      rw [h] at hc
      exact hc rfl

/-- No piece begins with a question mark, which would be read as part of a quantifier. -/
theorem head?_sources (charset : Text) (nodes : List Node) {rest : Text}
    (hrest : rest.head? ≠ some '?') : (sources charset nodes ++ rest).head? ≠ some '?' := by
  induction nodes with
  | nil => exact hrest
  | cons node nodes ih =>
    rw [sources, List.append_assoc]
    cases node with
    | text t => exact head?_escape ih
    | named name => simp [source, namedSource, Text.ofString]
    | wildcard | namedWildcard name => simp [source, wildcardSource, Text.ofString]
    | optional children => simp [source, Text.ofString]

section Read

variable {charset : Text} {cls : CharClass}

mutual

theorem readFrom_source (h : CharClass.ofCharset? charset = some cls) (node : Node) (st : Reading)
    (rest : Text) (hrest : rest.head? ≠ some '?') :
    Regex.readFrom st (source charset node ++ rest) =
      Regex.readFrom (st.advance (node.parts cls st.opened) node.names.length) rest :=
  match node with
  | .text t => Regex.readFrom_escape st t rest
  | .named _ => readFrom_namedSource h st rest
  | .wildcard => readFrom_wildcardSource st rest
  | .namedWildcard _ => readFrom_wildcardSource st rest
  | .optional children =>
    readFrom_optionalSource hrest fun rest hrest =>
      readFrom_sources h children st.openPlain rest hrest

/-- The reader goes on behind nodes in a row with what they stand for. -/
theorem readFrom_sources (h : CharClass.ofCharset? charset = some cls) (nodes : List Node)
    (st : Reading) (rest : Text) (hrest : rest.head? ≠ some '?') :
    Regex.readFrom st (sources charset nodes ++ rest) =
      Regex.readFrom (st.advance (sequence cls st.opened nodes) (captureNames nodes).length) rest :=
  match nodes with
  | [] => rfl
  | node :: nodes => by
    rw [sources, List.append_assoc,
      readFrom_source h node st _ (head?_sources charset nodes hrest),
      readFrom_sources h nodes _ _ hrest, Reading.advance_advance, Reading.opened_advance, sequence,
      captureNames, List.length_append]

end

theorem readFrom_regexSource (h : CharClass.ofCharset? charset = some cls) (nodes : List Node) :
    Regex.readFrom .start (regexSource nodes charset) = some (tree cls nodes) := by
  have hstart (s : Text) : Regex.step .start ('^' :: s) =
      some (Reading.start.advance [.look .textStart] 0, s) := rfl
  have hend (st : Reading) : Regex.step st ['$'] = some (st.advance [.look .textEnd] 0, []) := rfl
  rw [regexSource, Regex.readFrom_of_step (hstart _), readFrom_sources h nodes _ _ (by simp),
    Reading.advance_advance, Regex.readFrom_of_step (hend _), Reading.advance_advance, Regex.readFrom]
  simp [Reading.finish?, Reading.advance, Reading.start, Regex.Group.start, Regex.Group.body,
    Regex.altOf, tree, Regex.ofParts]

end Read

/-! ## Straight regexes -/

mutual

theorem straight_parts (cls : CharClass) (opened : Nat) (node : Node) :
    ∀ r ∈ node.parts cls opened, r.Straight :=
  match node with
  | .text t => by
    intro r hr
    obtain ⟨c, _, rfl⟩ := List.mem_map.mp hr
    trivial
  | .named _ => by
    rintro r (_ | ⟨_, ⟨⟩⟩)
    exact ⟨.inr ⟨rfl, rfl⟩, trivial⟩
  | .wildcard => by
    rintro r (_ | ⟨_, ⟨⟩⟩)
    exact ⟨.inr ⟨rfl, rfl⟩, trivial⟩
  | .namedWildcard _ => by
    rintro r (_ | ⟨_, ⟨⟩⟩)
    exact ⟨.inr ⟨rfl, rfl⟩, trivial⟩
  | .optional children => by
    rintro r (_ | ⟨_, ⟨⟩⟩)
    exact ⟨.inl ⟨rfl, rfl⟩, Regex.straight_ofParts (straight_sequence cls opened children)⟩

theorem straight_sequence (cls : CharClass) (opened : Nat) (nodes : List Node) :
    ∀ r ∈ sequence cls opened nodes, r.Straight :=
  match nodes with
  | [] => by simp [sequence]
  | node :: nodes => by
    intro r hr
    rcases List.mem_append.mp hr with hr | hr
    · exact straight_parts cls opened node r hr
    · exact straight_sequence cls _ nodes r hr

end

theorem straight_tree (cls : CharClass) (nodes : List Node) : (tree cls nodes).Straight := by
  refine Regex.straight_ofParts fun r hr => ?_
  rcases List.mem_cons.mp hr with rfl | hr
  · trivial
  rcases List.mem_append.mp hr with hr | hr
  · exact straight_sequence cls 0 nodes r hr
  · rw [List.mem_singleton.mp hr]
    trivial

/-! ## Capturing groups -/

/-- What a node holds between the parentheses of its group. -/
def captured (cls : CharClass) : Node → Regex
  | .named _ => valueRegex cls
  | .wildcard => anyRegex
  | .namedWildcard _ => anyRegex
  | .text _ => .empty
  | .optional _ => .empty

mutual

/-- The nodes that capture among a node and the nodes in it. -/
def captorsIn : Node → List Node
  | .text _ => []
  | .named name => [.named name]
  | .wildcard => [.wildcard]
  | .namedWildcard name => [.namedWildcard name]
  | .optional children => captors children

/-- The nodes that capture, from left to right. -/
def captors : List Node → List Node
  | [] => []
  | node :: nodes => node.captorsIn ++ captors nodes

end

mutual

theorem map_captureName?_captorsIn (node : Node) :
    node.captorsIn.map captureName? = node.names.map some :=
  match node with
  | .text _ => rfl
  | .named _ => rfl
  | .wildcard => rfl
  | .namedWildcard _ => rfl
  | .optional children => map_captureName?_captors children

/-- The nodes that capture do so under the names of the pattern, in their order. -/
theorem map_captureName?_captors (nodes : List Node) :
    (captors nodes).map captureName? = (captureNames nodes).map some :=
  match nodes with
  | [] => rfl
  | node :: nodes => by
    rw [captors, captureNames, List.map_append, List.map_append, map_captureName?_captorsIn node,
      map_captureName?_captors nodes]

end

theorem length_captorsIn (node : Node) : node.captorsIn.length = node.names.length := by
  have h := congrArg List.length (map_captureName?_captorsIn node)
  rwa [List.length_map, List.length_map] at h

theorem length_captors (nodes : List Node) : (captors nodes).length = (captureNames nodes).length := by
  have h := congrArg List.length (map_captureName?_captors nodes)
  rwa [List.length_map, List.length_map] at h

/-- Groups numbered from left to right behind so many others. -/
def numbered (cls : CharClass) (opened : Nat) (nodes : List Node) : List (Nat × Regex) :=
  (nodes.zipIdx (opened + 1)).map fun entry => (entry.2, entry.1.captured cls)

theorem numbered_append (cls : CharClass) (opened : Nat) (nodes nodes' : List Node) :
    numbered cls opened (nodes ++ nodes') =
      numbered cls opened nodes ++ numbered cls (opened + nodes.length) nodes' := by
  rw [numbered, List.zipIdx_append, List.map_append, Nat.add_right_comm]
  rfl

mutual

theorem openings_parts (cls : CharClass) (opened : Nat) (node : Node) :
    (node.parts cls opened).flatMap Regex.openings = numbered cls opened node.captorsIn :=
  match node with
  | .text t => by simp [parts, captorsIn, numbered, Regex.char, Regex.openings]
  | .named _ => rfl
  | .wildcard => rfl
  | .namedWildcard _ => rfl
  | .optional children => by
    rw [parts, List.flatMap_singleton, optionalRegex, Regex.openings, Regex.openings,
      Regex.openings_ofParts]
    exact openings_sequence cls opened children

/-- The groups of nodes in a row are those of the nodes that capture, numbered from left to right. -/
theorem openings_sequence (cls : CharClass) (opened : Nat) (nodes : List Node) :
    (sequence cls opened nodes).flatMap Regex.openings = numbered cls opened (captors nodes) :=
  match nodes with
  | [] => rfl
  | node :: nodes => by
    rw [sequence, List.flatMap_append, openings_parts cls opened node, openings_sequence cls _ nodes,
      captors, numbered_append, length_captorsIn]

end

theorem openings_tree (cls : CharClass) (nodes : List Node) :
    (tree cls nodes).openings = numbered cls 0 (captors nodes) := by
  rw [tree, Regex.openings_ofParts, List.flatMap_cons, List.flatMap_append, openings_sequence]
  simp [Regex.openings]

/-- A match reports one group for each name. -/
theorem groups_tree (cls : CharClass) (nodes : List Node) :
    (tree cls nodes).groups = (captureNames nodes).length := by
  have hmax (start n : Nat) : (List.range' (start + 1) n).foldr max 0 = if n = 0 then 0 else start + n := by
    induction n generalizing start with
    | zero => rfl
    | succ n ih =>
      rw [List.range'_succ, List.foldr_cons, ih, if_neg (Nat.succ_ne_zero n)]
      split <;> omega
  -- the groups have all numbers from one on
  have hnumbers : (numbered cls 0 (captors nodes)).map Prod.fst =
      List.range' 1 (captureNames nodes).length := by
    rw [numbered, List.map_map, ← length_captors, ← List.zipIdx_map_snd]
    rfl
  rw [Regex.groups_eq (straight_tree cls nodes), openings_tree, hnumbers, hmax 0]
  split <;> omega

/-! ## The regex that is read -/

/-- **The regex of a pattern has the structure of the pattern**, and only its limits can refuse it. Its
groups, by their opening parentheses, are those of the nodes that capture, from left to right. -/
theorem regexSource_structure {charset : Text} {cls : CharClass}
    (h : CharClass.ofCharset? charset = some cls) (nodes : List Node) :
    Regex.readFrom .start (regexSource nodes charset) = some (tree cls nodes) ∧
      Regex.read (regexSource nodes charset) =
        (if Regex.maxLevels < (tree cls nodes).levels .none then .error .tooDeep
          else if (tree cls nodes).fits then .ok (tree cls nodes)
          else .error .tooLarge) ∧
      (tree cls nodes).groups = (captureNames nodes).length ∧
      (tree cls nodes).openings = numbered cls 0 (captors nodes) ∧
      (captors nodes).map captureName? = (captureNames nodes).map some := by
  have hread := readFrom_regexSource h nodes
  exact ⟨hread, Regex.read_of_readFrom hread, groups_tree cls nodes, openings_tree cls nodes,
    map_captureName?_captors nodes⟩

/-- Static text that looks like a quantifier, and an optional segment with nothing in it. -/
theorem regexSource_structure_nested :
    CharClass.ofCharset? ['a', '-', 'z'] = some (.bracket false (.range 'a' 'z')) ∧
      Regex.readFrom .start (Text.ofString "^(?:([a-z]+)(?:)?)?\\?(.*?)$") =
        some (tree (.bracket false (.range 'a' 'z'))
          [.optional [.named ['x'], .optional []], .text ['?'], .wildcard]) ∧
      (tree (.bracket false (.range 'a' 'z'))
        [.optional [.named ['x'], .optional []], .text ['?'], .wildcard]).groups = 2 := by
  have hcharset : CharClass.ofCharset? ['a', '-', 'z'] = some (.bracket false (.range 'a' 'z')) := by
    decide +kernel
  obtain ⟨hread, _, hgroups, _⟩ := regexSource_structure hcharset
    [.optional [.named ['x'], .optional []], .text ['?'], .wildcard]
  exact ⟨hcharset, hread, hgroups⟩

end RoutePattern.Node
