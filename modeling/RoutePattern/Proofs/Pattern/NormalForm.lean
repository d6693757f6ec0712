import RoutePattern.Proofs.Pattern.Parsing

/-!
# The normal form of patterns

What the parser reads is in normal form, whatever the options are. Static text goes on until a character
that static text cannot begin with, so no two texts stand side by side, and a wildcard without a name is
read only where no name follows it. Both are facts about one token and the next one; nodes inside optional
segments are followed by an induction on how deeply these are nested.

## Main definitions

* `Options.IsName` — a name of the pattern language.
* `Node.Normal` — nodes in normal form, at every depth.
* `Grammar.normal_of_pattern` — what is read is in normal form.
-/

namespace RoutePattern

/-- One or more characters of the charset of names, if this charset forms a class at all. -/
def Options.IsName (o : Options) (name : Text) : Prop :=
  ∀ cls, CharClass.ofCharset? o.nameCharset = some cls → name ≠ [] ∧ ∀ c ∈ name, cls.mem c = true

namespace Node

/-- May the second node stand right behind the first one? -/
def MayPrecede : Node → Node → Prop
  | .text _, .text _ => False
  | .wildcard, .named _ => False
  | _, _ => True

/-- Nodes in normal form, at every depth: there is a node, no static text is empty or next to other static
text, no wildcard without a name is right before a named segment, and names are what they should be. -/
inductive Normal (o : Options) : List Node → Prop
  | row {nodes : List Node} (ne_nil : nodes ≠ []) (apart : nodes.IsChain MayPrecede)
      (text_ne_nil : ∀ t, .text t ∈ nodes → t ≠ [])
      (named : ∀ name, .named name ∈ nodes → o.IsName name)
      (namedWildcard : ∀ name, .namedWildcard name ∈ nodes → o.IsName name)
      (optional : ∀ children, .optional children ∈ nodes → Normal o children) : Normal o nodes

end Node

namespace Grammar

open Node (MayPrecede Normal)

variable {o : Options} {g : Grammar} {cls : CharClass} {inner : Parser (List Node)} {s mid rest : Text}
  {node node' : Node} {nodes : List Node}

/-! ## Names -/

/-- With a class of name characters, the language is the one for this class. -/
theorem eq_language (hg : ofOptions o = .ok g) (hcharset : CharClass.ofCharset? o.nameCharset = some cls) :
    g = language o cls := by
  rw [ofOptions_eq hcharset] at hg
  split at hg
  · cases hg
    rfl
  · cases hg

theorem isName_of_delimitedName (hg : ofOptions o = .ok g) {name : Text}
    (h : g.delimitedName s = some (name, rest)) : o.IsName name := by
  intro cls hcharset
  obtain rfl := eq_language hg hcharset
  obtain ⟨s', _, hname⟩ := delimitedName_eq_some.mp h
  obtain ⟨hne, hmem, _, _⟩ := fragment_iff.mp hname
  exact ⟨hne, hmem⟩

/-! ## One token and the next -/

theorem TokenRead.mayPrecede (h : TokenRead g inner s node mid) (h' : TokenRead g inner mid node' rest) :
    node.MayPrecede node' := by
  cases h with
  | namedWildcard | optional | named => trivial
  | wildcard hnone =>
    cases h' with
    | named hname =>
      rw [hname] at hnone
      cases hnone
    | namedWildcard | wildcard | optional | text => trivial
  | text ht =>
    cases h' with
    | text ht' =>
      -- the first text would have gone on
      obtain ⟨_, _, _, _, hstops⟩ := staticText_spec ht
      obtain ⟨_, _, _, ⟨c, hc, hends⟩, _⟩ := staticText_spec ht'
      exact absurd (hstops c hc) hends
    | namedWildcard | wildcard | optional | named => trivial

/-! ## Rounds of tokens -/

/-- **Rounds of tokens are in normal form**, if what is read inside optional segments is. -/
theorem normal_of_many (hg : ofOptions o = .ok g)
    (hinner : ∀ s children rest, inner s = some (children, rest) → Normal o children)
    (h : Parser.many (g.tokenAround inner) s = some (nodes, rest)) : Normal o nodes := by
  obtain ⟨hne, hrun⟩ := Parser.many_eq_some_iff.mp h
  have htoken : ∀ node ∈ nodes, ∃ s rest, TokenRead g inner s node rest :=
    hrun.forall fun s _ rest hp => ⟨s, rest, tokenRead hp⟩
  refine .row hne ?_ ?_ ?_ ?_ ?_
  · exact hrun.isChain fun _ _ _ _ _ hp hp' => (tokenRead hp).mayPrecede (tokenRead hp')
  · intro t hmem
    obtain ⟨s, rest, hread⟩ := htoken _ hmem
    cases hread with
    | text ht =>
      obtain ⟨_, heq, hne, _⟩ := staticText_spec ht
      cases heq
      exact hne
  · intro name hmem
    obtain ⟨s, rest, hread⟩ := htoken _ hmem
    cases hread with
    | named hname => exact isName_of_delimitedName hg hname
  · intro name hmem
    obtain ⟨s, rest, hread⟩ := htoken _ hmem
    cases hread with
    | namedWildcard hname => exact isName_of_delimitedName hg hname
  · intro children hmem
    obtain ⟨s, rest, hread⟩ := htoken _ hmem
    cases hread with
    | optional hchildren => exact hinner _ _ _ hchildren

theorem normal_of_nested (hg : ofOptions o = .ok g) (depth : Nat) (s : Text) (nodes : List Node)
    (rest : Text) (h : g.nested depth s = some (nodes, rest)) : Normal o nodes := by
  induction depth generalizing s nodes rest with
  | zero => cases h
  | succ depth ih => exact normal_of_many hg ih h

/-- **What is read is in normal form**, whatever the options are: at the front of a text, and so from a
whole text that is accepted. -/
theorem normal_of_pattern (hg : ofOptions o = .ok g) :
    (∀ s nodes rest, g.pattern s = some (nodes, rest) → Normal o nodes) ∧
      ∀ s nodes, Node.parse s o = .ok nodes → Normal o nodes := by
  refine ⟨fun s nodes rest h => normal_of_nested hg _ s nodes rest h, ?_⟩
  intro s nodes h
  obtain ⟨_, _, hpattern⟩ := (Node.parse_eq_ok hg).mp h
  exact normal_of_nested hg _ s nodes [] hpattern

/-- Names begin with the wildcard character here, and optional segments end with the escape character. -/
theorem normal_of_pattern_colliding :
    ∃ o : Options, o.nameStart = o.wildcard ∧ o.optionalEnd = o.escape ∧
      ∃ g nodes, ofOptions o = .ok g ∧ Node.parse (Text.ofString "a(b**c\\**(d\\**e") o = .ok nodes ∧
        Normal o nodes := by
  let o : Options := { nameStart := '*', optionalEnd := '\\' }
  have hlanguage : (ofOptions o).isOk = true := by decide +kernel
  have hparse : (Node.parse (Text.ofString "a(b**c\\**(d\\**e") o).isOk = true := by decide +kernel
  refine ⟨o, rfl, rfl, ?_⟩
  cases hg : ofOptions o with
  | error e =>
    rw [hg] at hlanguage
    cases hlanguage
  | ok g =>
    cases hnodes : Node.parse (Text.ofString "a(b**c\\**(d\\**e") o with
    | error e =>
      rw [hnodes] at hparse
      cases hparse
    | ok nodes => exact ⟨g, nodes, rfl, rfl, (normal_of_pattern hg).2 _ _ hnodes⟩

end Grammar

end RoutePattern
