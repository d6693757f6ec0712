import RoutePattern.Proofs.Pattern.Name
import RoutePattern.Proofs.Pattern.Rules

/-!
# Parsing patterns

The parser of patterns accepts the writings of the pattern language, and gives the nodes that are
written. Each rule gets its specification from those of its parts. A token that is read is the only one
that can be, as tokens begin with different characters and static text goes as far as it can
(`tokenAround_iff`), so rounds of tokens come to the rest that a writing leaves.

Optional segments are followed by an induction on how deeply they may be nested, which the length of the
text bounds.

## Main definitions

* `Grammar.language` — the rules for some options.
* `Grammar.TokenAt` — what a token is, given the parser of the pattern in it.
* `Node.parse_eq_ok_iff` — the texts that are accepted.
-/

namespace RoutePattern.Grammar

open Node (TextAt NameAt Written Stops)
open RoutePattern.Parser (literal_iff rounds_cons roundsUntil_cons)

/-- The rules for options with a given class of name characters. -/
def language (o : Options) (cls : CharClass) : Grammar := ⟨o, nameRegex cls⟩

@[simp] theorem language_options (o : Options) (cls : CharClass) : (language o cls).options = o := rfl

@[simp] theorem language_name (o : Options) (cls : CharClass) : (language o cls).name = nameRegex cls := rfl

variable {o : Options} {cls : CharClass} {s rest mid v name : Text} {node : Node}

/-! ## Names -/

theorem fragment_iff :
    Parser.fragment (nameRegex cls) s = some (v, rest) ↔
      v ≠ [] ∧ (∀ c ∈ v, cls.mem c = true) ∧ s = v ++ rest ∧ ∀ c ∈ rest.head?, cls.mem c = false := by
  rw [fragment_nameRegex]
  constructor
  · intro h
    split at h
    · cases h
    · next hne =>
      cases h
      refine ⟨hne, List.all_eq_true.mp List.all_takeWhile, List.takeWhile_append_dropWhile.symm, ?_⟩
      intro c hc
      have hnot := List.head?_dropWhile_not cls.mem s
      rw [Option.mem_def.mp hc] at hnot
      simpa using hnot
  · rintro ⟨hne, hv, rfl, hrest⟩
    rw [Text.takeWhile_append hv hrest, Text.dropWhile_append hv hrest, if_neg hne]

theorem delimitedName_iff (hclear : o.Clear cls) :
    (language o cls).delimitedName s = some (name, rest) ↔ NameAt o cls name s rest := by
  rw [delimitedName_eq_some, language_options, language_name]
  constructor
  · rintro ⟨s', rfl, h⟩
    obtain ⟨hne, hmem, rfl, hrest⟩ := fragment_iff.mp h
    refine ⟨hne, hmem, rfl, fun hend => ?_⟩
    rwa [hend] at hrest
  · intro h
    refine ⟨_, h.eq, fragment_iff.mpr ⟨h.ne_nil, h.mem, rfl, fun c hc => ?_⟩⟩
    cases hend : o.nameEnd with
    | none =>
      rw [hend] at hc
      exact h.longest hend c hc
    | some e =>
      -- what follows is the character that closes the name
      rw [hend] at hc
      cases hc
      exact hclear.nameEnd_outside hend

/-! ## Static text -/

theorem roundsUntil_of_textAt (hclear : o.Clear cls) {t : Text} (h : TextAt o t s rest)
    (hrest : Stops o rest) :
    Parser.roundsUntil (language o cls).character (language o cls).special s = (t.map ([·]), rest) := by
  have hgo {c : Char} (hc : ¬o.Ends c) (s : Text) :
      ((language o cls).special (c :: s)).isSome = false := by
    rw [Bool.eq_false_iff, Ne, special_isSome]
    rintro ⟨d, hd, hends⟩
    exact hc (Option.mem_some.mp hd ▸ hends)
  induction h with
  | nil rest =>
    rw [Parser.roundsUntil]
    split
    · rfl
    · next hstop =>
      cases rest with
      | nil => rfl
      | cons c rest => exact absurd (special_isSome.mpr ⟨c, rfl, hrest c rfl⟩) hstop
  | escaped c h ih =>
    refine roundsUntil_cons (hgo hclear.not_ends_escape _) (character_escaped c _) ?_ (ih hrest)
    rw [List.length_cons, List.length_cons]
    omega
  | bare hescape hends h ih =>
    exact roundsUntil_cons (hgo hends _) (character_bare hescape _) (by simp) (ih hrest)
  | last =>
    refine roundsUntil_cons (hgo hclear.not_ends_escape _) character_last (by simp) ?_
    rw [Parser.roundsUntil]
    rfl

/-- Some text, perhaps none, is written at the front of every text. -/
theorem exists_textAt (o : Options) (s : Text) : ∃ t rest, TextAt o t s rest ∧ Stops o rest := by
  induction hn : s.length using Nat.strongRecOn generalizing s with
  | _ n ih =>
    subst hn
    cases s with
    | nil => exact ⟨[], [], .nil [], fun _ h => nomatch h⟩
    | cons c s =>
      by_cases hends : o.Ends c
      · refine ⟨[], c :: s, .nil _, fun d hd => ?_⟩
        rwa [← Option.mem_some.mp hd]
      by_cases hescape : c = o.escape
      · -- an escape character takes the next character with it, if there is one
        subst hescape
        cases s with
        | nil => exact ⟨[o.escape], [], .last, fun _ h => nomatch h⟩
        | cons d s =>
          have hlt : s.length < (o.escape :: d :: s).length := by
            rw [List.length_cons, List.length_cons]
            omega
          obtain ⟨t, rest, ht, hrest⟩ := ih s.length hlt s rfl
          exact ⟨d :: t, rest, .escaped d ht, hrest⟩
      · obtain ⟨t, rest, ht, hrest⟩ := ih s.length (by simp) s rfl
        exact ⟨c :: t, rest, .bare hescape hends ht, hrest⟩

theorem staticText_of_textAt (hclear : o.Clear cls) {t : Text} (h : TextAt o t s rest)
    (hrest : Stops o rest) :
    (language o cls).staticText s = if t = [] then none else some (.text t, rest) := by
  have hrounds := roundsUntil_of_textAt hclear h hrest
  unfold character at hrounds
  unfold staticText Parser.map Parser.concatUntil
  rw [hrounds]
  cases t with
  | nil => rfl
  | cons c t => simp [List.flatMap_def.symm]

theorem staticText_iff (hclear : o.Clear cls) :
    (language o cls).staticText s = some (node, rest) ↔
      ∃ t, node = .text t ∧ t ≠ [] ∧ TextAt o t s rest ∧ Stops o rest := by
  constructor
  · intro h
    obtain ⟨t, rest', ht, hrest⟩ := exists_textAt o s
    rw [staticText_of_textAt hclear ht hrest] at h
    split at h
    · cases h
    · next hne =>
      cases h
      exact ⟨t, rfl, hne, ht, hrest⟩
  · rintro ⟨t, rfl, hne, ht, hrest⟩
    rw [staticText_of_textAt hclear ht hrest, if_neg hne]

/-! ## Tokens -/

variable {inner : Parser (List Node)}

/-- A token at the front of a text, up to a rest, where `inner` reads the pattern in an optional segment. A
wildcard is one without a name only if no name follows, and static text goes as far as it can. -/
inductive TokenAt (o : Options) (cls : CharClass) (inner : Parser (List Node)) :
    Text → Node → Text → Prop
  | namedWildcard {name s rest : Text} (h : NameAt o cls name s rest) :
    TokenAt o cls inner (o.wildcard :: s) (.namedWildcard name) rest
  | wildcard {rest : Text} (h : ∀ name mid, ¬NameAt o cls name rest mid) :
    TokenAt o cls inner (o.wildcard :: rest) .wildcard rest
  | optional {s rest : Text} {children : List Node} (h : inner s = some (children, o.optionalEnd :: rest)) :
    TokenAt o cls inner (o.optionalStart :: s) (.optional children) rest
  | named {name s rest : Text} (h : NameAt o cls name s rest) :
    TokenAt o cls inner s (.named name) rest
  | text {t s rest : Text} (hne : t ≠ []) (h : TextAt o t s rest) (hrest : Stops o rest) :
    TokenAt o cls inner s (.text t) rest

theorem namedWildcard_iff (hclear : o.Clear cls) :
    (language o cls).namedWildcard s = some (node, rest) ↔
      ∃ name s', node = .namedWildcard name ∧ s = o.wildcard :: s' ∧ NameAt o cls name s' rest := by
  rw [namedWildcard_eq_some]
  simp only [delimitedName_iff hclear]
  rfl

theorem namedSegment_iff (hclear : o.Clear cls) :
    (language o cls).namedSegment s = some (node, rest) ↔
      ∃ name, node = .named name ∧ NameAt o cls name s rest := by
  rw [namedSegment_eq_some]
  simp only [delimitedName_iff hclear]

/-! ### Tokens by their first characters -/

theorem namedWildcard_eq_none (hclear : o.Clear cls) (h : o.wildcard ∉ s.head?) :
    (language o cls).namedWildcard s = none := by
  rw [Option.eq_none_iff_forall_ne_some]
  rintro ⟨node, rest⟩ hs
  obtain ⟨_, _, _, rfl, _⟩ := (namedWildcard_iff hclear).mp hs
  exact h rfl

theorem wildcard_eq_none (h : o.wildcard ∉ s.head?) : (language o cls).wildcard s = none := by
  rw [Option.eq_none_iff_forall_ne_some]
  rintro ⟨node, rest⟩ hs
  obtain ⟨_, rfl⟩ := wildcard_iff.mp hs
  exact h rfl

theorem optionalAround_eq_none (h : o.optionalStart ∉ s.head?) :
    (language o cls).optionalAround inner s = none := by
  rw [Option.eq_none_iff_forall_ne_some]
  rintro ⟨node, rest⟩ hs
  obtain ⟨_, _, _, rfl, _⟩ := optionalAround_iff.mp hs
  exact h rfl

theorem namedSegment_eq_none (hclear : o.Clear cls) (h : o.nameStart ∉ s.head?) :
    (language o cls).namedSegment s = none := by
  rw [Option.eq_none_iff_forall_ne_some]
  rintro ⟨node, rest⟩ hs
  obtain ⟨name, _, hname⟩ := (namedSegment_iff hclear).mp hs
  rw [hname.eq] at h
  exact h rfl

theorem tokenAt_of_tokenAround (hclear : o.Clear cls)
    (h : (language o cls).tokenAround inner s = some (node, rest)) :
    TokenAt o cls inner s node rest := by
  cases tokenRead h with
  | namedWildcard hname => exact .namedWildcard ((delimitedName_iff hclear).mp hname)
  | wildcard hnone =>
    refine .wildcard ?_
    intro name mid hname
    rw [(delimitedName_iff hclear).mpr hname] at hnone
    cases hnone
  | optional hinner => exact .optional hinner
  | named hname => exact .named ((delimitedName_iff hclear).mp hname)
  | text htext =>
    obtain ⟨_, heq, hne, ht, hrest⟩ := (staticText_iff hclear).mp htext
    cases heq
    exact .text hne ht hrest

/-- **The token at a place** is the only one that can be read there. -/
theorem tokenAround_iff (hclear : o.Clear cls) :
    (language o cls).tokenAround inner s = some (node, rest) ↔ TokenAt o cls inner s node rest := by
  refine ⟨tokenAt_of_tokenAround hclear, fun h => ?_⟩
  obtain ⟨hno, _, hnw, _, how, _⟩ := hclear.ends_ne
  have hhead {c d : Char} (hd : s.head? = some d) (hne : c ≠ d) : c ∉ s.head? := by
    rw [hd]
    exact fun hc => hne (Option.mem_some.mp hc).symm
  unfold tokenAround
  simp only [Parser.firstOf]
  -- the rules in front of the right one fail, as their tokens begin with other characters
  cases h with
  | @namedWildcard name s' _ hname =>
    rw [(namedWildcard_iff hclear).mpr ⟨name, s', rfl, rfl, hname⟩]
    rfl
  | wildcard hnot =>
    have hnone : (language o cls).namedWildcard (o.wildcard :: rest) = none := by
      rw [Option.eq_none_iff_forall_ne_some]
      rintro ⟨node, mid⟩ hs
      obtain ⟨name, s', _, hs', hname⟩ := (namedWildcard_iff hclear).mp hs
      cases hs'
      exact hnot name mid hname
    have hsome : (language o cls).wildcard (o.wildcard :: rest) = some (.wildcard, rest) :=
      wildcard_iff.mpr ⟨rfl, rfl⟩
    rw [hnone, hsome]
    rfl
  | @optional s' _ children hinner =>
    have hwildcard := hhead rfl (Ne.symm how)
    have hsome : (language o cls).optionalAround inner (o.optionalStart :: s') =
        some (.optional children, rest) :=
      optionalAround_iff.mpr ⟨children, s', rfl, rfl, hinner⟩
    rw [namedWildcard_eq_none hclear hwildcard, wildcard_eq_none hwildcard, hsome]
    rfl
  | @named name _ _ hname =>
    have hstart : s.head? = some o.nameStart := by
      rw [hname.eq]
      rfl
    rw [namedWildcard_eq_none hclear (hhead hstart (Ne.symm hnw)),
      wildcard_eq_none (hhead hstart (Ne.symm hnw)), optionalAround_eq_none (hhead hstart (Ne.symm hno)),
      (namedSegment_iff hclear).mpr ⟨name, rfl, hname⟩]
    rfl
  | @text t _ _ hne ht hrest =>
    obtain ⟨c, hc, hends⟩ := ht.head?_not_ends hclear hne
    have hwildcard : o.wildcard ∉ s.head? := hhead hc fun h => hends (.inr (.inr (.inr h.symm)))
    have hoptional : o.optionalStart ∉ s.head? := hhead hc fun h => hends (.inr (.inl h.symm))
    have hname : o.nameStart ∉ s.head? := hhead hc fun h => hends (.inl h.symm)
    rw [namedWildcard_eq_none hclear hwildcard, wildcard_eq_none hwildcard,
      optionalAround_eq_none hoptional, namedSegment_eq_none hclear hname,
      (staticText_iff hclear).mpr ⟨t, rfl, hne, ht, hrest⟩]
    rfl

/-! ## Rounds of tokens -/

/-- No token begins where a pattern ends. -/
theorem tokenAround_eq_none (hclear : o.Clear cls) (h : ∀ c ∈ s.head?, c = o.optionalEnd) :
    (language o cls).tokenAround inner s = none := by
  obtain ⟨_, hne, _, hoe, _, hew⟩ := hclear.ends_ne
  rw [Option.eq_none_iff_forall_ne_some]
  rintro ⟨node, rest⟩ hs
  cases (tokenAround_iff hclear).mp hs with
  | namedWildcard | wildcard => exact hew (h _ rfl).symm
  | optional => exact hoe (h _ rfl)
  | named hname =>
    rw [hname.eq] at h
    exact hne (h _ rfl)
  | text hne ht hrest =>
    refine ht.not_stops hclear hne fun c hc => ?_
    exact .inr (.inr (.inl (h c hc)))

variable {nodes : List Node}

/-- **Nodes that are written are read**, if optional segments may be nested as deeply as the text is
long. -/
theorem rounds_of_written (hclear : o.Clear cls) (h : Written o cls nodes s rest)
    (hrest : ∀ c ∈ rest.head?, c = o.optionalEnd) {depth : Nat} (hdepth : s.length ≤ depth) :
    Parser.rounds ((language o cls).tokenAround ((language o cls).nested depth)) s = (nodes, rest) := by
  have hstops {rest : Text} (hrest : ∀ c ∈ rest.head?, c = o.optionalEnd) : Stops o rest :=
    fun c hc => .inr (.inr (.inl (hrest c hc)))
  induction h generalizing depth with
  | nil rest => rw [Parser.rounds, tokenAround_eq_none hclear hrest]
  | text hne ht hnext h ih =>
    have hlt := ht.length_lt hne
    refine rounds_cons ((tokenAround_iff hclear).mpr ?_) hlt (ih hrest (by omega))
    exact .text hne ht (h.stops hnext (hstops hrest))
  | named hn h ih =>
    have hlt := hn.length_lt
    exact rounds_cons ((tokenAround_iff hclear).mpr (.named hn)) hlt (ih hrest (by omega))
  | wildcard hnext h ih =>
    rw [List.length_cons] at hdepth
    refine rounds_cons ((tokenAround_iff hclear).mpr (.wildcard ?_)) (by simp) (ih hrest (by omega))
    intro name mid hname
    obtain ⟨_, hne, _⟩ := hclear.ends_ne
    exact h.head?_ne_nameStart hclear hnext (fun hstart => hne (hrest _ hstart)) hname.head?
  | namedWildcard hn h ih =>
    have hlt := hn.length_lt
    rw [List.length_cons] at hdepth
    refine rounds_cons ((tokenAround_iff hclear).mpr (.namedWildcard hn)) ?_ (ih hrest (by omega))
    rw [List.length_cons]
    omega
  | @optional children _ s' mid _ hne hc h ihc ih =>
    have hle := hc.length_le
    rw [List.length_cons] at hdepth hle
    obtain ⟨depth, rfl⟩ : ∃ n, depth = n + 1 := Nat.exists_eq_succ_of_ne_zero (by omega)
    -- the pattern in the segment ends at the character that closes it
    have hinner : (language o cls).nested (depth + 1) s' = some (children, o.optionalEnd :: mid) :=
      nested_of_rounds hne
        (ihc (fun c hc => (Option.mem_some.mp hc).symm) (Nat.le_of_succ_le_succ hdepth))
    refine rounds_cons ((tokenAround_iff hclear).mpr (.optional hinner)) ?_ (ih hrest (by omega))
    rw [List.length_cons]
    omega

/-- A token in front of nodes that are written. -/
theorem written_cons (hclear : o.Clear cls) (hinner : ∀ s children rest,
      inner s = some (children, rest) → children ≠ [] ∧ Written o cls children s rest)
    (ht : TokenAt o cls inner s node mid) (h : Written o cls nodes mid rest) :
    Written o cls (node :: nodes) s rest := by
  cases ht with
  | namedWildcard hn => exact .namedWildcard hn h
  | wildcard hnot =>
    refine .wildcard ?_ h
    rintro name nodes' rfl
    cases h with
    | named hn h => exact hnot _ _ hn
  | optional hc =>
    obtain ⟨hne, hc⟩ := hinner _ _ _ hc
    exact .optional hne hc h
  | named hn => exact .named hn h
  | text hne ht hrest =>
    refine .text hne ht ?_ h
    rintro t' nodes' rfl
    cases h with
    | text hne' ht' _ h => exact ht'.not_stops hclear hne' hrest

/-- **Nodes that are read are written.** -/
theorem written_of_run (hclear : o.Clear cls) (hinner : ∀ s children rest,
      inner s = some (children, rest) → children ≠ [] ∧ Written o cls children s rest)
    (h : Parser.Run ((language o cls).tokenAround inner) s nodes rest) :
    Written o cls nodes s rest := by
  induction h with
  | stop => exact .nil _
  | stall hp _ => exact written_cons hclear hinner ((tokenAround_iff hclear).mp hp) (.nil _)
  | round hp _ _ ih => exact written_cons hclear hinner ((tokenAround_iff hclear).mp hp) ih

theorem written_of_many (hclear : o.Clear cls) (hinner : ∀ s children rest,
      inner s = some (children, rest) → children ≠ [] ∧ Written o cls children s rest)
    (h : Parser.many ((language o cls).tokenAround inner) s = some (nodes, rest)) :
    nodes ≠ [] ∧ Written o cls nodes s rest := by
  obtain ⟨hne, hrun⟩ := Parser.many_eq_some_iff.mp h
  exact ⟨hne, written_of_run hclear hinner hrun⟩

theorem written_of_nested (hclear : o.Clear cls) (depth : Nat) (s : Text) (nodes : List Node) (rest : Text)
    (h : (language o cls).nested depth s = some (nodes, rest)) :
    nodes ≠ [] ∧ Written o cls nodes s rest := by
  induction depth generalizing s nodes rest with
  | zero => cases h
  | succ depth ih => exact written_of_many hclear ih h

/-! ## Whole patterns -/

theorem pattern_iff (hclear : o.Clear cls) :
    (language o cls).pattern s = some (nodes, []) ↔ nodes ≠ [] ∧ Written o cls nodes s [] := by
  constructor
  · exact written_of_nested hclear _ s nodes []
  · rintro ⟨hne, h⟩
    exact nested_of_rounds hne (rounds_of_written hclear h (fun c hc => nomatch hc) (Nat.le_refl s.length))

end RoutePattern.Grammar

namespace RoutePattern.Node

open Grammar (language nameRegex nameLimit?)

/-- **The parser accepts the pattern language**, and gives the nodes that are written. It is there within
the limits of regexes, which concern the charset of names only. -/
theorem parse_eq_ok_iff {o : Options} {cls : CharClass}
    (hcharset : CharClass.ofCharset? o.nameCharset = some cls) (hclear : o.Clear cls) {s : Text}
    (hne : s ≠ []) (hblank : s.any Text.isBlank = false) :
    (nameLimit? cls = none → ∀ nodes, parse s o = .ok nodes ↔ nodes ≠ [] ∧ Written o cls nodes s []) ∧
      ∀ cause, nameLimit? cls = some cause → parse s o = .error (.invalidCharset o.nameCharset cause) := by
  rw [parse, if_neg hne, if_neg (Bool.eq_false_iff.mp hblank)]
  refine ⟨fun hlimit nodes => ?_, fun cause hlimit => ?_⟩
  · rw [Grammar.ofOptions_eq_ok hcharset hlimit, ← Grammar.pattern_iff hclear]
    dsimp only [bind, Except.bind]
    constructor
    · intro h
      split at h
      · cases h
      · next hp =>
        cases h
        exact hp
      · cases h
    · intro h
      have hp : Grammar.pattern ⟨o, nameRegex cls⟩ s = some (nodes, []) := h
      rw [hp]
  · rw [Grammar.ofOptions_eq_error hcharset hlimit]
    rfl

/-- The usual options, and a text that ends in the escape character. -/
theorem parse_eq_ok_iff_usual :
    parse ['(', '*', ':', 'a', ')', '\\', ':', '\\'] {} =
      .ok [.optional [.namedWildcard ['a']], .text [':', '\\']] := by
  let cls : CharClass := .bracket false (.union (.union (.range 'a' 'z') (.range 'A' 'Z')) (.range '0' '9'))
  have hcharset : CharClass.ofCharset? (Options.nameCharset {}) = some cls := by decide +kernel
  have houtside : (Options.signs {}).all (fun c => !cls.mem c) = true := by decide +kernel
  have hclear : Options.Clear {} cls := by
    refine ⟨by decide +kernel, ?_⟩
    intro c hc
    rw [← Bool.not_eq_true']
    exact List.all_eq_true.mp houtside c hc
  have hname : NameAt {} cls ['a'] [':', 'a', ')', '\\', ':', '\\'] [')', '\\', ':', '\\'] := by
    refine ⟨by decide, List.all_eq_true.mp (by decide +kernel), rfl, ?_⟩
    rintro _ c ⟨⟩
    decide +kernel
  have hwritten : Written {} cls [.optional [.namedWildcard ['a']], .text [':', '\\']]
      ['(', '*', ':', 'a', ')', '\\', ':', '\\'] [] :=
    .optional (by simp) (.namedWildcard hname (.nil _))
      (.text (by decide) (.escaped ':' .last) (by simp) (.nil _))
  exact ((parse_eq_ok_iff hcharset hclear (by decide) (by decide +kernel)).1 (by decide +kernel) _).mpr
    ⟨by simp, hwritten⟩

end RoutePattern.Node
