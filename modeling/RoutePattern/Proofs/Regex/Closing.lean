import RoutePattern.Proofs.Regex.Charset

/-!
# In front of a closing parenthesis

What a reader takes off a text with a closing parenthesis behind it, it takes off the text alone, if it leaves
the parenthesis. No escape and no class needs the parenthesis to know where it ends, as it is a character of
no number, word or name, and opens and closes nothing in brackets. There is one exception: the brace behind
`\b` at the end of a text is refused by itself, and left in the text if a parenthesis follows.

## Main definitions

* `Alone` — what is taken off the text alone; `Passes` — readers that take everything so.
* `Escape.read_alone`, `CharClass.read_alone` — escapes and classes in front of a parenthesis.
-/

namespace RoutePattern

/-- The reader leaves the parenthesis behind the text, and takes the same value off the text alone. -/
def Alone {α : Type} (read : Text → Option (α × Text)) (s : Text) (value : α) (rest : Text) : Prop :=
  ∃ rest', rest = rest' ++ [')'] ∧ read s = some (value, rest')

/-- It always leaves the parenthesis and takes what it takes off the text alone. -/
def Passes {α : Type} (read : Text → Option (α × Text)) : Prop :=
  ∀ s, read (s ++ [')']) = (read s).map fun r => (r.1, r.2 ++ [')'])

theorem Passes.alone {α : Type} {read : Text → Option (α × Text)} (hread : Passes read) {s rest : Text}
    {value : α} (h : read (s ++ [')']) = some (value, rest)) : Alone read s value rest := by
  rw [hread s] at h
  obtain ⟨⟨value', rest'⟩, hr, heq⟩ := Option.map_eq_some_iff.mp h
  cases heq
  exact ⟨rest', rfl, hr⟩

/-- A text that does not begin with a character does not either with the parenthesis behind it. -/
theorem concat_ne_cons {c : Char} {s : Text} (hc : c ≠ ')') (hs : ∀ t, s ≠ c :: t) :
    ∀ t, s ++ [')'] ≠ c :: t := by
  intro t ht
  cases s with
  | nil => exact hc (List.head_eq_of_cons_eq ht).symm
  | cons d s =>
    obtain rfl := List.head_eq_of_cons_eq ht
    exact hs s rfl

section Runs

variable {p : Char → Bool} {c : Char}

/-- A run of characters stops in front of one that is not of its kind. -/
theorem takeWhile_concat (hc : p c = false) (s : Text) : (s ++ [c]).takeWhile p = s.takeWhile p := by
  induction s with
  | nil => simp [hc]
  | cons d s ih =>
    rw [List.cons_append, List.takeWhile_cons, List.takeWhile_cons, ih]

theorem dropWhile_concat (hc : p c = false) (s : Text) : (s ++ [c]).dropWhile p = s.dropWhile p ++ [c] := by
  induction s with
  | nil => simp [hc]
  | cons d s ih =>
    rw [List.cons_append, List.dropWhile_cons, List.dropWhile_cons, ih]
    split <;> rfl

/-- What a run of characters leaves is a character of another kind. -/
theorem dropWhile_concat_of_pos (hc : p c = true) (s : Text) :
    (s ++ [c]).dropWhile p = [] ∧ s.dropWhile p = [] ∨
      (s ++ [c]).dropWhile p = s.dropWhile p ++ [c] ∧ s.dropWhile p ≠ [] := by
  by_cases h : s.dropWhile p = []
  · left
    rw [List.dropWhile_append, h]
    simp [hc]
  · exact .inr ⟨dropWhile_append_of_ne_nil h [c], h⟩

end Runs

/-! ## Escapes -/

namespace Escape

theorem readHex_alone {count : Nat} {s rest : Text} {c : Char} (h : readHex count (s ++ [')']) = some (c, rest))
    (hrest : rest ≠ []) : Alone (readHex count) s c rest := by
  by_cases hbrace : ∃ t, s = '{' :: t
  · obtain ⟨t, rfl⟩ := hbrace
    rw [List.cons_append, readHex] at h
    rcases dropWhile_concat_of_pos (p := (· != '}')) (c := ')') (by decide) t with ⟨hd, _⟩ | ⟨hd, hne⟩
    · rw [hd] at h
      cases h
    · rw [hd, takeWhile_append_of_ne_nil hne] at h
      obtain ⟨d, after, hafter⟩ := List.exists_cons_of_ne_nil hne
      rw [hafter] at h
      obtain ⟨x, hx, heq⟩ := Option.map_eq_some_iff.mp h
      cases heq
      refine ⟨after, rfl, ?_⟩
      rw [readHex, hafter]
      simp only [hx, Option.map_some]
  · have hplain (t : Text) (ht : ∀ u, t ≠ '{' :: u) : readHex count t =
        if count ≤ t.length then (ofHex? (t.take count)).map (·, t.drop count) else none := by
      unfold readHex
      split
      · next u => exact absurd rfl (ht u)
      · rfl
    have hs : ∀ u, s ≠ '{' :: u := fun u hu => hbrace ⟨u, hu⟩
    rw [hplain _ (concat_ne_cons (by decide) hs)] at h
    split at h
    · obtain ⟨x, hx, heq⟩ := Option.map_eq_some_iff.mp h
      cases heq
      have hle : count ≤ s.length := by
        by_contra hlt
        refine hrest (List.drop_eq_nil_iff.mpr ?_)
        rw [List.length_append, List.length_singleton]
        omega
      rw [List.take_append_of_le_length hle] at hx
      refine ⟨s.drop count, List.drop_append_of_le_length hle, ?_⟩
      rw [hplain _ hs, if_pos hle, hx]
      rfl
    · cases h

theorem readEdge_of_ne {s : Text} (hs : ∀ t, s ≠ '{' :: t) : readEdge s = some (.wordEdge, s) := by
  unfold readEdge
  split
  · next t => exact absurd rfl (hs t)
  · rfl

theorem readEdge_alone {s rest : Text} {place : Look} (h : readEdge (s ++ [')']) = some (place, rest)) :
    Alone readEdge s place rest ∨ s = ['{'] ∧ place = .wordEdge ∧ rest = ['{', ')'] := by
  by_cases hbrace : ∃ t, s = '{' :: t
  · obtain ⟨t, rfl⟩ := hbrace
    rw [List.cons_append, readEdge, takeWhile_concat (by decide), dropWhile_concat (by decide)] at h
    cases hword : t.takeWhile isEdgeChar with
    | nil =>
      -- without a word the brace is left
      have hd : t.dropWhile isEdgeChar = t := by
        have happend := List.takeWhile_append_dropWhile (p := isEdgeChar) (l := t)
        rwa [hword, List.nil_append] at happend
      rw [hword, hd] at h
      cases t with
      | nil =>
        cases h
        exact .inr ⟨rfl, rfl, rfl⟩
      | cons d t =>
        cases h
        refine .inl ⟨'{' :: d :: t, rfl, ?_⟩
        rw [readEdge, hword, hd]
    | cons w word =>
      rw [hword] at h
      cases hd : t.dropWhile isEdgeChar with
      | nil =>
        rw [hd] at h
        cases h
      | cons d after =>
        rw [hd] at h
        by_cases hclose : d = '}'
        · subst hclose
          obtain ⟨place', hplace, heq⟩ := Option.map_eq_some_iff.mp h
          cases heq
          refine .inl ⟨after, rfl, ?_⟩
          rw [readEdge, hword, hd]
          simp only [hplace, Option.map_some]
        · simp [hclose] at h
  · have hs : ∀ t, s ≠ '{' :: t := fun t ht => hbrace ⟨t, ht⟩
    rw [readEdge_of_ne (concat_ne_cons (by decide) hs)] at h
    cases h
    exact .inl ⟨s, rfl, readEdge_of_ne hs⟩

/-- An escape that leaves the parenthesis is an escape of the text alone, but for the brace behind `\b`. -/
theorem read_alone {s rest : Text} {e : Escape} (h : read (s ++ [')']) = some (e, rest)) (hrest : rest ≠ []) :
    Alone read s e rest ∨ s = ['b', '{'] ∧ e = .look .wordEdge ∧ rest = ['{', ')'] := by
  cases s with
  | nil =>
    cases h
    exact absurd rfl hrest
  | cons c s =>
    simp only [List.cons_append, read] at h
    split at h
    · next hmeta =>
      cases h
      exact .inl ⟨s, rfl, by simp [read, hmeta]⟩
    next hmeta =>
    split at h
    · next hcontrol =>
      cases h
      exact .inl ⟨s, rfl, by simp [read, hmeta, hcontrol]⟩
    next hcontrol =>
    split at h
    · next htable =>
      cases h
      exact .inl ⟨s, rfl, by simp [read, hmeta, htable]⟩
    next htable =>
    split at h
    · next hb =>
      subst hb
      obtain ⟨⟨place, after⟩, hr, h⟩ := Option.map_eq_some_iff.mp h
      cases h
      rcases readEdge_alone hr with ⟨rest', rfl, hr'⟩ | ⟨rfl, rfl, rfl⟩
      · exact .inl ⟨rest', rfl, by simp [read, hmeta, controlOf?, tableOf?, hr']⟩
      · exact .inr ⟨rfl, rfl, rfl⟩
    next hb =>
    split at h
    · next place hlook =>
      cases h
      exact .inl ⟨s, rfl, by simp [read, hmeta, hb, hlook]⟩
    next hlook =>
    split at h
    · next hhex =>
      obtain ⟨⟨d, after⟩, hr, h⟩ := Option.map_eq_some_iff.mp h
      cases h
      obtain ⟨rest', rfl, hr'⟩ := readHex_alone hr hrest
      exact .inl ⟨rest', rfl, by simp [read, hmeta, hb, hhex, hr']⟩
    next hhex =>
    split at h
    · next hplain =>
      cases h
      exact .inl ⟨s, rfl, by simp [read, hmeta, hb, hplain]⟩
    · cases h

end Escape

/-! ## Classes -/

namespace CharClass

theorem readPrimitive_alone {s rest : Text} {cls : CharClass}
    (h : readPrimitive (s ++ [')']) = some (cls, rest)) (hrest : rest ≠ []) :
    Alone readPrimitive s cls rest := by
  cases s with
  | nil =>
    cases h
    exact absurd rfl hrest
  | cons c s =>
    by_cases hc : c = '\\'
    · subst hc
      rw [List.cons_append, readPrimitive] at h
      split at h
      · next he =>
        cases h
        rcases Escape.read_alone he hrest with ⟨rest', rfl, he'⟩ | ⟨_, hlook, _⟩
        · exact ⟨rest', rfl, by simp [readPrimitive, he']⟩
        · cases hlook
      · next he =>
        cases h
        rcases Escape.read_alone he hrest with ⟨rest', rfl, he'⟩ | ⟨_, hlook, _⟩
        · exact ⟨rest', rfl, by simp [readPrimitive, he']⟩
        · cases hlook
      · cases h
    · rw [List.cons_append, readPrimitive_cons hc] at h
      cases h
      exact ⟨s, rfl, readPrimitive_cons hc s⟩

theorem readItem_range {s mid : Text} {first : CharClass} {d : Char}
    (hf : readPrimitive s = some (first, '-' :: d :: mid)) (hclose : d ≠ ']') (hdash : d ≠ '-') :
    readItem s = (readPrimitive (d :: mid)).bind fun r => (rangeOf? first r.1).map (·, r.2) := by
  simp [readItem, hf, hclose, hdash]

theorem readItem_of_ne {s mid : Text} {first : CharClass} (hf : readPrimitive s = some (first, mid))
    (hmid : ∀ t, mid ≠ '-' :: t) : readItem s = some (first, mid) := by
  cases mid with
  | nil => simp [readItem, hf]
  | cons c mid =>
    have hc : c ≠ '-' := fun hc => hmid mid (by rw [hc])
    simp [readItem, hf, hc]

theorem readItem_alone {s rest : Text} {item : CharClass} (h : readItem (s ++ [')']) = some (item, rest))
    (hrest : rest ≠ []) : Alone readItem s item rest := by
  obtain ⟨⟨first, mid⟩, hf, hitem⟩ := Option.bind_eq_some_iff.mp h
  have hmid : mid ≠ [] := by
    rintro rfl
    cases hitem
    exact hrest rfl
  obtain ⟨mid, rfl, hfirst⟩ := readPrimitive_alone hf hmid
  by_cases hsingle : ∀ t, mid ≠ '-' :: t
  · rw [readItem_of_ne hf (concat_ne_cons (by decide) hsingle)] at h
    cases h
    exact ⟨mid, rfl, readItem_of_ne hfirst hsingle⟩
  · obtain ⟨mid, rfl⟩ := not_forall_not.mp hsingle
    cases mid with
    | nil =>
      -- the range would end in the parenthesis
      obtain ⟨⟨last, after⟩, hl, hitem⟩ := Option.bind_eq_some_iff.mp hitem
      cases hl
      obtain ⟨range, _, heq⟩ := Option.map_eq_some_iff.mp hitem
      cases heq
      exact absurd rfl hrest
    | cons d mid =>
      by_cases hclose : d = ']'
      · subst hclose
        cases hitem
        exact ⟨_, rfl, by simp [readItem, hfirst]⟩
      by_cases hdash : d = '-'
      · subst hdash
        cases hitem
        exact ⟨_, rfl, by simp [readItem, hfirst]⟩
      rw [readItem_range hf hclose hdash] at h
      obtain ⟨⟨last, after⟩, hl, h⟩ := Option.bind_eq_some_iff.mp h
      obtain ⟨range, hrange, heq⟩ := Option.map_eq_some_iff.mp h
      cases heq
      obtain ⟨rest', rfl, hlast⟩ := readPrimitive_alone (s := d :: mid) hl hrest
      refine ⟨rest', rfl, ?_⟩
      rw [readItem_range hfirst hclose hdash, hlast]
      exact congrArg (Option.map (·, rest')) hrange

/-! ## Brackets -/

/-- A character that does not occur in a name does not complete it. -/
theorem isPrefixOf?_concat {name : Text} {c : Char} (hc : c ∉ name) (s : Text) :
    List.isPrefixOf? name (s ++ [c]) = (List.isPrefixOf? name s).map (· ++ [c]) := by
  induction name generalizing s with
  | nil => rfl
  | cons d name ih =>
    obtain ⟨hne, hc⟩ := not_or.mp (mt List.mem_cons.mpr hc)
    cases s with
    | nil =>
      show (if d == c then List.isPrefixOf? name [] else none) = none
      rw [if_neg (by simpa using Ne.symm hne)]
    | cons b s =>
      show (if d == b then List.isPrefixOf? name (s ++ [c]) else none) =
        (if d == b then List.isPrefixOf? name s else none).map (· ++ [c])
      rw [ih hc]
      split <;> rfl

theorem readPosixName_passes (negated : Bool) : Passes (readPosixName negated) := by
  intro s
  have hnames : ∀ entry ∈ posixTables, ')' ∉ Text.ofString entry.1 ++ [':', ']'] := by decide
  unfold readPosixName
  rw [List.map_findSome?]
  refine findSome?_congr fun entry hentry => ?_
  simp only [isPrefixOf?_concat (hnames entry hentry) s, Function.comp_apply, Option.map_map]
  rfl

theorem readPosix_passes : Passes readPosix := by
  intro s
  cases s with
  | nil => rfl
  | cons c s =>
    by_cases hc : c = ':'
    · subst hc
      cases s with
      | nil => exact readPosixName_passes false []
      | cons d s =>
        by_cases hd : d = '^'
        · subst hd
          exact readPosixName_passes true s
        · simpa [readPosix, hd] using readPosixName_passes false (d :: s)
    · simp [readPosix, hc]

theorem readLeading_concat (s : Text) :
    readLeading (s ++ [')']) = ((readLeading s).1, (readLeading s).2 ++ [')']) := by
  cases s with
  | nil => rfl
  | cons c s =>
    by_cases hc : c = ']'
    · subst hc
      rfl
    · rw [List.cons_append, readLeading_cons hc, readLeading_cons hc, ← List.cons_append,
        takeWhile_concat (by decide), dropWhile_concat (by decide)]

theorem openBracket_concat (s : Text) :
    openBracket (s ++ [')']) = ((openBracket s).1, (openBracket s).2 ++ [')']) := by
  have hcaret : readCaret (s ++ [')']) = ((readCaret s).1, (readCaret s).2 ++ [')']) := by
    cases s with
    | nil => rfl
    | cons c s => exact readCaret_append (List.cons_ne_nil c s) [')']
  simp only [openBracket, hcaret, readLeading_concat]

theorem openInner_concat (top : Bracket) (outer : List Bracket) (s : Text) :
    openInner top outer (s ++ [')']) = (openInner top outer s).append [')'] := by
  unfold openInner
  rw [readPosix_passes, openBracket_concat]
  cases readPosix s <;> rfl

/-! ## Whole classes -/

/-- One character is an item, if it is no bracket. -/
theorem step_single {top : Bracket} {outer : List Bracket} {c : Char} (hopen : c ≠ '[') (hclose : c ≠ ']') :
    step top outer [c] = (readItem [c]).map fun r => .more (top.push r.1) outer r.2 := by
  unfold step
  split
  · next h => cases h
  · next h => exact absurd (List.head_eq_of_cons_eq h) hopen
  · next h => exact absurd (List.head_eq_of_cons_eq h) hclose
  · next h => cases h
  · next h => cases h
  · next h => cases h
  · rfl

/-- A step that leaves the parenthesis is a step of the text alone. -/
theorem step_alone {top : Bracket} {outer : List Bracket} {s : Text} {st : Step}
    (h : step top outer (s ++ [')']) = some st) (hst : ∀ top outer, st ≠ .more top outer []) :
    ∃ st', st = st'.append [')'] ∧ step top outer s = some st' := by
  have hitem {s : Text} (h : (readItem (s ++ [')'])).map (fun r => Step.more (top.push r.1) outer r.2) = some st) :
      ∃ st', st = st'.append [')'] ∧
        (readItem s).map (fun r => Step.more (top.push r.1) outer r.2) = some st' := by
    obtain ⟨⟨item, rest⟩, hi, rfl⟩ := Option.map_eq_some_iff.mp h
    have hrest : rest ≠ [] := by
      rintro rfl
      exact hst _ _ rfl
    obtain ⟨rest', rfl, hi'⟩ := readItem_alone hi hrest
    exact ⟨.more (top.push item) outer rest', rfl, by rw [hi']; rfl⟩
  cases s with
  | nil =>
    cases h
    exact absurd rfl (hst _ _)
  | cons c s =>
    by_cases hopen : c = '['
    · subst hopen
      cases h
      exact ⟨_, openInner_concat top outer s, rfl⟩
    by_cases hclose : c = ']'
    · subst hclose
      cases h
      exact ⟨closeTop top s outer, by cases outer <;> rfl, rfl⟩
    cases s with
    | nil =>
      have hne (d : Char) (hd : ')' ≠ d) : ¬(c = d ∧ ')' = d) := fun h => hd h.2
      rw [List.cons_append, List.nil_append, step_item hopen hclose (hne _ (by decide)) (hne _ (by decide))
        (hne _ (by decide))] at h
      rw [step_single hopen hclose]
      exact hitem h
    | cons d s =>
      by_cases hand : c = '&' ∧ d = '&'
      · obtain ⟨rfl, rfl⟩ := hand
        cases h
        exact ⟨.more (top.operator .intersection) outer s, rfl, rfl⟩
      by_cases hdash : c = '-' ∧ d = '-'
      · obtain ⟨rfl, rfl⟩ := hdash
        cases h
        exact ⟨.more (top.operator .difference) outer s, rfl, rfl⟩
      by_cases htilde : c = '~' ∧ d = '~'
      · obtain ⟨rfl, rfl⟩ := htilde
        cases h
        exact ⟨.more (top.operator .symmetricDifference) outer s, rfl, rfl⟩
      rw [List.cons_append, List.cons_append, step_item hopen hclose hand hdash htilde] at h
      rw [step_item hopen hclose hand hdash htilde]
      exact hitem h

/-- A class that leaves the parenthesis is a class of the text alone. -/
theorem readFrom_alone {top : Bracket} {outer : List Bracket} {s rest : Text} {cls : CharClass}
    (h : readFrom top outer (s ++ [')']) = some (cls, rest)) : Alone (readFrom top outer) s cls rest := by
  generalize hs : s ++ [')'] = t at h
  fun_induction readFrom top outer t generalizing s with
  | case1 => cases h
  | case2 top outer t cls' rest' hstep =>
    cases h
    subst hs
    obtain ⟨st, hst, hstep'⟩ := step_alone hstep (by simp)
    cases st with
    | more => cases hst
    | done cls' rest' =>
      cases hst
      exact ⟨rest', rfl, readFrom_done hstep'⟩
  | case3 top outer t top' outer' rest' hstep _ ih =>
    subst hs
    have hrest : rest' ≠ [] := by
      rintro rfl
      rw [readFrom_nil] at h
      cases h
    obtain ⟨st, hst, hstep'⟩ := step_alone hstep (by simp [hrest])
    cases st with
    | done => cases hst
    | more top' outer' rest' =>
      cases hst
      obtain ⟨rest, rfl, hread⟩ := ih rfl h
      exact ⟨rest, rfl, (readFrom_more hstep').trans hread⟩

theorem read_alone {s rest : Text} {cls : CharClass} (h : read (s ++ [')']) = some (cls, rest)) :
    Alone read s cls rest := by
  rw [read, openBracket_concat] at h
  exact readFrom_alone h

end CharClass

end RoutePattern
