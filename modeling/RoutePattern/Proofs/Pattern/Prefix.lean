import Mathlib.Data.Nat.Find
import RoutePattern.Proofs.Pattern.Parsing

/-!
# How far a pattern can be read

The parser stops at the end of the longest beginning of a text that is a pattern by itself. What was read
up to there is written in the same way when the rest is cut off (`Written.retarget`), so this beginning is
accepted. And with more text behind it, a text that is accepted is read at least to its end
(`length_leaves_append`): only what stands last in it, a text, a name or a wildcard, may go on in what is
behind, and what is closed stays as it is.

## Main definitions

* `Node.Written.retarget` — another rest behind nodes that are written.
* `Node.acceptedLength` — the length of the longest beginning that is accepted.
* `Node.parse_eq_of_acceptedLength` — what becomes of a text.
-/

namespace RoutePattern

namespace Node

variable {o : Options} {cls : CharClass} {t s mid rest rest' name : Text} {nodes : List Node}

/-! ## Another rest -/

/-- Text is written in front of another rest too. An escape character that stands for itself has nothing
behind it. -/
theorem TextAt.retarget (h : TextAt o t s rest) (rest' : Text) (hlast : rest = [] → rest' = []) :
    ∃ u, s = u ++ rest ∧ TextAt o t (u ++ rest') rest' := by
  induction h with
  | nil rest => exact ⟨[], rfl, .nil rest'⟩
  | escaped c h ih =>
    obtain ⟨u, rfl, hu⟩ := ih hlast
    exact ⟨o.escape :: c :: u, rfl, .escaped c hu⟩
  | @bare t s rest c hescape hends h ih =>
    obtain ⟨u, rfl, hu⟩ := ih hlast
    exact ⟨c :: u, rfl, .bare hescape hends hu⟩
  | last =>
    obtain rfl := hlast rfl
    exact ⟨[o.escape], rfl, .last⟩

/-- A name is written in front of another rest too, unless a character of a name follows there. -/
theorem NameAt.retarget (h : NameAt o cls name s rest)
    (hhead : ∀ c ∈ rest'.head?, c ∈ rest.head? ∨ cls.mem c = false) :
    ∃ u, s = u ++ rest ∧ NameAt o cls name (u ++ rest') rest' := by
  refine ⟨o.nameStart :: (name ++ o.nameEnd.toList), ?_, h.ne_nil, h.mem, ?_, ?_⟩
  · simp [h.eq]
  · simp
  · intro hend c hc
    rcases hhead c hc with hc' | hc'
    · exact h.longest hend c hc'
    · exact hc'

theorem TextAt.append (h : TextAt o t s rest) (hne : rest ≠ []) (w : Text) :
    TextAt o t (s ++ w) (rest ++ w) := by
  obtain ⟨u, rfl, hu⟩ := h.retarget (rest ++ w) (fun hrest => absurd hrest hne)
  rwa [← List.append_assoc] at hu

theorem mem_head?_append {u : Text} {P : Char → Prop} (hhead : ∀ c ∈ rest'.head?, c ∈ rest.head? ∨ P c) :
    ∀ c ∈ (u ++ rest').head?, c ∈ (u ++ rest).head? ∨ P c := by
  cases u with
  | nil => exact hhead
  | cons d u =>
    intro c hc
    exact .inl hc

/-- **Nodes are written in front of another rest too**, if no name goes on there. -/
theorem Written.retarget (h : Written o cls nodes s rest)
    (hhead : ∀ c ∈ rest'.head?, c ∈ rest.head? ∨ cls.mem c = false) (hlast : rest = [] → rest' = []) :
    ∃ u, s = u ++ rest ∧ Written o cls nodes (u ++ rest') rest' := by
  induction h generalizing rest' with
  | nil rest => exact ⟨[], rfl, .nil rest'⟩
  | text hne ht hnext h ih =>
    obtain ⟨u, rfl, hu⟩ := ih hhead hlast
    obtain ⟨v, rfl, hv⟩ := ht.retarget (u ++ rest') (by simpa using fun hu hrest => ⟨hu, hlast hrest⟩)
    exact ⟨v ++ u, by simp, by simpa using .text hne hv hnext hu⟩
  | named hn h ih =>
    obtain ⟨u, rfl, hu⟩ := ih hhead hlast
    obtain ⟨v, rfl, hv⟩ := hn.retarget (mem_head?_append hhead)
    exact ⟨v ++ u, by simp, by simpa using .named hv hu⟩
  | wildcard hnext h ih =>
    obtain ⟨u, rfl, hu⟩ := ih hhead hlast
    exact ⟨o.wildcard :: u, rfl, .wildcard hnext hu⟩
  | namedWildcard hn h ih =>
    obtain ⟨u, rfl, hu⟩ := ih hhead hlast
    obtain ⟨v, rfl, hv⟩ := hn.retarget (mem_head?_append hhead)
    exact ⟨o.wildcard :: (v ++ u), by simp, by simpa using .namedWildcard hv hu⟩
  | optional hne hc h ihc ih =>
    obtain ⟨u, rfl, hu⟩ := ih hhead hlast
    -- the pattern inside ends at the character that closes the segment, as before
    have hinner : ∀ c ∈ (o.optionalEnd :: (u ++ rest')).head?,
        c ∈ (o.optionalEnd :: (u ++ rest)).head? ∨ cls.mem c = false := fun c hc => .inl hc
    obtain ⟨v, rfl, hv⟩ := ihc hinner (by simp)
    exact ⟨o.optionalStart :: (v ++ o.optionalEnd :: u), by simp, by simpa using .optional hne hv hu⟩

theorem Written.append (h : Written o cls nodes s rest) (hne : rest ≠ []) (w : Text) :
    Written o cls nodes (s ++ w) (rest ++ w) := by
  have hhead : ∀ c ∈ (rest ++ w).head?, c ∈ rest.head? ∨ cls.mem c = false := by
    intro c hc
    cases rest with
    | nil => exact absurd rfl hne
    | cons d rest => exact .inl hc
  obtain ⟨u, rfl, hu⟩ := h.retarget hhead (fun hrest => absurd hrest hne)
  rwa [← List.append_assoc] at hu

/-! ## More text -/

/-- Text that ends with everything goes on as far as it can in what is behind. -/
theorem TextAt.goes_on (h : TextAt o t s []) (w : Text) :
    ∃ t' rest', TextAt o t' (s ++ w) rest' ∧ Stops o rest' ∧ rest'.length ≤ w.length := by
  generalize hrest : ([] : Text) = rest at h
  induction h with
  | nil rest =>
    subst hrest
    obtain ⟨t', rest', ht', hstops⟩ := Grammar.exists_textAt o w
    have hle := ht'.length_le
    exact ⟨t', rest', ht', hstops, by omega⟩
  | escaped c h ih =>
    obtain ⟨t', rest', ht', hstops, hle⟩ := ih hrest
    exact ⟨c :: t', rest', .escaped c ht', hstops, hle⟩
  | bare hescape hends h ih =>
    obtain ⟨t', rest', ht', hstops, hle⟩ := ih hrest
    exact ⟨_, rest', .bare hescape hends ht', hstops, hle⟩
  | last =>
    cases w with
    | nil => exact ⟨[o.escape], [], .last, fun _ hc => (by cases hc), Nat.le_refl _⟩
    | cons c w =>
      -- the escape character takes the next character with it
      obtain ⟨t', rest', ht', hstops⟩ := Grammar.exists_textAt o w
      have hle := ht'.length_le
      refine ⟨c :: t', rest', .escaped c ht', hstops, ?_⟩
      rw [List.length_cons]
      omega

/-- With more text, a name ends where it did, or it was last and goes on. -/
theorem NameAt.goes_on (h : NameAt o cls name s mid) (w : Text) :
    ∃ name' rest', NameAt o cls name' (s ++ w) rest' ∧
      (rest' = mid ++ w ∨ mid = [] ∧ rest'.length ≤ w.length) := by
  have hs : s ++ w = o.nameStart :: (name ++ (o.nameEnd.toList ++ (mid ++ w))) := by simp [h.eq]
  cases hend : o.nameEnd with
  | some e => exact ⟨name, mid ++ w, ⟨h.ne_nil, h.mem, hs, by simp [hend]⟩, .inl rfl⟩
  | none =>
    cases mid with
    | cons c mid =>
      refine ⟨name, c :: mid ++ w, ⟨h.ne_nil, h.mem, hs, ?_⟩, .inl rfl⟩
      intro _ d hd
      exact h.longest hend d hd
    | nil =>
      refine ⟨name ++ w.takeWhile cls.mem, w.dropWhile cls.mem, ⟨?_, ?_, ?_, ?_⟩, .inr ⟨rfl, ?_⟩⟩
      · exact List.append_ne_nil_of_left_ne_nil h.ne_nil _
      · intro c hc
        rcases List.mem_append.mp hc with hc | hc
        · exact h.mem c hc
        · exact List.all_eq_true.mp List.all_takeWhile c hc
      · rw [hs, hend]
        simp
      · intro _ c hc
        have hnot := List.head?_dropWhile_not cls.mem w
        rw [Option.mem_def.mp hc] at hnot
        simpa using hnot
      · exact (List.dropWhile_sublist _).length_le

end Node

namespace Grammar

open Node (Written TextAt NameAt Stops)

variable {o : Options} {cls : CharClass} {s mid rest : Text} {node : Node} {nodes : List Node}

/-- What rounds of tokens leave of a text. -/
def leaves (g : Grammar) (depth : Nat) (s : Text) : Text := (Parser.rounds (g.tokenAround (g.nested depth)) s).2

theorem leaves_of_token {g : Grammar} {depth : Nat} (h : g.tokenAround (g.nested depth) s = some (node, mid))
    (hlt : mid.length < s.length) : g.leaves depth s = g.leaves depth mid := by
  unfold leaves
  rw [Parser.rounds_cons h hlt rfl]

theorem length_leaves_le (hclear : o.Clear cls) (depth : Nat) (s : Text) :
    ((language o cls).leaves depth s).length ≤ s.length :=
  (written_of_run hclear (written_of_nested hclear depth) (Parser.run_rounds _ s)).length_le

/-- With more text, the first token of a pattern ends in what was added, or it is the same as before. -/
theorem exists_token_append (hclear : o.Clear cls) (h : Written o cls (node :: nodes) s []) (w : Text)
    {depth : Nat} (hdepth : (s ++ w).length ≤ depth) :
    ∃ node' rest', TokenAt o cls ((language o cls).nested depth) (s ++ w) node' rest' ∧
      rest'.length < (s ++ w).length ∧
      (rest'.length ≤ w.length ∨ ∃ mid, rest' = mid ++ w ∧ Written o cls nodes mid []) := by
  cases h with
  | @text _ t _ mid _ hne ht hnext h =>
    have hpos := ht.length_lt hne
    by_cases hmid : mid = []
    · -- the text stands last, and goes on
      subst hmid
      obtain ⟨t', rest', ht', hstops, hle⟩ := ht.goes_on w
      have hlt : rest'.length < (s ++ w).length := by
        rw [List.length_append]
        omega
      refine ⟨_, rest', .text ?_ ht' hstops, hlt, .inl hle⟩
      rintro rfl
      cases ht'
      exact Nat.lt_irrefl _ hlt
    · have hstops : Stops o (mid ++ w) := by
        cases mid with
        | nil => exact absurd rfl hmid
        | cons d mid => exact h.stops hnext (fun _ hd => by cases hd)
      exact ⟨_, mid ++ w, .text hne (ht.append hmid w) hstops, by simpa using hpos, .inr ⟨mid, rfl, h⟩⟩
  | @named _ name _ mid _ hn h =>
    obtain ⟨name', rest', hn', rfl | ⟨_, hle⟩⟩ := hn.goes_on w
    · exact ⟨_, _, .named hn', hn'.length_lt, .inr ⟨mid, rfl, h⟩⟩
    · exact ⟨_, rest', .named hn', hn'.length_lt, .inl hle⟩
  | @wildcard _ mid _ hnext h =>
    have hlt : (mid ++ w).length < (o.wildcard :: mid ++ w).length := by simp
    by_cases hname : ∃ name rest', NameAt o cls name (mid ++ w) rest'
    · -- the wildcard stands last, and gets a name
      obtain ⟨name, rest', hn⟩ := hname
      have hmid : mid = [] := by
        have hstart := h.head?_ne_nameStart hclear hnext (by simp)
        cases mid with
        | nil => rfl
        | cons c mid => exact absurd hn.head? hstart
      subst hmid
      exact ⟨_, rest', .namedWildcard hn, Nat.lt_trans hn.length_lt hlt, .inl (Nat.le_of_lt hn.length_lt)⟩
    · refine ⟨_, mid ++ w, .wildcard ?_, hlt, .inr ⟨mid, rfl, h⟩⟩
      intro name rest' hn
      exact hname ⟨name, rest', hn⟩
  | @namedWildcard _ name s mid _ hn h =>
    have hlt : (s ++ w).length < (o.wildcard :: s ++ w).length := by simp
    obtain ⟨name', rest', hn', rfl | ⟨_, hle⟩⟩ := hn.goes_on w
    · exact ⟨_, _, .namedWildcard hn', Nat.lt_trans hn'.length_lt hlt, .inr ⟨mid, rfl, h⟩⟩
    · exact ⟨_, rest', .namedWildcard hn', Nat.lt_trans hn'.length_lt hlt, .inl hle⟩
  | @optional children _ s mid _ hne hc h =>
    have hpos := hc.length_le
    have hlt : (mid ++ w).length < (o.optionalStart :: s ++ w).length := by
      simp only [List.cons_append, List.length_cons, List.length_append] at hpos ⊢
      omega
    obtain ⟨depth, rfl⟩ : ∃ n, depth = n + 1 := Nat.exists_eq_succ_of_ne_zero (by omega)
    -- what is closed is read as before
    have hinner : (language o cls).nested (depth + 1) (s ++ w) =
        some (children, o.optionalEnd :: (mid ++ w)) := by
      refine nested_of_rounds hne (rounds_of_written hclear (hc.append (by simp) w) ?_ ?_)
      · intro c hc
        exact (Option.mem_some.mp hc).symm
      · exact Nat.le_of_succ_le_succ hdepth
    exact ⟨_, mid ++ w, .optional hinner, hlt, .inr ⟨mid, rfl, h⟩⟩

/-- **With more text, a pattern is read at least to its end.** -/
theorem length_leaves_append (hclear : o.Clear cls) (h : Written o cls nodes s []) (w : Text) {depth : Nat}
    (hdepth : (s ++ w).length ≤ depth) : ((language o cls).leaves depth (s ++ w)).length ≤ w.length := by
  induction nodes generalizing s with
  | nil =>
    cases h
    exact length_leaves_le hclear depth w
  | cons node nodes ih =>
    obtain ⟨node', rest', htoken, hlt, hrest⟩ := exists_token_append hclear h w hdepth
    rw [leaves_of_token ((tokenAround_iff hclear).mpr htoken) hlt]
    rcases hrest with hle | ⟨mid, rfl, hmid⟩
    · exact Nat.le_trans (length_leaves_le hclear depth rest') hle
    · exact ih hmid (Nat.le_trans (Nat.le_of_lt hlt) hdepth)

end Grammar

/-! ## The longest beginning that is accepted -/

namespace Node

open Grammar (language nameLimit?)

/-- How many characters the longest beginning of a text has that is accepted as a pattern. It is zero if
no beginning is. -/
def acceptedLength (o : Options) (s : Text) : Nat :=
  Nat.findGreatest (fun k => (parse (s.take k) o).isOk = true) s.length

section

variable {o : Options} {cls : CharClass} {s : Text}

theorem isOk_parse_iff (hg : Grammar.ofOptions o = .ok (language o cls)) (hclear : o.Clear cls)
    (hblank : s.any Text.isBlank = false) :
    (parse s o).isOk = true ↔ ∃ nodes, nodes ≠ [] ∧ Written o cls nodes s [] := by
  have hok : (parse s o).isOk = true ↔ ∃ nodes, parse s o = .ok nodes := by
    cases parse s o <;> simp [Except.isOk, Except.toBool]
  rw [hok]
  refine exists_congr fun nodes => ?_
  rw [parse_eq_ok hg, Grammar.pattern_iff hclear]
  constructor
  · rintro ⟨_, _, h⟩
    exact h
  · rintro ⟨hne, h⟩
    refine ⟨?_, hblank, hne, h⟩
    rintro rfl
    exact Nat.not_lt_zero _ (h.length_lt hne)

/-- What is read at the front of a text is written there by itself. -/
theorem exists_beginning (hclear : o.Clear cls) (s : Text) :
    ∃ nodes u rest, s = u ++ rest ∧ Written o cls nodes u [] ∧
      Parser.rounds ((language o cls).tokenAround ((language o cls).nested s.length)) s = (nodes, rest) := by
  have hrun := Parser.run_rounds ((language o cls).tokenAround ((language o cls).nested s.length)) s
  have hwritten := Grammar.written_of_run hclear (Grammar.written_of_nested hclear s.length) hrun
  have hhead {rest : Text} : ∀ c ∈ ([] : Text).head?, c ∈ rest.head? ∨ cls.mem c = false := by
    intro c hc
    cases hc
  obtain ⟨u, hs, hu⟩ := hwritten.retarget hhead (fun _ => rfl)
  rw [List.append_nil] at hu
  exact ⟨_, u, _, hs, hu, rfl⟩

/-- **The parser stops at the end of the longest beginning that is accepted.** -/
theorem acceptedLength_eq (hg : Grammar.ofOptions o = .ok (language o cls)) (hclear : o.Clear cls)
    (hblank : s.any Text.isBlank = false) {nodes : List Node} {u rest : Text} (hs : s = u ++ rest)
    (hu : Written o cls nodes u [])
    (hrounds : Parser.rounds ((language o cls).tokenAround ((language o cls).nested s.length)) s =
      (nodes, rest)) : acceptedLength o s = u.length := by
  have hblank (k : Nat) : (s.take k).any Text.isBlank = false := by
    rw [List.any_eq_false] at hblank ⊢
    exact fun c hc => hblank c (List.mem_of_mem_take hc)
  have hlength : s.length = u.length + rest.length := by rw [hs, List.length_append]
  unfold acceptedLength
  rw [Nat.findGreatest_eq_iff]
  refine ⟨by omega, ?_, ?_⟩
  · -- what is read is accepted, if there is something
    intro hpos
    rw [isOk_parse_iff hg hclear (hblank _), hs, List.take_left]
    refine ⟨nodes, ?_, hu⟩
    rintro rfl
    cases hu
    exact hpos rfl
  · -- what is accepted is read
    intro k hlt hle hok
    obtain ⟨nodes', _, h⟩ := (isOk_parse_iff hg hclear (hblank k)).mp hok
    have hleaves := Grammar.length_leaves_append hclear h (s.drop k) (Nat.le_refl _)
    rw [List.take_append_drop, List.length_drop] at hleaves
    unfold Grammar.leaves at hleaves
    simp only [hrounds] at hleaves
    omega

/-- What becomes of a text, in three cases. -/
theorem parse_cases (hg : Grammar.ofOptions o = .ok (language o cls)) (hclear : o.Clear cls)
    (hne : s ≠ []) (hblank : s.any Text.isBlank = false) :
    acceptedLength o s = 0 ∧ parse s o = .error (.unparsable s) ∨
      acceptedLength o s = s.length ∧ (∃ nodes, parse s o = .ok nodes) ∨
      0 < acceptedLength o s ∧ acceptedLength o s < s.length ∧
        parse s o = .error (.partialParse s (acceptedLength o s + 1)) ∧
        ∃ nodes rest, (language o cls).pattern s = some (nodes, rest) ∧
          s = s.take (acceptedLength o s) ++ rest ∧ parse (s.take (acceptedLength o s)) o = .ok nodes := by
  obtain ⟨nodes, u, rest, hs, hu, hrounds⟩ := exists_beginning hclear s
  have hlength := acceptedLength_eq hg hclear hblank hs hu hrounds
  rw [parse_eq hg hne hblank, hlength]
  by_cases hnodes : nodes = []
  · subst hnodes
    cases hu
    have hpattern : (language o cls).pattern s = none := by
      rw [Grammar.pattern, Grammar.nested, Parser.many, hrounds]
    rw [hpattern]
    exact .inl ⟨rfl, rfl⟩
  · have hpattern : (language o cls).pattern s = some (nodes, rest) :=
      Grammar.nested_of_rounds hnodes hrounds
    rw [hpattern]
    cases rest with
    | nil =>
      rw [List.append_nil] at hs
      exact .inr (.inl ⟨by rw [hs], nodes, rfl⟩)
    | cons c rest =>
      have hpos := hu.length_lt hnodes
      have htotal : s.length = u.length + (c :: rest).length := by rw [hs, List.length_append]
      have htake : s.take u.length = u := by rw [hs, List.take_left]
      have hblank' : u.any Text.isBlank = false := by
        rw [hs, List.any_append, Bool.or_eq_false_iff] at hblank
        exact hblank.1
      refine .inr (.inr ⟨hpos, by simp [htotal], ?_, nodes, c :: rest, rfl, by rw [htake, hs], ?_⟩)
      · simp [htotal]
      · rw [htake, parse_eq_ok hg, Grammar.pattern_iff hclear]
        exact ⟨List.ne_nil_of_length_pos hpos, hblank', hnodes, hu⟩

/-- **The error tells how much of a text is a pattern.** No beginning is accepted, or the one before the
character that is pointed at is the longest, and its nodes are what was read; or the whole text is accepted.
This is so within the limits of regexes, which concern the charset of names only. -/
theorem parse_eq_of_acceptedLength (hcharset : CharClass.ofCharset? o.nameCharset = some cls)
    (hclear : o.Clear cls) (hne : s ≠ []) (hblank : s.any Text.isBlank = false) :
    (nameLimit? cls = none →
        (parse s o = .error (.unparsable s) ↔ acceptedLength o s = 0) ∧
          (parse s o = .error (.partialParse s (acceptedLength o s + 1)) ↔
            0 < acceptedLength o s ∧ acceptedLength o s < s.length) ∧
          ((∃ nodes, parse s o = .ok nodes) ↔ acceptedLength o s = s.length) ∧
          ∀ index, parse s o = .error (.partialParse s index) →
            ∃ g nodes rest, Grammar.ofOptions o = .ok g ∧ g.pattern s = some (nodes, rest) ∧
              s = s.take (acceptedLength o s) ++ rest ∧
              parse (s.take (acceptedLength o s)) o = .ok nodes) ∧
      ∀ cause, nameLimit? cls = some cause → parse s o = .error (.invalidCharset o.nameCharset cause) := by
  have hpos := List.length_pos_iff.mpr hne
  refine ⟨fun hlimit => ?_, fun cause hlimit => ?_⟩
  · have hg : Grammar.ofOptions o = .ok (language o cls) := Grammar.ofOptions_eq_ok hcharset hlimit
    rcases parse_cases hg hclear hne hblank with ⟨hk, hp⟩ | ⟨hk, nodes, hp⟩ | ⟨h0, hn, hp, hread⟩
    · simp [hp, hk, Nat.ne_of_lt hpos]
    · simp [hp, hk, hne]
    · refine ⟨by simp [hp, Nat.ne_of_gt h0], by simp [hp, h0, hn], by simp [hp, Nat.ne_of_lt hn], ?_⟩
      intro index _
      obtain ⟨nodes, rest, hread⟩ := hread
      exact ⟨_, nodes, rest, hg, hread⟩
  · exact parse_eq_error (Grammar.ofOptions_eq_error hcharset hlimit) hne hblank

/-- The usual options, and an optional segment that is not closed behind an escaped character. -/
theorem parse_eq_of_acceptedLength_unclosed :
    acceptedLength {} ['a', '\\', '(', '(', 'b'] = 3 ∧
      parse ['a', '\\', '(', '(', 'b'] {} = .error (.partialParse ['a', '\\', '(', '(', 'b'] 4) := by
  let cls : CharClass := .bracket false (.union (.union (.range 'a' 'z') (.range 'A' 'Z')) (.range '0' '9'))
  have hcharset : CharClass.ofCharset? (Options.nameCharset {}) = some cls := by decide +kernel
  have houtside : (Options.signs {}).all (fun c => !cls.mem c) = true := by decide +kernel
  have hclear : Options.Clear {} cls := by
    refine ⟨by decide +kernel, ?_⟩
    intro c hc
    simpa using List.all_eq_true.mp houtside c hc
  have hlength : acceptedLength {} ['a', '\\', '(', '(', 'b'] = 3 := by decide +kernel
  have h := (parse_eq_of_acceptedLength hcharset hclear (s := ['a', '\\', '(', '(', 'b']) (by decide)
    (by decide +kernel)).1 (by decide +kernel)
  rw [hlength] at h
  exact ⟨hlength, h.2.1.mpr (by decide)⟩

end

end Node

end RoutePattern
