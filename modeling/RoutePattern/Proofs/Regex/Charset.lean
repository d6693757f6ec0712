import Mathlib.Data.List.Basic
import RoutePattern.Regex.CharClass.Reader

/-!
# Charsets in brackets

A charset that forms exactly one class when it is put in brackets forms the same class wherever a text
opens a bracket in front of it. The text that is read ends in the closing bracket, and no reader that
leaves something of it has looked behind its end.

## Main definitions

* `Final` — what is read does not depend on the text behind.
* `CharClass.read_charset` — the class of a charset in brackets, whatever follows.
-/

namespace RoutePattern

/-- The reader takes this value off the text, whatever is put behind the text. -/
structure Final {α : Type} (read : Text → Option (α × Text)) (s : Text) (value : α) (rest : Text) : Prop where
  suffix : rest <:+ s
  eq : ∀ t, read (s ++ t) = some (value, rest ++ t)

/-- The text ends in a closing bracket. -/
def Closes (s : Text) : Prop := ∃ t : Text, s = t ++ [']']

theorem Closes.ne_nil {s : Text} (h : Closes s) : s ≠ [] := by
  obtain ⟨t, rfl⟩ := h
  simp

/-- What is left of such a text ends in a closing bracket too. -/
theorem Closes.of_suffix {s rest : Text} (h : Closes s) (hs : rest <:+ s) (hne : rest ≠ []) :
    Closes rest := by
  obtain ⟨t, rfl⟩ := h
  rcases List.suffix_concat_iff.mp hs with rfl | ⟨u, rfl, _⟩
  · exact absurd rfl hne
  · exact ⟨u, rfl⟩

theorem Closes.of_cons {c : Char} {s : Text} (h : Closes (c :: s)) (hc : c ≠ ']') : Closes s := by
  refine h.of_suffix (List.suffix_cons c s) ?_
  rintro rfl
  obtain ⟨t, ht⟩ := h
  cases t with
  | nil => exact hc (List.head_eq_of_cons_eq ht)
  | cons d t => simp at ht

/-! ## Escapes -/

theorem dropWhile_append_of_ne_nil {p : Char → Bool} {s : Text} (h : s.dropWhile p ≠ []) (t : Text) :
    (s ++ t).dropWhile p = s.dropWhile p ++ t := by
  rw [List.dropWhile_append, if_neg (by simpa using h)]

theorem takeWhile_append_of_ne_nil {p : Char → Bool} {s : Text} (h : s.dropWhile p ≠ []) (t : Text) :
    (s ++ t).takeWhile p = s.takeWhile p := by
  rw [List.takeWhile_append, if_neg]
  intro hlen
  have hs := congrArg List.length (List.takeWhile_append_dropWhile (p := p) (l := s))
  rw [List.length_append, hlen] at hs
  exact h (List.length_eq_zero_iff.mp (by omega))

namespace Escape

theorem readHex_final {count : Nat} {s rest : Text} {c : Char} (hcount : count ≠ 0)
    (h : readHex count s = some (c, rest)) : Final (readHex count) s c rest := by
  unfold readHex at h
  split at h
  · next s =>
    split at h
    · next hd =>
      obtain ⟨d, hx, heq⟩ := Option.map_eq_some_iff.mp h
      cases heq
      have hne : s.dropWhile (· != '}') ≠ [] := by simp [hd]
      have hsuffix : rest <:+ s.dropWhile (· != '}') := by simp [hd]
      refine ⟨(hsuffix.trans (List.dropWhile_suffix _)).trans (List.suffix_cons _ s), fun t => ?_⟩
      rw [List.cons_append, readHex, dropWhile_append_of_ne_nil hne, hd,
        takeWhile_append_of_ne_nil hne]
      simp only [List.cons_append, hx, Option.map_some]
    · cases h
  · next hbrace =>
    split at h
    · next hle =>
      obtain ⟨d, hx, heq⟩ := Option.map_eq_some_iff.mp h
      cases heq
      refine ⟨List.drop_suffix _ _, fun t => ?_⟩
      have hle' : count ≤ (s ++ t).length := by
        rw [List.length_append]
        omega
      unfold readHex
      split
      · next rest heq =>
        -- the brace would have been there before
        cases s with
        | nil => exact absurd (Nat.le_zero.mp hle) hcount
        | cons b s =>
          rw [List.cons_append, List.cons.injEq] at heq
          exact absurd (by rw [heq.1]) (hbrace s)
      · rw [if_pos hle', List.take_append_of_le_length hle, List.drop_append_of_le_length hle, hx]
        rfl
    · cases h

theorem hexCountOf?_ne_zero {c : Char} {count : Nat} (h : hexCountOf? c = some count) : count ≠ 0 := by
  unfold hexCountOf? at h
  split at h <;> cases h <;> decide

/-- Only what stands for a place can be changed by the text behind. -/
theorem read_final {s rest : Text} {e : Escape} (h : read s = some (e, rest))
    (he : ∀ place, e ≠ .look place) : Final read s e rest := by
  cases s with
  | nil => cases h
  | cons c s =>
    simp only [read] at h
    split at h
    · next hmeta =>
      cases h
      exact ⟨List.suffix_cons c rest, fun t => by simp [read, hmeta]⟩
    next hmeta =>
    split at h
    · next hcontrol =>
      cases h
      exact ⟨List.suffix_cons c rest, fun t => by simp [read, hmeta, hcontrol]⟩
    next hcontrol =>
    split at h
    · next htable =>
      cases h
      exact ⟨List.suffix_cons c rest, fun t => by simp [read, hmeta, htable]⟩
    next htable =>
    split at h
    · obtain ⟨⟨place, _⟩, _, h⟩ := Option.map_eq_some_iff.mp h
      cases h
      exact absurd rfl (he place)
    next hb =>
    split at h
    · next place _ =>
      cases h
      exact absurd rfl (he place)
    next hlook =>
    split at h
    · next hhex =>
      obtain ⟨⟨d, _⟩, hr, h⟩ := Option.map_eq_some_iff.mp h
      cases h
      have hfinal := readHex_final (hexCountOf?_ne_zero hhex) hr
      refine ⟨hfinal.suffix.trans (List.suffix_cons c s), fun t => ?_⟩
      simp [read, hmeta, hb, hhex, hfinal.eq t]
    next hhex =>
    split at h
    · next hplain =>
      cases h
      exact ⟨List.suffix_cons c rest, fun t => by simp [read, hmeta, hb, hplain]⟩
    · cases h

end Escape

namespace CharClass

/-! ## Items -/

theorem readPrimitive_cons {c : Char} (hc : c ≠ '\\') (s : Text) :
    readPrimitive (c :: s) = some (.one c, s) := by
  unfold readPrimitive
  split
  · next h => cases h
  · next h => exact absurd (List.head_eq_of_cons_eq h) hc
  · next h =>
    cases h
    rfl

theorem readPrimitive_final {s rest : Text} {cls : CharClass}
    (h : readPrimitive s = some (cls, rest)) : Final readPrimitive s cls rest := by
  cases s with
  | nil => cases h
  | cons c s =>
    by_cases hc : c = '\\'
    · subst hc
      simp only [readPrimitive] at h
      split at h
      · next he =>
        cases h
        have hfinal := Escape.read_final he (by simp)
        refine ⟨hfinal.suffix.trans (List.suffix_cons _ s), fun t => ?_⟩
        simp [readPrimitive, hfinal.eq t]
      · next he =>
        cases h
        have hfinal := Escape.read_final he (by simp)
        refine ⟨hfinal.suffix.trans (List.suffix_cons _ s), fun t => ?_⟩
        simp [readPrimitive, hfinal.eq t]
      · cases h
    · rw [readPrimitive_cons hc] at h
      cases h
      exact ⟨List.suffix_cons c rest, fun t => readPrimitive_cons hc (rest ++ t)⟩

/-- An item that leaves something of the text is not continued behind it. -/
theorem readItem_final {s rest : Text} {item : CharClass} (h : readItem s = some (item, rest))
    (hrest : rest ≠ []) : Final readItem s item rest := by
  obtain ⟨⟨first, mid⟩, hf, h⟩ := Option.bind_eq_some_iff.mp h
  have hfirst := readPrimitive_final hf
  dsimp only at h
  split at h
  · cases h
    exact ⟨hfirst.suffix, fun t => by simp [readItem, hfirst.eq t]⟩
  · cases h
    exact ⟨hfirst.suffix, fun t => by simp [readItem, hfirst.eq t]⟩
  · next after hclose hdash =>
    obtain ⟨⟨last, after'⟩, hl, h⟩ := Option.bind_eq_some_iff.mp h
    obtain ⟨range, hrange, h⟩ := Option.map_eq_some_iff.mp h
    cases h
    have hlast := readPrimitive_final hl
    refine ⟨(hlast.suffix.trans (List.suffix_cons _ _)).trans hfirst.suffix, fun t => ?_⟩
    cases after with
    | nil => cases hl
    | cons d after =>
      have hclose' : d ≠ ']' := fun hd => hclose after (by rw [hd])
      have hdash' : d ≠ '-' := fun hd => hdash after (by rw [hd])
      have hlast' := hlast.eq t
      simp only [List.cons_append] at hlast'
      simp [readItem, hfirst.eq t, hclose', hdash', hlast', hrange]
  · next _ _ hdash =>
    cases h
    refine ⟨hfirst.suffix, fun t => ?_⟩
    cases rest with
    | nil => exact absurd rfl hrest
    | cons d rest =>
      have hdash' : d ≠ '-' := fun hd => hdash rest (by rw [hd])
      simp [readItem, hfirst.eq t, hdash']

/-! ## Brackets -/

/-- A text that ends in a closing bracket does not break off in the name of a class. -/
theorem isPrefixOf?_append {name s : Text} (hname : ']' ∉ name) (hs : Closes s) (t : Text) :
    List.isPrefixOf? (name ++ [':', ']']) (s ++ t) =
      (List.isPrefixOf? (name ++ [':', ']']) s).map (· ++ t) := by
  cases hp : List.isPrefixOf? (name ++ [':', ']']) s with
  | some rest =>
    rw [List.isPrefixOf?_eq_some_iff_append_eq] at hp
    rw [← hp, List.append_assoc, Option.map_some, List.isPrefixOf?_eq_some_iff_append_eq]
  | none =>
    rw [Option.map_none, Option.eq_none_iff_forall_ne_some]
    intro rest hrest
    rw [List.isPrefixOf?_eq_some_iff_append_eq] at hrest
    rcases List.append_eq_append_iff.mp hrest with ⟨v, hv, _⟩ | ⟨v, hv, _⟩
    · rw [List.isPrefixOf?_eq_some_iff_append_eq.mpr hv.symm] at hp
      cases hp
    · obtain ⟨u, rfl⟩ := hs
      rcases List.eq_nil_or_concat v with rfl | ⟨v, d, rfl⟩
      · rw [List.append_nil] at hv
        rw [List.isPrefixOf?_eq_some_iff_append_eq.mpr ((List.append_nil _).trans hv)] at hp
        cases hp
      · -- the bracket at the end of the text would stand in the name
        have hinit : name ++ [':'] = u ++ [']'] ++ v := by
          have hv' : (name ++ [':']) ++ [']'] = (u ++ [']'] ++ v) ++ [d] := by simpa using hv
          exact (List.append_inj' hv' rfl).1
        have hmem : ']' ∈ name ++ [':'] := by simp [hinit]
        simp [hname] at hmem

theorem findSome?_congr {α β : Type} {f g : α → Option β} {l : List α} (h : ∀ x ∈ l, f x = g x) :
    l.findSome? f = l.findSome? g := by
  induction l with
  | nil => rfl
  | cons x l ih =>
    rw [List.findSome?_cons, List.findSome?_cons, h x List.mem_cons_self,
      ih fun y hy => h y (List.mem_cons_of_mem x hy)]

theorem readPosixName_append (negated : Bool) {s : Text} (hs : Closes s) (t : Text) :
    readPosixName negated (s ++ t) = (readPosixName negated s).map fun r => (r.1, r.2 ++ t) := by
  have hnames : ∀ entry ∈ posixTables, ']' ∉ Text.ofString entry.1 := by decide
  unfold readPosixName
  rw [List.map_findSome?]
  refine findSome?_congr fun entry hentry => ?_
  simp only [isPrefixOf?_append (hnames entry hentry) hs t, Function.comp_apply, Option.map_map]
  rfl

theorem readPosix_append {s : Text} (hs : Closes s) (t : Text) :
    readPosix (s ++ t) = (readPosix s).map fun r => (r.1, r.2 ++ t) := by
  cases s with
  | nil => exact absurd rfl hs.ne_nil
  | cons c s =>
    by_cases hc : c = ':'
    · subst hc
      have hs' : Closes s := hs.of_cons (by decide)
      cases s with
      | nil => exact absurd rfl hs'.ne_nil
      | cons d s =>
        by_cases hd : d = '^'
        · subst hd
          exact readPosixName_append true (hs'.of_cons (by decide)) t
        · simpa [readPosix, hd] using readPosixName_append false hs' t
    · simp [readPosix, hc]

theorem readPosixName_suffix {negated : Bool} {s : Text} {r : CharClass × Text}
    (h : readPosixName negated s = some r) : r.2 <:+ s := by
  obtain ⟨_, entry, _, _, hp, _⟩ := List.findSome?_eq_some_iff.mp h
  obtain ⟨rest, hpre, rfl⟩ := Option.map_eq_some_iff.mp hp
  rw [List.isPrefixOf?_eq_some_iff_append_eq] at hpre
  exact ⟨_, hpre⟩

theorem readPosix_suffix {s : Text} {r : CharClass × Text} (h : readPosix s = some r) : r.2 <:+ s := by
  unfold readPosix at h
  split at h
  · exact (readPosixName_suffix h).trans ((List.suffix_cons _ _).trans (List.suffix_cons _ _))
  · exact (readPosixName_suffix h).trans (List.suffix_cons _ _)
  · cases h

theorem readCaret_append {s : Text} (hs : s ≠ []) (t : Text) :
    readCaret (s ++ t) = ((readCaret s).1, (readCaret s).2 ++ t) := by
  cases s with
  | nil => exact absurd rfl hs
  | cons c s => by_cases hc : c = '^' <;> simp [readCaret, hc]

theorem readLeading_cons {c : Char} (hc : c ≠ ']') (s : Text) :
    readLeading (c :: s) =
      (((c :: s).takeWhile (· == '-')).foldl (fun items dash => items.add (.one dash)) .nothing,
        (c :: s).dropWhile (· == '-')) := by
  unfold readLeading
  split
  · next h => exact absurd (List.head_eq_of_cons_eq h) hc
  · rfl

theorem readLeading_append {s : Text} (hs : s ≠ []) (hrest : (readLeading s).2 ≠ []) (t : Text) :
    readLeading (s ++ t) = ((readLeading s).1, (readLeading s).2 ++ t) := by
  cases s with
  | nil => exact absurd rfl hs
  | cons c s =>
    by_cases hc : c = ']'
    · simp [readLeading, hc]
    · rw [readLeading_cons hc] at hrest ⊢
      rw [List.cons_append, readLeading_cons hc, ← List.cons_append,
        dropWhile_append_of_ne_nil hrest, takeWhile_append_of_ne_nil hrest]

theorem readLeading_suffix (s : Text) : (readLeading s).2 <:+ s := by
  unfold readLeading
  split
  · exact List.suffix_cons _ _
  · exact List.dropWhile_suffix _

theorem openBracket_final {s : Text} (hs : Closes s) (hrest : (openBracket s).2 ≠ []) :
    (openBracket s).2 <:+ s ∧
      ∀ t, openBracket (s ++ t) = ((openBracket s).1, (openBracket s).2 ++ t) := by
  have hcaret : (readCaret s).2 <:+ s ∧ (readCaret s).2 ≠ [] := by
    unfold readCaret
    split
    · exact ⟨List.suffix_cons _ _, (hs.of_cons (by decide)).ne_nil⟩
    · exact ⟨List.suffix_refl s, hs.ne_nil⟩
  refine ⟨(readLeading_suffix _).trans hcaret.1, fun t => ?_⟩
  have hleading := readLeading_append hcaret.2 hrest t
  simp only [openBracket, readCaret_append hs.ne_nil t, hleading]

/-! ## Steps -/

/-- The same step with more text behind. -/
def Step.append (t : Text) : Step → Step
  | .more top outer rest => .more top outer (rest ++ t)
  | .done cls rest => .done cls (rest ++ t)

theorem step_item {top : Bracket} {outer : List Bracket} {c d : Char} {s : Text} (hopen : c ≠ '[')
    (hclose : c ≠ ']') (hand : ¬(c = '&' ∧ d = '&')) (hdash : ¬(c = '-' ∧ d = '-'))
    (htilde : ¬(c = '~' ∧ d = '~')) :
    step top outer (c :: d :: s) =
      (readItem (c :: d :: s)).map fun r => .more (top.push r.1) outer r.2 := by
  unfold step
  split
  · next h => cases h
  · next h => exact absurd (List.head_eq_of_cons_eq h) hopen
  · next h => exact absurd (List.head_eq_of_cons_eq h) hclose
  · next h => cases h; exact absurd ⟨rfl, rfl⟩ hand
  · next h => cases h; exact absurd ⟨rfl, rfl⟩ hdash
  · next h => cases h; exact absurd ⟨rfl, rfl⟩ htilde
  · rfl

theorem readItem_single {c : Char} {r : CharClass × Text} (h : readItem [c] = some r) : r.2 = [] :=
  List.length_eq_zero_iff.mp (Nat.lt_one_iff.mp (readItem_length h))

theorem openInner_final {top : Bracket} {outer : List Bracket} {s : Text} (hs : Closes s)
    (hst : ∀ top' outer', openInner top outer s ≠ .more top' outer' []) :
    (openInner top outer s).rest <:+ s ∧
      ∀ t, openInner top outer (s ++ t) = (openInner top outer s).append t := by
  cases hp : readPosix s with
  | some r =>
    have hopen : openInner top outer s = .more (top.push r.1) outer r.2 := by rw [openInner, hp]
    rw [hopen]
    refine ⟨readPosix_suffix hp, fun t => ?_⟩
    rw [openInner, readPosix_append hs, hp]
    rfl
  | none =>
    have hopen : openInner top outer s = .more (openBracket s).1 (top :: outer) (openBracket s).2 := by
      rw [openInner, hp]
    have hrest : (openBracket s).2 ≠ [] := by
      intro hnil
      exact hst _ _ (by rw [hopen, hnil])
    rw [hopen]
    obtain ⟨hsuffix, happend⟩ := openBracket_final hs hrest
    refine ⟨hsuffix, fun t => ?_⟩
    rw [openInner, readPosix_append hs, hp, happend]
    rfl

/-- A step that leaves something of the text, or ends the class, does not look behind the text. -/
theorem step_final {top : Bracket} {outer : List Bracket} {s : Text} {st : Step} (hs : Closes s)
    (h : step top outer s = some st) (hst : ∀ top outer, st ≠ .more top outer []) :
    st.rest <:+ s ∧ ∀ t, step top outer (s ++ t) = some (st.append t) := by
  unfold step at h
  split at h
  · cases h
  · next s =>
    cases h
    have hst' : ∀ top' outer', openInner top outer s ≠ .more top' outer' [] :=
      fun top' outer' hmore => hst top' outer' hmore
    have hinner := openInner_final (hs.of_cons (by decide)) hst'
    exact ⟨hinner.1.trans (List.suffix_cons _ s), fun t => congrArg some (hinner.2 t)⟩
  · cases h
    cases outer <;> exact ⟨List.suffix_cons _ _, fun t => rfl⟩
  · next s =>
    cases h
    exact ⟨(List.suffix_cons _ s).trans (List.suffix_cons _ _), fun t => rfl⟩
  · next s =>
    cases h
    exact ⟨(List.suffix_cons _ s).trans (List.suffix_cons _ _), fun t => rfl⟩
  · next s =>
    cases h
    exact ⟨(List.suffix_cons _ s).trans (List.suffix_cons _ _), fun t => rfl⟩
  · next hnil hopen hclose hand hdash htilde =>
    obtain ⟨⟨item, rest⟩, hi, h⟩ := Option.map_eq_some_iff.mp h
    cases h
    have hrest : rest ≠ [] := by
      rintro rfl
      exact hst _ _ rfl
    have hfinal := readItem_final hi hrest
    refine ⟨hfinal.suffix, fun t => ?_⟩
    -- the item leaves something, so which rule applies is seen from two characters of the text itself
    cases s with
    | nil => exact absurd rfl hnil
    | cons c s =>
      cases s with
      | nil => exact absurd (readItem_single hi) hrest
      | cons d s =>
        rw [List.cons_append, List.cons_append, step_item]
        · rw [← List.cons_append, ← List.cons_append, hfinal.eq t]
          rfl
        · rintro rfl
          exact hopen _ rfl
        · rintro rfl
          exact hclose _ rfl
        · rintro ⟨rfl, rfl⟩
          exact hand _ rfl
        · rintro ⟨rfl, rfl⟩
          exact hdash _ rfl
        · rintro ⟨rfl, rfl⟩
          exact htilde _ rfl

/-! ## Whole classes -/

theorem readFrom_done {top : Bracket} {outer : List Bracket} {s rest : Text} {cls : CharClass}
    (h : step top outer s = some (.done cls rest)) : readFrom top outer s = some (cls, rest) := by
  rw [readFrom]
  split
  · next hn => rw [h] at hn; cases hn
  · next hd =>
    rw [h] at hd
    cases hd
    rfl
  · next hm => rw [h] at hm; cases hm

theorem readFrom_more {top top' : Bracket} {outer outer' : List Bracket} {s rest : Text}
    (h : step top outer s = some (.more top' outer' rest)) :
    readFrom top outer s = readFrom top' outer' rest := by
  rw [readFrom]
  split
  · next hn => rw [h] at hn; cases hn
  · next hd => rw [h] at hd; cases hd
  · next hm =>
    rw [h] at hm
    cases hm
    rfl

/-- No class ends where the text ends. -/
theorem readFrom_nil (top : Bracket) (outer : List Bracket) : readFrom top outer [] = none := by
  rw [readFrom]
  rfl

/-- A class that is read from a text that ends in a closing bracket does not look behind the text. -/
theorem readFrom_append {top : Bracket} {outer : List Bracket} {s rest : Text} {cls : CharClass}
    (hs : Closes s) (h : readFrom top outer s = some (cls, rest)) (t : Text) :
    readFrom top outer (s ++ t) = some (cls, rest ++ t) := by
  fun_induction readFrom top outer s with
  | case1 => cases h
  | case2 top outer s cls' rest' hstep =>
    cases h
    have hfinal := step_final hs hstep (by simp)
    exact readFrom_done (hfinal.2 t)
  | case3 top outer s top' outer' rest' hstep _ ih =>
    have hrest : rest' ≠ [] := by
      rintro rfl
      rw [readFrom_nil] at h
      cases h
    have hfinal := step_final hs hstep (by simp [hrest])
    rw [readFrom_more (hfinal.2 t)]
    exact ih (hs.of_suffix hfinal.1 hrest) h

theorem read_append {s rest : Text} {cls : CharClass} (hs : Closes s)
    (h : read s = some (cls, rest)) (t : Text) : read (s ++ t) = some (cls, rest ++ t) := by
  have hrest : (openBracket s).2 ≠ [] := by
    intro hnil
    rw [read, hnil, readFrom_nil] at h
    cases h
  obtain ⟨hsuffix, happend⟩ := openBracket_final hs hrest
  rw [read, happend]
  exact readFrom_append (hs.of_suffix hsuffix hrest) h t

/-- **A charset in brackets** forms its class wherever it stands. -/
theorem read_charset {charset : Text} {cls : CharClass} (h : ofCharset? charset = some cls)
    (rest : Text) : read (charset ++ ']' :: rest) = some (cls, rest) := by
  unfold ofCharset? at h
  split at h
  · next hread =>
    cases h
    have happend := read_append ⟨charset, rfl⟩ hread rest
    rwa [List.append_assoc] at happend
  · cases h

end CharClass

end RoutePattern
