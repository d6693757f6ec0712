import RoutePattern.Proofs.Parser.Lossless
import RoutePattern.Proofs.Regex.Closing
import RoutePattern.Proofs.Regex.Reading
import RoutePattern.Proofs.Result

/-!
# Fragments in a group

A fragment is put into a group behind the start of the text. The reader takes the same steps as for the
fragment alone, with one more group open, until the fragment closes a parenthesis that it has not opened: this
closes the group around it, and what follows is no part of the group. A fragment that never does so is a
regex of its own if it is one in the group, and only matches at the first character.

## Main definitions

* `Regex.overcloses` — does a text close a group that it has not opened?
* `Parser.fragment_anchored` — what a fragment that builds takes off the front of a text.
-/

namespace RoutePattern

namespace Regex

/-! ## Items in front of a parenthesis -/

theorem openNamed_passes (st : Reading) : Passes (openNamed st) := by
  intro s
  unfold openNamed
  rcases dropWhile_concat_of_pos (p := (· != '>')) (c := ')') (by decide) s with ⟨hd, hd'⟩ | ⟨hd, hne⟩
  · rw [hd, hd']
    rfl
  · rw [hd, takeWhile_append_of_ne_nil hne]
    obtain ⟨c, rest, hrest⟩ := List.exists_cons_of_ne_nil hne
    rw [hrest]
    dsimp only [List.cons_append]
    split <;> rfl

theorem openGroup_passes (st : Reading) : Passes (openGroup st) := by
  intro s
  cases s with
  | nil => rfl
  | cons c s =>
    by_cases hc : c = '?'
    · subst hc
      cases s with
      | nil => rfl
      | cons c s =>
        by_cases hplain : c = ':'
        · subst hplain
          rfl
        by_cases hname : c = '<'
        · subst hname
          exact openNamed_passes st s
        by_cases hlong : c = 'P'
        · subst hlong
          cases s with
          | nil => rfl
          | cons d s =>
            by_cases hd : d = '<'
            · subst hd
              exact openNamed_passes st s
            · simp [openGroup, hd]
        · simp [openGroup, hplain, hname, hlong]
    · simp [openGroup, hc]

theorem readGreedy_concat (s : Text) :
    readGreedy (s ++ [')']) = ((readGreedy s).1, (readGreedy s).2 ++ [')']) := by
  cases s with
  | nil => rfl
  | cons c s => by_cases hc : c = '?' <;> simp [readGreedy, hc]

theorem readQuantifier_passes (st : Reading) (min : Nat) (max : Option Nat) :
    Passes (readQuantifier st min max) := by
  intro s
  simp only [readQuantifier, readGreedy_concat, Option.map_map]
  rfl

theorem readDecimal_concat (s : Text) :
    readDecimal (s ++ [')']) = ((readDecimal s).1, (readDecimal s).2 ++ [')']) := by
  have hblank : Text.isBlank ')' = false := by decide
  have hdigit : Char.isDigit ')' = false := by decide
  simp only [readDecimal, dropWhile_concat hblank, dropWhile_concat hdigit, takeWhile_concat hdigit]

theorem readBounds_passes : Passes readBounds := by
  intro s
  unfold readBounds
  rw [readDecimal_concat]
  generalize readDecimal s = d
  obtain ⟨n, mid⟩ := d
  cases n with
  | none => rfl
  | some n =>
    cases mid with
    | nil => rfl
    | cons c mid =>
      by_cases hexact : c = '}'
      · subst hexact
        rfl
      by_cases hcomma : c = ','
      · subst hcomma
        cases mid with
        | nil => rfl
        | cons d mid =>
          by_cases hopen : d = '}'
          · subst hopen
            rfl
          · have hmax : readDecimal (d :: (mid ++ [')'])) = _ := readDecimal_concat (d :: mid)
            simp only [List.cons_append, List.cons.injEq, hopen, false_and, imp_self, implies_true, hmax]
            generalize readDecimal (d :: mid) = e
            obtain ⟨m, after⟩ := e
            cases m with
            | none => rfl
            | some m =>
              cases after with
              | nil => rfl
              | cons f after =>
                by_cases hclose : f = '}'
                · subst hclose
                  by_cases hle : n ≤ m <;> simp [hle]
                · simp [hclose]
      · simp [hexact, hcomma]

/-- A step that leaves the parenthesis is a step of the text alone, but for the brace behind `\b`. -/
theorem step_alone {st st' : Reading} {s rest : Text} (h : step st (s ++ [')']) = some (st', rest)) (hs : s ≠ [])
    (hrest : rest ≠ []) : Alone (step st) s st' rest ∨ rest = ['{', ')'] := by
  obtain ⟨c, s, rfl⟩ := List.exists_cons_of_ne_nil hs
  rw [List.cons_append] at h
  have hpasses {read : Text → Option (Reading × Text)} (hread : Passes read)
      (h : read (s ++ [')']) = some (st', rest)) (heq : step st (c :: s) = read s) :
      Alone (step st) (c :: s) st' rest := by
    obtain ⟨rest', hrest', hr⟩ := hread.alone h
    exact ⟨rest', hrest', heq.trans hr⟩
  unfold step at h
  split at h
  · next heq => cases heq
  · next heq =>
    cases heq
    exact .inl (hpasses (openGroup_passes st) h rfl)
  · next heq =>
    cases heq
    obtain ⟨st', hclose, heq⟩ := Option.map_eq_some_iff.mp h
    cases heq
    exact .inl ⟨s, rfl, by simp [step, hclose]⟩
  · next heq =>
    cases heq
    cases h
    exact .inl ⟨s, rfl, rfl⟩
  · next heq =>
    cases heq
    exact .inl (hpasses (readQuantifier_passes st 0 none) h rfl)
  · next heq =>
    cases heq
    exact .inl (hpasses (readQuantifier_passes st 1 none) h rfl)
  · next heq =>
    cases heq
    exact .inl (hpasses (readQuantifier_passes st 0 (some 1)) h rfl)
  · next heq =>
    cases heq
    obtain ⟨⟨⟨min, max⟩, mid⟩, hb, hq⟩ := Option.bind_eq_some_iff.mp h
    obtain ⟨mid, rfl, hb'⟩ := readBounds_passes.alone hb
    obtain ⟨rest', rfl, hq'⟩ := (readQuantifier_passes st min max).alone hq
    exact .inl ⟨rest', rfl, Option.bind_eq_some_iff.mpr ⟨_, hb', hq'⟩⟩
  · next heq =>
    cases heq
    obtain ⟨⟨cls, after⟩, hc, heq⟩ := Option.map_eq_some_iff.mp h
    cases heq
    obtain ⟨rest', rfl, hc'⟩ := CharClass.read_alone hc
    exact .inl ⟨rest', rfl, by simp [step, hc']⟩
  · next heq =>
    cases heq
    obtain ⟨⟨e, after⟩, he, heq⟩ := Option.map_eq_some_iff.mp h
    cases heq
    rcases Escape.read_alone he hrest with ⟨rest', rfl, he'⟩ | ⟨_, _, rfl⟩
    · exact .inl ⟨rest', rfl, by simp [step, he']⟩
    · exact .inr rfl
  · next heq =>
    cases heq
    cases h
    exact .inl ⟨s, rfl, rfl⟩
  · next heq =>
    cases heq
    cases h
    exact .inl ⟨s, rfl, rfl⟩
  · next heq =>
    cases heq
    cases h
    exact .inl ⟨s, rfl, rfl⟩
  · next heq =>
    cases heq
    cases h
    refine .inl ⟨s, rfl, ?_⟩
    simp_all [step]

/-! ## Further groups around -/

/-- The same reading inside further groups. -/
def Reading.inside (st : Reading) (around : List Group) : Reading := { st with outer := st.outer ++ around }

theorem openGroup_inside (st : Reading) (around : List Group) (s : Text) :
    openGroup (st.inside around) s = (openGroup st s).map fun r => (r.1.inside around, r.2) := by
  have hnamed (s : Text) :
      openNamed (st.inside around) s = (openNamed st s).map fun r => (r.1.inside around, r.2) := by
    unfold openNamed
    split
    · dsimp only
      show (if isGroupName _ && !st.names.contains _ then _ else _) = _
      split <;> rfl
    · rfl
  unfold openGroup
  split
  · rfl
  · exact hnamed _
  · exact hnamed _
  · rfl
  · rfl

theorem readQuantifier_inside (st : Reading) (around : List Group) (min : Nat) (max : Option Nat) (s : Text) :
    readQuantifier (st.inside around) min max s =
      (readQuantifier st min max s).map fun r => (r.1.inside around, r.2) := by
  simp only [readQuantifier, Reading.quantify?, Option.map_map]
  rfl

/-- A step changes nothing about the groups around, unless it closes the first of them. -/
theorem step_inside {st : Reading} {s : Text} (hs : st.outer = [] → s.head? ≠ some ')') (around : List Group) :
    step (st.inside around) s = (step st s).map fun r => (r.1.inside around, r.2) := by
  unfold step
  split
  · rfl
  · exact openGroup_inside st around _
  · cases houter : st.outer with
    | nil => exact absurd rfl (hs houter)
    | cons up outer =>
      simp only [Reading.close?, Reading.inside, houter]
      rfl
  · rfl
  · exact readQuantifier_inside st around 0 none _
  · exact readQuantifier_inside st around 1 none _
  · exact readQuantifier_inside st around 0 (some 1) _
  · next s =>
    cases readBounds s with
    | none => rfl
    | some r => exact readQuantifier_inside st around r.1.1 r.1.2 r.2
  · simp only [Option.map_map]
    rfl
  · simp only [Option.map_map]
    rfl
  · rfl
  · rfl
  · rfl
  · rfl

/-! ## Fragments -/

/-- Does the text come to a closing parenthesis where no group is open? -/
def overcloses (st : Reading) (s : Text) : Bool :=
  match h : step st s with
  | none => s.head? == some ')'
  | some (st', rest) =>
    have _hlt : rest.length < s.length := step_length h
    overcloses st' rest
termination_by s.length
decreasing_by exact _hlt

theorem readFrom_of_step_eq_none {st : Reading} {s : Text} (hs : s ≠ []) (h : step st s = none) :
    readFrom st s = none := by
  obtain ⟨c, s, rfl⟩ := List.exists_cons_of_ne_nil hs
  rw [readFrom]
  split
  · rfl
  · next hstep => rw [h] at hstep; cases hstep

/-- A text that closes a group that it has not opened is no regex. -/
theorem readFrom_of_overcloses {st : Reading} {s : Text} (h : overcloses st s = true) : readFrom st s = none := by
  fun_induction overcloses st s with
  | case1 st s hs =>
    cases s with
    | nil => cases h
    | cons c s => exact readFrom_of_step_eq_none (List.cons_ne_nil c s) hs
  | case2 st s st' rest hs _ ih => exact (readFrom_of_step hs).trans (ih h)

/-- A group stays open to the end of the text. -/
theorem readFrom_inside_nil (st : Reading) (g : Group) : readFrom (st.inside [g]) [] = none := by
  rw [readFrom, Reading.finish?, Reading.inside]
  split
  · next h => simp at h
  · rfl

/-- The parenthesis closes the group, if the text leaves no other one open. -/
theorem readFrom_inside_close (st : Reading) (g : Group) :
    readFrom (st.inside [g]) [')'] = st.finish?.map fun body => (g.push (.group st.top.index body)).body := by
  cases houter : st.outer with
  | nil =>
    have hstep : step (st.inside [g]) [')'] =
        some ({ st with top := g.push (.group st.top.index st.top.body), outer := [] }, []) := by
      rw [step, Reading.close?, Reading.inside, houter]
      rfl
    rw [readFrom_of_step hstep, readFrom, Reading.finish?, Reading.finish?, houter]
    rfl
  | cons up outer =>
    have hstep : step (st.inside [g]) [')'] =
        some (Reading.inside { st with top := up.push (.group st.top.index st.top.body), outer } [g], []) := by
      rw [step, Reading.close?, Reading.inside, houter]
      rfl
    rw [readFrom_of_step hstep, readFrom_inside_nil, Reading.finish?, houter]
    rfl

theorem readFrom_of_brace (st : Reading) (s : Text) : readFrom st ('{' :: ')' :: s) = none :=
  readFrom_of_step_eq_none (List.cons_ne_nil _ _) rfl

/-- A text in a group that does not close the group is read on as it is read alone. -/
theorem step_of_grouped {st : Reading} {g : Group} {s : Text} {r : Regex} (hs : s ≠ [])
    (hclose : st.outer = [] → s.head? ≠ some ')') (h : readFrom (st.inside [g]) (s ++ [')']) = some r) :
    ∃ st' rest, step st s = some (st', rest) ∧ readFrom (st'.inside [g]) (rest ++ [')']) = some r := by
  have hinside : step (st.inside [g]) (s ++ [')']) =
      (step st (s ++ [')'])).map fun r => (r.1.inside [g], r.2) := by
    refine step_inside (fun houter => ?_) [g]
    rw [List.head?_append_of_ne_nil s hs]
    exact hclose houter
  cases hstep : step st (s ++ [')']) with
  | none =>
    rw [hstep] at hinside
    rw [readFrom_of_step_eq_none (List.append_ne_nil_of_left_ne_nil hs _) hinside] at h
    cases h
  | some next =>
    obtain ⟨st', rest⟩ := next
    rw [hstep] at hinside
    rw [readFrom_of_step hinside] at h
    have hrest : rest ≠ [] := by
      rintro rfl
      rw [readFrom_inside_nil] at h
      cases h
    rcases step_alone hstep hs hrest with ⟨rest, rfl, halone⟩ | rfl
    · exact ⟨st', rest, halone, h⟩
    · rw [readFrom_of_brace] at h
      cases h

/-- **A text in a group** is a regex of its own, unless it closes the group. -/
theorem readFrom_of_grouped {st : Reading} {g : Group} {s : Text} {r : Regex}
    (h : readFrom (st.inside [g]) (s ++ [')']) = some r) (hopen : overcloses st s = false) :
    ∃ body index, readFrom st s = some body ∧ r = (g.push (.group index body)).body := by
  fun_induction overcloses st s with
  | case1 st s hs =>
    cases s with
    | nil =>
      rw [List.nil_append, readFrom_inside_close] at h
      obtain ⟨body, hbody, rfl⟩ := Option.map_eq_some_iff.mp h
      exact ⟨body, st.top.index, by rw [readFrom, hbody], rfl⟩
    | cons c s =>
      obtain ⟨_, _, hstep, _⟩ := step_of_grouped (List.cons_ne_nil c s) (fun _ => by simpa using hopen) h
      rw [hs] at hstep
      cases hstep
  | case2 st s st' rest hs _ ih =>
    have hclose : st.outer = [] → s.head? ≠ some ')' := by
      intro houter hhead
      obtain ⟨s, rfl⟩ := List.head?_eq_some_iff.mp hhead
      rw [step, Reading.close?, houter] at hs
      cases hs
    have hne : s ≠ [] := by
      rintro rfl
      cases hs
    obtain ⟨_, _, hstep, hrest⟩ := step_of_grouped hne hclose h
    rw [hs] at hstep
    cases hstep
    obtain ⟨body, index, hbody, hr⟩ := ih hrest hopen
    exact ⟨body, index, (readFrom_of_step hs).trans hbody, hr⟩

end Regex

namespace Parser

open Regex hiding read

/-- The reader has one group open when it comes to the fragment. -/
theorem readFrom_fragment (source : Text) :
    readFrom .start (Text.ofString "^(?:" ++ source ++ Text.ofString ")") =
      readFrom (Reading.start.inside [⟨none, [], [.look .textStart]⟩]) (source ++ [')']) := by
  have hsource : Text.ofString "^(?:" ++ source ++ Text.ofString ")" =
      '^' :: '(' :: '?' :: ':' :: (source ++ [')']) := by
    simp [Text.ofString]
  rw [hsource, readFrom_of_step rfl, readFrom_of_step rfl]
  rfl

/-- The regex of a fragment is the fragment in a group behind the start of the text. -/
theorem exists_of_fragmentRegex {source : Text} {r : Regex} (h : fragmentRegex source = .ok r)
    (hopen : overcloses .start source = false) :
    ∃ body index, readFrom .start source = some body ∧ body.levels .none ≤ maxLevels ∧
      r = .seq (.look .textStart) (.group index body) := by
  unfold fragmentRegex Regex.read at h
  split at h
  · cases h
  next r' hr =>
  split at h
  · next hlimit =>
    cases h
    rw [readFrom_fragment] at hr
    obtain ⟨body, index, hbody, rfl⟩ := readFrom_of_grouped hr hopen
    have hr' : (Group.push ⟨none, [], [.look .textStart]⟩ (.group index body)).body =
        .seq (.look .textStart) (.group index body) := rfl
    have hlevels := (limit?_eq_none_iff.mp hlimit).1
    rw [hr'] at hlevels ⊢
    refine ⟨body, index, hbody, ?_, rfl⟩
    simp only [levels] at hlevels
    omega
  · cases h

/-- **A fragment that builds** is a regex of its own, of which only the room is not known, if and only if it
closes no group that it has not opened. If so, it takes what it matches off the front of the text. -/
theorem fragment_anchored {source : Text} {r : Regex} (h : fragmentRegex source = .ok r) :
    ((∃ body, readFrom .start source = some body ∧
          Regex.read source = if body.fits then .ok body else .error .tooLarge) ↔
        overcloses .start source = false) ∧
      (overcloses .start source = false →
        ∀ s value rest, fragment r s = some (value, rest) → value ++ rest = s) := by
  refine ⟨⟨?_, fun hopen => ?_⟩, fun hopen s value rest hs => ?_⟩
  · rintro ⟨body, hbody, _⟩
    rw [Bool.eq_false_iff]
    intro hclose
    rw [readFrom_of_overcloses hclose] at hbody
    cases hbody
  · obtain ⟨body, _, hbody, hlevels, _⟩ := exists_of_fragmentRegex h hopen
    exact ⟨body, hbody, by rw [read_of_readFrom hbody, if_neg (Nat.not_lt.mpr hlevels)]⟩
  · obtain ⟨body, index, _, _, rfl⟩ := exists_of_fragmentRegex h hopen
    exact Assembly.append_of_fragment (isLeading_anchored _) hs

/-- A parenthesis in brackets closes nothing, and both alternatives are in the group. -/
theorem fragment_anchored_bracket :
    ∃ r, fragmentRegex (Text.ofString "a|[)]") = .ok r ∧
      (∃ body, readFrom .start (Text.ofString "a|[)]") = some body ∧
        Regex.read (Text.ofString "a|[)]") = if body.fits then .ok body else .error .tooLarge) ∧
      fragment r (Text.ofString ")b") = some ([')'], ['b']) ∧ [')'] ++ ['b'] = Text.ofString ")b" := by
  have hrun : (fragmentRegex (Text.ofString "a|[)]")).toOption.any (fun r =>
      fragment r (Text.ofString ")b") == some ([')'], ['b'])) = true := by
    decide +kernel
  have hopen : overcloses .start (Text.ofString "a|[)]") = false := by decide +kernel
  obtain ⟨r, hr, hmatch⟩ := exists_of_any hrun
  obtain ⟨hvalid, hanchored⟩ := fragment_anchored hr
  exact ⟨r, hr, hvalid.mpr hopen, beq_iff_eq.mp hmatch, hanchored hopen _ _ _ (beq_iff_eq.mp hmatch)⟩

/-- A fragment that closes the group around it is no regex of its own, builds all the same, and finds a match
further on. -/
theorem fragment_overclosing :
    ∃ r, fragmentRegex (Text.ofString "x)|(y") = .ok r ∧ Regex.read (Text.ofString "x)|(y") = .error .malformed ∧
      fragment r (Text.ofString "zy") = some (['y'], []) ∧ ['y'] ++ [] ≠ Text.ofString "zy" := by
  have hrun : (fragmentRegex (Text.ofString "x)|(y")).toOption.any (fun r =>
      fragment r (Text.ofString "zy") == some (['y'], [])) = true := by
    decide +kernel
  have hclose : overcloses .start (Text.ofString "x)|(y") = true := by decide +kernel
  obtain ⟨r, hr, hmatch⟩ := exists_of_any hrun
  exact ⟨r, hr, by rw [Regex.read, readFrom_of_overcloses hclose], beq_iff_eq.mp hmatch, by decide⟩

end Parser

end RoutePattern
