import RoutePattern.Proofs.Regex.Emit

/-!
# Straight regexes

A regex without alternatives is nearly its own reduced form: parentheses that do not capture are
dropped, sequences are put together and classes become tables, none of which changes the ways through
it. So its first match in a text is the first of its own ways (`way?_anchored`).

## Main definitions

* `Regex.Straight` — no alternatives, and repetitions that the reduced form leaves alone.
* `Regex.way?_anchored` — the match of a straight regex behind the start of the text.
-/

namespace RoutePattern.Regex

/-- No alternatives. A part is optional, or it is repeated without bound and takes a character in each
round. -/
def Straight : Regex → Prop
  | .empty => True
  | .set _ => True
  | .look _ => True
  | .group _ body => body.Straight
  | .loop times body =>
    (times.min = 0 ∧ times.max = some 1 ∨ times.max = none ∧ body.nullable = false) ∧ body.Straight
  | .seq first second => first.Straight ∧ second.Straight
  | .alt _ _ => False

theorem Straight.regular {r : Regex} (h : r.Straight) : r.Regular := by
  induction r with
  | empty | set cls | look place => trivial
  | group index body ih => exact ih h
  | loop times body ih =>
    refine ⟨fun hmax => ?_, ih h.2⟩
    rcases h.1 with ⟨_, hone⟩ | ⟨_, hbody⟩
    · rw [hone] at hmax
      cases hmax
    · exact hbody
  | seq first second ih₁ ih₂ => exact ⟨ih₁ h.1, ih₂ h.2⟩
  | alt first second => exact h.elim

theorem Straight.choices {r : Regex} (h : r.Straight) : r.choices = [r] := by
  cases r with
  | alt first second => exact h.elim
  | empty | set cls | look place | group index body | loop times body | seq first second => rfl

theorem Straight.nullable_of_isWidthless {r : Regex} (h : r.Straight) (hw : r.isWidthless = true) :
    r.nullable = true := by
  induction r with
  | empty | look place => rfl
  | set cls => cases hw
  | group index body ih => exact ih h hw
  | loop times body ih =>
    rcases h.1 with ⟨hmin, _⟩ | ⟨hmax, _⟩
    · simp [nullable, hmin]
    · simp only [isWidthless, hmax, Bool.or_eq_true, reduceCtorEq, beq_iff_eq, false_or] at hw
      simp [nullable, ih h.2 hw]
  | seq first second ih₁ ih₂ =>
    simp only [isWidthless, Bool.and_eq_true] at hw
    simp [nullable, ih₁ h.1 hw.1, ih₂ h.2 hw.2]
  | alt first second => exact h.elim

/-! ## Parts put together -/

theorem walk_andThen (a b : Regex) : (a.andThen b).walk = a.walk.andThen b.walk := by
  fun_induction andThen a b with
  | case1 second => exact (Walk.stay_andThen _).symm
  | case2 part parts second ih => rw [walk, ih, walk, Walk.andThen_assoc]
  | case3 first => exact (Walk.andThen_stay _).symm
  | case4 first second => rfl

theorem nullable_andThen (a b : Regex) : (a.andThen b).nullable = (a.nullable && b.nullable) := by
  fun_induction andThen a b with
  | case1 second => rfl
  | case2 part parts second ih => rw [nullable, ih, nullable, Bool.and_assoc]
  | case3 first => exact (Bool.and_true _).symm
  | case4 first second => rfl

theorem Straight.andThen {a b : Regex} (ha : a.Straight) (hb : b.Straight) :
    (a.andThen b).Straight := by
  fun_induction Regex.andThen a b with
  | case1 second => exact hb
  | case2 part parts second ih => exact ⟨ha.1, ih ha.2 hb⟩
  | case3 first => exact ha
  | case4 first second => exact ⟨ha, hb⟩

theorem Straight.repeated {times : Times} {body : Regex} (h : (Regex.loop times body).Straight) :
    repeated times body = .loop times body := by
  obtain ⟨min, max, greedy⟩ := times
  obtain ⟨⟨hmin, hmax⟩ | ⟨hmax, hbody⟩, hs⟩ := h <;> dsimp only at *
  · subst hmin hmax
    by_cases hw : body.isWidthless = true <;> simp [Regex.repeated, hw, Times.atMostOnce]
  · subst hmax
    have hw : body.isWidthless = false := by
      rw [← Bool.not_eq_true]
      intro hw
      rw [hs.nullable_of_isWidthless hw] at hbody
      cases hbody
    simp [Regex.repeated, hw]

theorem one_plain (cls : CharClass) : Walk.one cls.plain = Walk.one cls := by
  have h : cls.plain.mem = cls.mem := funext cls.mem_plain
  funext before rest
  rw [Walk.one, Walk.one, h]

/-! ## The reduced form -/

/-- The reduced form of a straight regex has no alternatives either, and the same ways. -/
theorem Straight.branches {r : Regex} (h : r.Straight) :
    ∃ r' : Regex, r.branches = [r'] ∧ r'.Straight ∧ r'.nullable = r.nullable ∧ r'.walk = r.walk := by
  induction r with
  | empty => exact ⟨.empty, rfl, trivial, rfl, rfl⟩
  | set cls => exact ⟨.set cls.plain, rfl, trivial, rfl, one_plain cls⟩
  | look place => exact ⟨.look place, rfl, trivial, rfl, rfl⟩
  | group index body ih =>
    obtain ⟨r', hr, hs, hn, hw⟩ := ih h
    cases index with
    | none => exact ⟨r', by rw [Regex.branches, hr]; exact hs.choices, hs, hn, hw⟩
    | some index =>
      refine ⟨.group (some index) r', by rw [Regex.branches, hr]; rfl, hs, hn, ?_⟩
      rw [walk, walk, hw]
  | loop times body ih =>
    obtain ⟨r', hr, hs, hn, hw⟩ := ih h.2
    -- the reduced body can match the empty text only if the body can
    have hloop : (Regex.loop times r').Straight := ⟨hn ▸ h.1, hs⟩
    refine ⟨.loop times r', ?_, hloop, ?_, ?_⟩
    · rw [Regex.branches, hr, ofAlternatives, hloop.repeated]
      rfl
    · rw [nullable, nullable, hn]
    · rw [walk, walk, hw]
  | seq first second ih₁ ih₂ =>
    obtain ⟨a, ha, hsa, hna, hwa⟩ := ih₁ h.1
    obtain ⟨b, hb, hsb, hnb, hwb⟩ := ih₂ h.2
    refine ⟨a.andThen b, ?_, hsa.andThen hsb, ?_, ?_⟩
    · rw [Regex.branches, ha, hb]
      exact (hsa.andThen hsb).choices
    · rw [nullable_andThen, nullable, hna, hnb]
    · rw [walk_andThen, walk, hwa, hwb]
  | alt first second => exact h.elim

theorem walk_textStart (r : Regex) (s : Text) :
    (Regex.seq (.look .textStart) r).walk none s = r.walk none s :=
  congrFun (congrFun (Walk.stay_andThen r.walk) none) s

/-- **The match of a straight regex behind the start of the text** is the first of its ways. -/
theorem way?_anchored {r : Regex} (h : r.Straight) (s : Text) :
    (Regex.seq (.look .textStart) r).way? s =
      (r.walk none s).head?.map fun p => ⟨s, p.marks, p.rest⟩ := by
  obtain ⟨r', hr, hs, _, hw⟩ := h.branches
  have hboth : (andThen (.look .textStart) r').Straight := Straight.andThen trivial hs
  have hreduced : (Regex.seq (.look .textStart) r).reduced = andThen (.look .textStart) r' := by
    rw [reduced, Regex.branches, hr]
    show ofAlternatives (andThen (.look .textStart) r').choices = _
    rw [hboth.choices]
    rfl
  have hstart : (Regex.seq (.look .textStart) r).reduced.beginsAt .textStart = true := by
    rw [hreduced]
    cases r' <;> rfl
  rw [way?_eq (hreduced ▸ hboth.regular) hstart, hreduced, walk_andThen, hw]
  exact congrArg (fun ps => (List.head? ps).map _) (walk_textStart r s)

end RoutePattern.Regex
