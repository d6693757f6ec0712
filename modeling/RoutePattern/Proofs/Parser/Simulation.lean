import Mathlib.Data.List.Forall2
import RoutePattern.Parser.Live
import RoutePattern.Proofs.Parser.Combinators

/-!
# Parsers that follow each other

One parser follows another if it comes to an end wherever the other does, from worlds that belong together,
with the same rest, with a value that belongs to the other's value, and with worlds that belong together
again. Every combinator keeps this: to compare two assemblies, or to learn what one of them keeps, it is
enough to compare their atoms and what their references lead to.

## Main definitions

* `Live.Alike` — what two parsers give, if it belongs together.
* `Live.Follows` — one parser follows another at a place of the text.
* `Live.Row` — values of parsers one after another; `Live.Same` — the same value.
* `Assembly.run_follows` — an assembly follows itself if its references do.
-/

namespace RoutePattern

namespace Live

variable {α α' β β' : Type} {W : World → World → Prop} {V : α → α' → Text → Prop} {s : Text}

/-- What two parsers give at a place belongs together: neither has a match, or both leave the same rest, and
values and worlds belong together. -/
inductive Alike (W : World → World → Prop) (V : α → α' → Text → Prop) (s : Text) :
    Option (α × Text) × World → Option (α' × Text) × World → Prop
  | none {w w' : World} (hw : W w w') : Alike W V s (none, w) (none, w')
  | some {v : α} {v' : α'} {rest : Text} {w w' : World} (hrest : rest <:+ s) (hv : V v v' rest)
      (hw : W w w') : Alike W V s (some (v, rest), w) (some (v', rest), w')

/-- The first parser comes to an end where the second one does, and what they give belongs together. -/
def Follows (W : World → World → Prop) (V : α → α' → Text → Prop) (s : Text) (p : Live α) (q : Live α') :
    Prop :=
  ∀ w w' r', W w w' → q s w' = some r' → ∃ r, p s w = some r ∧ Alike W V s r r'

/-- Values of two rows of parsers belong together, each pair in view of the place where it was read. -/
inductive Row (V : Text → α → α' → Text → Prop) : Text → List α → List α' → Text → Prop
  | nil {s : Text} : Row V s [] [] s
  | cons {v : α} {v' : α'} {vs : List α} {vs' : List α'} {s mid rest : Text} (hv : V s v v' mid)
      (h : Row V mid vs vs' rest) : Row V s (v :: vs) (v' :: vs') rest

/-- The same value. -/
def Same (v v' : α) (_ : Text) : Prop := v = v'

theorem Row.eq {vs vs' : List α} {rest : Text} (h : Row (fun _ => Same) s vs vs' rest) : vs = vs' := by
  induction h with
  | nil => rfl
  | cons hv _ ih =>
    obtain rfl := hv
    rw [ih]

/-- Values of two rows belong together by their numbers, where the place does not matter. -/
theorem Row.rel_getElem? {R : α → α' → Prop} {vs : List α} {vs' : List α'} {rest : Text}
    (h : Row (fun _ v v' _ => R v v') s vs vs' rest) (index : Nat) : Option.Rel R vs[index]? vs'[index]? := by
  induction h generalizing index with
  | nil => exact .none
  | cons hv _ ih =>
    cases index with
    | zero => exact .some hv
    | succ index => exact ih index

theorem map_id (p : Live α) : p.map id = p := by
  funext s w
  unfold map andThen
  rcases p s w with _ | ⟨_ | ⟨value, rest⟩, w⟩ <;> rfl

namespace Follows

/-! ## One parser -/

theorem outcome {p : Live α} {q : Live α'} (h : Follows W V s p q) {w w' : World} (hw : W w w') :
    q s w' = none ∨
      (∃ u u', p s w = some (none, u) ∧ q s w' = some (none, u') ∧ W u u') ∨
      ∃ v v' rest u u', p s w = some (some (v, rest), u) ∧ q s w' = some (some (v', rest), u') ∧
        rest <:+ s ∧ V v v' rest ∧ W u u' := by
  cases hq : q s w' with
  | none => exact .inl rfl
  | some r' =>
    obtain ⟨r, hp, halike⟩ := h w w' r' hw hq
    cases halike with
    | none hu => exact .inr (.inl ⟨_, _, hp, rfl, hu⟩)
    | some hrest hv hu => exact .inr (.inr ⟨_, _, _, _, _, hp, rfl, hrest, hv, hu⟩)

theorem pure {p : Parser α} {q : Parser α'} (h : ∀ w w', W w w' → Alike W V s (p s, w) (q s, w')) :
    Follows W V s (Live.pure p) (Live.pure q) := by
  intro w w' r' hw hq
  cases hq
  exact ⟨_, rfl, h w w' hw⟩

theorem fail : Follows W V s (Live.pure .fail) (Live.pure .fail) :=
  pure fun _ _ hw => .none hw

theorem give {v : α} {v' : α'} (hv : V v v' s) : Follows W V s (Live.give v) (Live.give v') :=
  pure fun _ _ hw => .some (List.suffix_refl s) hv hw

theorem endless {p : Live α} : Follows W V s p (Live.endless : Live α') := by
  intro w w' r' _ hq
  cases hq

theorem andThen {U : β → β' → Text → Prop} {p : Live α} {q : Live α'} {f : α → Live β} {g : α' → Live β'}
    (h : Follows W V s p q)
    (hnext : ∀ v v' mid, mid <:+ s → V v v' mid → Follows W U mid (f v) (g v')) :
    Follows W U s (p.andThen f) (q.andThen g) := by
  intro w w' r' hw hq
  unfold Live.andThen at hq ⊢
  rcases h.outcome hw with hq₁ | ⟨u, u', hp₁, hq₁, hu⟩ | ⟨v, v', mid, u, u', hp₁, hq₁, hmid, hv, hu⟩
  · rw [hq₁] at hq
    cases hq
  · rw [hq₁] at hq
    rw [hp₁]
    cases hq
    exact ⟨_, rfl, .none hu⟩
  · rw [hq₁] at hq
    rw [hp₁]
    obtain ⟨r, hr, halike⟩ := hnext v v' mid hmid hv u u' r' hu hq
    refine ⟨r, hr, ?_⟩
    cases halike with
    | none hw => exact .none hw
    | some hrest hv hw => exact .some (hrest.trans hmid) hv hw

theorem map {U : β → β' → Text → Prop} {p : Live α} {q : Live α'} {f : α → β} {g : α' → β'}
    (h : Follows W V s p q) (hV : ∀ v v' rest, rest <:+ s → V v v' rest → U (f v) (g v') rest) :
    Follows W U s (p.map f) (q.map g) :=
  h.andThen fun v v' mid hmid hv => give (hV v v' mid hmid hv)

/-- A change of the value on one side only. -/
theorem map_left {U : β → α' → Text → Prop} {p : Live α} {q : Live α'} {f : α → β} (h : Follows W V s p q)
    (hV : ∀ v v' rest, V v v' rest → U (f v) v' rest) : Follows W U s (p.map f) q := by
  rw [← map_id q]
  exact h.map fun v v' rest _ hv => hV v v' rest hv

/-- A change of the value on the other side only. -/
theorem map_right {U : α → β' → Text → Prop} {p : Live α} {q : Live α'} {g : α' → β'} (h : Follows W V s p q)
    (hV : ∀ v v' rest, V v v' rest → U v (g v') rest) : Follows W U s p (q.map g) := by
  rw [← map_id p]
  exact h.map fun v v' rest _ hv => hV v v' rest hv

theorem orElse {p p₂ : Live α} {q q₂ : Live α'} (h : Follows W V s p q) (h₂ : Follows W V s p₂ q₂) :
    Follows W V s (p.orElse p₂) (q.orElse q₂) := by
  intro w w' r' hw hq
  unfold Live.orElse at hq ⊢
  rcases h.outcome hw with hq₁ | ⟨u, u', hp₁, hq₁, hu⟩ | ⟨v, v', rest, u, u', hp₁, hq₁, hrest, hv, hu⟩
  · rw [hq₁] at hq
    cases hq
  · rw [hq₁] at hq
    rw [hp₁]
    exact h₂ u u' r' hu hq
  · rw [hq₁] at hq
    rw [hp₁]
    cases hq
    exact ⟨_, rfl, .some hrest hv hu⟩

/-! ## Several parsers -/

theorem firstOf {ps : List (Live α)} {qs : List (Live α')} (h : List.Forall₂ (Follows W V s) ps qs) :
    Follows W V s (Live.firstOf ps) (Live.firstOf qs) := by
  induction h with
  | nil => exact fail
  | cons hp _ ih => exact hp.orElse ih

section Rows

variable {V : Text → α → α' → Text → Prop} {s₀ : Text}

theorem sequence {ps : List (Live α)} {qs : List (Live α')}
    (h : List.Forall₂ (fun p q => ∀ s, s <:+ s₀ → Follows W (V s) s p q) ps qs) (hs : s <:+ s₀) :
    Follows W (Row V s) s (Live.sequence ps) (Live.sequence qs) := by
  induction h generalizing s with
  | nil => exact give .nil
  | cons hp _ ih =>
    refine (hp s hs).andThen fun v v' mid hmid hv => ?_
    exact (ih (hmid.trans hs)).map fun vs vs' rest _ hvs => .cons hv hvs

theorem pick {U : α → α' → Text → Prop} {index : Nat} {ps : List (Live α)} {qs : List (Live α')}
    (h : List.Forall₂ (fun p q => ∀ s', s' <:+ s → Follows W (V s') s' p q) ps qs)
    (hV : ∀ vs vs' rest, Row V s vs vs' rest → Option.Rel (fun v v' => U v v' rest) vs[index]? vs'[index]?) :
    Follows W U s (Live.pick index ps) (Live.pick index qs) := by
  refine (sequence h (List.suffix_refl s)).andThen fun vs vs' mid _ hvs => pure fun w w' hw => ?_
  have hrel := hV vs vs' mid hvs
  generalize vs[index]? = a at hrel ⊢
  generalize vs'[index]? = b at hrel ⊢
  cases hrel with
  | none => exact .none hw
  | some hv => exact .some (List.suffix_refl mid) hv hw

/-! ## Rounds -/

theorem roundsUntil {stop : Live β} {stop' : Live β'} {T : Text → β → β' → Text → Prop} {p : Live α}
    {q : Live α'} (hp : ∀ s, s <:+ s₀ → Follows W (V s) s p q)
    (hstop : ∀ s, s <:+ s₀ → Follows W (T s) s stop stop') (hs : s <:+ s₀) :
    Follows W (Row V s) s (Live.roundsUntil p stop) (Live.roundsUntil q stop') := by
  induction hn : s.length using Nat.strongRecOn generalizing s with
  | ind n ih =>
    subst hn
    intro w w' r' hw hq
    rw [Live.roundsUntil] at hq ⊢
    rcases (hstop s hs).outcome hw with hq₁ | ⟨u, u', hp₁, hq₁, hu⟩ | ⟨_, _, _, u, u', hp₁, hq₁, _, _, hu⟩
    · rw [hq₁] at hq
      cases hq
    · -- no stop, so there may be another round
      rw [hq₁] at hq
      rw [hp₁]
      rcases (hp s hs).outcome hu with hq₂ | ⟨x, x', hp₂, hq₂, hx⟩ | ⟨v, v', mid, x, x', hp₂, hq₂, hmid, hv, hx⟩
      · simp only [hq₂] at hq
        cases hq
      · simp only [hq₂] at hq
        cases hq
        simp only [hp₂]
        exact ⟨_, rfl, .some (List.suffix_refl s) .nil hx⟩
      · simp only [hq₂] at hq
        simp only [hp₂]
        by_cases hlt : mid.length < s.length
        · rw [if_pos hlt] at hq ⊢
          have hmore : Follows W (Row V mid) mid (Live.roundsUntil p stop) (Live.roundsUntil q stop') :=
            ih mid.length hlt (hmid.trans hs) rfl
          rcases hmore.outcome hx with hq₃ | ⟨y, y', hp₃, hq₃, hy⟩ |
            ⟨vs, vs', rest, y, y', hp₃, hq₃, hrest, hvs, hy⟩
          · rw [hq₃] at hq
            cases hq
          · rw [hq₃] at hq
            cases hq
            rw [hp₃]
            exact ⟨_, rfl, .none hy⟩
          · rw [hq₃] at hq
            cases hq
            rw [hp₃]
            exact ⟨_, rfl, .some (hrest.trans hmid) (.cons hv hvs) hy⟩
        · rw [if_neg hlt] at hq ⊢
          cases hq
          exact ⟨_, rfl, .some hmid (.cons hv .nil) hx⟩
    · rw [hq₁] at hq
      cases hq
      rw [hp₁]
      exact ⟨_, rfl, .some (List.suffix_refl s) .nil hu⟩

theorem manyUntil {stop : Live β} {stop' : Live β'} {T : Text → β → β' → Text → Prop} {p : Live α}
    {q : Live α'} (hp : ∀ s', s' <:+ s → Follows W (V s') s' p q)
    (hstop : ∀ s', s' <:+ s → Follows W (T s') s' stop stop') :
    Follows W (Row V s) s (Live.manyUntil p stop) (Live.manyUntil q stop') := by
  refine (roundsUntil hp hstop (List.suffix_refl s)).andThen fun vs vs' mid hmid hvs => ?_
  cases hvs with
  | nil => exact fail
  | cons hv hvs =>
    exact pure fun w w' hw => .some (List.suffix_refl mid) (.cons hv hvs) hw

theorem many {p : Live α} {q : Live α'} (hp : ∀ s', s' <:+ s → Follows W (V s') s' p q) :
    Follows W (Row V s) s (Live.many p) (Live.many q) :=
  manyUntil (T := fun _ _ _ _ => True) hp fun _ _ => fail

end Rows

theorem concatUntil {V : Text → Text → Text → Text → Prop} {U : Text → Text → Text → Prop} {stop : Live β}
    {stop' : Live β'} {T : Text → β → β' → Text → Prop} {p q : Live Text}
    (hp : ∀ s', s' <:+ s → Follows W (V s') s' p q)
    (hstop : ∀ s', s' <:+ s → Follows W (T s') s' stop stop')
    (hV : ∀ ts ts' rest, Row V s ts ts' rest → U ts.flatten ts'.flatten rest) :
    Follows W U s (Live.concatUntil p stop) (Live.concatUntil q stop') :=
  (manyUntil hp hstop).map fun ts ts' rest _ h => hV ts ts' rest h

end Follows

end Live

/-! ## Assemblies -/

namespace Assembly

open Live (Follows Same)

variable {W : World → World → Prop} {call call' : Nat → Live Value}

theorem runs_eq_map (parts : List Assembly) : runs call parts = parts.map (run call) := by
  induction parts with
  | nil => rw [runs, List.map_nil]
  | cons part parts ih => rw [runs, ih, List.map_cons]

/-- An atom that is read without the world. -/
theorem follows_atom {α : Type} {p : Parser α} {s : Text} (f : α → Value)
    (hp : ∀ v rest, p s = some (v, rest) → rest <:+ s) :
    Follows W Same s (Live.map f (.pure p)) (Live.map f (.pure p)) := by
  refine Follows.map (V := Same) (.pure fun w w' hw => ?_) fun v v' _ _ hv => congrArg f hv
  cases h : p s with
  | none => exact .none hw
  | some r => exact .some (hp _ _ h) rfl hw

mutual

/-- **An assembly follows itself** if what its references lead to does, at every place that is left to read:
it comes to an end with the same values and leaves a part of the text behind. -/
theorem run_follows {s : Text} (hcall : ∀ i s', s' <:+ s → Follows W Same s' (call i) (call' i)) :
    ∀ a : Assembly, ∀ s', s' <:+ s → Follows W Same s' (run call a) (run call' a)
  | .literal _, s', _ => by
    rw [run, run]
    exact follows_atom _ fun _ _ h => Parser.suffix_of_literal h
  | .fragment _, s', _ => by
    rw [run, run]
    exact follows_atom _ fun _ _ h => Parser.suffix_of_fragment h
  | .anyChar, s', _ => by
    rw [run, run]
    exact follows_atom _ fun _ _ h => Parser.suffix_of_anyChar h
  | .fail, _, _ => by
    rw [run, run]
    exact .fail
  | .sequence parts, s', hs' => by
    rw [run, run]
    have hparts := runs_follows (fun i t ht => hcall i t (ht.trans hs')) parts
    refine (Follows.sequence hparts (List.suffix_refl s')).map fun vs vs' _ _ h => ?_
    exact congrArg Value.list h.eq
  | .pick index parts, s', hs' => by
    rw [run, run]
    have hparts := runs_follows (fun i t ht => hcall i t (ht.trans hs')) parts
    exact Follows.pick hparts fun _ _ _ h => Live.Row.rel_getElem? (R := Eq) h index
  | .firstOf parts, s', hs' => by
    rw [run, run]
    have hparts := runs_follows (fun i t ht => hcall i t (ht.trans hs')) parts
    exact .firstOf (hparts.imp fun _ _ h => h s' (List.suffix_refl s'))
  | .many part, s', hs' => by
    rw [run, run]
    have hpart := fun t (ht : t <:+ s') => run_follows hcall part t (ht.trans hs')
    refine (Follows.many hpart).map fun vs vs' _ _ h => ?_
    exact congrArg Value.list h.eq
  | .concatUntil part stop, s', hs' => by
    rw [run, run]
    have hpart := fun t (ht : t <:+ s') => run_follows hcall part t (ht.trans hs')
    have hstop := fun t (ht : t <:+ s') => run_follows hcall stop t (ht.trans hs')
    have htexts (t : Text) (ht : t <:+ s') : Follows W Same t
        (Live.map Value.asText (run call part)) (Live.map Value.asText (run call' part)) :=
      (hpart t ht).map fun v v' _ _ hv => congrArg Value.asText hv
    refine (Follows.concatUntil (U := Same) htexts hstop fun ts ts' _ h => ?_).map
      fun v v' _ _ hv => congrArg Value.text hv
    exact congrArg List.flatten h.eq
  | .map f part, s', hs' => by
    rw [run, run]
    exact (run_follows hcall part s' hs').map fun v v' _ _ hv => congrArg f hv
  | .deferred part, s', hs' => by
    rw [run, run]
    exact run_follows hcall part s' hs'
  | .weak owned part, s', hs' => by
    rw [run, run]
    cases owned with
    | false => exact .fail
    | true => exact run_follows hcall part s' hs'
  | .reference i, s', hs' => by
    rw [run, run]
    exact hcall i s' hs'

theorem runs_follows {s : Text} (hcall : ∀ i s', s' <:+ s → Follows W Same s' (call i) (call' i)) :
    ∀ parts : List Assembly,
      List.Forall₂ (fun p q => ∀ s', s' <:+ s → Follows W Same s' p q) (runs call parts) (runs call' parts)
  | [] => by
    rw [runs, runs]
    exact .nil
  | part :: parts => by
    rw [runs, runs]
    exact .cons (run_follows hcall part) (runs_follows hcall parts)

end

end Assembly

end RoutePattern
