import Mathlib.Combinatorics.Enumerative.DoubleCounting
import Mathlib.Order.Interval.Finset.Nat
import RoutePattern.Proofs.Parser.Simulation
import RoutePattern.Proofs.Parser.Uses

/-!
# How deeply uses are nested

A parse that comes to an end with uses of references nested to some depth gives the same at every larger
depth, and it comes to an end at `World.depth` already. For the use that is nested most deeply has inside it
one of each smaller depth. As long as neither text nor fresh handles are used up, these are uses of different
references; and what is left of the text and of the fresh handles only becomes less.

## Main definitions

* `Assembly.Proceeds` — what a parse leaves: a part of the text, and a world that uses lead to.
* `Assembly.run_of_run` — a parse depends on what references give where it uses them.
* `Assembly.IsDepth` — the least depth at which a reference comes to an end, and its bound `IsDepth.le`.
* `Assembly.parse_eq_some_iff` — the depth of a parse does not matter.
-/

namespace RoutePattern.Assembly

open Live (Follows Same)

variable {w u : World} {s s' : Text} {i j depth depth' : Nat} {a : Assembly}
  {r : Option (Value × Text) × World} {call' call'' : Nat → Live Value}

/-! ## What a parse depends on -/

/-- What a parse leaves behind is a part of the text and a world that uses of references lead to. -/
structure Proceeds (w : World) (s : Text) (r : Option (Value × Text) × World) : Prop where
  reaches : w.Reaches r.2
  suffix : ∀ v rest, r.1 = some (v, rest) → rest <:+ s

/-- A parse depends on what references give in the worlds and at the places that it comes to. -/
theorem run_of_run (hproceeds : ∀ i s' u r, s' <:+ s → call' i s' u = some r → Proceeds u s' r)
    (h : ∀ i s' u r, s' <:+ s → w.Reaches u → call' i s' u = some r → call'' i s' u = some r)
    (hrun : run call' a s w = some r) : run call'' a s w = some r ∧ Proceeds w s r := by
  have hcall (i : Nat) (s' : Text) (hs' : s' <:+ s) :
      Follows (fun u u' => u = u' ∧ w.Reaches u) Same s' (call'' i) (call' i) := by
    rintro u _ r ⟨rfl, hu⟩ hr
    refine ⟨r, h i s' u r hs' hu hr, ?_⟩
    obtain ⟨hreaches, hsuffix⟩ := hproceeds i s' u r hs' hr
    obtain ⟨found, x⟩ := r
    cases found with
    | none => exact .none ⟨rfl, hu.trans hreaches⟩
    | some found => exact .some (hsuffix _ _ rfl) rfl ⟨rfl, hu.trans hreaches⟩
  obtain ⟨r', hr', halike⟩ := run_follows hcall a s (List.suffix_refl s) w w r ⟨rfl, .refl⟩ hrun
  cases halike with
  | none hw =>
    obtain ⟨rfl, hw⟩ := hw
    refine ⟨hr', hw, ?_⟩
    rintro v rest h
    cases h
  | some hrest hv hw =>
    obtain rfl := hv
    obtain ⟨rfl, hw⟩ := hw
    refine ⟨hr', hw, ?_⟩
    rintro v rest h
    cases h
    exact hrest

theorem call_succ (depth i : Nat) (s : Text) (w : World) :
    call (depth + 1) i s w =
      match w.target? i with
      | none => some (none, w.resolve i)
      | some a => run (call depth) a s (w.resolve i) := by
  unfold call World.use
  cases w.target? i <;> rfl

theorem proceeds_of_call (h : call depth i s w = some r) : Proceeds w s r := by
  induction depth generalizing i s w r with
  | zero => cases h
  | succ depth ih =>
    rw [call_succ] at h
    cases htarget : w.target? i with
    | none =>
      rw [htarget] at h
      cases h
      refine ⟨.use .refl i, ?_⟩
      rintro v rest h
      cases h
    | some a =>
      rw [htarget] at h
      obtain ⟨_, hreaches, hsuffix⟩ :=
        run_of_run (fun _ _ _ _ _ h => ih h) (fun _ _ _ _ _ _ h => h) h
      exact ⟨(World.Reaches.use .refl i).trans hreaches, hsuffix⟩

theorem proceeds_of_run (h : run (call depth) a s w = some r) : Proceeds w s r :=
  (run_of_run (fun _ _ _ _ _ h => proceeds_of_call h) (fun _ _ _ _ _ _ h => h) h).2

/-! ## More depth -/

theorem call_succ_of_call (h : call depth i s w = some r) : call (depth + 1) i s w = some r := by
  induction depth generalizing i s w r with
  | zero => cases h
  | succ depth ih =>
    rw [call_succ] at h ⊢
    cases htarget : w.target? i with
    | none => rwa [htarget] at h
    | some a =>
      rw [htarget] at h
      exact (run_of_run (fun _ _ _ _ _ h => proceeds_of_call h) (fun _ _ _ _ _ _ h => ih h) h).1

/-- A use that comes to an end gives the same at every larger depth. -/
theorem call_mono (hle : depth ≤ depth') (h : call depth i s w = some r) : call depth' i s w = some r := by
  induction hle with
  | refl => exact h
  | step _ ih => exact call_succ_of_call ih

/-! ## The least depth -/

/-- The least depth at which the use of a reference comes to an end. -/
def IsDepth (depth i : Nat) (s : Text) (w : World) : Prop :=
  (∃ r, call depth i s w = some r) ∧ ∀ less < depth, call less i s w = none

namespace IsDepth

theorem unique (h : IsDepth depth i s w) (h' : IsDepth depth' i s w) : depth = depth' := by
  obtain ⟨⟨r, hr⟩, hless⟩ := h
  obtain ⟨⟨r', hr'⟩, hless'⟩ := h'
  rcases Nat.lt_trichotomy depth depth' with hlt | heq | hlt
  · rw [hless' depth hlt] at hr
    cases hr
  · exact heq
  · rw [hless depth' hlt] at hr'
    cases hr'

theorem of_call (h : call depth i s w = some r) : ∃ least ≤ depth, IsDepth least i s w := by
  classical
  have hex : ∃ d, ∃ r, call d i s w = some r := ⟨depth, r, h⟩
  refine ⟨Nat.find hex, Nat.find_min' hex ⟨r, h⟩, Nat.find_spec hex, fun less hless => ?_⟩
  rw [Option.eq_none_iff_forall_ne_some]
  exact fun r hr => Nat.find_min hex hless ⟨r, hr⟩

/-- A reference that is not there leads nowhere, which takes no depth. -/
theorem lt_length (h : IsDepth (depth + 2) i s w) : i < w.references.length := by
  refine Nat.lt_of_not_le fun hle => ?_
  have htarget : w.target? i = none := by
    unfold World.target?
    rw [List.getElem?_eq_none hle]
    rfl
  have hone := h.2 1 (by omega)
  rw [call_succ, htarget] at hone
  cases hone

/-- Inside the use of a reference there is one that is nested one less deeply. -/
theorem exists_inner (h : IsDepth (depth + 2) i s w) :
    ∃ j s' u, s' <:+ s ∧ w.Reaches u ∧ IsDepth (depth + 1) j s' u := by
  by_contra hnone
  obtain ⟨⟨r, hr⟩, hless⟩ := h
  -- if each use inside came to an end at a smaller depth, so would this one
  have hends (j : Nat) (s' : Text) (u : World) (r : Option (Value × Text) × World) (hs' : s' <:+ s)
      (hu : (w.resolve i).Reaches u) (h : call (depth + 1) j s' u = some r) : call depth j s' u = some r := by
    obtain ⟨least, hle, hleast⟩ := of_call h
    have hne : least ≠ depth + 1 := by
      rintro rfl
      exact hnone ⟨j, s', u, hs', (World.Reaches.use .refl i).trans hu, hleast⟩
    obtain ⟨⟨r', hr'⟩, _⟩ := hleast
    rw [call_mono hle hr'] at h
    cases h
    exact call_mono (by omega) hr'
  have hgone := hless (depth + 1) (Nat.lt_succ_self _)
  rw [call_succ] at hr hgone
  cases htarget : w.target? i with
  | none =>
    rw [htarget] at hgone
    cases hgone
  | some a =>
    rw [htarget] at hr hgone
    have hrun := (run_of_run (fun _ _ _ _ _ h => proceeds_of_call h) hends hr).1
    exact Option.some_ne_none r (hrun.symm.trans hgone)

/-- **A use that comes to an end is not nested deeply.** -/
theorem le (h : IsDepth depth i s w) :
    depth ≤ (s.length + w.fresh + 1) * (w.references.length + 1) := by
  induction hm : s.length + w.fresh using Nat.strongRecOn generalizing i s w depth with
  | ind m ih =>
    generalize hn : w.references.length = n
    by_contra hlt
    rw [Nat.not_le, Nat.succ_mul] at hlt
    -- there are uses of all smaller depths, and the deeper ones are at the same place in the same world
    have hall (k : Nat) (hk : k + (m * (n + 1) + 2) ≤ depth) : ∃ j < n, IsDepth (depth - k) j s w := by
      induction k with
      | zero =>
        obtain ⟨d, rfl⟩ : ∃ d, depth = d + 2 := ⟨depth - 2, by omega⟩
        exact ⟨i, hn ▸ h.lt_length, h⟩
      | succ k ihk =>
        obtain ⟨j, _, hj⟩ := ihk (by omega)
        clear ihk
        obtain ⟨d, hd⟩ : ∃ d, depth - k = d + 3 := ⟨depth - k - 3, by omega⟩
        rw [hd] at hj
        obtain ⟨j', s', u, hs', hu, hinner⟩ := exists_inner hj
        have hlength := hs'.length_le
        have hsame : ¬s'.length + u.fresh < m := by
          intro hless
          have hle := ih _ hless hinner rfl
          rw [hu.length_eq, hn] at hle
          have := Nat.mul_le_mul_right (n + 1) (show s'.length + u.fresh + 1 ≤ m from hless)
          omega
        rcases hu.eq_or_fresh_lt with rfl | hfresh
        · have heq : s' = s := hs'.eq_of_length (by omega)
          have hdepth : depth - (k + 1) = d + 2 := by omega
          rw [heq] at hinner
          rw [hdepth]
          exact ⟨j', hn ▸ hinner.lt_length, hinner⟩
        · omega
    have hcard : (Finset.Icc (m * (n + 1) + 2) depth).card ≤ (Finset.range n).card := by
      refine Finset.card_le_card_of_forall_subsingleton (fun d j => IsDepth d j s w) ?_ ?_
      · intro d hd
        rw [Finset.mem_Icc] at hd
        obtain ⟨j, hj, hdepth⟩ := hall (depth - d) (by omega)
        rw [show depth - (depth - d) = d by omega] at hdepth
        exact ⟨j, Finset.mem_range.mpr hj, hdepth⟩
      · intro j _ d hd d' hd'
        exact unique hd.2 hd'.2
    rw [Nat.card_Icc, Finset.card_range] at hcard
    omega

end IsDepth

/-! ## The depth of a parse -/

/-- **The depth of a parse does not matter.** A parse gives what it gives at any depth at which it comes to
an end, so it gives nothing only if it does not come to an end at all. -/
theorem parse_eq_some_iff : a.parse s w = some r ↔ ∃ depth, run (call depth) a s w = some r := by
  constructor
  · exact fun h => ⟨_, h⟩
  rintro ⟨depth, h⟩
  refine (run_of_run (fun _ _ _ _ _ h => proceeds_of_call h) ?_ h).1
  intro j s' u r hs' hu hr
  obtain ⟨least, hle, hleast⟩ := IsDepth.of_call hr
  obtain ⟨r', hr'⟩ := hleast.1
  rw [call_mono hle hr'] at hr
  cases hr
  refine call_mono (hleast.le.trans ?_) hr'
  have hlength := hs'.length_le
  have hfresh : u.fresh ≤ w.references.length := u.fresh_le.trans hu.length_eq.le
  rw [hu.length_eq, World.depth]
  calc (s'.length + u.fresh + 1) * (w.references.length + 1)
      ≤ ((w.references.length + 1) * (s.length + 1)) * (w.references.length + 1) := by
        refine Nat.mul_le_mul_right _ ?_
        rw [Nat.mul_succ, Nat.succ_mul]
        have := Nat.zero_le (w.references.length * s.length)
        omega
    _ = (w.references.length + 1) * (w.references.length + 1) * (s.length + 1) :=
        Nat.mul_right_comm _ _ _

theorem proceeds_of_parse (h : a.parse s w = some r) : Proceeds w s r := proceeds_of_run h

end RoutePattern.Assembly
