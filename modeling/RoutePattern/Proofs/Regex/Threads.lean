import RoutePattern.Proofs.Regex.Backtrack

/-!
# Threads against backtracking

Running all threads at once gives the match that backtracking finds. The proof goes place by place.

* A thread that comes to nothing leaves behind, at its place, only instructions that come to nothing,
  and at the next place only threads that come to nothing (`settle_dead`).
* The first thread that comes to a match is not stopped at a visited instruction. Those in front of it
  have visited only instructions that come to nothing, and its own way does not come back to one of its
  instructions at the same place, because fewer steps are left there (`settle_alive`).

## Main definitions

* `Regex.FirstEnd` — the first complete match among threads.
* `Regex.Settled.Leads` — the match that the threads of a place have been left with.
* `Regex.run_anchored` — `run` finds the first complete match among its threads.
-/

namespace RoutePattern.Regex

variable {code : Code} {before : Option Char} {rest : Text}

/-- The whole match of a thread that comes to an end. -/
def Ending.way (e : Ending) (t : Thread) : Way := ⟨t.start, e.1 ++ t.marks, e.2⟩

/-! ## The first complete match -/

/-- The first complete match among threads, where those behind it do not matter. -/
inductive FirstEnd (code : Code) (before : Option Char) (rest : Text) : List Thread → Option Way → Prop
  | nil : FirstEnd code before rest [] none
  | hit {t : Thread} {ts : List Thread} {e : Ending} (h : Ends code t.state before rest (some e)) :
    FirstEnd code before rest (t :: ts) (some (e.way t))
  | miss {t : Thread} {ts : List Thread} {w : Option Way} (h : Ends code t.state before rest none)
    (hts : FirstEnd code before rest ts w) : FirstEnd code before rest (t :: ts) w

/-- All of these threads come to nothing. -/
def Dead (code : Code) (before : Option Char) (rest : Text) (ts : List Thread) : Prop :=
  ∀ t ∈ ts, Ends code t.state before rest none

theorem Dead.nil (code : Code) (before : Option Char) (rest : Text) : Dead code before rest [] := by
  simp [Dead]

theorem Dead.cons {ts : List Thread} {t : Thread} (h : Dead code before rest ts)
    (ht : Ends code t.state before rest none) : Dead code before rest (t :: ts) := by
  intro u hu
  rcases List.mem_cons.mp hu with rfl | hu
  · exact ht
  · exact h u hu

theorem Dead.reverse {ts : List Thread} (h : Dead code before rest ts) :
    Dead code before rest ts.reverse := fun t ht => h t (List.mem_reverse.mp ht)

namespace FirstEnd

theorem of_dead {ts us : List Thread} {w : Option Way} (h : Dead code before rest ts)
    (hus : FirstEnd code before rest us w) : FirstEnd code before rest (ts ++ us) w := by
  induction ts with
  | nil => exact hus
  | cons t ts ih =>
    exact miss (h t List.mem_cons_self) (ih fun u hu => h u (List.mem_cons_of_mem t hu))

theorem append {ts : List Thread} {w : Way} (h : FirstEnd code before rest ts (some w))
    (us : List Thread) : FirstEnd code before rest (ts ++ us) (some w) := by
  generalize hw : some w = v at h
  induction h with
  | nil => cases hw
  | hit h => exact hit h
  | miss h _ ih => exact miss h (ih hw)

theorem dead {ts : List Thread} (h : Dead code before rest ts) : FirstEnd code before rest ts none := by
  have := of_dead h nil
  rwa [List.append_nil] at this

end FirstEnd

/-! ## One place -/

/-- The match that the threads of a place have been left with: one of a thread that goes on or, failing
that, the one that is complete. -/
def Settled.Leads (code : Code) (rest : Text) (s : Settled) (w : Option Way) : Prop :=
  ∃ v, FirstEnd code rest.head? rest.tail s.ahead v ∧
    v.or (s.complete.map fun t => ⟨t.start, t.marks, rest⟩) = w

section Settle

variable {visited : Visited} {ahead todo : List Thread} {t : Thread}

theorem settle_visited (hv : visited.has t.state = true) :
    settle code before rest visited ahead (t :: todo) =
      settle code before rest visited ahead todo := by
  rw [settle, dif_pos hv]

theorem settle_fate {instr : Instr} (hv : visited.has t.state = false)
    (hi : code[t.state]? = some instr) :
    settle code before rest visited ahead (t :: todo) =
      match t.fate before rest instr with
      | .gone => settle code before rest (visited.insert t.state) ahead todo
      | .here t' => settle code before rest (visited.insert t.state) ahead (t' :: todo)
      | .fork t₁ t₂ => settle code before rest (visited.insert t.state) ahead (t₁ :: t₂ :: todo)
      | .ahead t' => settle code before rest (visited.insert t.state) (t' :: ahead) todo
      | .complete => ⟨ahead.reverse, some t, visited.insert t.state⟩ := by
  rw [settle, dif_neg (by simp [hv])]
  split
  · next hn => rw [hi] at hn; cases hn
  · next instr' hi' =>
    rw [hi] at hi'
    cases hi'
    rfl

theorem settle_none (hi : code[t.state]? = none) :
    settle code before rest visited ahead (t :: todo) =
      settle code before rest visited ahead todo := by
  rw [settle]
  split
  · rfl
  · split
    · rfl
    · next hi' => rw [hi] at hi'; cases hi'

/-- The threads that are ahead already stay in front. -/
theorem settle_ahead (code : Code) (before : Option Char) (rest : Text) (visited : Visited)
    (ahead ts : List Thread) :
    ∃ more, (settle code before rest visited ahead ts).ahead = ahead.reverse ++ more := by
  fun_induction settle code before rest visited ahead ts
  case case1 | case8 => exact ⟨[], by simp⟩
  case case2 ih | case3 ih | case4 ih | case5 ih | case6 ih => exact ih
  case case7 t' _ ih =>
    obtain ⟨more, hm⟩ := ih
    exact ⟨t' :: more, by rw [hm]; simp⟩

theorem size_settle (code : Code) (before : Option Char) (rest : Text) (visited : Visited)
    (ahead ts : List Thread) :
    (settle code before rest visited ahead ts).visited.places.size = visited.places.size := by
  fun_induction settle code before rest visited ahead ts
  case case1 => rfl
  case case2 ih | case3 ih => exact ih
  case case4 ih | case5 ih | case6 ih | case7 ih => exact ih.trans (Visited.size_insert _ _)
  case case8 => exact Visited.size_insert _ _

/-- At the end of the text no thread goes on. -/
theorem settle_end (ts : List Thread) :
    (settle code before [] visited ahead ts).ahead = ahead.reverse := by
  fun_induction settle code before [] visited ahead ts
  case case1 | case8 => rfl
  case case2 ih | case3 ih | case4 ih | case5 ih | case6 ih => exact ih
  case case7 instr _ _ _ hf _ =>
    -- only a character that is taken leads to the next place
    cases instr <;> simp only [Thread.fate, List.head?_nil, Option.any_none] at hf
    all_goals (try split at hf) <;> cases hf

/-- What a thread that comes to nothing leaves behind. -/
theorem settle_dead {n : Nat} (visited : Visited) (todo : List Thread)
    (h : backtrack code n t.state before rest = some none)
    (ha : Dead code rest.head? rest.tail ahead) :
    ∃ visited' ahead', settle code before rest visited ahead (t :: todo) =
        settle code before rest visited' ahead' todo ∧
      Dead code rest.head? rest.tail ahead' ∧
      ∀ j, visited'.has j = true → visited.has j = true ∨ Ends code j before rest none := by
  induction n generalizing t visited ahead todo with
  | zero => simp [backtrack] at h
  | succ n ih =>
    by_cases hv : visited.has t.state = true
    · exact ⟨visited, ahead, settle_visited hv, ha, fun j hj => Or.inl hj⟩
    rw [Bool.not_eq_true] at hv
    have hins : ∀ j, (visited.insert t.state).has j = true →
        visited.has j = true ∨ Ends code j before rest none := by
      intro j hj
      rw [Visited.has_insert, Bool.or_eq_true, beq_iff_eq] at hj
      rcases hj with hj | rfl
      · exact Or.inl hj
      · exact Or.inr ⟨n + 1, h⟩
    -- what a thread in its stead leaves behind, once this instruction is visited
    have hgo {t' : Thread} (h' : backtrack code n t'.state before rest = some none) :
        ∃ visited' ahead', settle code before rest (visited.insert t.state) ahead (t' :: todo) =
            settle code before rest visited' ahead' todo ∧
          Dead code rest.head? rest.tail ahead' ∧
          ∀ j, visited'.has j = true → visited.has j = true ∨ Ends code j before rest none := by
      obtain ⟨visited', ahead', hs, ha', hv'⟩ := ih (visited.insert t.state) todo h' ha
      exact ⟨visited', ahead', hs, ha', fun j hj => (hv' j hj).elim (hins j) Or.inr⟩
    rw [backtrack] at h
    split at h
    · next hi => exact ⟨visited, ahead, settle_none hi, ha, fun j hj => Or.inl hj⟩
    · next cls next hi =>
      rw [settle_fate hv hi, Thread.fate]
      split at h
      · next hc =>
        rw [if_pos hc]
        exact ⟨_, _, rfl, ha.cons ⟨n, h⟩, hins⟩
      · next hc =>
        rw [if_neg hc]
        exact ⟨_, _, rfl, ha, hins⟩
    · next place next hi =>
      rw [settle_fate hv hi, Thread.fate]
      split at h
      · next hp =>
        rw [if_pos hp]
        exact hgo h
      · next hp =>
        rw [if_neg hp]
        exact ⟨_, _, rfl, ha, hins⟩
    · next k opens next hi =>
      rw [settle_fate hv hi, Thread.fate]
      obtain ⟨e, he, hn⟩ := Option.map_eq_some_iff.mp h
      rw [Option.map_eq_none_iff] at hn
      exact hgo (hn ▸ he)
    · next first second hi =>
      rw [settle_fate hv hi, Thread.fate]
      split at h
      · cases h
      · cases h
      · -- the second way starts with what the first one has left behind
        next hfirst =>
        obtain ⟨visited₁, ahead₁, hs₁, ha₁, hv₁⟩ :=
          ih (t := { t with state := first }) _ ({ t with state := second } :: todo) hfirst ha
        obtain ⟨visited₂, ahead₂, hs₂, ha₂, hv₂⟩ :=
          ih (t := { t with state := second }) visited₁ todo h ha₁
        refine ⟨visited₂, ahead₂, hs₁.trans hs₂, ha₂, fun j hj => ?_⟩
        rcases hv₂ j hj with hj | hj
        · exact (hv₁ j hj).elim (hins j) Or.inr
        · exact Or.inr hj
    · next next hi =>
      rw [settle_fate hv hi, Thread.fate]
      exact hgo h
    · cases h

/-- The first thread that comes to a match decides the place. -/
theorem settle_alive {n : Nat} {e : Ending} (todo : List Thread)
    (h : backtrack code n t.state before rest = some (some e))
    (ha : Dead code rest.head? rest.tail ahead)
    (hv : ∀ j, visited.has j = true → ∀ e', backtrack code n j before rest ≠ some (some e')) :
    (settle code before rest visited ahead (t :: todo)).Leads code rest (some (e.way t)) := by
  induction n generalizing t visited ahead todo e with
  | zero => simp [backtrack] at h
  | succ n ih =>
    by_cases hn : ∃ e', backtrack code n t.state before rest = some (some e')
    · obtain ⟨e', he'⟩ := hn
      have heq : e' = e := by simpa [backtrack_succ he'] using h
      exact ih todo (heq ▸ he') ha fun j hj e' hj' => hv j hj e' (backtrack_succ hj')
    -- fewer steps are not enough from here, so its own way does not come back here
    have hunv : visited.has t.state = false :=
      Bool.eq_false_iff.mpr fun hj => hv _ hj e h
    have hv' : ∀ j, (visited.insert t.state).has j = true →
        ∀ e', backtrack code n j before rest ≠ some (some e') := by
      intro j hj e' hj'
      rw [Visited.has_insert, Bool.or_eq_true, beq_iff_eq] at hj
      rcases hj with hj | rfl
      · exact hv j hj e' (backtrack_succ hj')
      · exact hn ⟨e', hj'⟩
    rw [backtrack] at h
    split at h
    · cases h
    · next cls next hi =>
      rw [settle_fate hunv hi, Thread.fate]
      split at h
      · next hc =>
        rw [if_pos hc]
        obtain ⟨more, hm⟩ := settle_ahead code before rest (visited.insert t.state)
          ({ t with state := next } :: ahead) todo
        -- the threads ahead of it come to nothing, and those behind it do not matter
        refine ⟨some (e.way t), ?_, Option.some_or⟩
        rw [hm, List.reverse_cons, List.append_assoc]
        exact .of_dead ha.reverse (.append (.hit ⟨n, h⟩) more)
      · cases h
    · next place next hi =>
      rw [settle_fate hunv hi, Thread.fate]
      split at h
      · next hp =>
        rw [if_pos hp]
        exact ih (t := { t with state := next }) todo h ha hv'
      · cases h
    · next k opens next hi =>
      rw [settle_fate hunv hi, Thread.fate]
      obtain ⟨e₀, he₀, hmark⟩ := Option.map_eq_some_iff.mp h
      obtain ⟨e₁, rfl, rfl⟩ := Option.map_eq_some_iff.mp hmark
      have := ih (t := { t with state := next, marks := ⟨k, opens, rest⟩ :: t.marks })
        todo he₀ ha hv'
      simpa [Ending.way, Ending.behind] using this
    · next first second hi =>
      rw [settle_fate hunv hi, Thread.fate]
      split at h
      · cases h
      · next hfirst =>
        cases h
        exact ih (t := { t with state := first }) _ hfirst ha hv'
      · -- the first way has visited only what comes to nothing
        next hfirst =>
        obtain ⟨visited₁, ahead₁, hs₁, ha₁, hv₁⟩ :=
          settle_dead (t := { t with state := first }) (visited.insert t.state)
            ({ t with state := second } :: todo) hfirst ha
        simp only [hs₁]
        refine ih (t := { t with state := second }) todo h ha₁ fun j hj e' hj' => ?_
        rcases hv₁ j hj with hj | hj
        · exact hv' j hj e' hj'
        · cases hj.unique ⟨n, hj'⟩
    · next next hi =>
      rw [settle_fate hunv hi, Thread.fate]
      exact ih (t := { t with state := next }) todo h ha hv'
    · next hi =>
      cases h
      rw [settle_fate hunv hi, Thread.fate]
      exact ⟨none, .dead ha.reverse, rfl⟩

/-- The threads of a place are left with their first complete match. -/
theorem settle_leads {w : Option Way} (h : FirstEnd code before rest todo w)
    (ha : Dead code rest.head? rest.tail ahead)
    (hv : ∀ j, visited.has j = true → ∀ e, ¬ Ends code j before rest (some e)) :
    (settle code before rest visited ahead todo).Leads code rest w := by
  induction h generalizing visited ahead with
  | nil =>
    rw [settle]
    exact ⟨none, .dead ha.reverse, rfl⟩
  | hit h =>
    obtain ⟨n, hn⟩ := h
    exact settle_alive _ hn ha fun j hj e he => hv j hj e ⟨n, he⟩
  | miss h _ ih =>
    obtain ⟨n, hn⟩ := h
    obtain ⟨visited', ahead', hs, ha', hv'⟩ := settle_dead visited _ hn ha
    rw [hs]
    refine ih ha' fun j hj e he => ?_
    rcases hv' j hj with hj | hj
    · exact hv j hj e he
    · cases hj.unique he

end Settle

/-! ## A whole text -/

/-- Nothing is visited but what is not there. -/
structure Unvisited (code : Code) (visited : Visited) : Prop where
  size_eq : visited.places.size = code.size
  le_of_has : ∀ j, visited.has j = true → code.size ≤ j

theorem unvisited_start (code : Code) : Unvisited code (.start code.size) where
  size_eq := by simp [Visited.start]
  le_of_has j hj := by rwa [Visited.has_start, decide_eq_true_eq] at hj

theorem unvisited_forget {visited : Visited} (h : visited.places.size = code.size) :
    Unvisited code visited.forget where
  size_eq := h
  le_of_has j hj := by rwa [Visited.has_forget, decide_eq_true_eq, h] at hj

theorem Unvisited.not_ends {visited : Visited} (h : Unvisited code visited) {j : Nat}
    (hj : visited.has j = true) (e : Ending) : ¬ Ends code j before rest (some e) := by
  rintro ⟨n, hn⟩
  have hnone : code[j]? = none := Array.getElem?_eq_none (h.le_of_has j hj)
  cases n with
  | zero => simp [backtrack] at hn
  | succ n => simp [backtrack, hnone] at hn

/-- **The threads of a run find the first complete match among them.** -/
theorem run_anchored {visited : Visited} {threads : List Thread} {best w : Option Way}
    (hv : Unvisited code visited) (h : FirstEnd code before rest threads w) :
    run code true before rest visited best threads = w.or best := by
  induction rest generalizing before visited threads best w with
  | nil =>
    obtain ⟨v, hf, hw⟩ := settle_leads h (Dead.nil _ _ _) fun j => hv.not_ends
    rw [settle_end] at hf
    cases hf
    rw [run, ← hw, Option.none_or]
  | cons c rest ih =>
    obtain ⟨v, hf, hw⟩ := settle_leads h (Dead.nil _ _ _) fun j => hv.not_ends
    have hv' := unvisited_forget
      ((size_settle code before (c :: rest) visited [] threads).trans hv.size_eq)
    rw [run, Bool.true_or, if_pos rfl, ← hw]
    split
    · next hempty =>
      rw [List.isEmpty_iff.mp hempty] at hf
      cases hf
      rw [Option.none_or]
    · -- what the threads ahead find is preferred to what is complete here
      exact (ih hv' hf).trans Option.or_assoc.symm

end RoutePattern.Regex
