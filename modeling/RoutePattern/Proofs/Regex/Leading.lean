import RoutePattern.Proofs.Regex.Threads

/-!
# Matches at the start of the text

A regex whose matches can begin at the start of the text only has one thread at first, and no other one is
begun further on. Threads do not forget where they began.

## Main definitions

* `Regex.IsLeading` — the matches of a regex begin at the first character.
* `Regex.isLeading_of_beginsAt` — so do those of a regex that has to begin there.
-/

namespace RoutePattern.Regex

/-- A regex whose matches begin at the first character. -/
def IsLeading (r : Regex) : Prop := ∀ s way, r.way? s = some way → way.start = s

variable {code : Code} {before : Option Char} {s start : Text} {visited : Visited}

/-- The threads that one goes on as. -/
def threadsOf : Thread.Fate → List Thread
  | .here t | .ahead t => [t]
  | .fork first second => [first, second]
  | .gone | .complete => []

/-- A thread that goes on began where it began. -/
theorem start_of_fate {t t' : Thread} {instr : Instr} {fate : Thread.Fate} (h : t.fate before s instr = fate)
    (ht' : t' ∈ threadsOf fate) : t'.start = t.start := by
  subst h
  cases instr with
  | set cls next | look place next =>
    unfold Thread.fate at ht'
    dsimp only at ht'
    split at ht'
    · obtain rfl := List.mem_singleton.mp ht'
      rfl
    · cases ht'
  | mark | jump =>
    obtain rfl := List.mem_singleton.mp ht'
    rfl
  | split first second =>
    rcases List.mem_cons.mp ht' with rfl | ht'
    · rfl
    · obtain rfl := List.mem_singleton.mp ht'
      rfl
  | accept => cases ht'

/-- Threads at one place that began together go on, and are complete, as threads that began there. -/
theorem settle_start {ahead todo : List Thread} (hahead : ∀ t ∈ ahead, t.start = start)
    (htodo : ∀ t ∈ todo, t.start = start) :
    (∀ t ∈ (settle code before s visited ahead todo).ahead, t.start = start) ∧
      ∀ t ∈ (settle code before s visited ahead todo).complete, t.start = start := by
  fun_induction settle code before s visited ahead todo with
  | case1 => exact ⟨by simpa using hahead, fun t ht => by cases ht⟩
  | case2 visited ahead t todo hv ih => exact ih hahead fun t' ht' => htodo t' (.tail _ ht')
  | case3 visited ahead t todo hv hlt hi ih => exact ih hahead fun t' ht' => htodo t' (.tail _ ht')
  | case4 visited ahead t todo hv hlt instr hi visited' hfate ih =>
    exact ih hahead fun t' ht' => htodo t' (.tail _ ht')
  | case5 visited ahead t todo hv hlt instr hi visited' t' hfate ih =>
    obtain ⟨ht, htodo⟩ := List.forall_mem_cons.mp htodo
    have ht' : t'.start = t.start := start_of_fate hfate (.head _)
    exact ih hahead (List.forall_mem_cons.mpr ⟨ht'.trans ht, htodo⟩)
  | case6 visited ahead t todo hv hlt instr hi visited' t₁ t₂ hfate ih =>
    obtain ⟨ht, htodo⟩ := List.forall_mem_cons.mp htodo
    have ht₁ : t₁.start = t.start := start_of_fate hfate (.head _)
    have ht₂ : t₂.start = t.start := start_of_fate hfate (.tail _ (.head _))
    exact ih hahead (List.forall_mem_cons.mpr ⟨ht₁.trans ht, List.forall_mem_cons.mpr ⟨ht₂.trans ht, htodo⟩⟩)
  | case7 visited ahead t todo hv hlt instr hi visited' t' hfate ih =>
    obtain ⟨ht, htodo⟩ := List.forall_mem_cons.mp htodo
    have ht' : t'.start = t.start := start_of_fate hfate (.head _)
    exact ih (List.forall_mem_cons.mpr ⟨ht'.trans ht, hahead⟩) htodo
  | case8 visited ahead t todo hv hlt instr hi visited' hfate =>
    refine ⟨by simpa using hahead, ?_⟩
    rintro t' ⟨⟩
    exact htodo t (.head _)

/-- Threads that began at some place lead to a match that begins there. -/
theorem start_of_run {best : Option Way} {threads : List Thread} {way : Way}
    (hbest : ∀ w ∈ best, w.start = start) (hthreads : ∀ t ∈ threads, t.start = start)
    (h : run code true before s visited best threads = some way) : way.start = start := by
  have htaken {best : Option Way} (hbest : ∀ w ∈ best, w.start = start) (s : Text) {found : Option Thread}
      (hfound : ∀ t ∈ found, t.start = start) :
      ∀ w ∈ (found.map fun t => (⟨t.start, t.marks, s⟩ : Way)).or best, w.start = start := by
    cases found with
    | none => exact hbest
    | some t =>
      rintro w ⟨⟩
      exact hfound t rfl
  induction s generalizing before visited best threads with
  | nil =>
    rw [run] at h
    exact htaken hbest _ (settle_start (List.forall_mem_nil _) hthreads).2 way h
  | cons c s ih =>
    obtain ⟨hahead, hcomplete⟩ :
        (∀ t ∈ (settle code before (c :: s) visited [] threads).ahead, t.start = start) ∧
          ∀ t ∈ (settle code before (c :: s) visited [] threads).complete, t.start = start :=
      settle_start (List.forall_mem_nil _) hthreads
    rw [run, Bool.true_or, if_pos rfl] at h
    split at h
    · exact htaken hbest _ hcomplete way h
    · exact ih (htaken hbest _ hcomplete) hahead h

/-- **A regex that has to begin at the start of the text** only matches at the first character. -/
theorem isLeading_of_beginsAt {r : Regex} (h : r.reduced.beginsAt .textStart = true) : r.IsLeading := by
  intro s way hway
  unfold way? at hway
  simp only [h] at hway
  have hbest : ∀ w ∈ (none : Option Way), w.start = s := nofun
  have hthreads : ∀ t ∈ [(⟨0, s, []⟩ : Thread)], t.start = s := by simp
  exact start_of_run hbest hthreads hway

/-- What stands behind the start of the text has to begin there. -/
theorem isLeading_anchored (r : Regex) : (Regex.seq (.look .textStart) r).IsLeading := by
  apply isLeading_of_beginsAt
  show (ofAlternatives (andThen (.look .textStart) (ofAlternatives r.branches)).choices).beginsAt .textStart = true
  cases ofAlternatives r.branches <;> rfl

end RoutePattern.Regex
