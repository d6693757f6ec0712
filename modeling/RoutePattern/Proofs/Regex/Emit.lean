import RoutePattern.Proofs.Regex.Threads
import RoutePattern.Proofs.Regex.Walk

/-!
# The code of a regex

The code of a part goes through the part in one way after another, in the order of its ways, until the
instruction behind it comes to a match (`RunsAt`). This is said of code that may be continued in any
manner, since more instructions are written behind those of a part.

A repetition without bound leads back to its own front. Its code is right at a place because it is
right at all later places, and a round leads to one of these.

## Main definitions

* `Regex.Begins` — code that another code begins with.
* `Regex.RunsAt` — code that goes through the ways of a part.
* `Regex.Emits` — a part that is written with such code.
* `Regex.ends_program` — the program of a regex comes to the first of its ways.
-/

namespace RoutePattern.Regex

variable {code pre : Code} {before : Option Char} {rest : Text}

/-! ## Code that is continued -/

/-- Does the code begin with the instructions of `pre`? -/
def Begins (pre code : Code) : Prop :=
  ∀ (i : Nat) (instr : Instr), pre[i]? = some instr → code[i]? = some instr

theorem Begins.refl (code : Code) : Begins code code := fun _ _ hi => hi

theorem Begins.trans {mid : Code} (h : Begins pre mid) (h' : Begins mid code) : Begins pre code :=
  fun i instr hi => h' i instr (h i instr hi)

theorem begins_push (code : Code) (instr : Instr) : Begins code (code.push instr) := by
  intro i _ hi
  obtain ⟨hlt, _⟩ := Array.getElem?_eq_some_iff.mp hi
  rw [Array.getElem?_push, if_neg (Nat.ne_of_lt hlt)]
  exact hi

/-- The instruction that was written last. -/
theorem Begins.last {instr : Instr} (h : Begins (pre.push instr) code) :
    code[pre.size]? = some instr :=
  h _ _ Array.getElem?_push_size

/-! ## Code that goes through ways -/

/-- The end of a match that goes through a part first. -/
def Passage.reach (p : Passage) (e : Ending) : Ending := (e.1 ++ p.marks, e.2)

theorem Passage.reach_stay (before : Option Char) (rest : Text) (e : Ending) :
    Passage.reach ⟨[], before, rest⟩ e = e := by
  simp [reach]

theorem Passage.reach_andThen (p q : Passage) : (p.andThen q).reach = p.reach ∘ q.reach := by
  funext e
  simp [reach, andThen]

theorem Passage.reach_inGroup (index : Nat) (start : Text) (p : Passage) :
    (p.inGroup index start).reach =
      Ending.behind ⟨index, true, start⟩ ∘ p.reach ∘ Ending.behind ⟨index, false, p.rest⟩ := by
  funext e
  simp [reach, inGroup, Ending.behind]

theorem findSome?_flatMap {α β γ : Type} (f : β → Option γ) (g : α → List β) (l : List α) :
    (l.flatMap g).findSome? f = l.findSome? fun x => (g x).findSome? f := by
  induction l with
  | nil => rfl
  | cons x l ih =>
    rw [List.flatMap_cons, List.findSome?_append, ih, List.findSome?_cons]
    cases (g x).findSome? f <;> rfl

/-- From the instruction `i` at this place, the code goes through these ways in order until the
instruction `next` comes to a match. -/
def RunsAt (code : Code) (i next : Nat) (before : Option Char) (rest : Text) (ps : List Passage) : Prop :=
  ∀ k : Option Char → Text → Option Ending,
    (∀ p ∈ ps, Ends code next p.before p.rest (k p.before p.rest)) →
      Ends code i before rest (ps.findSome? fun p => (k p.before p.rest).map p.reach)

namespace RunsAt

open Walk

variable {i mid next : Nat} {a b : Walk} {ps : List Passage}

theorem stay (code : Code) (i : Nat) (before : Option Char) (rest : Text) :
    RunsAt code i i before rest (Walk.stay before rest) := by
  intro k hk
  have h : Ends code i before rest (k before rest) := hk _ (List.mem_singleton_self _)
  rw [Walk.stay, List.findSome?_singleton]
  cases hk' : k before rest with
  | none => rwa [hk'] at h
  | some e => rwa [hk', ← Passage.reach_stay before rest e] at h

theorem jump (hi : code[i]? = some (.jump next)) :
    RunsAt code i next before rest (Walk.stay before rest) :=
  fun k hk => .jump hi (stay code next before rest k hk)

theorem one {cls : CharClass} (hi : code[i]? = some (.set cls next)) :
    RunsAt code i next before rest (Walk.one cls before rest) := by
  intro k hk
  unfold Walk.one at hk ⊢
  split
  · next hc =>
    rw [if_pos hc] at hk
    refine .take hi hc ?_
    exact stay code next rest.head? rest.tail k hk
  · next hc => exact .stuck hi (Bool.eq_false_iff.mpr hc)

theorem check {place : Look} (hi : code[i]? = some (.look place next)) :
    RunsAt code i next before rest (Walk.check place before rest) := by
  intro k hk
  unfold Walk.check at hk ⊢
  split
  · next hp =>
    rw [if_pos hp] at hk
    exact .pass hi hp (stay code next before rest k hk)
  · next hp => exact .blocked hi (Bool.eq_false_iff.mpr hp)

theorem andThen (ha : RunsAt code i mid before rest (a before rest))
    (hb : ∀ p ∈ a before rest, RunsAt code mid next p.before p.rest (b p.before p.rest)) :
    RunsAt code i next before rest (a.andThen b before rest) := by
  intro k hk
  -- for the first part, the match goes on with the first way of the second part that comes to an end
  have h := ha (fun before rest => (b before rest).findSome? fun q => (k q.before q.rest).map q.reach)
    fun p hp => hb p hp k fun q hq => hk (p.andThen q) (mem_andThen.mpr ⟨p, hp, q, hq, rfl⟩)
  have hreach : ∀ p : Passage,
      ((b p.before p.rest).map p.andThen).findSome? (fun q => (k q.before q.rest).map q.reach) =
        ((b p.before p.rest).findSome? fun q => (k q.before q.rest).map q.reach).map p.reach := by
    intro p
    simp only [List.findSome?_map, List.map_findSome?, Function.comp_def, Passage.rest_andThen,
      Passage.before_andThen, Passage.reach_andThen, Option.map_map]
  rw [Walk.andThen, findSome?_flatMap]
  simp only [hreach]
  exact h

theorem orElse {first second : Nat} (hi : code[i]? = some (.split first second))
    (ha : RunsAt code first next before rest (a before rest))
    (hb : RunsAt code second next before rest (b before rest)) :
    RunsAt code i next before rest (a.orElse b before rest) := by
  intro k hk
  rw [Walk.orElse, List.findSome?_append]
  exact .split hi (ha k fun p hp => hk p (List.mem_append_left _ hp))
    (hb k fun p hp => hk p (List.mem_append_right _ hp))

theorem enter {greedy : Bool} {part : Nat} (hi : code[i]? = some (.enter greedy part next))
    (ha : RunsAt code part next before rest (a before rest)) :
    RunsAt code i next before rest (a.enter greedy before rest) := by
  cases greedy with
  | false => exact orElse hi (stay code next before rest) ha
  | true => exact orElse hi ha (stay code next before rest)

theorem captured {index : Nat} (hopen : code[i]? = some (.mark index true (i + 1)))
    (ha : RunsAt code (i + 1) mid before rest (a before rest))
    (hclose : code[mid]? = some (.mark index false next)) :
    RunsAt code i next before rest (a.captured index before rest) := by
  intro k hk
  have hk' : ∀ p ∈ a before rest, Ends code next p.before p.rest (k p.before p.rest) :=
    fun p hp => hk (p.inGroup index rest) (List.mem_map_of_mem hp)
  have h := Ends.mark hopen <| ha
    (fun before rest => (k before rest).map (Ending.behind ⟨index, false, rest⟩))
    fun p hp => .mark hclose (hk' p hp)
  rw [Walk.captured, List.findSome?_map]
  simpa only [List.map_findSome?, Function.comp_def, Passage.reach_inGroup, Passage.rest_inGroup,
    Passage.before_inGroup, Option.map_map] using h

/-- The code of a repetition whose rounds lead back to its front. -/
theorem many {greedy : Bool} {part : Nat} (hi : code[i]? = some (.enter greedy part next))
    (ht : Takes a) (ha : ∀ before rest, RunsAt code part i before rest (a before rest))
    (before : Option Char) (rest : Text) :
    RunsAt code i next before rest (a.many greedy before rest) := by
  induction hn : rest.length using Nat.strongRecOn generalizing before rest with
  | _ n ih =>
    rw [many_eq ht]
    -- a round takes a character, so the code is right at the place it leads to
    refine enter hi (andThen (ha before rest) fun p hp => ?_)
    exact ih p.rest.length (hn ▸ ht before rest p hp) p.before p.rest rfl

end RunsAt

/-! ## Parts that are written -/

/-- A part of so many instructions that is written with code for these ways. -/
structure Emits (part : Emit) (size : Nat) (a : Walk) : Prop where
  size_eq : ∀ next pre, (part next pre).size = pre.size + size
  begins : ∀ next pre, Begins pre (part next pre)
  runs : ∀ {next pre code}, Begins (part next pre) code →
    ∀ before rest, RunsAt code pre.size next before rest (a before rest)

section Emits

variable {part : Emit} {size : Nat} {a : Walk}

theorem begins_emitRounds (h : Emits part size a) (n : Nat) (pre : Code) :
    Begins pre (emitRounds size part n pre) := by
  induction n generalizing pre with
  | zero => exact .refl pre
  | succ n ih => exact (h.begins _ pre).trans (ih _)

theorem runs_emitRounds (h : Emits part size a) (n : Nat) {pre : Code}
    (hcode : Begins (emitRounds size part n pre) code) (before : Option Char) (rest : Text) :
    RunsAt code pre.size (pre.size + n * size) before rest (a.rounds n before rest) := by
  induction n generalizing pre before rest with
  | zero =>
    rw [Nat.zero_mul, Nat.add_zero]
    exact .stay code pre.size before rest
  | succ n ih =>
    have hpart := (begins_emitRounds h n (part (pre.size + size) pre)).trans hcode
    refine .andThen (h.runs hpart before rest) fun p _ => ?_
    have hrest := ih hcode p.before p.rest
    rwa [h.size_eq, Nat.add_assoc, Nat.add_comm size, ← Nat.succ_mul] at hrest

theorem begins_emitOptional (h : Emits part size a) (greedy : Bool) (n next : Nat) (pre : Code) :
    Begins pre (emitOptional greedy size part n next pre) := by
  induction n generalizing pre with
  | zero => exact begins_push pre _
  | succ n ih => exact ((begins_push pre _).trans (h.begins _ _)).trans (ih _)

theorem runs_emitOptional (h : Emits part size a) {greedy : Bool} (n : Nat) {next : Nat} {pre : Code}
    (hcode : Begins (emitOptional greedy size part n next pre) code) (before : Option Char)
    (rest : Text) : RunsAt code pre.size next before rest (a.upTo greedy n before rest) := by
  induction n generalizing pre before rest with
  | zero => exact .jump hcode.last
  | succ n ih =>
    have hpart := (begins_emitOptional h greedy n next _).trans hcode
    have henter := ((h.begins _ _).trans hpart).last
    refine .enter henter (.andThen ?_ fun p _ => ih hcode p.before p.rest)
    have hruns := h.runs hpart before rest
    rw [h.size_eq, Array.size_push]
    rwa [Array.size_push] at hruns

theorem begins_emitAny (h : Emits part size a) (greedy : Bool) (next : Nat) (pre : Code) :
    Begins pre (emitAny greedy part next pre) := (begins_push pre _).trans (h.begins _ _)

theorem runs_emitAny (h : Emits part size a) (ht : Walk.Takes a) {greedy : Bool} {next : Nat}
    {pre : Code} (hcode : Begins (emitAny greedy part next pre) code) (before : Option Char)
    (rest : Text) : RunsAt code pre.size next before rest (a.many greedy before rest) := by
  have henter := ((h.begins _ _).trans hcode).last
  refine .many henter ht (fun before rest => ?_) before rest
  have hruns := h.runs hcode before rest
  rwa [Array.size_push] at hruns

theorem begins_emitSome (h : Emits part size a) (greedy : Bool) (next : Nat) (pre : Code) :
    Begins pre (emitSome greedy size part next pre) := (h.begins _ _).trans (begins_push _ _)

theorem runs_emitSome (h : Emits part size a) (ht : Walk.Takes a) {greedy : Bool} {next : Nat}
    {pre : Code} (hcode : Begins (emitSome greedy size part next pre) code) (before : Option Char)
    (rest : Text) :
    RunsAt code pre.size next before rest (a.andThen (a.many greedy) before rest) := by
  have hpart := (begins_push _ _).trans hcode
  have henter := hcode.last
  rw [h.size_eq] at henter
  exact .andThen (h.runs hpart before rest) fun p _ =>
    .many henter ht (h.runs hpart) p.before p.rest

theorem begins_emitRepeated (h : Emits part size a) (times : Times) (nullable : Bool) (next : Nat)
    (pre : Code) : Begins pre (emitRepeated times nullable size part next pre) := by
  unfold emitRepeated
  split
  · exact (begins_emitRounds h _ pre).trans (begins_emitOptional h _ _ next _)
  · split
    · exact (begins_push pre _).trans (begins_emitSome h _ next _)
    · exact begins_emitAny h _ next pre
  · exact (begins_emitRounds h _ pre).trans (begins_emitSome h _ next _)

/-- A repetition of a part is written with code for its ways. Without an upper bound, each round has to
take a character. -/
theorem emits_repeated (h : Emits part size a) (times : Times) (nullable : Bool)
    (ht : times.max = none → nullable = false ∧ Walk.Takes a) :
    Emits (emitRepeated times nullable size part) (repeatedSize times nullable size)
      ((a.rounds times.min).andThen
        (match times.max with
          | some max => a.upTo times.greedy (max - times.min)
          | none => a.many times.greedy)) where
  size_eq := size_emitRepeated h.size_eq
  begins := begins_emitRepeated h times nullable
  runs {next pre code} hcode before rest := by
    obtain ⟨min, max, greedy⟩ := times
    unfold emitRepeated at hcode
    cases max with
    | some max =>
      have hrounds := (begins_emitOptional h _ _ _ _).trans hcode
      refine .andThen (runs_emitRounds h min hrounds before rest) fun p _ => ?_
      rw [← size_emitRounds h.size_eq]
      exact runs_emitOptional h _ hcode p.before p.rest
    | none =>
      obtain ⟨rfl, htakes⟩ := ht rfl
      cases min with
      | zero =>
        rw [Walk.rounds, Walk.stay_andThen]
        exact runs_emitAny h htakes hcode before rest
      | succ min =>
        -- the last of the rounds is where the repetition leads back to
        rw [Walk.rounds_succ, Walk.andThen_assoc]
        have hrounds := (begins_emitSome h _ _ _).trans hcode
        refine .andThen (runs_emitRounds h min hrounds before rest) fun p _ => ?_
        rw [← size_emitRounds h.size_eq]
        exact runs_emitSome h htakes hcode p.before p.rest

end Emits

/-! ## Regexes -/

/-- **The code of a regex goes through its ways.** -/
theorem emits_emit {r : Regex} (hr : r.Regular) : Emits r.emit r.size r.walk := by
  induction r with
  | empty => exact ⟨size_emit _, fun _ pre => begins_push pre _, fun hcode _ _ => .jump hcode.last⟩
  | set cls => exact ⟨size_emit _, fun _ pre => begins_push pre _, fun hcode _ _ => .one hcode.last⟩
  | look place =>
    exact ⟨size_emit _, fun _ pre => begins_push pre _, fun hcode _ _ => .check hcode.last⟩
  | group index body ih =>
    cases index with
    | none => exact ih hr
    | some index =>
      refine ⟨size_emit _, fun next pre => ?_, fun {next pre code} hcode before rest => ?_⟩
      · exact ((begins_push pre _).trans ((ih hr).begins _ _)).trans (begins_push _ _)
      · have hbody := (begins_push _ _).trans hcode
        have hopen := ((ih hr).begins _ _ |>.trans hbody).last
        have hclose := hcode.last
        have hruns := (ih hr).runs hbody before rest
        rw [(ih hr).size_eq, Array.size_push] at hclose
        rw [Array.size_push] at hruns
        exact .captured hopen hruns hclose
  | loop times body ih =>
    exact emits_repeated (ih hr.2) times body.nullable fun h => ⟨hr.1 h, takes_walk (hr.1 h)⟩
  | seq first second ih₁ ih₂ =>
    have h₁ := ih₁ hr.1
    have h₂ := ih₂ hr.2
    refine ⟨size_emit _, fun next pre => (h₁.begins _ _).trans (h₂.begins _ _), ?_⟩
    intro next pre code hcode before rest
    have hfirst := (h₂.begins _ _).trans hcode
    refine .andThen (h₁.runs hfirst before rest) fun p _ => ?_
    rw [← h₁.size_eq]
    exact h₂.runs hcode p.before p.rest
  | alt first second ih₁ ih₂ =>
    have h₁ := ih₁ hr.1
    have h₂ := ih₂ hr.2
    refine ⟨size_emit _, fun next pre => ?_, ?_⟩
    · exact ((begins_push pre _).trans (h₁.begins _ _)).trans (h₂.begins _ _)
    intro next pre code hcode before rest
    have hfirst := (h₂.begins _ _).trans hcode
    have hsplit := ((h₁.begins _ _).trans hfirst).last
    have hruns₁ := h₁.runs hfirst before rest
    have hruns₂ := h₂.runs hcode before rest
    rw [Array.size_push] at hruns₁
    rw [h₁.size_eq, Array.size_push] at hruns₂
    exact .orElse hsplit hruns₁ hruns₂

/-- **The program of a regex comes to the first of its ways.** -/
theorem ends_program {r : Regex} (hr : r.Regular) (before : Option Char) (rest : Text) :
    Ends r.program 0 before rest ((r.walk before rest).head?.map fun p => (p.marks, p.rest)) := by
  have hruns : RunsAt r.program 0 r.size before rest (r.walk before rest) :=
    (emits_emit hr).runs (begins_push (r.emit r.size #[]) .accept) before rest
  have haccept : r.program[r.size]? = some .accept := by
    have hsize : (r.emit r.size #[]).size = r.size := by
      rw [size_emit, Array.size_empty, Nat.zero_add]
    have hlast := (Begins.refl r.program).last
    rwa [hsize] at hlast
  have h := hruns (fun _ rest => some ([], rest)) fun p _ => .accept haccept
  cases hw : r.walk before rest with
  | nil => rwa [hw] at h
  | cons p ps => rwa [hw] at h

/-- The match of a regex that can match at the start of a text only. -/
theorem way?_eq {r : Regex} (hr : r.reduced.Regular) (hstart : r.reduced.beginsAt .textStart = true)
    (s : Text) :
    r.way? s = (r.reduced.walk none s).head?.map fun p => ⟨s, p.marks, p.rest⟩ := by
  have hends := ends_program hr none s
  have hsize : r.reduced.program.size = r.reduced.size + 1 := by
    rw [program, Array.size_push, size_emit, Array.size_empty, Nat.zero_add]
  show run r.reduced.program (r.reduced.beginsAt .textStart) none s (.start (r.reduced.size + 1))
    none [⟨0, s, []⟩] = _
  rw [hstart, ← hsize]
  have hfirst : FirstEnd r.reduced.program none s [⟨0, s, []⟩]
      ((r.reduced.walk none s).head?.map fun p => ⟨s, p.marks, p.rest⟩) := by
    cases hw : (r.reduced.walk none s).head? with
    | none =>
      rw [hw] at hends
      exact .miss hends .nil
    | some p =>
      rw [hw] at hends
      have hhit : FirstEnd r.reduced.program none s [⟨0, s, []⟩] _ := .hit hends
      rwa [Ending.way, List.append_nil] at hhit
  rw [run_anchored (unvisited_start _) hfirst, Option.or_none]

end RoutePattern.Regex
