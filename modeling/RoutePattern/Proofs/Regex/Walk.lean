import Mathlib.Data.List.Basic
import RoutePattern.Regex.Match

/-!
# Ways through a regex

What a regex matches, said of its tree alone. From a place on there are several ways through a part of
a regex, and the choices in it put them in order: a greedy repetition goes round once more before it
leaves off, and the first alternative comes before the second.

The ways through a repetition without an upper bound are those of as many rounds as characters are
left. If a round cannot be empty these are all rounds there can be, and the ways of a repetition are
one round and a repetition, or none (`many_eq`).

## Main definitions

* `Regex.Passage` — a way through a part; `Regex.Walk` — all of them from a place on, in order.
* `Regex.walk` — the ways through a regex.
* `Regex.Regular` — no part that can match the empty text is repeated without bound.
-/

namespace RoutePattern.Regex

/-- A way through a part of a regex: the parentheses that it passes, the last one first, and the place
that it leads to. -/
structure Passage where
  marks : List Mark
  before : Option Char
  rest : Text
  deriving DecidableEq, Repr

/-- One way and then another. -/
def Passage.andThen (p q : Passage) : Passage := ⟨q.marks ++ p.marks, q.before, q.rest⟩

/-- A way between the parentheses of a group. -/
def Passage.inGroup (index : Nat) (start : Text) (p : Passage) : Passage :=
  ⟨⟨index, false, p.rest⟩ :: p.marks ++ [⟨index, true, start⟩], p.before, p.rest⟩

@[simp] theorem Passage.before_andThen (p q : Passage) : (p.andThen q).before = q.before := rfl

@[simp] theorem Passage.rest_andThen (p q : Passage) : (p.andThen q).rest = q.rest := rfl

@[simp] theorem Passage.before_inGroup (index : Nat) (start : Text) (p : Passage) :
    (p.inGroup index start).before = p.before := rfl

@[simp] theorem Passage.rest_inGroup (index : Nat) (start : Text) (p : Passage) :
    (p.inGroup index start).rest = p.rest := rfl

@[simp] theorem Passage.stay_andThen (before : Option Char) (rest : Text) (p : Passage) :
    Passage.andThen ⟨[], before, rest⟩ p = p := by
  simp [andThen]

theorem Passage.andThen_assoc (p q r : Passage) :
    (p.andThen q).andThen r = p.andThen (q.andThen r) := by
  simp [andThen]

/-- The ways through a part from a place on, the preferred ones first. -/
abbrev Walk := Option Char → Text → List Passage

namespace Walk

/-! ## Ways through constructs -/

/-- Nothing to go through. -/
def stay : Walk := fun before rest => [⟨[], before, rest⟩]

/-- One character of a class. -/
def one (cls : CharClass) : Walk := fun _ rest =>
  if rest.head?.any cls.mem then [⟨[], rest.head?, rest.tail⟩] else []

/-- A condition on the place. -/
def check (place : Look) : Walk := fun before rest =>
  if place.holds before rest then [⟨[], before, rest⟩] else []

/-- One part, then another. -/
def andThen (a b : Walk) : Walk := fun before rest =>
  (a before rest).flatMap fun p => (b p.before p.rest).map p.andThen

/-- One part or, failing that, another. -/
def orElse (a b : Walk) : Walk := fun before rest => a before rest ++ b before rest

/-- A part or nothing, where a greedy choice prefers the part. -/
def enter (greedy : Bool) (a : Walk) : Walk :=
  if greedy then a.orElse stay else stay.orElse a

/-- A part between the parentheses of a group. -/
def captured (index : Nat) (a : Walk) : Walk := fun before rest =>
  (a before rest).map (Passage.inGroup index rest)

/-- So many rounds. -/
def rounds (a : Walk) : Nat → Walk
  | 0 => stay
  | n + 1 => a.andThen (rounds a n)

/-- At most so many rounds. -/
def upTo (greedy : Bool) (a : Walk) : Nat → Walk
  | 0 => stay
  | n + 1 => enter greedy (a.andThen (upTo greedy a n))

/-- Any number of rounds, each of which takes a character at least. -/
def many (greedy : Bool) (a : Walk) : Walk := fun before rest =>
  upTo greedy a rest.length before rest

end Walk

/-- The ways through a regex. -/
def walk : Regex → Walk
  | .empty => .stay
  | .set cls => .one cls
  | .look place => .check place
  | .group none body => body.walk
  | .group (some index) body => body.walk.captured index
  | .loop times body =>
    (body.walk.rounds times.min).andThen
      (match times.max with
        | some max => body.walk.upTo times.greedy (max - times.min)
        | none => body.walk.many times.greedy)
  | .seq first second => first.walk.andThen second.walk
  | .alt first second => first.walk.orElse second.walk

/-- No part that can match the empty text is repeated without bound. -/
def Regular : Regex → Prop
  | .empty => True
  | .set _ => True
  | .look _ => True
  | .group _ body => body.Regular
  | .loop times body => (times.max = none → body.nullable = false) ∧ body.Regular
  | .seq first second => first.Regular ∧ second.Regular
  | .alt first second => first.Regular ∧ second.Regular

namespace Walk

variable {a b c : Walk} {before : Option Char} {rest : Text} {p : Passage}

/-! ## Laws -/

theorem mem_one {cls : CharClass} :
    p ∈ one cls before rest ↔ ∃ c cs, rest = c :: cs ∧ cls.mem c = true ∧ p = ⟨[], some c, cs⟩ := by
  cases rest with
  | nil => simp [one]
  | cons c cs => by_cases hc : cls.mem c = true <;> simp [one, hc]

theorem mem_check {place : Look} :
    p ∈ check place before rest ↔ place.holds before rest = true ∧ p = ⟨[], before, rest⟩ := by
  by_cases hp : place.holds before rest = true <;> simp [check, hp]

theorem mem_andThen :
    p ∈ a.andThen b before rest ↔
      ∃ q ∈ a before rest, ∃ q' ∈ b q.before q.rest, q.andThen q' = p := by
  simp [andThen]

theorem mem_enter {greedy : Bool} :
    p ∈ enter greedy a before rest ↔ p ∈ a before rest ∨ p = ⟨[], before, rest⟩ := by
  cases greedy <;> simp [enter, orElse, stay, or_comm]

@[simp] theorem stay_andThen (a : Walk) : stay.andThen a = a := by
  funext before rest
  rw [andThen, stay, List.flatMap_singleton]
  exact (List.map_congr_left fun p _ => Passage.stay_andThen before rest p).trans (List.map_id _)

@[simp] theorem andThen_stay (a : Walk) : a.andThen stay = a := by
  funext before rest
  simp [andThen, stay, Passage.andThen]

theorem andThen_assoc (a b c : Walk) : (a.andThen b).andThen c = a.andThen (b.andThen c) := by
  funext before rest
  simp only [andThen, List.flatMap_assoc, List.flatMap_map, List.map_flatMap, List.map_map]
  refine List.flatMap_congr fun p _ => List.flatMap_congr fun q _ => List.map_congr_left ?_
  exact fun r _ => p.andThen_assoc q r

theorem andThen_congr (h : ∀ p ∈ a before rest, b p.before p.rest = c p.before p.rest) :
    a.andThen b before rest = a.andThen c before rest := by
  refine List.flatMap_congr fun p hp => ?_
  rw [h p hp]

theorem enter_congr {greedy : Bool} (h : a before rest = b before rest) :
    enter greedy a before rest = enter greedy b before rest := by
  cases greedy <;> simp [enter, orElse, h]

/-- The last of some rounds can be told apart as well as the first. -/
theorem rounds_succ (a : Walk) (n : Nat) : a.rounds (n + 1) = (a.rounds n).andThen a := by
  induction n with
  | zero => simp [rounds]
  | succ n ih =>
    calc a.rounds (n + 1 + 1) = a.andThen (a.rounds (n + 1)) := rfl
      _ = a.andThen ((a.rounds n).andThen a) := by rw [ih]
      _ = (a.rounds (n + 1)).andThen a := (andThen_assoc _ _ _).symm

/-! ## What is left of the text -/

/-- No way leads back in the text. -/
def Forward (a : Walk) : Prop := ∀ before rest, ∀ p ∈ a before rest, p.rest <:+ rest

/-- Every way takes a character at least. -/
def Takes (a : Walk) : Prop := ∀ before rest, ∀ p ∈ a before rest, p.rest.length < rest.length

theorem forward_stay : Forward stay := by
  intro before rest p hp
  rw [stay, List.mem_singleton] at hp
  subst hp
  exact List.suffix_refl rest

theorem Forward.andThen (ha : Forward a) (hb : Forward b) : Forward (a.andThen b) := by
  intro before rest p hp
  obtain ⟨q, hq, q', hq', rfl⟩ := mem_andThen.mp hp
  exact (hb _ _ _ hq').trans (ha _ _ _ hq)

theorem Forward.enter {greedy : Bool} (ha : Forward a) : Forward (enter greedy a) := by
  intro before rest p hp
  rcases mem_enter.mp hp with hp | rfl
  · exact ha _ _ _ hp
  · exact List.suffix_refl rest

theorem Forward.rounds (ha : Forward a) (n : Nat) : Forward (a.rounds n) := by
  induction n with
  | zero => exact forward_stay
  | succ n ih => exact ha.andThen ih

theorem Forward.upTo {greedy : Bool} (ha : Forward a) (n : Nat) : Forward (a.upTo greedy n) := by
  induction n with
  | zero => exact forward_stay
  | succ n ih => exact (ha.andThen ih).enter

theorem Forward.many {greedy : Bool} (ha : Forward a) : Forward (a.many greedy) :=
  fun before rest => ha.upTo rest.length before rest

theorem Takes.andThen_left (ha : Takes a) (hb : Forward b) : Takes (a.andThen b) := by
  intro before rest p hp
  obtain ⟨q, hq, q', hq', rfl⟩ := mem_andThen.mp hp
  exact Nat.lt_of_le_of_lt (hb _ _ _ hq').length_le (ha _ _ _ hq)

theorem Takes.andThen_right (ha : Forward a) (hb : Takes b) : Takes (a.andThen b) := by
  intro before rest p hp
  obtain ⟨q, hq, q', hq', rfl⟩ := mem_andThen.mp hp
  exact Nat.lt_of_lt_of_le (hb q.before q.rest q' hq') (ha _ _ _ hq).length_le

/-! ## Repetitions without bound -/

theorem upTo_end {greedy : Bool} (ha : Takes a) (n : Nat) :
    a.upTo greedy n before [] = stay before [] := by
  have hnil : a before [] = [] := List.eq_nil_iff_forall_not_mem.mpr fun p hp =>
    Nat.not_lt_zero _ (ha before [] p hp)
  cases n with
  | zero => rfl
  | succ n => cases greedy <;> simp [upTo, enter, orElse, andThen, hnil]

/-- Of rounds that take a character each there are no more than characters. -/
theorem upTo_eq {greedy : Bool} (ha : Takes a) {n m : Nat} (hn : rest.length ≤ n)
    (hm : rest.length ≤ m) : a.upTo greedy n before rest = a.upTo greedy m before rest := by
  induction n generalizing m before rest with
  | zero =>
    rw [List.length_eq_zero_iff.mp (Nat.le_zero.mp hn), upTo_end ha, upTo_end ha]
  | succ n ih =>
    cases m with
    | zero => rw [List.length_eq_zero_iff.mp (Nat.le_zero.mp hm), upTo_end ha, upTo_end ha]
    | succ m =>
      -- a round leaves fewer characters, for which both numbers are still enough
      refine enter_congr (andThen_congr fun p hp => ?_)
      have hlt := ha before rest p hp
      exact ih (by omega) (by omega)

/-- A repetition is one round and a repetition, or nothing. -/
theorem many_eq {greedy : Bool} (ha : Takes a) (before : Option Char) (rest : Text) :
    a.many greedy before rest = enter greedy (a.andThen (a.many greedy)) before rest := by
  rw [many, upTo_eq ha (Nat.le_refl _) (Nat.le_succ _)]
  refine enter_congr (andThen_congr fun p hp => ?_)
  exact upTo_eq ha (Nat.le_of_lt (ha before rest p hp)) (Nat.le_refl _)

end Walk

open Walk

theorem forward_walk (r : Regex) : Forward r.walk := by
  induction r with
  | empty => exact forward_stay
  | set cls =>
    intro before rest p hp
    obtain ⟨c, cs, rfl, _, rfl⟩ := mem_one.mp hp
    exact List.suffix_cons c cs
  | look place =>
    intro before rest p hp
    obtain ⟨_, rfl⟩ := mem_check.mp hp
    exact List.suffix_refl rest
  | group index body ih =>
    cases index with
    | none => exact ih
    | some index =>
      intro before rest p hp
      obtain ⟨q, hq, rfl⟩ := List.mem_map.mp hp
      exact ih before rest q hq
  | loop times body ih =>
    refine (ih.rounds times.min).andThen ?_
    cases times.max with
    | some max => exact ih.upTo (max - times.min)
    | none => exact ih.many
  | seq first second ih₁ ih₂ => exact ih₁.andThen ih₂
  | alt first second ih₁ ih₂ =>
    intro before rest p hp
    rcases List.mem_append.mp hp with hp | hp
    · exact ih₁ before rest p hp
    · exact ih₂ before rest p hp

/-- What cannot match the empty text takes a character. -/
theorem takes_walk {r : Regex} (h : r.nullable = false) : Takes r.walk := by
  induction r with
  | empty => cases h
  | set cls =>
    intro before rest p hp
    obtain ⟨c, cs, rfl, _, rfl⟩ := mem_one.mp hp
    exact Nat.lt_succ_self _
  | look place => cases h
  | group index body ih =>
    cases index with
    | none => exact ih h
    | some index =>
      intro before rest p hp
      obtain ⟨q, hq, rfl⟩ := List.mem_map.mp hp
      exact ih h before rest q hq
  | loop times body ih =>
    simp only [nullable, Bool.or_eq_false_iff, beq_eq_false_iff_ne] at h
    obtain ⟨n, hn⟩ := Nat.exists_eq_succ_of_ne_zero h.1
    -- the first round takes a character, and nothing behind it leads back
    rw [walk, hn]
    refine Takes.andThen_left ((ih h.2).andThen_left ((forward_walk body).rounds n)) ?_
    cases times.max with
    | some max => exact (forward_walk body).upTo _
    | none => exact (forward_walk body).many
  | seq first second ih₁ ih₂ =>
    rw [nullable, Bool.and_eq_false_iff] at h
    rcases h with h | h
    · exact (ih₁ h).andThen_left (forward_walk second)
    · exact .andThen_right (forward_walk first) (ih₂ h)
  | alt first second ih₁ ih₂ =>
    rw [nullable, Bool.or_eq_false_iff] at h
    intro before rest p hp
    rcases List.mem_append.mp hp with hp | hp
    · exact ih₁ h.1 before rest p hp
    · exact ih₂ h.2 before rest p hp

end RoutePattern.Regex
