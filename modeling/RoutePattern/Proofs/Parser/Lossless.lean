import RoutePattern.Proofs.Parser.Depth
import RoutePattern.Proofs.Regex.Leading

/-!
# What a parse takes

A parse leaves an end of the text behind. Unless values are changed, left out, or looked for further on, the
texts in its value are what it takes off the front: nothing is invented, nothing is skipped, and what a stop
or an alternative that fails has read is not lost.

A reference may lead back to the parser that it is a part of, so the parts of a parser are those that can be
reached from it. It does not matter for them which references have been used.

## Main definitions

* `Assembly.Contains` — the parts of a parser, also behind references.
* `Assembly.IsPlain` — a parser that changes and leaves out nothing.
* `Assembly.flat_append_of_parse` — what a parse takes off the text.
-/

namespace RoutePattern.Assembly

/-! ## Plain parsers -/

/-- What a parser is directly made of, where a reference is made of what it leads to. -/
def parts (w : World) : Assembly → List Assembly
  | .sequence parts | .pick _ parts | .firstOf parts => parts
  | .many part | .map _ part | .deferred part | .weak _ part => [part]
  | .concatUntil part stop => [part, stop]
  | .reference i => (w.target? i).toList
  | .literal _ | .fragment _ | .anyChar | .fail => []

/-- One parser is a part of another. -/
inductive Contains (w : World) : Assembly → Assembly → Prop
  | refl (a : Assembly) : Contains w a a
  | part {a b c : Assembly} (hb : b ∈ a.parts w) (h : Contains w b c) : Contains w a c

/-- A parser that does not change its value or leave some of it out by itself. -/
def KeepsText : Assembly → Prop
  | .map _ _ | .pick _ _ => False
  | .fragment r => r.IsLeading
  | _ => True

/-- All parts of a parser keep what they read. -/
def IsPlain (w : World) (a : Assembly) : Prop := ∀ b, Contains w a b → b.KeepsText

variable {w : World} {a b : Assembly} {s rest : Text} {call' : Nat → Live Value}

theorem IsPlain.part (h : IsPlain w a) (hb : b ∈ a.parts w) : IsPlain w b :=
  fun c hc => h c (.part hb hc)

/-- A property that goes over from parsers to what they are made of holds of all parts. -/
theorem Contains.forall {P : Assembly → Prop} (hparts : ∀ b, P b → ∀ c ∈ b.parts w, P c)
    (h : Contains w a b) (ha : P a) : P b := by
  induction h with
  | refl a => exact ha
  | part hb _ ih => exact ih (hparts _ ha _ hb)

open Live (Follows Row)

/-! ## Values that keep what was read -/

/-- Two runs give the same value, and its texts are what was read, in order. -/
def Kept (s : Text) (v v' : Value) (rest : Text) : Prop := v = v' ∧ v.asText = v.flat ∧ v.flat ++ rest = s

/-- The worlds in which references lead where they lead in a given one. -/
def Steady (w u u' : World) : Prop := u = u' ∧ u.target? = w.target?

theorem kept_text {t : Text} (h : t ++ rest = s) : Kept s (.text t) (.text t) rest :=
  ⟨rfl, rfl, h⟩

/-- Values one after another keep what was read. -/
theorem kept_list {vs vs' : List Value} (h : Row Kept s vs vs' rest) : Kept s (.list vs) (.list vs') rest := by
  induction h with
  | nil => exact ⟨rfl, rfl, rfl⟩
  | cons hv _ ih =>
    obtain ⟨rfl, htext, hs⟩ := hv
    obtain ⟨hvs, htexts, hmid⟩ := ih
    refine ⟨by rw [Value.list.inj hvs], congrArg₂ (· ++ ·) htext htexts, ?_⟩
    show (_ ++ _) ++ _ = _
    rw [List.append_assoc, ← hs]
    exact congrArg _ hmid

theorem kept_flatten {ts ts' : List Text} (h : Row (fun s t t' rest => t = t' ∧ t ++ rest = s) s ts ts' rest) :
    Kept s (.text ts.flatten) (.text ts'.flatten) rest := by
  induction h with
  | nil => exact kept_text rfl
  | cons ht _ ih =>
    obtain ⟨rfl, hs⟩ := ht
    obtain ⟨hts, _, hmid⟩ := ih
    rw [List.flatten_cons, List.flatten_cons, ← Value.text.inj hts]
    refine kept_text ?_
    rw [List.append_assoc, ← hs]
    exact congrArg _ hmid

/-! ## Atoms -/

theorem append_of_literal {expected v : Text} (h : Parser.literal expected s = some (v, rest)) :
    v ++ rest = s := by
  unfold Parser.literal at h
  rw [Option.map_eq_some_iff] at h
  obtain ⟨rest', hrest, h⟩ := h
  cases h
  rwa [List.isPrefixOf?_eq_some_iff_append_eq] at hrest

theorem append_of_anyChar {v : Text} (h : Parser.anyChar s = some (v, rest)) : v ++ rest = s := by
  cases s with
  | nil => cases h
  | cons c s =>
    cases h
    rfl

theorem append_of_fragment {r : Regex} {v : Text} (hr : r.IsLeading)
    (h : Parser.fragment r s = some (v, rest)) : v ++ rest = s := by
  obtain ⟨taken, rfl⟩ := Parser.suffix_of_fragment h
  unfold Parser.fragment Regex.find at h
  simp only [Option.map_map, Option.map_eq_some_iff] at h
  obtain ⟨way, hway, h⟩ := h
  cases h
  show way.start.upTo way.rest ++ way.rest = taken ++ way.rest
  rw [hr _ way hway]
  exact congrArg (· ++ way.rest) (Text.upTo_append taken way.rest)

/-- An atom that takes its value off the front of the text. -/
theorem atom_kept {p : Parser Text} (hp : ∀ v rest, p s = some (v, rest) → v ++ rest = s) :
    Follows (Steady w) (Kept s) s (.map .text (.pure p)) (.map .text (.pure p)) := by
  refine Follows.map (V := fun v v' rest => v = v' ∧ v ++ rest = s) (.pure fun u u' hu => ?_) ?_
  · cases h : p s with
    | none => exact .none hu
    | some r => exact .some ⟨r.1, hp _ _ h⟩ ⟨rfl, hp _ _ h⟩ hu
  · rintro v v' rest - ⟨rfl, h⟩
    exact kept_text h

/-! ## Runs -/

mutual

/-- **A plain parser keeps what it reads** if its references do. -/
theorem run_kept (hcall : ∀ i, IsPlain w (.reference i) → ∀ s,
      Follows (Steady w) (Kept s) s (call' i) (call' i)) :
    ∀ a, IsPlain w a → ∀ s, Follows (Steady w) (Kept s) s (run call' a) (run call' a)
  | .literal _, _, s => by
    rw [run]
    exact atom_kept fun _ _ h => append_of_literal h
  | .fragment r, ha, s => by
    rw [run]
    exact atom_kept fun _ _ h => append_of_fragment (ha _ (.refl _)) h
  | .anyChar, _, s => by
    rw [run]
    exact atom_kept fun _ _ h => append_of_anyChar h
  | .fail, _, _ => by
    rw [run]
    exact .fail
  | .sequence parts, ha, s => by
    rw [run]
    have hparts := runs_kept hcall parts (fun b hb => ha.part hb) s
    exact (Follows.sequence hparts (List.suffix_refl s)).map fun _ _ _ _ h => kept_list h
  | .pick _ _, ha, _ => (ha _ (.refl _)).elim
  | .firstOf parts, ha, s => by
    rw [run]
    have hparts := runs_kept hcall parts (fun b hb => ha.part hb) s
    exact .firstOf (hparts.imp fun _ _ h => h s (List.suffix_refl s))
  | .many part, ha, s => by
    rw [run]
    have hpart := run_kept hcall part (ha.part (.head _))
    exact (Follows.many fun t _ => hpart t).map fun _ _ _ _ h => kept_list h
  | .concatUntil part stop, ha, s => by
    rw [run]
    have hstop := run_kept hcall stop (ha.part (.tail _ (.head _)))
    have htexts (t : Text) : Follows (Steady w) (fun v v' rest => v = v' ∧ v ++ rest = t) t
        (Live.map Value.asText (run call' part)) (Live.map Value.asText (run call' part)) := by
      refine (run_kept hcall part (ha.part (.head _)) t).map ?_
      rintro v v' rest - ⟨rfl, htext, ht⟩
      exact ⟨rfl, htext ▸ ht⟩
    refine (Follows.concatUntil (U := fun t t' rest => Kept s (.text t) (.text t') rest)
      (fun t _ => htexts t) (fun t _ => hstop t) ?_).map fun _ _ _ _ h => h
    exact fun _ _ _ h => kept_flatten h
  | .map _ _, ha, _ => (ha _ (.refl _)).elim
  | .deferred part, ha, s => by
    rw [run]
    exact run_kept hcall part (ha.part (.head _)) s
  | .weak owned part, ha, s => by
    rw [run]
    cases owned with
    | false => exact .fail
    | true => exact run_kept hcall part (ha.part (.head _)) s
  | .reference i, ha, s => by
    rw [run]
    exact hcall i ha s

theorem runs_kept (hcall : ∀ i, IsPlain w (.reference i) → ∀ s,
      Follows (Steady w) (Kept s) s (call' i) (call' i)) :
    ∀ parts : List Assembly, (∀ part ∈ parts, IsPlain w part) → ∀ s,
      List.Forall₂ (fun p q => ∀ s', s' <:+ s → Follows (Steady w) (Kept s') s' p q)
        (runs call' parts) (runs call' parts)
  | [], _, _ => by
    rw [runs]
    exact .nil
  | part :: parts, hparts, s => by
    rw [runs]
    rw [List.forall_mem_cons] at hparts
    exact .cons (fun s' _ => run_kept hcall part hparts.1 s') (runs_kept hcall parts hparts.2 s)

end

theorem call_kept (depth i : Nat) (hi : IsPlain w (.reference i)) (s : Text) :
    Follows (Steady w) (Kept s) s (call depth i) (call depth i) := by
  induction depth generalizing i s with
  | zero => exact .endless
  | succ depth ih =>
    rintro u _ r ⟨rfl, hu⟩ h
    have hresolve : Steady w (u.resolve i) (u.resolve i) :=
      ⟨rfl, (funext (u.target?_resolve i)).trans hu⟩
    rw [call_succ] at h
    rw [call_succ]
    cases htarget : u.target? i with
    | none =>
      rw [htarget] at h
      cases h
      exact ⟨_, rfl, .none hresolve⟩
    | some a =>
      rw [htarget] at h
      have ha : IsPlain w a := by
        refine hi.part ?_
        show a ∈ (w.target? i).toList
        rw [← hu, htarget]
        exact .head _
      exact run_kept ih a ha s _ _ r hresolve h

/-- **What a parse takes.** What is left is an end of the text. If all parts of the parser keep what they
read, what is taken are the texts in the value, in order. -/
theorem flat_append_of_parse {v : Value} {u : World} (h : a.parse s w = some (some (v, rest), u)) :
    rest <:+ s ∧ (IsPlain w a → v.flat ++ rest = s) := by
  refine ⟨(proceeds_of_parse h).suffix v rest rfl, fun ha => ?_⟩
  obtain ⟨r, hr, halike⟩ := run_kept (fun i hi s => call_kept _ i hi s) a ha s w w _ ⟨rfl, rfl⟩ h
  cases halike with
  | some _ hv _ =>
    obtain ⟨rfl, _, hs⟩ := hv
    exact hs

/-- Brackets in brackets, by a reference of a parser to itself. -/
theorem flat_append_of_parse_nested :
    ∃ v u, (reference 0).parse ['(', '(', 'a', ')', ')', 'b']
        ⟨[⟨some (.firstOf [.sequence [.literal ['('], .reference 0, .literal [')']], .anyChar,
          .fragment (.look .textStart)]), true, 0⟩], [⟨0, .fresh⟩]⟩ = some (some (v, ['b']), u) ∧
      v.flat ++ ['b'] = ['(', '(', 'a', ')', ')', 'b'] := by
  have h : (reference 0).parse ['(', '(', 'a', ')', ')', 'b']
      ⟨[⟨some (.firstOf [.sequence [.literal ['('], .reference 0, .literal [')']], .anyChar,
        .fragment (.look .textStart)]), true, 0⟩], [⟨0, .fresh⟩]⟩ = some (some (_, ['b']), _) := rfl
  refine ⟨_, _, h, (flat_append_of_parse h).2 fun b hb => ?_⟩
  have hparts : b ∈ [reference 0,
      .firstOf [.sequence [.literal ['('], .reference 0, .literal [')']], .anyChar, .fragment (.look .textStart)],
      .sequence [.literal ['('], .reference 0, .literal [')']], .literal ['('], .literal [')'], .anyChar,
      .fragment (.look .textStart)] := by
    refine hb.forall (P := (· ∈ _)) ?_ (.head _)
    simp [parts, World.target?, Handle.resolve, Handle.target?, Slot.contents?, Slot.isOwned]
  simp only [List.mem_cons, List.not_mem_nil, or_false] at hparts
  rcases hparts with rfl | rfl | rfl | rfl | rfl | rfl | rfl
  case inr.inr.inr.inr.inr.inr => exact Regex.isLeading_of_beginsAt rfl
  all_goals trivial

end RoutePattern.Assembly
