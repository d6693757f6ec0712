import RoutePattern.Proofs.Pattern.Recovery

/-!
# Wildcards at the end

A wildcard that ends a pattern takes what is put behind a text that the pattern matches. The other nodes keep
what they had, so the longer text has a derivation; the match may prefer another one. This holds of
everything but line breaks, which no wildcard takes.

## Main definitions

* `Node.isWildcard` — the nodes that stand for anything.
* `Pattern.isSome_match?_append` — what is put behind a text is matched too.
* `Pattern.match?_append_newline` — a line break is not.
-/

namespace RoutePattern

namespace Node

variable {cls : CharClass} {nodes front back : List Node} {last : Node} {choices : List Choice}
  {s t : Text} {groups : List (Option Text)}

/-- Does the node stand for anything? -/
def isWildcard : Node → Bool
  | .wildcard | .namedWildcard _ => true
  | _ => false

namespace Derives

/-- A derivation from two lists of nodes is one from each. -/
theorem of_append (h : Derives cls (front ++ back) choices s groups) :
    ∃ c₁ c₂ s₁ s₂ g₁ g₂, Derives cls front c₁ s₁ g₁ ∧ Derives cls back c₂ s₂ g₂ ∧
      choices = c₁ ++ c₂ ∧ s = s₁ ++ s₂ ∧ groups = g₁ ++ g₂ := by
  induction front generalizing choices s groups with
  | nil => exact ⟨[], choices, [], s, [], groups, nil, h, rfl, rfl, rfl⟩
  | cons node front ih =>
    obtain ⟨c₁, c₂, s₁, s₂, g₁, g₂, hnode, hrest, rfl, rfl, rfl⟩ := h.of_cons
    obtain ⟨c₃, c₄, s₃, s₄, g₃, g₄, hfront, hback, rfl, rfl, rfl⟩ := ih hrest
    refine ⟨c₁ ++ c₃, c₄, s₁ ++ s₃, s₄, g₁ ++ g₃, g₄, hnode.append hfront, hback, ?_, ?_, ?_⟩
    · rw [List.append_assoc]
    · rw [List.append_assoc]
    · rw [List.append_assoc]

/-- A wildcard stands for a longer text as well. -/
theorem wildcard_append (h : Derives cls [last] choices s groups) (hlast : last.isWildcard = true)
    (ht : '\n' ∉ t) : ∃ choices' groups', Derives cls [last] choices' (s ++ t) groups' := by
  have hlonger {v : Text} (hv : '\n' ∉ v) : '\n' ∉ v ++ t := by simp [hv, ht]
  cases h with
  | wildcard hv h =>
    cases h
    rw [List.append_nil, ← List.append_nil (_ ++ t)]
    exact ⟨_, _, wildcard (hlonger hv) nil⟩
  | namedWildcard name hv h =>
    cases h
    rw [List.append_nil, ← List.append_nil (_ ++ t)]
    exact ⟨_, _, namedWildcard name (hlonger hv) nil⟩
  | text | named | present | absent => cases hlast

/-- Only the last node of a derivation takes more. -/
theorem append_text (h : Derives cls nodes choices s groups)
    (hlast : nodes.getLast?.any isWildcard = true) (ht : '\n' ∉ t) :
    ∃ choices' groups', Derives cls nodes choices' (s ++ t) groups' := by
  obtain ⟨last, hnodes, hwildcard⟩ := (Option.any_eq_true _ _).mp hlast
  obtain ⟨front, rfl⟩ := List.getLast?_eq_some_iff.mp hnodes
  obtain ⟨c₁, c₂, s₁, s₂, g₁, g₂, hfront, hback, rfl, rfl, rfl⟩ := h.of_append
  obtain ⟨c₃, g₃, hlonger⟩ := hback.wildcard_append hwildcard ht
  rw [List.append_assoc]
  exact ⟨_, _, hfront.append hlonger⟩

end Derives

end Node

/-! ## Patterns -/

namespace Pattern

variable {text : Text} {o : Options} {p : Pattern} {cls : CharClass} {nodes : List Node} {input t : Text}

/-- **A wildcard at the end takes what follows**, whatever it is, without line breaks. -/
theorem isSome_match?_append (hp : ofText text o = .ok p)
    (hcharset : CharClass.ofCharset? o.valueCharset = some cls) (hnodes : p.nodes = some nodes)
    (hlast : nodes.getLast?.any Node.isWildcard = true) (ht : '\n' ∉ t)
    (hmatch : (p.match? input).isSome = true) : (p.match? (input ++ t)).isSome = true := by
  rw [match?_ofText hp hcharset hnodes, Option.isSome_map, Node.captures_isSome_iff] at hmatch ⊢
  obtain ⟨choices, groups, hd⟩ := hmatch
  exact hd.append_text hlast ht

/-- An optional segment that takes part for the longer text only. -/
theorem isSome_match?_append_optional :
    ∃ p, ofText (Text.ofString "/:name(.:kind)*") {} = .ok p ∧
      (p.match? (Text.ofString "/ab")).isSome = true ∧
      (p.match? (Text.ofString "/ab.c/d")).isSome = true := by
  have hrun : ((CharClass.ofCharset? ({} : Options).valueCharset).any fun _ =>
      (ofText (Text.ofString "/:name(.:kind)*") {}).toOption.any fun p => p.nodes.any fun nodes =>
        nodes.getLast?.any Node.isWildcard && (p.match? (Text.ofString "/ab")).isSome) = true := by
    decide +kernel
  obtain ⟨cls, p, nodes, hcharset, hp, hnodes, hcheck⟩ := exists_ofText hrun
  obtain ⟨hlast, hmatch⟩ := Bool.and_eq_true_iff.mp hcheck
  exact ⟨p, hp, hmatch,
    isSome_match?_append (t := Text.ofString ".c/d") hp hcharset hnodes hlast (by decide) hmatch⟩

/-- A line break behind a text is not matched. -/
theorem match?_append_newline :
    ∃ p nodes, ofText (Text.ofString "/*") {} = .ok p ∧ p.nodes = some nodes ∧
      (CharClass.ofCharset? ({} : Options).valueCharset).isSome = true ∧
      nodes.getLast?.any Node.isWildcard = true ∧ (p.match? (Text.ofString "/a")).isSome = true ∧
      p.match? (Text.ofString "/a" ++ ['\n']) = none := by
  have hrun : ((CharClass.ofCharset? ({} : Options).valueCharset).any fun _ =>
      (ofText (Text.ofString "/*") {}).toOption.any fun p => p.nodes.any fun nodes =>
        nodes.getLast?.any Node.isWildcard && ((p.match? (Text.ofString "/a")).isSome &&
          (p.match? (Text.ofString "/a" ++ ['\n'])).isNone)) = true := by
    decide +kernel
  obtain ⟨cls, p, nodes, hcharset, hp, hnodes, hcheck⟩ := exists_ofText hrun
  obtain ⟨hlast, hcheck⟩ := Bool.and_eq_true_iff.mp hcheck
  obtain ⟨hmatch, hnone⟩ := Bool.and_eq_true_iff.mp hcheck
  exact ⟨p, nodes, hp, hnodes, Option.isSome_iff_exists.mpr ⟨cls, hcharset⟩, hlast, hmatch,
    Option.isNone_iff_eq_none.mp hnone⟩

end Pattern

end RoutePattern
