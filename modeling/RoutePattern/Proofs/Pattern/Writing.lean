import RoutePattern.Options.Basic
import RoutePattern.Pattern.Node
import RoutePattern.Regex.CharClass

/-!
# Writings of patterns

The pattern language, said of texts. Nodes are written one after another up to a rest of the text, which
is part of the relations because two rules look at it: a name that is not closed goes on as long as it
can, and an escape character stands for itself only if nothing at all follows it.

## Main definitions

* `Options.Clear` — characters with a meaning of their own that cannot be mixed up.
* `Node.TextAt`, `Node.NameAt` — how static text and names are written.
* `Node.Written` — how nodes are written.
-/

namespace RoutePattern

/-! ## Options -/

namespace Options

/-- The characters with a meaning of their own. -/
def signs (o : Options) : List Char :=
  [o.escape, o.nameStart, o.optionalStart, o.optionalEnd, o.wildcard] ++ o.nameEnd.toList

/-- All characters with a meaning of their own differ, and none of them can stand in a name. -/
structure Clear (o : Options) (cls : CharClass) : Prop where
  distinct : o.signs.Nodup
  outside : ∀ c ∈ o.signs, cls.mem c = false

/-- Does the character end static text? -/
def Ends (o : Options) (c : Char) : Prop :=
  c = o.nameStart ∨ c = o.optionalStart ∨ c = o.optionalEnd ∨ c = o.wildcard

namespace Clear

variable {o : Options} {cls : CharClass}

theorem not_ends_escape (h : o.Clear cls) : ¬o.Ends o.escape := by
  have hd : o.escape ∉ [o.nameStart, o.optionalStart, o.optionalEnd, o.wildcard] ++ o.nameEnd.toList :=
    (List.nodup_cons.mp h.distinct).1
  intro he
  refine hd (List.mem_append_left _ ?_)
  simpa [Ends] using he

/-- The characters that end static text differ. -/
theorem ends_ne (h : o.Clear cls) :
    o.nameStart ≠ o.optionalStart ∧ o.nameStart ≠ o.optionalEnd ∧ o.nameStart ≠ o.wildcard ∧
      o.optionalStart ≠ o.optionalEnd ∧ o.optionalStart ≠ o.wildcard ∧ o.optionalEnd ≠ o.wildcard := by
  have hd : [o.nameStart, o.optionalStart, o.optionalEnd, o.wildcard].Nodup :=
    (List.nodup_append.mp (List.nodup_cons.mp h.distinct).2).1
  simpa [and_assoc] using hd

theorem nameEnd_outside (h : o.Clear cls) {c : Char} (hc : o.nameEnd = some c) : cls.mem c = false := by
  refine h.outside c (List.mem_append_right _ ?_)
  rw [hc]
  exact List.mem_singleton_self c

end Clear

end Options

/-! ## Writings -/

namespace Node

/-- A text that is written at the front of another one, up to a rest: character by character, escaped or
bare. -/
inductive TextAt (o : Options) : Text → Text → Text → Prop
  | nil (rest : Text) : TextAt o [] rest rest
  | escaped {t s rest : Text} (c : Char) (h : TextAt o t s rest) :
    TextAt o (c :: t) (o.escape :: c :: s) rest
  | bare {t s rest : Text} {c : Char} (hescape : c ≠ o.escape) (hends : ¬o.Ends c)
      (h : TextAt o t s rest) : TextAt o (c :: t) (c :: s) rest
  /-- The escape character with nothing behind it. -/
  | last : TextAt o [o.escape] [o.escape] []

/-- A name that is written at the front of a text, up to a rest. If names are not closed, no character of
a name follows. -/
structure NameAt (o : Options) (cls : CharClass) (name s rest : Text) : Prop where
  ne_nil : name ≠ []
  mem : ∀ c ∈ name, cls.mem c = true
  eq : s = o.nameStart :: (name ++ (o.nameEnd.toList ++ rest))
  longest : o.nameEnd = none → ∀ c ∈ rest.head?, cls.mem c = false

/-- Nodes that are written at the front of a text, up to a rest. Static text is not empty and never next
to other static text, a wildcard without a name is never followed by a named segment, and an optional
segment is not empty. -/
inductive Written (o : Options) (cls : CharClass) : List Node → Text → Text → Prop
  | nil (rest : Text) : Written o cls [] rest rest
  | text {nodes : List Node} {t s mid rest : Text} (hne : t ≠ []) (ht : TextAt o t s mid)
      (hnext : ∀ t' nodes', nodes ≠ .text t' :: nodes') (h : Written o cls nodes mid rest) :
    Written o cls (.text t :: nodes) s rest
  | named {nodes : List Node} {name s mid rest : Text} (hn : NameAt o cls name s mid)
      (h : Written o cls nodes mid rest) : Written o cls (.named name :: nodes) s rest
  | wildcard {nodes : List Node} {mid rest : Text} (hnext : ∀ name nodes', nodes ≠ .named name :: nodes')
      (h : Written o cls nodes mid rest) : Written o cls (.wildcard :: nodes) (o.wildcard :: mid) rest
  | namedWildcard {nodes : List Node} {name s mid rest : Text} (hn : NameAt o cls name s mid)
      (h : Written o cls nodes mid rest) :
    Written o cls (.namedWildcard name :: nodes) (o.wildcard :: s) rest
  | optional {children nodes : List Node} {s mid rest : Text} (hne : children ≠ [])
      (hc : Written o cls children s (o.optionalEnd :: mid)) (h : Written o cls nodes mid rest) :
    Written o cls (.optional children :: nodes) (o.optionalStart :: s) rest

/-! ## First characters -/

section

variable {o : Options} {cls : CharClass} {t s mid rest name : Text} {nodes : List Node}

/-- No text goes on here: it ends, or with a character that ends static text. -/
def Stops (o : Options) (s : Text) : Prop := ∀ c ∈ s.head?, o.Ends c

theorem TextAt.head?_not_ends (hclear : o.Clear cls) (hne : t ≠ []) (h : TextAt o t s rest) :
    ∃ c, s.head? = some c ∧ ¬o.Ends c := by
  cases h with
  | nil => exact absurd rfl hne
  | escaped c h => exact ⟨_, rfl, hclear.not_ends_escape⟩
  | bare hescape hends h => exact ⟨_, rfl, hends⟩
  | last => exact ⟨_, rfl, hclear.not_ends_escape⟩

theorem TextAt.not_stops (hclear : o.Clear cls) (hne : t ≠ []) (h : TextAt o t s rest) : ¬Stops o s := by
  obtain ⟨c, hc, hends⟩ := h.head?_not_ends hclear hne
  exact fun hs => hends (hs c hc)

theorem NameAt.stops (h : NameAt o cls name s rest) : Stops o s := by
  intro c hc
  rw [h.eq, List.head?_cons, Option.mem_some] at hc
  exact .inl hc.symm

/-- Nodes that do not begin with static text are written from a place where static text ends. -/
theorem Written.stops (h : Written o cls nodes s rest) (hnext : ∀ t' nodes', nodes ≠ .text t' :: nodes')
    (hrest : Stops o rest) : Stops o s := by
  cases h with
  | nil => exact hrest
  | text hne ht _ h => exact absurd rfl (hnext _ _)
  | named hn h => exact hn.stops
  | wildcard _ h | namedWildcard hn h =>
    intro c hc
    exact .inr (.inr (.inr (Option.mem_some.mp hc).symm))
  | optional hne hc h =>
    intro c hc
    exact .inr (.inl (Option.mem_some.mp hc).symm)

/-! ## Lengths -/

theorem TextAt.length_le (h : TextAt o t s rest) : t.length + rest.length ≤ s.length := by
  induction h with
  | nil rest => simp
  | escaped c h ih | bare hescape hends h ih =>
    simp only [List.length_cons]
    omega
  | last => simp

theorem TextAt.length_lt (hne : t ≠ []) (h : TextAt o t s rest) : rest.length < s.length := by
  have hpos := List.length_pos_iff.mpr hne
  have hle := h.length_le
  omega

theorem NameAt.length_lt (h : NameAt o cls name s rest) : rest.length < s.length := by
  rw [h.eq]
  simp only [List.length_cons, List.length_append]
  omega

theorem Written.length_le (h : Written o cls nodes s rest) : rest.length ≤ s.length := by
  induction h with
  | nil rest => exact Nat.le_refl _
  | text hne ht _ _ ih => exact Nat.le_trans ih (Nat.le_of_lt (ht.length_lt hne))
  | named hn _ ih => exact Nat.le_trans ih (Nat.le_of_lt hn.length_lt)
  | wildcard _ _ ih =>
    simp only [List.length_cons]
    omega
  | namedWildcard hn _ ih =>
    have hlt := hn.length_lt
    simp only [List.length_cons]
    omega
  | optional _ _ _ ihc ih =>
    simp only [List.length_cons] at ihc ⊢
    omega

theorem Written.length_lt (hne : nodes ≠ []) (h : Written o cls nodes s rest) : rest.length < s.length := by
  cases h with
  | nil => exact absurd rfl hne
  | text hne' ht _ h => exact Nat.lt_of_le_of_lt h.length_le (ht.length_lt hne')
  | named hn h => exact Nat.lt_of_le_of_lt h.length_le hn.length_lt
  | wildcard _ h => exact Nat.lt_succ_of_le h.length_le
  | namedWildcard hn h => exact Nat.lt_succ_of_lt (Nat.lt_of_le_of_lt h.length_le hn.length_lt)
  | optional _ hc h =>
    have hle := h.length_le
    have hlt := hc.length_le
    rw [List.length_cons] at hlt ⊢
    omega

/-! ## Names that follow -/

/-- Nodes that do not begin with a name are not written from a place where a name could begin. -/
theorem Written.head?_ne_nameStart (hclear : o.Clear cls) (h : Written o cls nodes s rest)
    (hnext : ∀ name nodes', nodes ≠ .named name :: nodes') (hrest : o.nameStart ∉ rest.head?) :
    o.nameStart ∉ s.head? := by
  obtain ⟨hno, _, hnw, _⟩ := hclear.ends_ne
  intro hstart
  cases h with
  | nil => exact hrest hstart
  | text hne ht _ h =>
    obtain ⟨c, hc, hends⟩ := ht.head?_not_ends hclear hne
    exact hends (.inl (Option.mem_unique hc hstart))
  | named _ h => exact hnext _ _ rfl
  | wildcard _ h | namedWildcard _ h => exact hnw (Option.mem_some.mp hstart).symm
  | optional hne hc h => exact hno (Option.mem_some.mp hstart).symm

theorem NameAt.head? (h : NameAt o cls name s rest) : o.nameStart ∈ s.head? := by
  rw [h.eq]
  rfl

end

end Node

end RoutePattern
