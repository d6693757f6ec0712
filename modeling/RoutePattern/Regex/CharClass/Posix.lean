import RoutePattern.Regex.CharClass

/-!
# Named classes of ASCII

Inside brackets a class of ASCII characters can be named, as in `[:alpha:]`, and a caret before the
name takes all other characters, as in `[:^alpha:]`.
-/

namespace RoutePattern.CharClass

/-- The names with their characters. -/
def posixTables : List (String × CharTable) :=
  [("alnum", [(0x30, 0x39), (0x41, 0x5A), (0x61, 0x7A)]),
   ("alpha", [(0x41, 0x5A), (0x61, 0x7A)]),
   ("ascii", [(0x00, 0x7F)]),
   ("blank", [(0x09, 0x09), (0x20, 0x20)]),
   ("cntrl", [(0x00, 0x1F), (0x7F, 0x7F)]),
   ("digit", [(0x30, 0x39)]),
   ("graph", [(0x21, 0x7E)]),
   ("lower", [(0x61, 0x7A)]),
   ("print", [(0x20, 0x7E)]),
   ("punct", [(0x21, 0x2F), (0x3A, 0x40), (0x5B, 0x60), (0x7B, 0x7E)]),
   ("space", [(0x09, 0x0D), (0x20, 0x20)]),
   ("upper", [(0x41, 0x5A)]),
   ("word", [(0x30, 0x39), (0x41, 0x5A), (0x5F, 0x5F), (0x61, 0x7A)]),
   ("xdigit", [(0x30, 0x39), (0x41, 0x46), (0x61, 0x66)])]

/-- The named class that the text starts with, up to its closing colon and bracket. -/
def readPosixName (negated : Bool) (s : Text) : Option (CharClass × Text) :=
  posixTables.findSome? fun (name, chars) =>
    (List.isPrefixOf? (Text.ofString name ++ [':', ']']) s).map fun rest => (.table negated chars, rest)

/-- The named class at the start of a text that follows an opening bracket. -/
def readPosix : Text → Option (CharClass × Text)
  | ':' :: '^' :: s => readPosixName true s
  | ':' :: s => readPosixName false s
  | _ => none

theorem isPrefixOf?_length {pre s rest : Text} (h : List.isPrefixOf? pre s = some rest) :
    rest.length ≤ s.length := by
  induction pre generalizing s with
  | nil =>
    cases h
    exact Nat.le_refl _
  | cons p pre ih =>
    cases s with
    | nil => cases h
    | cons c s =>
      change (if p == c then List.isPrefixOf? pre s else none) = some rest at h
      split at h
      · have := ih h
        simp only [List.length_cons]
        omega
      · cases h

theorem readPosixName_length {negated : Bool} {s : Text} {cls : CharClass} {rest : Text}
    (h : readPosixName negated s = some (cls, rest)) : rest.length ≤ s.length := by
  obtain ⟨_, _, _, _, hp, _⟩ := List.findSome?_eq_some_iff.mp h
  obtain ⟨_, hpre, hr⟩ := Option.map_eq_some_iff.mp hp
  cases hr
  exact isPrefixOf?_length hpre

theorem readPosix_length {s : Text} {cls : CharClass} {rest : Text}
    (h : readPosix s = some (cls, rest)) : rest.length ≤ s.length := by
  unfold readPosix at h
  split at h
  · have := readPosixName_length h
    simp only [List.length_cons]
    omega
  · have := readPosixName_length h
    simp only [List.length_cons]
    omega
  · cases h

end RoutePattern.CharClass
