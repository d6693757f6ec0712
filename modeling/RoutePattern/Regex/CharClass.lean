import RoutePattern.Text.Ranges

/-!
# Character classes

A class says which single characters a place in a text may hold. It is kept as it was written,
because the depth of its writing counts towards the nesting limit of a regex.

## Main definitions

* `CharClass` — the tree of a class; `CharClass.mem` — the characters it accepts.
* `CharClass.add` — one more item of a union.
* `CharClass.levels` — how deeply brackets, unions and operators are nested.
* `CharClass.ranges` — the characters as an ordered table (`has_ranges`).
* `CharClass.plain` — the same class written as that table.
-/

namespace RoutePattern

/-- The operators between two operands inside brackets. -/
inductive SetOp where
  | intersection
  | difference
  | symmetricDifference
  deriving DecidableEq, Repr

/-- Whether a character that is or is not in either operand is in the result. -/
def SetOp.combine : SetOp → Bool → Bool → Bool
  | .intersection, left, right => left && right
  | .difference, left, right => left && !right
  | .symmetricDifference, left, right => left != right

/-- The characters of the result for the characters of two operands, all as ordered tables. -/
def SetOp.table : SetOp → CharTable → CharTable → CharTable
  | .intersection => CharTable.inter
  | .difference => CharTable.diff
  | .symmetricDifference => CharTable.symmDiff

theorem SetOp.has_table (op : SetOp) {a b : CharTable} (c : Char) (ha : a.InOrder)
    (hb : b.InOrder) : (op.table a b).has c = op.combine (a.has c) (b.has c) := by
  cases op with
  | intersection => exact CharTable.has_inter c ha hb
  | difference => exact CharTable.has_diff c ha hb
  | symmetricDifference => exact CharTable.has_symmDiff c ha hb

/-- A set of characters as it was written. -/
inductive CharClass where
  /-- No item at all. -/
  | nothing
  /-- One character. -/
  | one (c : Char)
  /-- The characters from `lo` to `hi`. -/
  | range (lo hi : Char)
  /-- A known table, or all but it. -/
  | table (negated : Bool) (chars : CharTable)
  /-- Brackets, which may negate what they hold. -/
  | bracket (negated : Bool) (body : CharClass)
  /-- Items side by side. -/
  | union (left right : CharClass)
  /-- Two operands of an operator. -/
  | combine (op : SetOp) (left right : CharClass)
  deriving DecidableEq, Repr

namespace CharClass

/-- Does the class accept the character? -/
def mem : CharClass → Char → Bool
  | .nothing, _ => false
  | .one d, c => c == d
  | .range lo hi, c => decide (lo ≤ c) && decide (c ≤ hi)
  | .table negated chars, c => chars.has c != negated
  | .bracket negated body, c => body.mem c != negated
  | .union left right, c => left.mem c || right.mem c
  | .combine op left right, c => op.combine (left.mem c) (right.mem c)

/-- A class with one more item. -/
def add : CharClass → CharClass → CharClass
  | .nothing, item => item
  | items, item => .union items item

/--
The nesting of a class: a pair of brackets, an operator and a union of two or more items are one
level each. The items of one union stand side by side, so inside a union another `union` node is
the same level (`inUnion`).
-/
def levels (inUnion : Bool) : CharClass → Nat
  | .union left right => (if inUnion then 0 else 1) + max (left.levels true) (right.levels true)
  | .bracket _ body => 1 + body.levels false
  | .combine _ left right => 1 + max (left.levels false) (right.levels false)
  | _ => 0

/-! ## Classes as tables -/

/-- All other characters of an ordered table, or its own. -/
def negatedTable (negated : Bool) (chars : CharTable) : CharTable :=
  if negated then chars.complement else chars

theorem has_negatedTable (negated : Bool) {chars : CharTable} (c : Char) (h : chars.InOrder) :
    (negatedTable negated chars).has c = (chars.has c != negated) := by
  cases negated with
  | false => simp [negatedTable]
  | true => simp [negatedTable, CharTable.has_complement c h]

/-- The characters of a class together with those of an ordered table. -/
def unionRanges : CharClass → CharTable → CharTable
  | .nothing, others => others
  | .one c, others => others.insertRange (c.toNat, c.toNat)
  | .range lo hi, others => others.insertRange (lo.toNat, hi.toNat)
  | .table negated chars, others => (negatedTable negated chars.ordered).union others
  | .bracket negated body, others => (negatedTable negated (body.unionRanges [])).union others
  | .union left right, others => left.unionRanges (right.unionRanges others)
  | .combine op left right, others =>
    (op.table (left.unionRanges []) (right.unionRanges [])).union others

theorem inOrder_unionRanges (cls : CharClass) {others : CharTable} (h : others.InOrder) :
    (cls.unionRanges others).InOrder := by
  induction cls generalizing others with
  | nothing => exact h
  | one c => exact CharTable.inOrder_insertRange h
  | range lo hi => exact CharTable.inOrder_insertRange h
  | table negated chars => exact CharTable.inOrder_union _ h
  | bracket negated body ih => exact CharTable.inOrder_union _ h
  | union left right ihl ihr => exact ihl (ihr h)
  | combine op left right ihl ihr => exact CharTable.inOrder_union _ h

theorem has_unionRanges (cls : CharClass) {others : CharTable} (c : Char) (h : others.InOrder) :
    (cls.unionRanges others).has c = (cls.mem c || others.has c) := by
  induction cls generalizing others with
  | nothing => simp [unionRanges, mem]
  | one d =>
    rw [unionRanges, mem, CharTable.has_insertRange c h, CharTable.has_cons]
    congr 1
    rw [Bool.eq_iff_iff]
    simp only [Bool.and_eq_true, decide_eq_true_eq, beq_iff_eq]
    exact ⟨fun h => Char.ext (UInt32.toNat_inj.mp (Nat.le_antisymm h.2 h.1)), fun h => by simp [h]⟩
  | range lo hi => exact CharTable.has_insertRange c h
  | table negated chars =>
    rw [unionRanges, mem, CharTable.has_union _ c h,
      has_negatedTable negated c (CharTable.inOrder_ordered _), CharTable.has_ordered]
  | bracket negated body ih =>
    rw [unionRanges, mem, CharTable.has_union _ c h,
      has_negatedTable negated c (body.inOrder_unionRanges List.Pairwise.nil), ih List.Pairwise.nil]
    simp
  | union left right ihl ihr =>
    rw [unionRanges, mem, ihl (right.inOrder_unionRanges h), ihr h, Bool.or_assoc]
  | combine op left right ihl ihr =>
    rw [unionRanges, mem, CharTable.has_union _ c h,
      op.has_table c (left.inOrder_unionRanges List.Pairwise.nil)
        (right.inOrder_unionRanges List.Pairwise.nil), ihl List.Pairwise.nil, ihr List.Pairwise.nil]
    simp

/-- The characters that the class accepts, as an ordered table. -/
def ranges (cls : CharClass) : CharTable := cls.unionRanges []

@[simp] theorem has_ranges (cls : CharClass) (c : Char) : cls.ranges.has c = cls.mem c := by
  simp [ranges, has_unionRanges cls c List.Pairwise.nil]

/-- The class written as the ordered table of its characters, however it was written before. -/
def plain (cls : CharClass) : CharClass := .table false cls.ranges

@[simp] theorem mem_plain (cls : CharClass) (c : Char) : cls.plain.mem c = cls.mem c := by
  simp [plain, mem]

/-- Every character but the line feed, which is what a full stop stands for. -/
def anyButNewline : CharClass := .table true [('\n'.toNat, '\n'.toNat)]

@[simp] theorem mem_anyButNewline (c : Char) : anyButNewline.mem c = (c != '\n') := by
  have h : CharTable.has [('\n'.toNat, '\n'.toNat)] c = (c == '\n') := by
    rw [Bool.eq_iff_iff, CharTable.has_iff]
    constructor
    · rintro ⟨_, hr, hlo, hhi⟩
      rw [List.mem_singleton] at hr
      subst hr
      have hn : c.toNat = '\n'.toNat := Nat.le_antisymm hhi hlo
      have : c = '\n' := Char.ext (UInt32.toNat_inj.mp hn)
      simp [this]
    · intro h
      have : c = '\n' := by simpa using h
      exact ⟨_, List.mem_singleton_self _, by simp [this]⟩
  simp only [anyButNewline, mem, h]
  cases hc : c == '\n' <;> simp [bne, hc]

end CharClass

end RoutePattern
