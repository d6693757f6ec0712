import RoutePattern.Text.Basic

/-!
# Tables in order

A table may list its ranges in any order, and they may overlap. An *ordered* table lists them by
where they begin, and those that overlap or touch are one range, so that tables of the same code
points are equal and tables can be counted and combined.

Ranges are put into an ordered table one by one. A range that comes before all others costs a single
step, so a table that is in order already is read from its end at no more cost than its length.

## Main definitions

* `CharTable.insertRange` — one more range in an ordered table.
* `CharTable.ordered` — the ordered table of the same characters (`has_ordered`).
* `CharTable.union`, `CharTable.complement`, `CharTable.inter`, `CharTable.diff`,
  `CharTable.symmDiff` — operations on ordered tables, each with a law that says which characters it
  has and one that says that it is in order.
-/

namespace RoutePattern.CharTable

/-- The ranges stand in the order of their beginnings. -/
abbrev InOrder (table : CharTable) : Prop := table.Pairwise fun a b => a.1 ≤ b.1

@[simp] theorem has_nil (c : Char) : has [] c = false := rfl

theorem has_cons (range : Nat × Nat) (table : CharTable) (c : Char) :
    has (range :: table) c =
      (decide (range.1 ≤ c.toNat) && decide (c.toNat ≤ range.2) || table.has c) := rfl

/-- A table has no character in front of its ranges. -/
theorem has_eq_false_of_lt {table : CharTable} {c : Char} {lo : Nat}
    (h : ∀ range ∈ table, lo ≤ range.1) (hc : c.toNat < lo) : table.has c = false :=
  Bool.eq_false_iff.mpr fun hmem => by
    obtain ⟨range, hr, hlo, _⟩ := has_iff.mp hmem
    have := h range hr
    omega

/-! ## One more range -/

/-- One more range in front of a table, none of whose ranges begins before it. -/
def front (range : Nat × Nat) : CharTable → CharTable
  | [] => [range]
  | next :: table =>
    if next.1 ≤ range.2 + 1 then front (range.1, max range.2 next.2) table
    else range :: next :: table

theorem le_of_mem_front {range r : Nat × Nat} {table : CharTable}
    (h : ∀ next ∈ table, range.1 ≤ next.1) (hr : r ∈ front range table) : range.1 ≤ r.1 := by
  induction table generalizing range with
  | nil =>
    rw [front, List.mem_singleton] at hr
    simp [hr]
  | cons next table ih =>
    rw [front] at hr
    split at hr
    · exact @ih (range.1, max range.2 next.2) (fun n hn => h n (List.mem_cons_of_mem _ hn)) hr
    · rcases List.mem_cons.mp hr with rfl | hr
      · exact Nat.le_refl _
      · exact h r hr

theorem inOrder_front {range : Nat × Nat} {table : CharTable}
    (h : ∀ next ∈ table, range.1 ≤ next.1) (ht : table.InOrder) : (front range table).InOrder := by
  induction table generalizing range with
  | nil => simp [front, InOrder]
  | cons next table ih =>
    rw [front]
    split
    · exact @ih (range.1, max range.2 next.2) (fun n hn => h n (List.mem_cons_of_mem _ hn))
        (List.pairwise_cons.mp ht).2
    · exact List.pairwise_cons.mpr ⟨h, ht⟩

theorem has_front {range : Nat × Nat} {table : CharTable} (c : Char)
    (h : ∀ next ∈ table, range.1 ≤ next.1) :
    has (front range table) c = has (range :: table) c := by
  induction table generalizing range with
  | nil => rfl
  | cons next table ih =>
    rw [front]
    split
    · rename_i hle
      have hlo := h next List.mem_cons_self
      rw [@ih (range.1, max range.2 next.2) fun n hn => h n (List.mem_cons_of_mem _ hn)]
      simp only [has_cons, ← Bool.or_assoc]
      congr 1
      rw [Bool.eq_iff_iff]
      simp only [Bool.and_eq_true, Bool.or_eq_true, decide_eq_true_eq]
      omega
    · rfl

/-- One more range in an ordered table. -/
def insertRange (range : Nat × Nat) : CharTable → CharTable
  | [] => [range]
  | next :: table =>
    if range.1 ≤ next.1 then front range (next :: table)
    else front next (insertRange range table)

theorem le_of_mem_insertRange {range r : Nat × Nat} {table : CharTable} {lo : Nat}
    (ht : table.InOrder) (hrange : lo ≤ range.1) (h : ∀ next ∈ table, lo ≤ next.1)
    (hr : r ∈ insertRange range table) : lo ≤ r.1 := by
  induction table generalizing lo r with
  | nil =>
    rw [insertRange, List.mem_singleton] at hr
    exact hr ▸ hrange
  | cons next table ih =>
    obtain ⟨hnext, hrest⟩ := List.pairwise_cons.mp ht
    rw [insertRange] at hr
    split at hr
    · rename_i hle
      refine Nat.le_trans hrange (le_of_mem_front (fun n hn => ?_) hr)
      rcases List.mem_cons.mp hn with rfl | hn
      · exact hle
      · exact Nat.le_trans hle (hnext n hn)
    · rename_i hle
      exact Nat.le_trans (h next List.mem_cons_self)
        (le_of_mem_front (fun n hn => ih hrest (by omega) hnext hn) hr)

theorem inOrder_insertRange {range : Nat × Nat} {table : CharTable} (ht : table.InOrder) :
    (insertRange range table).InOrder := by
  induction table with
  | nil => simp [insertRange, InOrder]
  | cons next table ih =>
    obtain ⟨hnext, hrest⟩ := List.pairwise_cons.mp ht
    rw [insertRange]
    split
    · rename_i hle
      refine inOrder_front (fun n hn => ?_) ht
      rcases List.mem_cons.mp hn with rfl | hn
      · exact hle
      · exact Nat.le_trans hle (hnext n hn)
    · rename_i hle
      exact inOrder_front (fun n hn => le_of_mem_insertRange hrest (by omega) hnext hn) (ih hrest)

theorem has_insertRange {range : Nat × Nat} {table : CharTable} (c : Char) (ht : table.InOrder) :
    has (insertRange range table) c = has (range :: table) c := by
  induction table with
  | nil => rfl
  | cons next table ih =>
    obtain ⟨hnext, hrest⟩ := List.pairwise_cons.mp ht
    rw [insertRange]
    split
    · rename_i hle
      refine has_front c fun n hn => ?_
      rcases List.mem_cons.mp hn with rfl | hn
      · exact hle
      · exact Nat.le_trans hle (hnext n hn)
    · rename_i hle
      rw [has_front c fun n hn => le_of_mem_insertRange hrest (by omega) hnext hn, has_cons,
        ih hrest, has_cons, has_cons, has_cons, ← Bool.or_assoc, ← Bool.or_assoc]
      congr 1
      exact Bool.or_comm _ _

/-! ## Union -/

/-- The characters of both tables together, of which the second is ordered. -/
def union (a b : CharTable) : CharTable := a.foldr insertRange b

theorem inOrder_union (a : CharTable) {b : CharTable} (hb : b.InOrder) : (a.union b).InOrder := by
  induction a with
  | nil => exact hb
  | cons range a ih => exact inOrder_insertRange ih

theorem has_union (a : CharTable) {b : CharTable} (c : Char) (hb : b.InOrder) :
    (a.union b).has c = (a.has c || b.has c) := by
  induction a with
  | nil => simp [union]
  | cons range a ih =>
    have hstep : union (range :: a) b = insertRange range (union a b) := rfl
    rw [hstep, has_insertRange c (inOrder_union a hb), has_cons, has_cons, ih, Bool.or_assoc]

/-- The ordered table of the same characters. -/
def ordered (table : CharTable) : CharTable := table.union []

theorem inOrder_ordered (table : CharTable) : table.ordered.InOrder :=
  inOrder_union table List.Pairwise.nil

theorem has_ordered (table : CharTable) (c : Char) : table.ordered.has c = table.has c := by
  simp [ordered, has_union table c List.Pairwise.nil]

/-! ## Complement -/

/-- The last code point. -/
def maxCode : Nat := 0x10FFFF

/-- No character is beyond the last code point. -/
theorem toNat_le_maxCode (c : Char) : c.toNat ≤ maxCode := by
  rcases c.valid with h | h
  · exact Nat.le_of_lt (Nat.lt_trans h (by decide))
  · exact Nat.le_of_lt_succ h.2

/-- What is left from `start` on between the ranges of an ordered table. -/
def gapsFrom (start : Nat) : CharTable → CharTable
  | [] => if start ≤ maxCode then [(start, maxCode)] else []
  | range :: table =>
    let gaps := gapsFrom (max start (range.2 + 1)) table
    if start < range.1 then (start, range.1 - 1) :: gaps else gaps

theorem le_of_mem_gapsFrom {start : Nat} {table : CharTable} {gap : Nat × Nat}
    (h : gap ∈ gapsFrom start table) : start ≤ gap.1 := by
  induction table generalizing start with
  | nil =>
    rw [gapsFrom] at h
    split at h
    · simp [List.mem_singleton.mp h]
    · simp at h
  | cons range table ih =>
    rw [gapsFrom] at h
    split at h
    · rcases List.mem_cons.mp h with rfl | h
      · exact Nat.le_refl _
      · exact Nat.le_trans (Nat.le_max_left _ _) (ih h)
    · exact Nat.le_trans (Nat.le_max_left _ _) (ih h)

theorem inOrder_gapsFrom (start : Nat) (table : CharTable) : (gapsFrom start table).InOrder := by
  induction table generalizing start with
  | nil =>
    rw [gapsFrom]
    split <;> simp [InOrder]
  | cons range table ih =>
    rw [gapsFrom]
    split
    · exact List.pairwise_cons.mpr
        ⟨fun gap h => Nat.le_trans (Nat.le_max_left _ _) (le_of_mem_gapsFrom h), ih _⟩
    · exact ih _

theorem has_gapsFrom {start : Nat} {table : CharTable} (c : Char)
    (h : table.InOrder) :
    has (gapsFrom start table) c = (decide (start ≤ c.toNat) && !table.has c) := by
  induction table generalizing start with
  | nil =>
    have hc := toNat_le_maxCode c
    rw [gapsFrom, Bool.eq_iff_iff]
    split
    · simp [has, hc]
    · simp [has]
      omega
  | cons range table ih =>
    obtain ⟨hle, hrest⟩ := List.pairwise_cons.mp h
    have hgaps := @ih (max start (range.2 + 1)) hrest
    rw [gapsFrom, has_cons range table]
    by_cases hc : c.toNat < range.1
    · have hlow := has_eq_false_of_lt hle hc
      split
      · rw [has_cons, hgaps, hlow, Bool.eq_iff_iff]
        simp
        omega
      · rw [hgaps, hlow, Bool.eq_iff_iff]
        simp
        omega
    · split
      · rw [has_cons, hgaps, Bool.eq_iff_iff]
        cases has table c <;> simp <;> omega
      · rw [hgaps, Bool.eq_iff_iff]
        cases has table c with
        | false =>
          simp
          omega
        | true => simp

/-- All other characters. -/
def complement (table : CharTable) : CharTable := gapsFrom 0 table

theorem inOrder_complement (table : CharTable) : table.complement.InOrder := inOrder_gapsFrom 0 table

theorem has_complement {table : CharTable} (c : Char) (h : table.InOrder) :
    table.complement.has c = !table.has c := by
  simp [complement, has_gapsFrom c h]

/-! ## Other operations -/

/-- The characters of both tables. -/
def inter (a b : CharTable) : CharTable := (a.complement.union b.complement).complement

theorem has_inter {a b : CharTable} (c : Char) (ha : a.InOrder) (hb : b.InOrder) :
    (a.inter b).has c = (a.has c && b.has c) := by
  have hb' := inOrder_complement b
  rw [inter, has_complement c (inOrder_union _ hb'), has_union _ c hb', has_complement c ha,
    has_complement c hb]
  simp

/-- The characters of the first table that are not in the second. -/
def diff (a b : CharTable) : CharTable := (a.complement.union b).complement

theorem inOrder_diff (a b : CharTable) : (a.diff b).InOrder := inOrder_complement _

theorem has_diff {a b : CharTable} (c : Char) (ha : a.InOrder) (hb : b.InOrder) :
    (a.diff b).has c = (a.has c && !b.has c) := by
  rw [diff, has_complement c (inOrder_union _ hb), has_union _ c hb, has_complement c ha]
  simp

/-- The characters of one table only. -/
def symmDiff (a b : CharTable) : CharTable := (a.diff b).union (b.diff a)

theorem has_symmDiff {a b : CharTable} (c : Char) (ha : a.InOrder) (hb : b.InOrder) :
    (a.symmDiff b).has c = (a.has c != b.has c) := by
  rw [symmDiff, has_union _ c (inOrder_diff b a), has_diff c ha hb, has_diff c hb ha]
  cases a.has c <;> cases b.has c <;> rfl

end RoutePattern.CharTable
