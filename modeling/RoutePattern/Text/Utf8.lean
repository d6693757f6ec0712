import RoutePattern.Text.Ranges

/-!
# Tables spelled in UTF-8

UTF-8 spells a code point in one to four bytes. The code points from one to another are spelled by
rows of byte ranges: a row stands for every choice of one byte out of each of its ranges. Rows that
begin alike can share their beginnings, as in a tree. Where equal rows are left behind two
beginnings, the two can lead on to the same place, and then the tree is a network with one end.

## Main definitions

* `CharTable.spellings` — the rows of byte ranges of an ordered table.
* `CharTable.prefixCount` — how many beginnings these rows have among them.
* `CharTable.places` — the places of their network, each as the rows that are left there.
* `CharTable.byteCount`, `CharTable.bytes` — the bytes of a code point.
-/

namespace RoutePattern.CharTable

/-- A range of bytes for each byte. -/
abbrev Spelling := List (Nat × Nat)

/-- Code points that are spelled in equally many bytes. -/
structure Form where
  lo : Nat
  hi : Nat
  /-- How many bytes follow the first. -/
  tail : Nat
  /-- The first byte less the bits of the code point in it. -/
  lead : Nat

/-- The forms from the shortest. No code point between the two of three bytes is a character. -/
def forms : List Form :=
  [⟨0, 0x7F, 0, 0⟩, ⟨0x80, 0x7FF, 1, 0xC0⟩, ⟨0x800, 0xD7FF, 2, 0xE0⟩, ⟨0xE000, 0xFFFF, 2, 0xE0⟩,
    ⟨0x10000, 0x10FFFF, 3, 0xF0⟩]

/-- How many bytes spell a code point. -/
def byteCount (code : Nat) : Nat :=
  if code ≤ 0x7F then 1 else if code ≤ 0x7FF then 2 else if code ≤ 0xFFFF then 3 else 4

/--
The spellings of the numbers from `lo` to `hi` in a byte and `tail` more, which hold six bits each.
Where the first byte is the same all the way it stands alone; otherwise the numbers are cut so that
the first byte is either one byte or is followed by all that can follow.
-/
def spell : Nat → Nat → Nat → Nat → List Spelling
  | 0, lead, lo, hi => [[(lead + lo, lead + hi)]]
  | tail + 1, lead, lo, hi =>
    let block := 64 ^ (tail + 1)
    let (first, last) := (lo / block, hi / block)
    let one (byte lo hi : Nat) : List Spelling :=
      (spell tail 0x80 lo hi).map ((lead + byte, lead + byte) :: ·)
    if first = last then one first (lo % block) (hi % block)
    else
      let wholeFrom := if lo % block = 0 then first else first + 1
      let wholeTo := if hi % block = block - 1 then last + 1 else last
      (if wholeFrom = first then [] else one first (lo % block) (block - 1)) ++
        (if wholeFrom < wholeTo then
          [(lead + wholeFrom, lead + (wholeTo - 1)) :: List.replicate (tail + 1) (0x80, 0xBF)]
          else []) ++
        (if wholeTo = last then one last 0 (hi % block) else [])

/-- The spellings of the characters of an ordered table, in order. -/
def spellings (table : CharTable) : List Spelling :=
  table.flatMap fun range =>
    forms.flatMap fun form =>
      let (lo, hi) := (max range.1 form.lo, min range.2 form.hi)
      if lo ≤ hi then spell form.tail form.lead lo hi else []

/-- The bytes that spell a code point. -/
def bytes (code : Nat) : List Nat := (spellings [(code, code)]).flatten.map Prod.fst

/-! ## Shared beginnings -/

/-- How much of the second row is no beginning of the first. -/
def newCount : Spelling → Spelling → Nat
  | a :: as, b :: bs => if a = b then newCount as bs else bs.length + 1
  | _, bs => bs.length

/-- The number of beginnings of rows, where rows with a common beginning are side by side. -/
def prefixCountAfter (before : Spelling) : List Spelling → Nat
  | [] => 0
  | row :: rows => newCount before row + prefixCountAfter row rows

/-- The number of beginnings of rows. -/
def prefixCount (rows : List Spelling) : Nat := prefixCountAfter [] rows

/-! ## Shared endings -/

/-- The rows by the range that they begin with, where such rows are side by side. -/
def byFirst (rows : List Spelling) : List (List Spelling) :=
  rows.splitBy fun a b => a.head? == b.head?

/-- The rows left at each place of their tree but its ends, which has at most so many levels. -/
def placesWithin : Nat → List Spelling → List (List Spelling)
  | 0, _ => []
  | levels + 1, rows =>
    if rows.all List.isEmpty then []
    else rows :: (byFirst rows).flatMap fun group => placesWithin levels (group.map List.tail)

/-- The rows left at each place of their network but its end. No row is longer than four bytes. -/
def places (rows : List Spelling) : List (List Spelling) := (placesWithin 4 rows).eraseDups

end RoutePattern.CharTable
