import RoutePattern.Regex.Reduced

/-!
# Programs

To be matched, a regex is written out as a list of instructions. Each instruction says which ones a
match goes on with; where there are two, the first is preferred.

The code of a part is entered at its first instruction and leaves for an instruction that is given
beforehand, so the code of a sequence is the code of its parts one after another. The size of the code
of a part is known in advance (`size_emit`), and each instruction is written once.

A repetition without an upper bound leads back to its part. If the part can match the empty text, one
instruction decides about the first round and another one, behind the part, about each further round;
otherwise one in front of the part does for all rounds.

## Main definitions

* `Instr`, `Code` — an instruction and a list of them.
* `Regex.emit` — the code of a part behind other code; `Regex.size` — how long it is.
* `Regex.program` — the code of a regex, entered at the first instruction.
-/

namespace RoutePattern

/-- What a match does next. -/
inductive Instr where
  /-- It takes one character of a class. -/
  | set (cls : CharClass) (next : Nat)
  /-- It checks a condition on the place. -/
  | look (place : Look) (next : Nat)
  /-- It passes a parenthesis of a group that captures. -/
  | mark (group : Nat) (opens : Bool) (next : Nat)
  /-- It goes on in one way or, failing that, in another. -/
  | split (first second : Nat)
  /-- It goes on elsewhere. -/
  | jump (next : Nat)
  /-- It is complete. -/
  | accept
  deriving DecidableEq, Repr

/-- Whether to enter a part or to leave it out, where a greedy choice prefers to enter. -/
def Instr.enter (greedy : Bool) (part next : Nat) : Instr :=
  if greedy then .split part next else .split next part

/-- Instructions, numbered from zero. -/
abbrev Code := Array Instr

namespace Regex

/-! ## Sizes -/

/-- The number of instructions of a repetition, whose part has `body`. -/
def repeatedSize (times : Times) (nullable : Bool) (body : Nat) : Nat :=
  match times.max, times.min with
  | some max, min => min * body + (max - min) * (body + 1) + 1
  | none, 0 => if nullable then body + 2 else body + 1
  | none, min + 1 => min * body + body + 1

/-- The number of instructions of a regex, which is not zero. -/
def size : Regex → Nat
  | .empty => 1
  | .set _ => 1
  | .look _ => 1
  | .group none body => body.size
  | .group (some _) body => body.size + 2
  | .loop times body => repeatedSize times body.nullable body.size
  | .seq first second => first.size + second.size
  | .alt first second => first.size + second.size + 1

/-! ## Repetitions -/

/-- A part that is written behind other code and leaves for a given instruction. -/
abbrev Emit := Nat → Code → Code

/-- So many rounds, one behind another, each of which has so many instructions. -/
def emitRounds (size : Nat) (part : Emit) : Nat → Code → Code
  | 0, code => code
  | n + 1, code => emitRounds size part n (part (code.size + size) code)

/-- At most so many rounds. -/
def emitOptional (greedy : Bool) (size : Nat) (part : Emit) : Nat → Emit
  | 0, next, code => code.push (.jump next)
  | n + 1, next, code =>
    emitOptional greedy size part n next
      (part (code.size + 1 + size) (code.push (.enter greedy (code.size + 1) next)))

/-- One round or more: behind each round there may be another one. -/
def emitSome (greedy : Bool) (size : Nat) (part : Emit) (next : Nat) (code : Code) : Code :=
  (part (code.size + size) code).push (.enter greedy code.size next)

/-- Any number of rounds, of which each goes back to the front. -/
def emitAny (greedy : Bool) (part : Emit) (next : Nat) (code : Code) : Code :=
  part code.size (code.push (.enter greedy (code.size + 1) next))

/-- A repetition. -/
def emitRepeated (times : Times) (nullable : Bool) (size : Nat) (part : Emit) (next : Nat)
    (code : Code) : Code :=
  match times.max, times.min with
  | some max, min =>
    emitOptional times.greedy size part (max - min) next (emitRounds size part min code)
  | none, 0 =>
    if nullable then
      emitSome times.greedy size part next (code.push (.enter times.greedy (code.size + 1) next))
    else emitAny times.greedy part next code
  | none, min + 1 => emitSome times.greedy size part next (emitRounds size part min code)

/-! ## Regexes -/

/-- The code of a regex behind other code. It leaves for the instruction `next`. -/
def emit : Regex → Emit
  | .empty, next, code => code.push (.jump next)
  | .set cls, next, code => code.push (.set cls next)
  | .look place, next, code => code.push (.look place next)
  | .group none body, next, code => body.emit next code
  | .group (some index) body, next, code =>
    (body.emit (code.size + 1 + body.size) (code.push (.mark index true (code.size + 1)))).push
      (.mark index false next)
  | .loop times body, next, code =>
    emitRepeated times body.nullable body.size body.emit next code
  | .seq first second, next, code =>
    second.emit next (first.emit (code.size + first.size) code)
  | .alt first second, next, code =>
    second.emit next
      (first.emit next (code.push (.split (code.size + 1) (code.size + 1 + first.size))))

theorem size_emitRounds {size : Nat} {part : Emit}
    (h : ∀ next code, (part next code).size = code.size + size) (n : Nat) (code : Code) :
    (emitRounds size part n code).size = code.size + n * size := by
  induction n generalizing code with
  | zero => simp [emitRounds]
  | succ n ih =>
    rw [emitRounds, ih, h, Nat.succ_mul]
    omega

theorem size_emitOptional {greedy : Bool} {size : Nat} {part : Emit}
    (h : ∀ next code, (part next code).size = code.size + size) (n next : Nat) (code : Code) :
    (emitOptional greedy size part n next code).size = code.size + n * (size + 1) + 1 := by
  induction n generalizing code with
  | zero => simp [emitOptional]
  | succ n ih =>
    rw [emitOptional, ih, h, Array.size_push, Nat.succ_mul]
    omega

theorem size_emitRepeated {times : Times} {nullable : Bool} {size : Nat} {part : Emit}
    (h : ∀ next code, (part next code).size = code.size + size) (next : Nat) (code : Code) :
    (emitRepeated times nullable size part next code).size =
      code.size + repeatedSize times nullable size := by
  unfold emitRepeated repeatedSize
  split
  · rw [size_emitOptional h, size_emitRounds h]
    omega
  · split
    · rw [emitSome, Array.size_push, h, Array.size_push]
      omega
    · rw [emitAny, h, Array.size_push]
      omega
  · rw [emitSome, Array.size_push, h, size_emitRounds h]
    omega

/-- The code of a regex has the size that is known beforehand. -/
theorem size_emit (r : Regex) (next : Nat) (code : Code) :
    (r.emit next code).size = code.size + r.size := by
  induction r generalizing next code with
  | empty => simp [emit, size]
  | set cls => simp [emit, size]
  | look place => simp [emit, size]
  | group index body ih =>
    cases index with
    | none => rw [emit, size, ih]
    | some index =>
      rw [emit, size, Array.size_push, ih, Array.size_push]
      omega
  | loop times body ih => rw [emit, size, size_emitRepeated ih]
  | seq first second ih₁ ih₂ =>
    rw [emit, size, ih₂, ih₁]
    omega
  | alt first second ih₁ ih₂ =>
    rw [emit, size, ih₂, ih₁, Array.size_push]
    omega

/-- The code of a regex, which ends with the match. -/
def program (r : Regex) : Code := (r.emit r.size #[]).push .accept

end Regex

end RoutePattern
