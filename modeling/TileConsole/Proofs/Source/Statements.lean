import Mathlib.Algebra.GroupWithZero.Nat
import TileConsole.Source.Layout

namespace TileConsole

-- A recognised instruction of a source: its operation and the words after it.
structure Statement where
  op : Operation
  operands : List Text
deriving DecidableEq, Repr

namespace Line

-- What a line says to do. Labels and unknown mnemonics say nothing.
def statement? (line : Line) : Option Statement :=
  match line.kind with
  | .instruction mnemonic operands => (Operation.ofMnemonic? mnemonic).map (⟨·, operands⟩)
  | _ => none

-- The instruction of a line that is placed at an offset, not encoded yet. An
-- unknown mnemonic is placed too.
def instruction? (line : Line) (offset : Nat) : Option Instruction :=
  match line.kind with
  | .instruction mnemonic operands =>
    some ⟨line.number, line.text, mnemonic, operands, offset, []⟩
  | _ => none

end Line

namespace Source

def statements (lines : List Line) : List Statement :=
  lines.filterMap Line.statement?

-- The size of the code that lines stand for.
def codeSize (lines : List Line) : Nat :=
  ((statements lines).map fun statement => statement.op.size).sum

-- The instructions of lines that are placed from an offset on.
def placed (offset : Nat) : List Line → List Instruction
  | [] => []
  | line :: rest => (line.instruction? offset).toList ++ placed (offset + codeSize [line]) rest

-- The lines in front of the last declaration of a label, if it is declared.
def beforeLabel? (name : Text) : List Line → Option (List Line)
  | [] => none
  | line :: rest =>
    match beforeLabel? name rest with
    | some before => some (line :: before)
    | none => if line.kind = .label name then some [] else none

-- The lines in front of the label that a jump names. The word itself is tried
-- first, then the word without its mark.
def beforeTarget? (lines : List Line) (word : Text) : Option (List Line) :=
  (beforeLabel? word lines).or (beforeLabel? (word.stripFirst Line.labelMark) lines)

-- The address that a jump names by a label.
def address? (lines : List Line) (word : Text) : Option Nat :=
  (beforeTarget? lines word).map codeSize

-- A table that holds the labels of lines, each at the size of the code in front
-- of its last declaration.
def Located (lines : List Line) (labels : Labels) : Prop :=
  ∀ name, labels.find? name = (beforeLabel? name lines).map fun before => (codeSize before : Int)

@[simp]
theorem statements_nil : statements [] = [] := rfl

theorem statements_cons (line : Line) (rest : List Line) :
    statements (line :: rest) = line.statement?.toList ++ statements rest := by
  cases h : line.statement? <;> simp [statements, h]

@[simp]
theorem statements_append (lines others : List Line) :
    statements (lines ++ others) = statements lines ++ statements others := by
  simp [statements]

@[simp]
theorem codeSize_nil : codeSize [] = 0 := rfl

@[simp]
theorem codeSize_append (lines others : List Line) :
    codeSize (lines ++ others) = codeSize lines + codeSize others := by
  simp [codeSize]

theorem codeSize_cons (line : Line) (rest : List Line) :
    codeSize (line :: rest) = codeSize [line] + codeSize rest :=
  codeSize_append [line] rest

theorem codeSize_singleton (line : Line) :
    codeSize [line] = (line.statement?.map fun statement => statement.op.size).getD 0 := by
  cases h : line.statement? <;> simp [codeSize, statements, h]

theorem placed_append (offset : Nat) (lines others : List Line) :
    placed offset (lines ++ others) =
      placed offset lines ++ placed (offset + codeSize lines) others := by
  induction lines generalizing offset with
  | nil => simp [placed]
  | cons line rest ih =>
    rw [List.cons_append, placed, ih, placed, codeSize_cons line rest, List.append_assoc,
      Nat.add_assoc]

theorem beforeLabel?_append (name : Text) (lines others : List Line) :
    beforeLabel? name (lines ++ others) =
      ((beforeLabel? name others).map (lines ++ ·)).or (beforeLabel? name lines) := by
  induction lines with
  | nil => cases h : beforeLabel? name others <;> simp [beforeLabel?, h]
  | cons line rest ih =>
    rw [List.cons_append, beforeLabel?, ih, beforeLabel?]
    cases beforeLabel? name others <;> simp

theorem beforeLabel?_eq_none_iff (name : Text) (lines : List Line) :
    beforeLabel? name lines = none ↔ ∀ line ∈ lines, line.kind ≠ .label name := by
  induction lines with
  | nil => simp [beforeLabel?]
  | cons line rest ih =>
    rw [List.forall_mem_cons, beforeLabel?, ← ih]
    cases h : beforeLabel? name rest <;> simp

-- The declaration found is the last one.
theorem beforeLabel?_eq_some_iff (name : Text) (lines before : List Line) :
    beforeLabel? name lines = some before ↔ ∃ line after, lines = before ++ line :: after ∧
      line.kind = .label name ∧ ∀ other ∈ after, other.kind ≠ .label name := by
  constructor
  · intro h
    induction lines generalizing before with
    | nil => simp [beforeLabel?] at h
    | cons line rest ih =>
      rw [beforeLabel?] at h
      cases hrest : beforeLabel? name rest with
      | some found =>
        rw [hrest] at h
        obtain rfl := Option.some.inj h
        obtain ⟨marked, after, rfl, hmarked, hafter⟩ := ih found hrest
        exact ⟨marked, after, rfl, hmarked, hafter⟩
      | none =>
        simp only [hrest, Option.ite_none_right_eq_some, Option.some.injEq] at h
        obtain ⟨hline, rfl⟩ := h
        exact ⟨line, rest, rfl, hline, (beforeLabel?_eq_none_iff name rest).mp hrest⟩
  · rintro ⟨line, after, rfl, hline, hafter⟩
    have hlast : beforeLabel? name (line :: after) = some [] := by
      rw [beforeLabel?, (beforeLabel?_eq_none_iff name after).mpr hafter]
      simp [hline]
    rw [beforeLabel?_append, hlast]
    simp

end Source

end TileConsole
