import Mathlib.Data.List.Forall2
import TileConsole.Proofs.Source.Encoding
import TileConsole.Source.Assembly

namespace TileConsole

-- Two lines say the same. The second has its own text, and its number is where
-- the first has been moved.
structure Line.Agrees (move : Int → Int) (line other : Line) : Prop where
  kind : other.kind = line.kind
  number : other.number = move line.number

-- Two instructions are the same but for their texts and where their lines are.
structure Instruction.Agrees (move : Int → Int) (inst other : Instruction) : Prop where
  line : other.line = move inst.line
  mnemonic : other.mnemonic = inst.mnemonic
  operands : other.operands = inst.operands
  offset : other.offset = inst.offset
  bytes : other.bytes = inst.bytes

structure SourceError.Agrees (move : Int → Int) (error other : SourceError) : Prop where
  line : other.line = move error.line
  defect : other.defect = error.defect

structure Program.Agrees (move : Int → Int) (program other : Program) : Prop where
  code : other.code = program.code
  labels : other.labels = program.labels
  instructions : List.Forall₂ (Instruction.Agrees move) program.instructions other.instructions

-- Two sources are both accepted, with programs that agree, or both rejected for
-- the same defect of the same line.
def Assembly.Agrees (move : Int → Int) :
    Except AssemblyError Program → Except AssemblyError Program → Prop
  | .ok program, .ok other => program.Agrees move other
  | .error (.rejected error), .error (.rejected other) => error.Agrees move other
  | _, _ => False

section Passes

variable {move : Int → Int}

structure Layout.Agrees (move : Int → Int) (layout other : Layout) : Prop where
  instructions : List.Forall₂ (Instruction.Agrees move) layout.instructions.toList
    other.instructions.toList
  labels : other.labels = layout.labels
  size : other.size = layout.size

namespace Layout

theorem place_agrees (mode : Mode) {layout next : Layout} (h : layout.Agrees move next)
    {line other : Line} (hline : line.Agrees move other) :
    (next.place mode other).2 = (layout.place mode line).2 ∧
      (layout.place mode line).1.Agrees move (next.place mode other).1 := by
  rcases layout with ⟨insts, labels, size⟩
  rcases next with ⟨others, table, total⟩
  obtain rfl : table = labels := h.labels
  obtain rfl : total = size := h.size
  have hinsts : List.Forall₂ (Instruction.Agrees move) insts.toList others.toList := h.instructions
  rcases line with ⟨number, text, kind⟩
  rcases other with ⟨place, title, sort⟩
  obtain rfl : sort = kind := hline.kind
  obtain rfl : place = move number := hline.number
  cases sort with
  | label name =>
    unfold place
    dsimp only
    split
    · exact ⟨rfl, hinsts, rfl, rfl⟩
    · split
      · exact ⟨rfl, hinsts, rfl, rfl⟩
      · exact ⟨rfl, hinsts, rfl, rfl⟩
  | instruction mnemonic operands =>
    have hpushed : List.Forall₂ (Instruction.Agrees move)
        (insts.push ⟨number, text, mnemonic, operands, total, []⟩).toList
        (others.push ⟨move number, title, mnemonic, operands, total, []⟩).toList := by
      rw [Array.toList_push, Array.toList_push]
      exact List.rel_append hinsts (.cons ⟨rfl, rfl, rfl, rfl, rfl⟩ .nil)
    unfold place
    dsimp only
    cases Operation.ofMnemonic? mnemonic with
    | some op => exact ⟨rfl, hpushed, rfl, rfl⟩
    | none => exact ⟨rfl, hpushed, rfl, rfl⟩
  | other => exact ⟨rfl, hinsts, rfl, rfl⟩

theorem extend_agrees (mode : Mode) {layout next : Layout} (h : layout.Agrees move next)
    {lines others : List Line} (hlines : List.Forall₂ (Line.Agrees move) lines others) :
    match layout.extend mode lines, next.extend mode others with
    | (placed, none), (moved, none) => placed.Agrees move moved
    | (_, some error), (_, some other) => error.Agrees move other
    | _, _ => False := by
  induction hlines generalizing layout next with
  | nil => exact h
  | @cons line other lines others hline _ ih =>
    obtain ⟨hdefect, hplaced⟩ := place_agrees mode h hline
    rw [extend, extend]
    rcases hfirst : layout.place mode line with ⟨placed, _ | defect⟩
    · rcases hsecond : next.place mode other with ⟨moved, _ | found⟩
      · rw [hfirst, hsecond] at hplaced
        exact ih hplaced
      · simp [hfirst, hsecond] at hdefect
    · rcases hsecond : next.place mode other with ⟨moved, _ | found⟩
      · simp [hfirst, hsecond] at hdefect
      · rw [hfirst, hsecond] at hdefect
        exact ⟨hline.number, Option.some.inj hdefect⟩

end Layout

-- Two second passes both come to an end, or both stop at the same defect.
def Encoding.Agrees (move : Int → Int) (encoding other : Encoding) : Prop :=
  match encoding.failure, other.failure with
  | none, none =>
    List.Forall₂ (Instruction.Agrees move) encoding.instructions other.instructions
  | some (.rejected error), some (.rejected other) => error.Agrees move other
  | _, _ => False

namespace Encoding

theorem outcome_agrees (mode : Mode) (labels : Labels) {inst other : Instruction}
    (h : inst.Agrees move other) :
    other.statement? = inst.statement? ∧ other.size = inst.size ∧
      outcome mode labels other = outcome mode labels inst := by
  have hstatement : other.statement? = inst.statement? := by
    rw [Instruction.statement?, h.mnemonic, h.operands]
    rfl
  exact ⟨hstatement, by rw [Instruction.size, hstatement]; rfl, by rw [outcome, hstatement]; rfl⟩

-- The second pass goes through both lists in step.
theorem extend_agrees (mode : Mode) (labels : Labels) {offset : Nat}
    {done copied : Array Instruction}
    (hdone : List.Forall₂ (Instruction.Agrees move) done.toList copied.toList)
    {insts others : List Instruction} (h : WellPlaced offset insts)
    (hinsts : List.Forall₂ (Instruction.Agrees move) insts others) :
    Encoding.Agrees move (extend mode labels done offset insts)
      (extend mode labels copied offset others) := by
  induction hinsts generalizing done copied offset with
  | nil => exact hdone
  | @cons inst other insts others hinst _ ih =>
    obtain ⟨hstatement, hsize, houtcome⟩ := outcome_agrees mode labels hinst
    have hplaced : other.statement?.isSome → other.offset = offset := by
      rw [hstatement, hinst.offset]
      exact h.1
    rw [extend_cons h.1, extend_cons hplaced, hsize, houtcome]
    cases hdefect : (outcome mode labels inst).2 with
    | some defect => exact ⟨hinst.line, rfl⟩
    | none =>
      have hpushed : List.Forall₂ (Instruction.Agrees move)
          (done.push (encoded mode labels inst)).toList
          (copied.push (encoded mode labels other)).toList := by
        rw [Array.toList_push, Array.toList_push]
        refine List.rel_append hdone
          (.cons ⟨hinst.line, hinst.mnemonic, hinst.operands, hinst.offset, ?_⟩ .nil)
        rw [encoded, houtcome]
        rfl
      exact ih hpushed h.2

end Encoding

theorem flatMap_bytes_agrees {insts others : List Instruction}
    (h : List.Forall₂ (Instruction.Agrees move) insts others) :
    others.flatMap Instruction.bytes = insts.flatMap Instruction.bytes := by
  induction h with
  | nil => rfl
  | cons hinst _ ih => rw [List.flatMap_cons, List.flatMap_cons, hinst.bytes, ih]

namespace Assembly

-- An assembler uses the numbers and texts of lines for nothing but its reports.
theorem ofLines_agrees (mode : Mode) {lines others : List Line}
    (h : List.Forall₂ (Line.Agrees move) lines others) :
    Agrees move (ofLines mode lines) (ofLines mode others) := by
  have hempty : Layout.empty.Agrees move Layout.empty := ⟨.nil, rfl, rfl⟩
  have hlayout := Layout.extend_agrees mode hempty h
  rw [ofLines, ofLines, Layout.ofLines, Layout.ofLines]
  rcases hfirst : Layout.empty.extend mode lines with ⟨layout, _ | error⟩
  · rcases hsecond : Layout.empty.extend mode others with ⟨next, _ | error⟩
    · rw [hfirst, hsecond] at hlayout
      obtain ⟨hinsts, hlabels, -⟩ := hlayout
      have hplaced : Encoding.WellPlaced 0 layout.instructions.toList := by
        rw [(Layout.ofLines_spec hfirst).1]
        exact Encoding.wellPlaced_placed 0 lines
      have hencoding : Encoding.Agrees move
          (Encoding.ofInstructions mode layout.labels layout.instructions.toList)
          (Encoding.ofInstructions mode layout.labels next.instructions.toList) :=
        Encoding.extend_agrees mode layout.labels .nil hplaced hinsts
      unfold Encoding.Agrees at hencoding
      dsimp only
      rw [hlabels]
      split at hencoding
      case h_1 hended hcopied =>
        rw [hended, hcopied]
        exact ⟨flatMap_bytes_agrees hencoding, rfl, hencoding⟩
      case h_2 hstopped hcopied =>
        rw [hstopped, hcopied]
        exact hencoding
      case h_3 => exact hencoding.elim
    · simp [hfirst, hsecond] at hlayout
  · rcases hsecond : Layout.empty.extend mode others with ⟨next, _ | other⟩
    · simp [hfirst, hsecond] at hlayout
    · rw [hfirst, hsecond] at hlayout
      exact hlayout

end Assembly

end Passes

end TileConsole
