import TileConsole.Disassembly
import TileConsole.Proofs.Bytes
import TileConsole.Proofs.Numeral
import TileConsole.Proofs.Source.Spelling

namespace TileConsole

-- The symbols of a disassembly: printable ASCII.
def Symbol.isPlain (s : Symbol) : Bool :=
  match s with
  | .char c => 0x20 ≤ c.toNat && c.toNat < 0x7F
  | .stray _ => false

section Spelling

theorem Symbol.isAscii_of_isPlain {s : Symbol} (h : s.isPlain) : s.isAscii := by
  cases s with
  | stray b => cases h
  | char c =>
    simp only [isPlain, isAscii, Bool.and_eq_true, decide_eq_true_eq] at h ⊢
    omega

theorem mem_decimal {n : Nat} {s : Symbol} (h : s ∈ Numeral.decimal n) :
    ∃ c, s = .char c ∧ 0x30 ≤ c.toNat ∧ c.toNat ≤ 0x39 := by
  obtain ⟨c, hc, rfl⟩ := List.mem_map.mp h
  have hdigit := Nat.isDigit_of_mem_toDigits (by decide) (by decide) hc
  simp only [Char.isDigit, Bool.and_eq_true, decide_eq_true_eq, ge_iff_le,
    UInt32.le_iff_toNat_le] at hdigit
  exact ⟨c, rfl, hdigit⟩

theorem isPlain_decimal (n : Nat) : ∀ s ∈ Numeral.decimal n, s.isPlain := by
  intro s hs
  obtain ⟨c, rfl, hlow, hhigh⟩ := mem_decimal hs
  simp only [Symbol.isPlain, Bool.and_eq_true, decide_eq_true_eq]
  omega

theorem isWord_decimal (n : Nat) : Line.IsWord (Numeral.decimal n) := by
  refine ⟨by simp [Numeral.decimal, Nat.toDigits_ne_nil], ?_, ?_⟩
  · intro s hs
    obtain ⟨c, rfl, hlow, hhigh⟩ := mem_decimal hs
    have hcomma : c ≠ ',' := by
      rintro rfl
      exact absurd hlow (by decide)
    simp only [Line.separates, Symbol.isBlank, isBlankPoint, Bool.or_eq_true, Bool.and_eq_true,
      decide_eq_true_eq, beq_iff_eq, Symbol.char.injEq, hcomma, or_false]
    omega
  · rintro s hs rfl
    obtain ⟨c, hc, hlow, hhigh⟩ := mem_decimal hs
    obtain rfl := Symbol.char.inj hc
    exact absurd hhigh (by decide)

theorem isPlain_mnemonic (op : Operation) : ∀ s ∈ op.mnemonic, s.isPlain := by
  cases op <;> decide

theorem isWord_mnemonic (op : Operation) : Line.IsWord op.mnemonic := by
  cases op <;> exact ⟨by decide, by decide, by decide⟩

end Spelling

-- An instruction of the machine: an operation with all its operand bytes.
structure CodeBlock where
  op : Operation
  args : Bytes
  length_args : args.length = op.shape.width

namespace CodeBlock

def bytes (block : CodeBlock) : Bytes :=
  block.op.code :: block.args

-- The bytes of each operand.
def pieces (block : CodeBlock) : List Bytes :=
  match block.op.shape with
  | .bare => []
  | .byte => [block.args.take 1]
  | .word => [block.args.take 2]
  | .wordPair => [block.args.take 2, (block.args.drop 2).take 2]

def operands (block : CodeBlock) : List Text :=
  block.pieces.map fun piece => Numeral.decimal (Bytes.toNat piece)

def text (block : CodeBlock) : Text :=
  Disassembly.render block.op block.args

theorem length_bytes (block : CodeBlock) : block.bytes.length = block.op.size := by
  rw [bytes, List.length_cons, block.length_args, Operation.size, Nat.add_comm]

theorem length_operands (block : CodeBlock) :
    block.operands.length = block.op.shape.operands := by
  rw [operands, pieces, List.length_map]
  cases block.op.shape <;> rfl

theorem text_eq_spelled (block : CodeBlock) :
    block.text = Line.spelled block.op.mnemonic block.operands := by
  rw [text, operands, pieces, Disassembly.render]
  cases block.op.shape <;> simp [Line.spelled, Line.spelledOperands, List.intercalate_cons_cons]

theorem flatten_pieces (block : CodeBlock) : block.pieces.flatten = block.args := by
  have hlength := block.length_args
  rw [pieces]
  cases hshape : block.op.shape <;> simp only [hshape, Shape.width] at hlength
  case bare => simp [List.eq_nil_of_length_eq_zero hlength]
  case byte => simp [List.take_of_length_le, hlength]
  case word => simp [List.take_of_length_le, hlength]
  case wordPair => simp [List.take_of_length_le, hlength]

theorem length_piece (block : CodeBlock) :
    ∀ piece ∈ block.pieces, piece.length = if block.op.shape = .byte then 1 else 2 := by
  have hlength := block.length_args
  rw [pieces]
  cases hshape : block.op.shape <;> simp only [hshape, Shape.width] at hlength <;> simp [hlength]

theorem isWord_operands (block : CodeBlock) : ∀ word ∈ block.operands, Line.IsWord word := by
  intro word hword
  obtain ⟨piece, -, rfl⟩ := List.mem_map.mp hword
  exact isWord_decimal _

theorem isPlain_text (block : CodeBlock) : ∀ s ∈ block.text, s.isPlain := by
  rw [text_eq_spelled]
  apply Line.forall_mem_spelled (by decide) (by decide) (isPlain_mnemonic block.op)
  intro word hword
  obtain ⟨piece, -, rfl⟩ := List.mem_map.mp hword
  exact isPlain_decimal _

theorem text_ne_nil (block : CodeBlock) : block.text ≠ [] := by
  intro hnil
  have hhead := Line.head?_spelled (isWord_mnemonic block.op).ne_nil block.operands
  rw [← text_eq_spelled, hnil] at hhead
  exact (isWord_mnemonic block.op).ne_nil (List.head?_eq_none_iff.mp hhead.symm)

end CodeBlock

namespace Disassembly

-- A code section read from an offset to its very end, one instruction after the
-- other, with the offset of each.
inductive Sweep (code : Bytes) : Nat → List (Nat × Disassembly) → Prop
  | stop : Sweep code code.length []
  | next {offset : Nat} {found : Disassembly} {rest : List (Nat × Disassembly)}
    (h : ofCode code offset = .ok found) (hrest : Sweep code (offset + found.size) rest) :
    Sweep code offset ((offset, found) :: rest)

-- The blocks of a code section from an offset on, as a sweep reports them.
def located (offset : Nat) : List CodeBlock → List (Nat × Disassembly)
  | [] => []
  | block :: rest => (offset, ⟨block.text, block.op.size⟩) :: located (offset + block.op.size) rest

-- Operand bytes behind those of the operation do not show.
theorem render_append {op : Operation} {args : Bytes} (h : args.length = op.shape.width)
    (rest : Bytes) : render op (args ++ rest) = render op args := by
  rw [render, render]
  cases hshape : op.shape <;> simp only [hshape, Shape.width] at h ⊢
  case byte => rw [List.take_append_of_le_length (by omega)]
  case word => rw [List.take_append_of_le_length (by omega)]
  case wordPair =>
    rw [List.take_append_of_le_length (by omega), List.drop_append_of_le_length (by omega),
      List.take_append_of_le_length (by rw [List.length_drop]; omega)]

theorem ofCode_eq_ok {code : Bytes} {offset : Nat} {found : Disassembly}
    (h : ofCode code offset = .ok found) :
    ∃ (block : CodeBlock) (rest : Bytes), code.drop offset = block.bytes ++ rest ∧
      found = ⟨block.text, block.op.size⟩ := by
  rw [ofCode] at h
  split at h
  case isTrue => cases h
  case isFalse =>
    rw [Int.toNat_natCast] at h
    cases hcode : code.drop offset with
    | nil =>
      rw [hcode] at h
      cases h
    | cons b rest =>
      rw [hcode, ofBytes] at h
      cases hop : Operation.ofByte? b with
      | none =>
        rw [hop] at h
        cases h
      | some op =>
        simp only [hop] at h
        split at h
        case isTrue => cases h
        case isFalse hwidth =>
          have hargs : (rest.take op.shape.width).length = op.shape.width :=
            List.length_take_of_le (Nat.le_of_not_lt hwidth)
          have hrender := render_append hargs (rest.drop op.shape.width)
          rw [List.take_append_drop] at hrender
          refine ⟨⟨op, rest.take op.shape.width, hargs⟩, rest.drop op.shape.width, ?_, ?_⟩
          · rw [CodeBlock.bytes, List.cons_append, List.take_append_drop,
              Operation.code_of_ofByte? hop]
          · rw [← Except.ok.inj h, hrender]
            rfl

-- What a sweep goes through are the blocks that make up the rest of the code.
theorem Sweep.exists_blocks {code : Bytes} {offset : Nat} {found : List (Nat × Disassembly)}
    (h : Sweep code offset found) :
    ∃ blocks : List CodeBlock, code.drop offset = blocks.flatMap CodeBlock.bytes ∧
      found = located offset blocks := by
  induction h with
  | stop => exact ⟨[], by simp, rfl⟩
  | next hcode _ ih =>
    obtain ⟨block, rest, hdrop, rfl⟩ := ofCode_eq_ok hcode
    obtain ⟨blocks, hblocks, rfl⟩ := ih
    refine ⟨block :: blocks, ?_, rfl⟩
    rw [List.flatMap_cons, ← hblocks, hdrop, ← List.drop_drop, hdrop, ← block.length_bytes,
      List.drop_left]

end Disassembly

end TileConsole
