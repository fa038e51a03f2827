import TileConsole.Proofs.Disassembly
import TileConsole.Proofs.Source.Flaws
import TileConsole.Proofs.Text.Utf8

namespace TileConsole

open Source

namespace Encoding

section Operands

variable {labels : Labels} {piece : Bytes}

theorem number_decimal (h : piece.length ≤ 2) :
    number (Numeral.decimal (Bytes.toNat piece)) = .ok (Bytes.toNat piece : Int) := by
  have hsmall : Bytes.toNat piece < 65536 :=
    Nat.lt_of_lt_of_le (Bytes.toNat_lt piece) (Nat.pow_le_pow_right (by decide) h)
  apply number_eq_ok_iff.mpr
  apply Numeral.literal_decimal
  exact Numeral.fitsInt64_natCast (by omega)

theorem byteOperand_decimal (mode : Mode) (h : piece.length = 1) :
    byteOperand mode (Numeral.decimal (Bytes.toNat piece)) = .ok piece := by
  have hlt := Bytes.toNat_lt piece
  have hpiece := Bytes.littleEndian_toNat piece
  rw [h] at hlt hpiece
  have hrange : 0 ≤ (Bytes.toNat piece : Int) ∧ (Bytes.toNat piece : Int) ≤ 0xFF := by omega
  have hbyte : ((Bytes.toNat piece : Int) % 256).toNat = Bytes.toNat piece := by omega
  rw [byteOperand, number_decimal (by omega)]
  dsimp only
  rw [if_neg fun hstrict => hstrict.2 hrange, hbyte]
  exact congrArg Except.ok hpiece

theorem wordOperand_decimal (h : piece.length = 2) :
    wordOperand (Numeral.decimal (Bytes.toNat piece)) = .ok piece := by
  have hlt := Bytes.toNat_lt piece
  have hpiece := Bytes.littleEndian_toNat piece
  rw [h] at hlt hpiece
  have hrange : 0 ≤ (Bytes.toNat piece : Int) ∧ (Bytes.toNat piece : Int) ≤ 0xFFFF := by omega
  rw [wordOperand, number_decimal (by omega)]
  dsimp only
  rw [if_pos hrange, Int.toNat_natCast, hpiece]

-- Without labels a jump takes its operand as an address.
theorem operand_decimal (mode : Mode) (hlabels : ∀ name, labels.find? name = none)
    (op : Operation) (h : piece.length = if op.shape = .byte then 1 else 2) :
    operand mode labels op (Numeral.decimal (Bytes.toNat piece)) = .ok piece := by
  rw [operand]
  split
  case isTrue hjump =>
    subst hjump
    simp only [targetOperand, targetLabel?, hlabels]
    exact wordOperand_decimal h
  case isFalse =>
    split
    case isTrue hbyte => exact byteOperand_decimal mode (h.trans (if_pos hbyte))
    case isFalse hbyte => exact wordOperand_decimal (h.trans (if_neg hbyte))

end Operands

theorem join_map_ok (pieces : List Bytes) : join (pieces.map .ok) = (pieces.flatten, none) := by
  induction pieces with
  | nil => rfl
  | cons piece rest ih => rw [List.map_cons, join, ih, List.flatten_cons]

-- Writing the operands of a block in decimal and encoding them again changes
-- nothing, in either mode.
theorem encode_block (mode : Mode) {labels : Labels} (hlabels : ∀ name, labels.find? name = none)
    (block : CodeBlock) : encode mode labels block.op block.operands = (block.bytes, none) := by
  have hlength := block.length_operands
  have hjoin : block.operands.map (operand mode labels block.op) = block.pieces.map .ok := by
    rw [CodeBlock.operands, List.map_map]
    apply List.map_congr_left
    intro piece hpiece
    exact operand_decimal mode hlabels block.op (block.length_piece piece hpiece)
  rw [encode, hlength, if_neg (Nat.lt_irrefl _), if_neg fun h => Nat.lt_irrefl _ h.2, ← hlength,
    List.take_length, hjoin, join_map_ok, block.flatten_pieces]
  rfl

end Encoding

namespace CodeBlock

-- The line that a block is disassembled to.
def line (block : CodeBlock) (number : Int) : Line :=
  ⟨number, block.text, .instruction block.op.mnemonic block.operands⟩

-- The lines of blocks, numbered from `number` on.
def lines (number : Nat) (blocks : List CodeBlock) : List Line :=
  (blocks.zipIdx number).map fun (block, n) => block.line n

-- The instructions of blocks in a code section.
def instructions (number offset : Nat) : List CodeBlock → List Instruction
  | [] => []
  | block :: rest =>
    ⟨number, block.text, block.op.mnemonic, block.operands, offset, block.bytes⟩ ::
      instructions (number + 1) (offset + block.op.size) rest

theorem read?_text (block : CodeBlock) (number : Int) :
    Line.read? block.text number = some (block.line number) := by
  have hmark : block.op.mnemonic.head? ≠ some Line.labelMark := by
    cases block.op <;> decide
  have hupper : block.op.mnemonic.upper = block.op.mnemonic := by
    cases block.op <;> decide
  have hread := Line.read_spelled (isWord_mnemonic block.op) hmark block.isWord_operands number
  rw [Line.read?, block.text_eq_spelled, hread, hupper, line, text_eq_spelled]

theorem rawLines_text (blocks : List CodeBlock) :
    Line.rawLines ([Text.newline].intercalate (blocks.map text)) = blocks.map text := by
  have hnewline : ∀ written ∈ blocks.map text, Text.newline ∉ written := by
    intro written hwritten hmem
    obtain ⟨block, -, rfl⟩ := List.mem_map.mp hwritten
    exact absurd (block.isPlain_text _ hmem) (by decide)
  have hne : ∀ written ∈ blocks.map text, written ≠ [] := by
    intro written hwritten
    obtain ⟨block, -, rfl⟩ := List.mem_map.mp hwritten
    exact block.text_ne_nil
  rw [Line.rawLines, Text.lines_intercalate hne hnewline, List.map_map]
  apply List.map_congr_left
  intro block _
  apply Text.stripLast_eq_self
  intro hmem
  exact absurd (block.isPlain_text _ hmem) (by decide)

theorem filterMap_read?_text (number : Nat) (blocks : List CodeBlock) :
    ((blocks.map text).zipIdx number).filterMap (fun (raw, n) => Line.read? raw n) =
      lines number blocks := by
  induction blocks generalizing number with
  | nil => rfl
  | cons block rest ih =>
    rw [List.map_cons, List.zipIdx_cons, List.filterMap_cons, ih]
    simp only [block.read?_text number]
    rfl

-- The texts of blocks are read one line for each block.
theorem readAll_text (blocks : List CodeBlock) :
    Line.readAll ([Text.newline].intercalate (blocks.map text)) = lines 1 blocks := by
  rw [Line.readAll, rawLines_text, filterMap_read?_text]

theorem isAscii_text (blocks : List CodeBlock) :
    ∀ s ∈ [Text.newline].intercalate (blocks.map text), s.isAscii := by
  induction blocks with
  | nil => simp
  | cons block rest ih =>
    have hblock : ∀ s ∈ block.text, s.isAscii := fun s hs =>
      Symbol.isAscii_of_isPlain (block.isPlain_text s hs)
    cases rest with
    | nil => simpa using hblock
    | cons next rest =>
      rw [List.map_cons, List.map_cons, List.intercalate_cons_cons, List.append_assoc,
        List.forall_mem_append, List.singleton_append, List.forall_mem_cons]
      exact ⟨hblock, by decide, ih⟩

theorem kind_of_mem_lines {number : Nat} {blocks : List CodeBlock} {line : Line}
    (h : line ∈ lines number blocks) :
    ∃ block : CodeBlock, line.kind = .instruction block.op.mnemonic block.operands := by
  obtain ⟨⟨block, n⟩, -, rfl⟩ := List.mem_map.mp h
  exact ⟨block, rfl⟩

theorem flawless_lines (mode : Mode) (number : Nat) (blocks : List CodeBlock) :
    Flawless (PlacingFlaw mode) (lines number blocks) := by
  intro before line after hsplit defect hflaw
  have hmem : line ∈ lines number blocks := by simp [hsplit]
  obtain ⟨block, hkind⟩ := kind_of_mem_lines hmem
  cases hflaw with
  | labelEmpty _ hline => simp [hkind] at hline
  | labelDuplicated name _ hline => simp [hkind] at hline
  | unknownInstruction mnemonic operands _ hline hop =>
    obtain ⟨rfl, -⟩ := LineKind.instruction.inj (hkind.symm.trans hline)
    rw [Operation.ofMnemonic?_mnemonic] at hop
    cases hop

theorem find?_lines {number : Nat} {blocks : List CodeBlock} {labels : Labels}
    (h : Located (lines number blocks) labels) (name : Text) : labels.find? name = none := by
  rw [h, Option.map_eq_none_iff, beforeLabel?_eq_none_iff]
  intro line hline hlabel
  obtain ⟨block, hkind⟩ := kind_of_mem_lines hline
  simp [hkind] at hlabel

-- Both passes over the lines of blocks give the blocks back, each at the sum of
-- the sizes before it.
theorem encoded_placed_lines (mode : Mode) {labels : Labels}
    (hlabels : ∀ name, labels.find? name = none) (number offset : Nat)
    (blocks : List CodeBlock) :
    (placed offset (lines number blocks)).map (Encoding.encoded mode labels) =
        instructions number offset blocks ∧
      ∀ inst ∈ placed offset (lines number blocks),
        (Encoding.outcome mode labels inst).2 = none := by
  induction blocks generalizing number offset with
  | nil => exact ⟨rfl, by simp [lines, placed]⟩
  | cons block rest ih =>
    have hlines : lines number (block :: rest) = block.line number :: lines (number + 1) rest := rfl
    have hstatement : (block.line number).statement? = some ⟨block.op, block.operands⟩ := by
      simp [Line.statement?, line, Operation.ofMnemonic?_mnemonic]
    have hsize : codeSize [block.line number] = block.op.size := by
      rw [codeSize_singleton, hstatement]
      rfl
    obtain ⟨hrest, hclean⟩ := ih (number + 1) (offset + block.op.size)
    have houtcome : Encoding.outcome mode labels
        ⟨number, block.text, block.op.mnemonic, block.operands, offset, []⟩ =
          (block.bytes, none) := by
      simp [Encoding.outcome, Instruction.statement?, Operation.ofMnemonic?_mnemonic,
        Encoding.encode_block mode hlabels]
    have hplaced : placed offset (lines number (block :: rest)) =
        ⟨number, block.text, block.op.mnemonic, block.operands, offset, []⟩ ::
          placed (offset + block.op.size) (lines (number + 1) rest) := by
      rw [hlines, placed, hsize]
      rfl
    rw [hplaced, List.map_cons, hrest, List.forall_mem_cons, houtcome]
    refine ⟨?_, rfl, hclean⟩
    rw [Encoding.encoded, houtcome, instructions]

end CodeBlock

namespace Assembly

-- Lines that can all be placed and encoded are accepted.
theorem exists_ofLines_eq_ok {mode : Mode} {lines : List Line}
    (hplacing : Flawless (PlacingFlaw mode) lines)
    (hclean : ∀ labels, Located lines labels →
      ∀ inst ∈ placed 0 lines, (Encoding.outcome mode labels inst).2 = none) :
    ∃ program, ofLines mode lines = .ok program := by
  have hnone := (Layout.ofLines_eq_none_iff mode lines).mpr hplacing
  rcases hlayout : Layout.ofLines mode lines with ⟨layout, _ | error⟩
  · obtain ⟨hinsts, -, hlabels⟩ := Layout.ofLines_spec hlayout
    rcases Encoding.extend_cases mode layout.labels #[] (Encoding.wellPlaced_placed 0 lines) with
      ⟨-, heq⟩ | ⟨before, inst, after, defect, hsplit, -, hdefect, -⟩
    · simp only [ofLines, hlayout, Encoding.ofInstructions, hinsts, heq]
      exact ⟨_, rfl⟩
    · have hinst := hclean layout.labels hlabels inst (by simp [hsplit])
      rw [hdefect] at hinst
      cases hinst
  · rw [hlayout] at hnone
    cases hnone

theorem flatMap_bytes_instructions (number offset : Nat) (blocks : List CodeBlock) :
    (CodeBlock.instructions number offset blocks).flatMap Instruction.bytes =
      blocks.flatMap CodeBlock.bytes := by
  induction blocks generalizing number offset with
  | nil => rfl
  | cons block rest ih =>
    rw [CodeBlock.instructions, List.flatMap_cons, ih, List.flatMap_cons]

theorem map_instructions (number offset : Nat) (blocks : List CodeBlock) :
    (CodeBlock.instructions number offset blocks).map
        (fun inst => (inst.text, inst.offset, inst.bytes.length)) =
      (Disassembly.located offset blocks).map
        fun (start, found) => (found.text, (start : Int), found.size) := by
  induction blocks generalizing number offset with
  | nil => rfl
  | cons block rest ih =>
    rw [CodeBlock.instructions, Disassembly.located, List.map_cons, List.map_cons, ih,
      block.length_bytes]

theorem map_text_located (offset : Nat) (blocks : List CodeBlock) :
    (Disassembly.located offset blocks).map (fun entry => entry.2.text) =
      blocks.map CodeBlock.text := by
  induction blocks generalizing offset with
  | nil => rfl
  | cons block rest ih => rw [Disassembly.located, List.map_cons, ih, List.map_cons]

-- The disassembly of a whole code section, one text a line, is a source of that
-- code. It has an instruction for each text at the place where the text came
-- from, and no labels.
theorem ofStream_disassembly (mode : Mode) (code : Bytes) (found : List (Nat × Disassembly))
    (h : Disassembly.Sweep code 0 found) :
    let source : Text := [Text.newline].intercalate (found.map fun entry => entry.2.text)
    ∃ program, ofStream mode (.whole source.toBytes) = .ok program ∧
      program.labels = .empty ∧
      program.instructions.map (fun inst => (inst.text, inst.offset, inst.bytes.length)) =
        found.map (fun (start, one) => (one.text, (start : Int), one.size)) ∧
      program.code = code := by
  intro source
  obtain ⟨blocks, hcode, rfl⟩ := h.exists_blocks
  have hsource : ofStream mode (.whole source.toBytes) =
      ofLines mode (CodeBlock.lines 1 blocks) := by
    have htext : source = [Text.newline].intercalate (blocks.map CodeBlock.text) := by
      rw [← map_text_located 0]
    rw [ofStream, Stream.whole, htext]
    dsimp only
    rw [Text.ofBytes_toBytes (CodeBlock.isAscii_text blocks), ofText, CodeBlock.readAll_text]
  have hencoded := fun labels hlabels =>
    CodeBlock.encoded_placed_lines mode (@CodeBlock.find?_lines 1 blocks labels hlabels) 1 0 blocks
  obtain ⟨program, hprogram⟩ := exists_ofLines_eq_ok (CodeBlock.flawless_lines mode 1 blocks)
    fun labels hlabels => (hencoded labels hlabels).2
  obtain ⟨hlabels, -, hinsts⟩ := ofLines_eq_ok hprogram
  rw [(hencoded program.labels hlabels).1] at hinsts
  refine ⟨program, hsource.trans hprogram, Labels.eq_empty (CodeBlock.find?_lines hlabels), ?_, ?_⟩
  · rw [hinsts, map_instructions]
  · rw [Program.code, hinsts, flatMap_bytes_instructions, ← hcode, List.drop_zero]

-- A jump into the middle of an instruction and a place left of the screen stay
-- plain numbers.
theorem ofStream_disassembly_draw :
    let code : Bytes := [0x01, 0xFF, 0x04, 0x01, 0x00, 0x08, 0xFF, 0xFF, 0x14, 0x00, 0xFF]
    let found : List (Nat × Disassembly) :=
      [(0, ⟨"SET_A 255", 2⟩), (2, ⟨"JMP 1", 3⟩), (5, ⟨"DRAW_BTP 65535, 20", 5⟩), (10, ⟨"HALT", 1⟩)]
    Disassembly.Sweep code 0 found ∧
      ∃ program, ofStream .strict (.whole (Text.toBytes
          "SET_A 255\nJMP 1\nDRAW_BTP 65535, 20\nHALT")) = .ok program ∧
        program.labels = .empty ∧
        program.instructions.map Instruction.offset = [0, 2, 5, 10] ∧
        program.code = code := by
  intro code found
  have hsweep : Disassembly.Sweep code 0 found :=
    .next (by decide) (.next (by decide) (.next (by decide) (.next (by decide) .stop)))
  obtain ⟨program, hprogram, hlabels, hinsts, hcode⟩ :=
    ofStream_disassembly .strict code found hsweep
  have hoffsets := congrArg (List.map fun entry : Text × Int × Nat => entry.2.1) hinsts
  rw [List.map_map, List.map_map] at hoffsets
  exact ⟨hsweep, program, hprogram, hlabels, hoffsets, hcode⟩

end Assembly

end TileConsole
