import Mathlib.Data.List.Forall2
import TileConsole.Proofs.Disassembly
import TileConsole.Proofs.Source.Offsets

namespace TileConsole

open Source

-- The numbers that the operands of a statement among the lines of a source stand
-- for. A label wins over an address that is spelled like it.
inductive Statement.Values (lines : List Line) : Statement → List Nat → Prop
  | bare (op : Operation) (rest : List Text) (hshape : op.shape = .bare) :
    Values lines ⟨op, rest⟩ []
  | byte (op : Operation) (word : Text) (rest : List Text) (n : Int) (hshape : op.shape = .byte)
    (h : Numeral.Literal word n) : Values lines ⟨op, word :: rest⟩ [(n % 256).toNat]
  | word (op : Operation) (word : Text) (rest : List Text) (n : Nat) (hshape : op.shape = .word)
    (hlabel : op = .jump → address? lines word = none) (h : Numeral.Literal word n)
    (hn : n ≤ 0xFFFF) : Values lines ⟨op, word :: rest⟩ [n]
  | label (word : Text) (rest : List Text) (address : Nat)
    (h : address? lines word = some address) (hn : address ≤ 0xFFFF) :
    Values lines ⟨.jump, word :: rest⟩ [address]
  | wordPair (op : Operation) (first second : Text) (rest : List Text) (x y : Nat)
    (hshape : op.shape = .wordPair) (hfirst : Numeral.Literal first x) (hx : x ≤ 0xFFFF)
    (hsecond : Numeral.Literal second y) (hy : y ≤ 0xFFFF) :
    Values lines ⟨op, first :: second :: rest⟩ [x, y]

-- What a disassembly shows of an instruction: where it lies, how long it is, and
-- its mnemonic with the numbers of its operands in plain decimal.
structure Disassembly.Shows (lines : List Line) (inst : Instruction) (entry : Nat × Disassembly) :
    Prop where
  offset : inst.offset = entry.1
  size : entry.2.size = inst.bytes.length
  text : ∃ statement values, inst.statement? = some statement ∧ statement.Values lines values ∧
    entry.2.text = Line.spelled statement.op.mnemonic (values.map Numeral.decimal)

namespace Disassembly

theorem ofBytes_block (block : CodeBlock) (rest : Bytes) :
    ofBytes (block.bytes ++ rest) = .ok ⟨block.text, block.op.size⟩ := by
  have hwidth : ¬(block.args ++ rest).length < block.op.shape.width := by
    rw [List.length_append, block.length_args]
    omega
  rw [CodeBlock.bytes, List.cons_append, ofBytes, Operation.ofByte?_code]
  dsimp only
  rw [if_neg hwidth, render_append block.length_args]
  rfl

theorem ofCode_block (front : Bytes) (block : CodeBlock) (rest : Bytes) :
    ofCode (front ++ (block.bytes ++ rest)) front.length = .ok ⟨block.text, block.op.size⟩ := by
  have hlength := block.length_bytes
  have hinside : ¬((front.length : Int) < 0 ∨
      ((front ++ (block.bytes ++ rest)).length : Int) ≤ front.length) := by
    rw [List.length_append, List.length_append, hlength, Operation.size]
    omega
  rw [ofCode, if_neg hinside, Int.toNat_natCast, List.drop_left, ofBytes_block]

-- Blocks are swept one by one, whatever code lies in front of them.
theorem sweep_located (front : Bytes) (blocks : List CodeBlock) :
    Sweep (front ++ blocks.flatMap CodeBlock.bytes) front.length (located front.length blocks) := by
  induction blocks generalizing front with
  | nil =>
    rw [List.flatMap_nil, List.append_nil]
    exact .stop
  | cons block rest ih =>
    have hrest := ih (front ++ block.bytes)
    rw [List.append_assoc, List.length_append, block.length_bytes] at hrest
    exact .next (ofCode_block front block _) hrest

theorem ofCode_length (code : Bytes) : ofCode code code.length = .error .truncated := by
  rw [ofCode, if_pos (.inr (Int.le_refl _))]

theorem Sweep.unique {code : Bytes} {offset : Nat} {found other : List (Nat × Disassembly)}
    (h : Sweep code offset found) (hother : Sweep code offset other) : found = other := by
  induction h generalizing other with
  | stop =>
    cases hother with
    | stop => rfl
    | next hcode => simp [ofCode_length] at hcode
  | next hcode _ ih =>
    cases hother with
    | stop => simp [ofCode_length] at hcode
    | next hsame hrest =>
      obtain rfl := Except.ok.inj (hcode.symm.trans hsame)
      rw [ih hrest]

end Disassembly

namespace CodeBlock

variable {block : CodeBlock}

theorem pieces_single (h : block.op.shape.operands = 1) : block.pieces = [block.args] := by
  have hlength := block.length_args
  rw [pieces]
  cases hshape : block.op.shape with
  | bare => simp [hshape, Shape.operands] at h
  | wordPair => simp [hshape, Shape.operands] at h
  | byte =>
    have hone : block.args.length ≤ 1 := by simp [hlength, hshape, Shape.width]
    simp only [List.take_of_length_le hone]
  | word =>
    have htwo : block.args.length ≤ 2 := by simp [hlength, hshape, Shape.width]
    simp only [List.take_of_length_le htwo]

theorem pieces_pair (h : block.op.shape = .wordPair) {first second : Bytes}
    (hargs : block.args = first ++ second) (hfirst : first.length = 2) :
    block.pieces = [first, second] := by
  have hlength := block.length_args
  have hsecond : second.length = 2 := by
    simp only [h, hargs, Shape.width, List.length_append] at hlength
    omega
  rw [pieces, h, hargs]
  dsimp only
  rw [List.take_left' hfirst, List.drop_left' hfirst, List.take_of_length_le (by omega)]

theorem values_word (h : block.op.shape = .word) {n : Nat}
    (hargs : block.args = Bytes.littleEndian 2 n) (hn : n ≤ 0xFFFF) :
    block.pieces.map Bytes.toNat = [n] := by
  have hsingle : block.op.shape.operands = 1 := by rw [h]; rfl
  rw [pieces_single hsingle, hargs, List.map_singleton, Bytes.toNat_littleEndian_word hn]

end CodeBlock

-- The bytes that a statement denotes hold the numbers of its operands.
theorem Statement.Denotes.values {lines : List Line} {statement : Statement} {block : CodeBlock}
    (h : statement.Denotes lines block.bytes) (hop : block.op = statement.op) :
    statement.Values lines (block.pieces.map Bytes.toNat) := by
  generalize hbytes : block.bytes = bytes at h
  have hargs := congrArg List.tail hbytes
  cases h with
  | nop rest | plot rest | halt rest =>
    rw [CodeBlock.pieces, hop]
    exact .bare _ rest rfl
  | setA word rest n hn =>
    have hbyte : (UInt8.ofNat (n % 256).toNat).toNat = (n % 256).toNat := by
      rw [UInt8.toNat_ofNat']
      omega
    have hvalue : block.pieces.map Bytes.toNat = [(n % 256).toNat] := by
      rw [CodeBlock.pieces_single (by rw [hop]; rfl), show block.args = _ from hargs]
      simp [Bytes.toNat, hbyte]
    rw [hvalue]
    exact .byte .setA word rest n rfl hn
  | setX word rest n hn hrange =>
    rw [CodeBlock.values_word (by rw [hop]; rfl) hargs hrange]
    exact .word .setX word rest n rfl (by simp) hn hrange
  | setVram word rest n hn hrange =>
    rw [CodeBlock.values_word (by rw [hop]; rfl) hargs hrange]
    exact .word .setVram word rest n rfl (by simp) hn hrange
  | jumpToLabel word rest address haddress hrange =>
    rw [CodeBlock.values_word (by rw [hop]; rfl) hargs hrange]
    exact .label word rest address haddress hrange
  | jumpToAddress word rest n hnone hn hrange =>
    rw [CodeBlock.values_word (by rw [hop]; rfl) hargs hrange]
    exact .word .jump word rest n rfl (fun _ => hnone) hn hrange
  | drawTiles first second rest x y hfirst hx hsecond hy =>
    have hpieces := CodeBlock.pieces_pair (by rw [hop]; rfl) hargs (Bytes.length_littleEndian 2 x)
    rw [hpieces, List.map_cons, List.map_singleton, Bytes.toNat_littleEndian_word hx,
      Bytes.toNat_littleEndian_word hy]
    exact .wordPair .drawTiles first second rest x y rfl hfirst hx hsecond hy

namespace Encoding

variable {mode : Mode} {labels : Labels} {lines : List Line}

-- A recognised instruction is a block of code that shows what it says.
theorem exists_block (hlabels : Located lines labels) {inst : Instruction} {statement : Statement}
    (hstatement : inst.statement? = some statement) {offset : Nat} (hoffset : inst.offset = offset)
    (hclean : (outcome mode labels inst).2 = none) :
    ∃ block : CodeBlock, block.op = statement.op ∧
      (encoded mode labels inst).bytes = block.bytes ∧
      Disassembly.Shows lines (encoded mode labels inst) (offset, ⟨block.text, block.op.size⟩) := by
  have houtcome : outcome mode labels inst = _ := outcome_of_some hstatement
  rw [houtcome] at hclean
  obtain ⟨args, hbytes, hargs⟩ := exists_args hclean
  have hdenotes := denotes_encode hlabels hclean
  rw [hbytes] at hdenotes
  let block : CodeBlock := ⟨statement.op, args, hargs⟩
  have hblock : statement.Denotes lines block.bytes := hdenotes
  have hencoded : (encoded mode labels inst).bytes = block.bytes := by
    rw [encoded, houtcome, hbytes]
    rfl
  refine ⟨block, rfl, hencoded, hoffset, ?_, statement, _, hstatement, hblock.values rfl, ?_⟩
  · rw [hencoded, block.length_bytes]
  · rw [List.map_map]
    exact block.text_eq_spelled

theorem exists_blocks (hlabels : Located lines labels) {offset : Nat} {insts : List Instruction}
    (hplaced : WellPlaced offset insts)
    (hclean : ∀ inst ∈ insts, (outcome mode labels inst).2 = none) :
    ∃ blocks : List CodeBlock,
      (insts.map (encoded mode labels)).flatMap Instruction.bytes =
        blocks.flatMap CodeBlock.bytes ∧
      List.Forall₂ (Disassembly.Shows lines)
        ((insts.map (encoded mode labels)).filter fun inst => inst.statement?.isSome)
        (Disassembly.located offset blocks) := by
  induction insts generalizing offset with
  | nil => exact ⟨[], rfl, .nil⟩
  | cons inst rest ih =>
    obtain ⟨hinst, hrest⟩ := List.forall_mem_cons.mp hclean
    obtain ⟨hoffset, hbehind⟩ := hplaced
    obtain ⟨blocks, hcode, hshows⟩ := ih hbehind hrest
    have hsame : (encoded mode labels inst).statement? = inst.statement? := rfl
    rw [List.map_cons, List.flatMap_cons, hcode]
    cases hstatement : inst.statement? with
    | none =>
      -- no bytes and no block, so the rest lies where it lay
      have hbytes : (encoded mode labels inst).bytes = [] := by
        rw [encoded, outcome_of_none hstatement]
      rw [Instruction.size_of_none hstatement, Nat.add_zero] at hshows
      rw [List.filter_cons_of_neg (by simp [hsame, hstatement]), hbytes]
      exact ⟨blocks, rfl, hshows⟩
    | some statement =>
      obtain ⟨block, hop, hbytes, hblock⟩ :=
        exists_block hlabels hstatement (hoffset (by simp [hstatement])) hinst
      rw [Instruction.size_of_some hstatement, ← hop] at hshows
      rw [List.filter_cons_of_pos (by simp [hsame, hstatement]), hbytes]
      exact ⟨block :: blocks, rfl, .cons hblock hshows⟩

end Encoding

namespace Assembly

theorem recognised_eq (program : Program) :
    program.recognised = program.instructions.filter fun inst => inst.statement?.isSome := by
  simp [Program.recognised, Instruction.statement?]

theorem filterMap_statement?_recognised {mode : Mode} {lines : List Line} {program : Program}
    (h : ofLines mode lines = .ok program) :
    program.recognised.filterMap Instruction.statement? = statements lines := by
  obtain ⟨-, -, hinsts⟩ := ofLines_eq_ok h
  rw [recognised_eq, List.filterMap_filter, hinsts, List.filterMap_map,
    ← filterMap_statement?_placed 0]
  apply List.filterMap_congr
  intro inst _
  have hsame : (Encoding.encoded mode program.labels inst).statement? = inst.statement? := rfl
  cases hstatement : inst.statement? <;> simp [hsame, hstatement]

-- A sweep over the code of an accepted source finds its recognised instructions
-- and nothing else, each at its offset and in its canonical text.
theorem ofStream_sweep (mode : Mode) (source : Stream) (program : Program)
    (h : ofStream mode source = .ok program) :
    let lines := Line.readAll (Text.ofBytes source.bytes)
    program.recognised.filterMap Instruction.statement? = statements lines ∧
      ∃ found, Disassembly.Sweep program.code 0 found ∧
        (∀ other, Disassembly.Sweep program.code 0 other → other = found) ∧
        List.Forall₂ (Disassembly.Shows lines) program.recognised found := by
  intro lines
  have hlines := ofLines_of_ofStream h
  obtain ⟨hlabels, hclean, hinsts⟩ := ofLines_eq_ok hlines
  obtain ⟨blocks, hcode, hshows⟩ :=
    Encoding.exists_blocks hlabels (Encoding.wellPlaced_placed 0 lines) hclean
  have hsweep := Disassembly.sweep_located [] blocks
  rw [List.nil_append, ← hcode, ← hinsts] at hsweep
  rw [← hinsts, ← recognised_eq] at hshows
  exact ⟨filterMap_statement?_recognised hlines, _, hsweep, fun other hother =>
    hother.unique hsweep, hshows⟩

-- A byte below zero, a word that is unknown, a label, a signed number with zeros in
-- front, and an operand too many.
theorem ofStream_sweep_plain :
    let source := Stream.whole (Text.toBytes
      "@top\nset_a -1\nWAIT 3\nJMP @top\nDRAW_BTP +007 65535, 9\nJMP 0002\nHALT")
    let lines := Line.readAll (Text.ofBytes source.bytes)
    let found : List (Nat × Disassembly) :=
      [(0, ⟨"SET_A 255", 2⟩), (2, ⟨"JMP 0", 3⟩), (5, ⟨"DRAW_BTP 7, 65535", 5⟩), (10, ⟨"JMP 2", 3⟩),
        (13, ⟨"HALT", 1⟩)]
    ∃ program, ofStream .lenient source = .ok program ∧
      Disassembly.Sweep program.code 0 found ∧
      List.Forall₂ (Disassembly.Shows lines) program.recognised found := by
  intro source lines found
  have hcode : (ofStream .lenient source).toOption.map Program.code =
      some [0x01, 0xFF, 0x04, 0x00, 0x00, 0x08, 0x07, 0x00, 0xFF, 0xFF, 0x04, 0x02, 0x00, 0xFF] := by
    decide +kernel
  cases hsource : ofStream .lenient source with
  | error error =>
    rw [hsource] at hcode
    cases hcode
  | ok program =>
    rw [hsource] at hcode
    have hbytes := Option.some.inj hcode
    have hfound : Disassembly.Sweep program.code 0 found := by
      rw [hbytes]
      exact .next (by decide) (.next (by decide) (.next (by decide) (.next (by decide)
        (.next (by decide) .stop))))
    obtain ⟨-, swept, -, hunique, hshows⟩ := ofStream_sweep .lenient source program hsource
    rw [← hunique found hfound] at hshows
    exact ⟨program, rfl, hfound, hshows⟩

end Assembly

end TileConsole
