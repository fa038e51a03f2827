import TileConsole.Proofs.Numeral
import TileConsole.Proofs.Source.Agreement
import TileConsole.Source.Assembly

namespace TileConsole

open Source

-- The bytes that a statement among the lines of a source stands for. Operands
-- behind those that the operation needs have no meaning.
inductive Statement.Denotes (lines : List Line) : Statement → Bytes → Prop
  | nop (rest : List Text) : Denotes lines ⟨.nop, rest⟩ [0x00]
  | setA (word : Text) (rest : List Text) (n : Int) (h : Numeral.Literal word n) :
    Denotes lines ⟨.setA, word :: rest⟩ [0x01, UInt8.ofNat (n % 256).toNat]
  | setX (word : Text) (rest : List Text) (n : Nat) (h : Numeral.Literal word n)
    (hn : n ≤ 0xFFFF) :
    Denotes lines ⟨.setX, word :: rest⟩ (0x02 :: Bytes.littleEndian 2 n)
  | plot (rest : List Text) : Denotes lines ⟨.plot, rest⟩ [0x03]
  | jumpToLabel (word : Text) (rest : List Text) (address : Nat)
    (h : address? lines word = some address) (hn : address ≤ 0xFFFF) :
    Denotes lines ⟨.jump, word :: rest⟩ (0x04 :: Bytes.littleEndian 2 address)
  | jumpToAddress (word : Text) (rest : List Text) (n : Nat) (hnone : address? lines word = none)
    (h : Numeral.Literal word n) (hn : n ≤ 0xFFFF) :
    Denotes lines ⟨.jump, word :: rest⟩ (0x04 :: Bytes.littleEndian 2 n)
  | setVram (word : Text) (rest : List Text) (n : Nat) (h : Numeral.Literal word n)
    (hn : n ≤ 0xFFFF) :
    Denotes lines ⟨.setVram, word :: rest⟩ (0x05 :: Bytes.littleEndian 2 n)
  | drawTiles (first second : Text) (rest : List Text) (x y : Nat)
    (hfirst : Numeral.Literal first x) (hx : x ≤ 0xFFFF)
    (hsecond : Numeral.Literal second y) (hy : y ≤ 0xFFFF) :
    Denotes lines ⟨.drawTiles, first :: second :: rest⟩
      (0x08 :: Bytes.littleEndian 2 x ++ Bytes.littleEndian 2 y)
  | halt (rest : List Text) : Denotes lines ⟨.halt, rest⟩ [0xFF]

namespace Encoding

section Operands

variable {mode : Mode} {labels : Labels} {lines : List Line} {word : Text} {bytes : Bytes}

theorem number_eq_ok_iff {n : Int} : number word = .ok n ↔ Numeral.Literal word n := by
  rw [← Numeral.parse?_eq_some_iff, number]
  cases Numeral.parse? word <;> simp

theorem byteOperand_eq_ok (h : byteOperand mode word = .ok bytes) :
    ∃ n, Numeral.Literal word n ∧ bytes = [UInt8.ofNat (n % 256).toNat] := by
  rw [byteOperand] at h
  cases hn : number word with
  | error defect => simp [hn] at h
  | ok n =>
    rw [hn] at h
    dsimp only at h
    split at h
    · cases h
    · exact ⟨n, number_eq_ok_iff.mp hn, (Except.ok.inj h).symm⟩

theorem wordOperand_eq_ok (h : wordOperand word = .ok bytes) :
    ∃ n : Nat, Numeral.Literal word n ∧ n ≤ 0xFFFF ∧ bytes = Bytes.littleEndian 2 n := by
  rw [wordOperand] at h
  cases hn : number word with
  | error defect => simp [hn] at h
  | ok n =>
    rw [hn] at h
    dsimp only at h
    split at h
    case isTrue hrange =>
      have hcast : (n.toNat : Int) = n := Int.toNat_of_nonneg hrange.1
      refine ⟨n.toNat, ?_, by omega, (Except.ok.inj h).symm⟩
      rw [hcast]
      exact number_eq_ok_iff.mp hn
    case isFalse => cases h

theorem targetLabel?_eq (hlabels : Located lines labels) (word : Text) :
    targetLabel? labels word = (address? lines word).map Nat.cast := by
  rw [targetLabel?, hlabels, hlabels, address?, beforeTarget?, Option.map_map]
  cases beforeLabel? word lines <;> simp [Function.comp_def]

theorem targetOperand_eq_ok (hlabels : Located lines labels)
    (h : targetOperand labels word = .ok bytes) :
    (∃ address, address? lines word = some address ∧ address ≤ 0xFFFF ∧
      bytes = Bytes.littleEndian 2 address) ∨
    (address? lines word = none ∧ wordOperand word = .ok bytes) := by
  rw [targetOperand, targetLabel?_eq hlabels] at h
  cases haddress : address? lines word with
  | none => exact .inr ⟨rfl, by simpa [haddress] using h⟩
  | some address =>
    simp only [haddress, Option.map_some] at h
    split at h
    case isTrue hrange =>
      have hmod : ((address : Int) % 65536).toNat = address := by omega
      rw [hmod] at h
      exact .inl ⟨address, rfl, by omega, (Except.ok.inj h).symm⟩
    case isFalse => cases h

end Operands

section Statements

variable {mode : Mode} {labels : Labels} {lines : List Line} {op : Operation}
  {operands : List Text}

-- An encoding without a defect has its operands, each of them encoded.
theorem encode_eq (h : (encode mode labels op operands).2 = none) :
    op.shape.operands ≤ operands.length ∧
      (join ((operands.take op.shape.operands).map (operand mode labels op))).2 = none ∧
      (encode mode labels op operands).1 =
        op.code :: (join ((operands.take op.shape.operands).map (operand mode labels op))).1 := by
  unfold encode at h ⊢
  split at h
  · simp at h
  · split at h
    · simp at h
    · rename_i hfew hmany
      exact ⟨Nat.le_of_not_lt hfew, h, by rw [if_neg hfew, if_neg hmany]⟩

theorem join_cons_eq_none {result : Except Defect Bytes} {rest : List (Except Defect Bytes)}
    (h : (join (result :: rest)).2 = none) :
    ∃ bytes, result = .ok bytes ∧ (join rest).2 = none ∧
      (join (result :: rest)).1 = bytes ++ (join rest).1 := by
  cases result with
  | error defect => simp [join] at h
  | ok bytes => exact ⟨bytes, rfl, h, rfl⟩

theorem encode_bare (hneed : op.shape.operands = 0)
    (h : (encode mode labels op operands).2 = none) :
    (encode mode labels op operands).1 = [op.code] := by
  obtain ⟨-, -, heq⟩ := encode_eq h
  rw [heq, hneed]
  rfl

theorem encode_single (hneed : op.shape.operands = 1)
    (h : (encode mode labels op operands).2 = none) :
    ∃ word rest bytes, operands = word :: rest ∧ operand mode labels op word = .ok bytes ∧
      (encode mode labels op operands).1 = op.code :: bytes := by
  obtain ⟨hlength, hjoin, heq⟩ := encode_eq h
  rw [hneed] at hlength hjoin heq
  match operands with
  | [] => simp at hlength
  | word :: rest =>
    obtain ⟨bytes, hword, -, hbytes⟩ := join_cons_eq_none hjoin
    rw [heq]
    refine ⟨word, rest, bytes, rfl, hword, congrArg _ (hbytes.trans ?_)⟩
    simp [join]

theorem encode_pair (hneed : op.shape.operands = 2)
    (h : (encode mode labels op operands).2 = none) :
    ∃ first second rest bytes others, operands = first :: second :: rest ∧
      operand mode labels op first = .ok bytes ∧ operand mode labels op second = .ok others ∧
      (encode mode labels op operands).1 = op.code :: (bytes ++ others) := by
  obtain ⟨hlength, hjoin, heq⟩ := encode_eq h
  rw [hneed] at hlength hjoin heq
  match operands with
  | [] => simp at hlength
  | [_] => simp at hlength
  | first :: second :: rest =>
    obtain ⟨bytes, hfirst, htail, hbytes⟩ := join_cons_eq_none hjoin
    obtain ⟨others, hsecond, -, hothers⟩ := join_cons_eq_none htail
    rw [heq]
    refine ⟨first, second, rest, bytes, others, rfl, hfirst, hsecond, congrArg _ ?_⟩
    refine hbytes.trans (congrArg _ (hothers.trans ?_))
    simp [join]

-- What the second pass encodes without a defect is what the statement denotes.
theorem denotes_encode (hlabels : Located lines labels)
    (h : (encode mode labels op operands).2 = none) :
    Statement.Denotes lines ⟨op, operands⟩ (encode mode labels op operands).1 := by
  cases op with
  | nop => rw [encode_bare rfl h]; exact .nop operands
  | plot => rw [encode_bare rfl h]; exact .plot operands
  | halt => rw [encode_bare rfl h]; exact .halt operands
  | setA =>
    obtain ⟨word, rest, bytes, rfl, hword, heq⟩ := encode_single rfl h
    obtain ⟨n, hn, rfl⟩ := byteOperand_eq_ok hword
    rw [heq]
    exact .setA word rest n hn
  | setX =>
    obtain ⟨word, rest, bytes, rfl, hword, heq⟩ := encode_single rfl h
    obtain ⟨n, hn, hrange, rfl⟩ := wordOperand_eq_ok hword
    rw [heq]
    exact .setX word rest n hn hrange
  | setVram =>
    obtain ⟨word, rest, bytes, rfl, hword, heq⟩ := encode_single rfl h
    obtain ⟨n, hn, hrange, rfl⟩ := wordOperand_eq_ok hword
    rw [heq]
    exact .setVram word rest n hn hrange
  | jump =>
    obtain ⟨word, rest, bytes, rfl, hword, heq⟩ := encode_single rfl h
    rw [heq]
    rcases targetOperand_eq_ok hlabels hword with
      ⟨address, haddress, hrange, rfl⟩ | ⟨hnone, hnumber⟩
    · exact .jumpToLabel word rest address haddress hrange
    · obtain ⟨n, hn, hrange, rfl⟩ := wordOperand_eq_ok hnumber
      exact .jumpToAddress word rest n hnone hn hrange
  | drawTiles =>
    obtain ⟨first, second, rest, bytes, others, rfl, hfirst, hsecond, heq⟩ := encode_pair rfl h
    obtain ⟨x, hx, hxrange, rfl⟩ := wordOperand_eq_ok hfirst
    obtain ⟨y, hy, hyrange, rfl⟩ := wordOperand_eq_ok hsecond
    rw [heq]
    exact .drawTiles first second rest x y hx hxrange hy hyrange

end Statements

-- Unknown instructions add nothing to the code.
theorem flatMap_bytes_encoded (mode : Mode) (labels : Labels) (insts : List Instruction) :
    (insts.map (encoded mode labels)).flatMap Instruction.bytes =
      (insts.filterMap Instruction.statement?).flatMap fun statement =>
        (encode mode labels statement.op statement.operands).1 := by
  induction insts with
  | nil => rfl
  | cons inst rest ih =>
    rw [List.map_cons, List.flatMap_cons, ih]
    cases hstatement : inst.statement? with
    | none => simp [encoded, outcome, hstatement]
    | some statement => simp [encoded, outcome, hstatement]

theorem encode_clean {mode : Mode} {labels : Labels} {lines : List Line}
    (h : ∀ inst ∈ placed 0 lines, (outcome mode labels inst).2 = none) :
    ∀ statement ∈ statements lines,
      (encode mode labels statement.op statement.operands).2 = none := by
  intro statement hstatement
  rw [← filterMap_statement?_placed 0 lines, List.mem_filterMap] at hstatement
  obtain ⟨inst, hinst, heq⟩ := hstatement
  simpa [outcome, heq] using h inst hinst

end Encoding

namespace Assembly

section Accepted

variable {mode : Mode} {lines : List Line} {program : Program}

-- An accepted source has its labels located and its instructions encoded.
theorem ofLines_eq_ok (h : ofLines mode lines = .ok program) :
    Located lines program.labels ∧
      (∀ inst ∈ placed 0 lines, (Encoding.outcome mode program.labels inst).2 = none) ∧
      program.instructions = (placed 0 lines).map (Encoding.encoded mode program.labels) := by
  rw [ofLines] at h
  split at h
  · cases h
  · rename_i layout hlayout
    obtain ⟨hinsts, -, hlabels⟩ := Layout.ofLines_spec hlayout
    rw [hinsts, Encoding.ofInstructions] at h
    rcases Encoding.extend_cases mode layout.labels #[] (Encoding.wellPlaced_placed 0 lines) with
      ⟨hclean, heq⟩ | ⟨before, inst, after, defect, -, -, -, heq⟩
    · rw [heq] at h
      obtain rfl := Except.ok.inj h
      exact ⟨hlabels, hclean, by simp⟩
    · rw [heq] at h
      cases h

theorem code_eq (h : ofLines mode lines = .ok program) :
    program.code = (statements lines).flatMap fun statement =>
      (Encoding.encode mode program.labels statement.op statement.operands).1 := by
  obtain ⟨-, -, hinsts⟩ := ofLines_eq_ok h
  rw [Program.code, hinsts, Encoding.flatMap_bytes_encoded, filterMap_statement?_placed]

theorem ofLines_of_ofStream {source : Stream} (h : ofStream mode source = .ok program) :
    ofLines mode (Line.readAll (Text.ofBytes source.bytes)) = .ok program := by
  rw [ofStream] at h
  split at h
  · cases h
  · exact h

end Accepted

-- The labels and the code of an accepted source, read off its lines at once. A
-- label lies behind the statements in front of its last declaration, wherever
-- the jumps to it stand.
theorem ofStream_meaning (mode : Mode) (source : Stream) (program : Program)
    (h : ofStream mode source = .ok program) :
    let lines := Line.readAll (Text.ofBytes source.bytes)
    (∀ name offset, program.labels.find? name = some offset ↔
      ∃ before line after, lines = before ++ line :: after ∧ line.kind = .label name ∧
        (∀ other ∈ after, other.kind ≠ .label name) ∧ offset = codeSize before) ∧
    ∃ block : Statement → Bytes,
      (∀ statement ∈ statements lines, statement.Denotes lines (block statement)) ∧
      program.code = (statements lines).flatMap block := by
  intro lines
  have hlines := ofLines_of_ofStream h
  obtain ⟨hlabels, hclean, -⟩ := ofLines_eq_ok hlines
  refine ⟨fun name offset => ?_, _, fun statement hstatement => ?_, code_eq hlines⟩
  · rw [hlabels, Option.map_eq_some_iff]
    constructor
    · rintro ⟨before, hbefore, rfl⟩
      obtain ⟨line, after, hsplit, hline, hafter⟩ :=
        (beforeLabel?_eq_some_iff name lines before).mp hbefore
      exact ⟨before, line, after, hsplit, hline, hafter, rfl⟩
    · rintro ⟨before, line, after, hsplit, hline, hafter, rfl⟩
      exact ⟨before, (beforeLabel?_eq_some_iff name lines before).mpr
        ⟨line, after, hsplit, hline, hafter⟩, rfl⟩
  · exact Encoding.denotes_encode hlabels (Encoding.encode_clean hclean statement hstatement)

-- A jump forward to a label that is declared twice, with a byte below zero on
-- the way.
theorem ofStream_meaning_redeclared :
    let source := Stream.whole (Text.toBytes "JMP @e\n@e\nset_a -1\n@e:\nHALT")
    let lines := Line.readAll (Text.ofBytes source.bytes)
    ∃ program, ofStream .lenient source = .ok program ∧
      program.code = [0x04, 0x05, 0x00, 0x01, 0xFF, 0xFF] ∧
      ∃ block : Statement → Bytes,
        (∀ statement ∈ statements lines, statement.Denotes lines (block statement)) ∧
        program.code = (statements lines).flatMap block := by
  intro source lines
  have hcode : (ofStream .lenient source).toOption.map Program.code =
      some [0x04, 0x05, 0x00, 0x01, 0xFF, 0xFF] := by
    decide +kernel
  cases hsource : ofStream .lenient source with
  | error error =>
    rw [hsource] at hcode
    cases hcode
  | ok program =>
    rw [hsource] at hcode
    have hmeaning := ofStream_meaning .lenient source program hsource
    exact ⟨program, rfl, Option.some.inj hcode, hmeaning.2⟩

end Assembly

end TileConsole
