import Mathlib.Data.List.Forall2
import TileConsole.Proofs.Source.Reassembly

namespace TileConsole

namespace Labels

-- No label lies in front of the code.
def NonNegative (labels : Labels) : Prop :=
  ∀ name offset, labels.find? name = some offset → 0 ≤ offset

theorem nonNegative_empty : empty.NonNegative := by
  intro name offset h
  cases h

theorem NonNegative.insert {labels : Labels} (hlabels : labels.NonNegative) {offset : Int}
    (hoffset : 0 ≤ offset) (name : Text) : (labels.insert name offset).NonNegative := by
  intro other found h
  rw [find?_insert] at h
  split at h
  case isTrue => exact Option.some.inj h ▸ hoffset
  case isFalse => exact hlabels other found h

end Labels

-- An instruction without its bytes: all that the second pass leaves alone.
def Instruction.blank (inst : Instruction) : Instruction :=
  { inst with bytes := [] }

namespace Encoding

-- The bytes that an operand of an operation stands for. A jump takes a label of
-- the table before a number.
inductive OperandBytes (mode : Mode) (labels : Labels) (op : Operation) (word : Text) :
    Bytes → Prop
  | byte (n : Int) (hshape : op.shape = .byte) (h : Numeral.Literal word n)
    (hrange : mode = .strict → 0 ≤ n ∧ n ≤ 0xFF) :
    OperandBytes mode labels op word [UInt8.ofNat (n % 256).toNat]
  | word (n : Nat) (hshape : op.shape ≠ .byte)
    (hlabel : op = .jump → targetLabel? labels word = none) (h : Numeral.Literal word n)
    (hrange : n ≤ 0xFFFF) : OperandBytes mode labels op word (Bytes.littleEndian 2 n)
  | label (n : Nat) (hop : op = .jump) (h : targetLabel? labels word = some (n : Int))
    (hrange : n ≤ 0xFFFF) : OperandBytes mode labels op word (Bytes.littleEndian 2 n)

-- A strict assembler takes no operands behind those that an operation needs.
def CountFits (mode : Mode) (op : Operation) (operands : List Text) : Prop :=
  op.shape.operands ≤ operands.length ∧ (mode = .strict → operands.length ≤ op.shape.operands)

-- The complete encoding of an instruction. An unknown mnemonic has no bytes.
inductive Written (mode : Mode) (labels : Labels) (inst : Instruction) : Bytes → Prop
  | unknown (hop : Operation.ofMnemonic? inst.mnemonic = none) : Written mode labels inst []
  | known (op : Operation) (pieces : List Bytes)
    (hop : Operation.ofMnemonic? inst.mnemonic = some op)
    (hcount : CountFits mode op inst.operands)
    (hpieces : List.Forall₂ (OperandBytes mode labels op)
      (inst.operands.take op.shape.operands) pieces) :
    Written mode labels inst (op.code :: pieces.flatten)

-- What is left of an instruction that cannot be encoded.
inductive Broken (mode : Mode) (labels : Labels) (inst : Instruction) : Bytes → Prop
  | count (op : Operation) (hop : Operation.ofMnemonic? inst.mnemonic = some op)
    (hcount : ¬CountFits mode op inst.operands) : Broken mode labels inst []
  | first (op : Operation) (word : Text) (rest : List Text)
    (hop : Operation.ofMnemonic? inst.mnemonic = some op)
    (hcount : CountFits mode op inst.operands) (hneed : 0 < op.shape.operands)
    (hoperands : inst.operands = word :: rest)
    (hword : ¬∃ bytes, OperandBytes mode labels op word bytes) :
    Broken mode labels inst [op.code]
  | second (word other : Text) (rest : List Text) (bytes : Bytes)
    (hop : Operation.ofMnemonic? inst.mnemonic = some .drawTiles)
    (hcount : CountFits mode .drawTiles inst.operands)
    (hoperands : inst.operands = word :: other :: rest)
    (hword : OperandBytes mode labels .drawTiles word bytes)
    (hother : ¬∃ bytes, OperandBytes mode labels .drawTiles other bytes) :
    Broken mode labels inst (Operation.drawTiles.code :: bytes)

section Operands

variable {mode : Mode} {labels : Labels} {op : Operation} {word : Text} {bytes : Bytes}

theorem byteOperand_eq_ok_iff : byteOperand mode word = .ok bytes ↔
    ∃ n, Numeral.Literal word n ∧ (mode = .strict → 0 ≤ n ∧ n ≤ 0xFF) ∧
      bytes = [UInt8.ofNat (n % 256).toNat] := by
  constructor
  · intro h
    rw [byteOperand] at h
    cases hn : number word with
    | error defect => simp [hn] at h
    | ok n =>
      simp only [hn] at h
      split at h
      case isTrue => cases h
      case isFalse hrange =>
        refine ⟨n, number_eq_ok_iff.mp hn, fun hmode => ?_, (Except.ok.inj h).symm⟩
        exact Decidable.not_not.mp fun hout => hrange ⟨hmode, hout⟩
  · rintro ⟨n, hn, hrange, rfl⟩
    rw [byteOperand, number_eq_ok_iff.mpr hn]
    exact if_neg fun h => h.2 (hrange h.1)

theorem wordOperand_eq_ok_iff : wordOperand word = .ok bytes ↔
    ∃ n : Nat, Numeral.Literal word n ∧ n ≤ 0xFFFF ∧ bytes = Bytes.littleEndian 2 n := by
  refine ⟨wordOperand_eq_ok, ?_⟩
  rintro ⟨n, hn, hrange, rfl⟩
  rw [wordOperand, number_eq_ok_iff.mpr hn]
  exact if_pos (by omega)

-- A label at an offset that is not negative is written as it is.
theorem targetOperand_of_label {n : Nat} (h : targetLabel? labels word = some (n : Int)) :
    targetOperand labels word = .ok bytes ↔ n ≤ 0xFFFF ∧ bytes = Bytes.littleEndian 2 n := by
  rw [targetOperand, h]
  dsimp only
  by_cases hrange : n ≤ 0xFFFF
  · have hmod : ((n : Int) % 65536).toNat = n := by omega
    rw [if_pos (by omega), hmod]
    simp [hrange, eq_comm]
  · rw [if_neg (by omega)]
    simp [hrange]

theorem targetLabel?_nonneg (hlabels : labels.NonNegative) {offset : Int}
    (h : targetLabel? labels word = some offset) : 0 ≤ offset := by
  rw [targetLabel?] at h
  split at h
  case h_1 found hfound => exact hlabels word offset (hfound.trans h)
  case h_2 => exact hlabels _ offset h

theorem operand_eq_ok_iff (hlabels : labels.NonNegative) :
    operand mode labels op word = .ok bytes ↔ OperandBytes mode labels op word bytes := by
  rw [operand]
  split
  case isTrue hjump =>
    subst hjump
    cases htarget : targetLabel? labels word with
    | none =>
      rw [targetOperand, htarget]
      dsimp only
      rw [wordOperand_eq_ok_iff]
      constructor
      · rintro ⟨n, hn, hrange, rfl⟩
        exact .word n (by decide) (fun _ => htarget) hn hrange
      · intro h
        cases h with
        | byte n hshape => cases hshape
        | word n _ _ hn hrange => exact ⟨n, hn, hrange, rfl⟩
        | label n _ hlabel => simp [htarget] at hlabel
    | some offset =>
      obtain ⟨n, rfl⟩ := Int.eq_ofNat_of_zero_le (targetLabel?_nonneg hlabels htarget)
      rw [targetOperand_of_label htarget]
      constructor
      · rintro ⟨hrange, rfl⟩
        exact .label n rfl htarget hrange
      · intro h
        cases h with
        | byte n hshape => cases hshape
        | word n _ hlabel => simp [htarget] at hlabel
        | label m _ hlabel hrange =>
          obtain rfl : n = m := Int.ofNat.inj (Option.some.inj (htarget.symm.trans hlabel))
          exact ⟨hrange, rfl⟩
  case isFalse hjump =>
    split
    case isTrue hshape =>
      rw [byteOperand_eq_ok_iff]
      constructor
      · rintro ⟨n, hn, hrange, rfl⟩
        exact .byte n hshape hn hrange
      · intro h
        cases h with
        | byte n _ hn hrange => exact ⟨n, hn, hrange, rfl⟩
        | word n hword => exact absurd hshape hword
        | label n hop => exact absurd hop hjump
    case isFalse hshape =>
      rw [wordOperand_eq_ok_iff]
      constructor
      · rintro ⟨n, hn, hrange, rfl⟩
        exact .word n hshape (fun hop => absurd hop hjump) hn hrange
      · intro h
        cases h with
        | byte n hbyte => exact absurd hbyte hshape
        | word n _ _ hn hrange => exact ⟨n, hn, hrange, rfl⟩
        | label n hop => exact absurd hop hjump

end Operands

section Joins

variable {mode : Mode} {labels : Labels} {op : Operation} {words : List Text}

theorem forall₂_operandBytes_iff (hlabels : labels.NonNegative) {pieces : List Bytes} :
    List.Forall₂ (OperandBytes mode labels op) words pieces ↔
      words.map (operand mode labels op) = pieces.map .ok := by
  rw [← List.forall₂_eq_eq_eq, List.forall₂_map_left_iff, List.forall₂_map_right_iff]
  simp only [operand_eq_ok_iff hlabels]

-- Joining keeps the bytes of the operands in front of the first bad one.
theorem join_operands_cases (hlabels : labels.NonNegative) (words : List Text) :
    (∃ pieces, List.Forall₂ (OperandBytes mode labels op) words pieces ∧
      join (words.map (operand mode labels op)) = (pieces.flatten, none)) ∨
    ∃ good bad rest pieces defect, words = good ++ bad :: rest ∧
      List.Forall₂ (OperandBytes mode labels op) good pieces ∧
      (¬∃ bytes, OperandBytes mode labels op bad bytes) ∧
      join (words.map (operand mode labels op)) = (pieces.flatten, some defect) := by
  induction words with
  | nil => exact .inl ⟨[], .nil, rfl⟩
  | cons word rest ih =>
    rw [List.map_cons]
    cases hword : operand mode labels op word with
    | error defect =>
      refine .inr ⟨[], word, rest, [], defect, rfl, .nil, ?_, rfl⟩
      rintro ⟨bytes, hbytes⟩
      rw [(operand_eq_ok_iff hlabels).mpr hbytes] at hword
      cases hword
    | ok bytes =>
      have hbytes := (operand_eq_ok_iff hlabels).mp hword
      rcases ih with ⟨pieces, hpieces, heq⟩ | hfailed
      · exact .inl ⟨bytes :: pieces, .cons hbytes hpieces, by rw [join, heq, List.flatten_cons]⟩
      · obtain ⟨good, bad, after, pieces, defect, rfl, hgood, hbad, heq⟩ := hfailed
        exact .inr ⟨word :: good, bad, after, bytes :: pieces, defect, rfl,
          .cons hbytes hgood, hbad, by rw [join, heq, List.flatten_cons]⟩

end Joins

section Statements

variable {mode : Mode} {labels : Labels} {op : Operation} {operands : List Text} {bytes : Bytes}

theorem encode_of_countFits (h : CountFits mode op operands) :
    encode mode labels op operands =
      let joined := join ((operands.take op.shape.operands).map (operand mode labels op))
      (op.code :: joined.1, joined.2) := by
  rw [encode, if_neg (Nat.not_lt.mpr h.1), if_neg fun hmany => Nat.not_lt.mpr (h.2 hmany.1) hmany.2]

theorem encode_of_not_countFits (h : ¬CountFits mode op operands) :
    ∃ defect, encode mode labels op operands = ([], some defect) := by
  rw [encode]
  split
  case isTrue => exact ⟨_, rfl⟩
  case isFalse hfew =>
    refine ⟨.extraOperands, if_pos (Decidable.not_not.mp fun hmany => h ⟨Nat.not_lt.mp hfew, ?_⟩)⟩
    exact fun hmode => Nat.not_lt.mp fun hlt => hmany ⟨hmode, hlt⟩

theorem encode_eq_iff (hlabels : labels.NonNegative) :
    encode mode labels op operands = (bytes, none) ↔ CountFits mode op operands ∧
      ∃ pieces, bytes = op.code :: pieces.flatten ∧
        List.Forall₂ (OperandBytes mode labels op) (operands.take op.shape.operands) pieces := by
  by_cases hcount : CountFits mode op operands
  · rw [encode_of_countFits hcount]
    constructor
    · intro h
      obtain ⟨rfl, hnone⟩ := Prod.mk.inj h
      rcases @join_operands_cases mode labels op hlabels (operands.take op.shape.operands) with
        ⟨pieces, hpieces, heq⟩ | ⟨good, bad, rest, pieces, defect, -, -, -, heq⟩
      · exact ⟨hcount, pieces, by rw [heq], hpieces⟩
      · rw [heq] at hnone
        cases hnone
    · rintro ⟨-, pieces, rfl, hpieces⟩
      rw [(forall₂_operandBytes_iff hlabels).mp hpieces, join_map_ok]
  · obtain ⟨defect, heq⟩ := @encode_of_not_countFits mode labels op operands hcount
    simp [heq, hcount]

theorem operands_le_two (op : Operation) : op.shape.operands ≤ 2 := by
  cases op <;> decide

theorem eq_drawTiles_of_two {op : Operation} (h : 2 ≤ op.shape.operands) : op = .drawTiles := by
  revert h
  cases op <;> decide

end Statements

section Instructions

variable {mode : Mode} {labels : Labels} {inst : Instruction} {bytes : Bytes}

theorem outcome_of_unknown (h : Operation.ofMnemonic? inst.mnemonic = none) :
    outcome mode labels inst = ([], none) :=
  outcome_of_none (by rw [Instruction.statement?, h]; rfl)

theorem outcome_of_ofMnemonic? {op : Operation}
    (h : Operation.ofMnemonic? inst.mnemonic = some op) :
    outcome mode labels inst = encode mode labels op inst.operands :=
  outcome_of_some (by rw [Instruction.statement?, h]; rfl)

-- The second pass writes the complete encoding of an instruction that has one.
theorem written_iff (hlabels : labels.NonNegative) :
    Written mode labels inst bytes ↔ outcome mode labels inst = (bytes, none) := by
  cases hop : Operation.ofMnemonic? inst.mnemonic with
  | none =>
    rw [outcome_of_unknown hop]
    constructor
    · intro h
      cases h with
      | unknown => rfl
      | known op _ hknown => simp [hop] at hknown
    · intro h
      obtain ⟨rfl, -⟩ := Prod.mk.inj h
      exact .unknown hop
  | some op =>
    rw [outcome_of_ofMnemonic? hop, encode_eq_iff hlabels]
    constructor
    · intro h
      cases h with
      | unknown hunknown => simp [hop] at hunknown
      | known other pieces hother hcount hpieces =>
        obtain rfl := Option.some.inj (hop.symm.trans hother)
        exact ⟨hcount, pieces, rfl, hpieces⟩
    · rintro ⟨hcount, pieces, rfl, hpieces⟩
      exact .known op pieces hop hcount hpieces

-- No operation has more than two operands, so at most one of them is encoded in
-- front of a bad one.
theorem broken_of_split {op : Operation} {good rest : List Text} {bad : Text}
    {pieces : List Bytes} (hop : Operation.ofMnemonic? inst.mnemonic = some op)
    (hcount : CountFits mode op inst.operands)
    (hsplit : inst.operands.take op.shape.operands = good ++ bad :: rest)
    (hgood : List.Forall₂ (OperandBytes mode labels op) good pieces)
    (hbad : ¬∃ bytes, OperandBytes mode labels op bad bytes) :
    Broken mode labels inst (op.code :: pieces.flatten) := by
  have hlength := congrArg List.length hsplit
  rw [List.length_take, Nat.min_eq_left hcount.1, List.length_append, List.length_cons] at hlength
  have hoperands := List.take_append_drop op.shape.operands inst.operands
  rw [hsplit] at hoperands
  cases hgood with
  | nil => exact .first op bad _ hop hcount (by omega) hoperands.symm hbad
  | @cons word bytes others _ hword hothers =>
    cases hothers with
    | nil =>
      simp only [List.length_cons, List.length_nil] at hlength
      obtain rfl : op = .drawTiles := eq_drawTiles_of_two (by omega)
      rw [List.flatten_singleton]
      exact .second word bad _ bytes hop hcount hoperands.symm hword hbad
    | cons =>
      have htwo := operands_le_two op
      simp only [List.length_cons] at hlength
      omega

theorem broken_outcome (hlabels : labels.NonNegative) {defect : Defect}
    (h : (outcome mode labels inst).2 = some defect) :
    Broken mode labels inst (outcome mode labels inst).1 := by
  cases hop : Operation.ofMnemonic? inst.mnemonic with
  | none =>
    rw [outcome_of_unknown hop] at h
    cases h
  | some op =>
    rw [outcome_of_ofMnemonic? hop] at h ⊢
    by_cases hcount : CountFits mode op inst.operands
    · rw [encode_of_countFits hcount] at h ⊢
      rcases @join_operands_cases mode labels op hlabels (inst.operands.take op.shape.operands) with
        ⟨pieces, -, heq⟩ | ⟨good, bad, rest, pieces, found, hsplit, hgood, hbad, heq⟩
      · rw [heq] at h
        cases h
      · rw [heq]
        exact broken_of_split hop hcount hsplit hgood hbad
    · obtain ⟨found, heq⟩ := @encode_of_not_countFits mode labels op inst.operands hcount
      rw [heq]
      exact .count op hop hcount

-- What is left stops before the last operand.
theorem Broken.length_lt (h : Broken mode labels inst bytes) :
    ∃ op, Operation.ofMnemonic? inst.mnemonic = some op ∧
      (bytes = [] ∨ ∃ args, bytes = op.code :: args ∧ args.length < op.shape.width) := by
  cases h with
  | count op hop => exact ⟨op, hop, .inl rfl⟩
  | first op _ _ hop _ hneed =>
    refine ⟨op, hop, .inr ⟨[], rfl, ?_⟩⟩
    cases hshape : op.shape <;> simp [hshape, Shape.operands, Shape.width] at hneed ⊢
  | second _ _ _ args hop _ _ hword =>
    refine ⟨.drawTiles, hop, .inr ⟨args, rfl, ?_⟩⟩
    cases hword with
    | byte _ hshape => cases hshape
    | word n =>
      rw [Bytes.length_littleEndian]
      decide
    | label _ hjump => cases hjump

-- What is left begins the encoding of the same operation with other operands.
theorem Broken.exists_whole (h : Broken mode labels inst bytes) :
    ∃ operands whole, Written mode .empty { inst with operands } whole ∧
      bytes <+: whole ∧ bytes ≠ whole := by
  obtain ⟨op, hop, hbytes⟩ := h.length_lt
  obtain ⟨block, rfl, hpart, hne⟩ : ∃ block : CodeBlock, block.op = op ∧
      bytes <+: block.bytes ∧ bytes ≠ block.bytes := by
    rcases hbytes with rfl | ⟨args, rfl, hlt⟩
    · exact ⟨⟨op, .replicate op.shape.width 0, List.length_replicate⟩, rfl, ⟨_, rfl⟩, by
        simp [CodeBlock.bytes]⟩
    · refine ⟨⟨op, args ++ .replicate (op.shape.width - args.length) 0, ?_⟩, rfl, ?_, ?_⟩
      · rw [List.length_append, List.length_replicate]
        omega
      · exact ⟨_, rfl⟩
      · intro heq
        have hlength := congrArg List.length heq
        simp only [CodeBlock.bytes, List.length_cons, List.length_append, List.length_replicate]
          at hlength
        omega
  refine ⟨block.operands, block.bytes, (written_iff Labels.nonNegative_empty).mpr ?_, hpart, hne⟩
  have hother : Operation.ofMnemonic? { inst with operands := block.operands }.mnemonic =
    some block.op := hop
  rw [outcome_of_ofMnemonic? hother]
  exact encode_block mode (fun _ => rfl) block

end Instructions

-- An instruction that got its complete encoding and is otherwise as it was.
def Filled (mode : Mode) (labels : Labels) (old new : Instruction) : Prop :=
  ∃ bytes, Written mode labels old bytes ∧ new = { old with bytes }

-- The error that an instruction stops the second pass with, if it does.
def refusal? (mode : Mode) (labels : Labels) (inst : Instruction) : Option EncodingFailure :=
  (outcome mode labels inst).2.map fun defect => .rejected ⟨inst.line, inst.text, defect⟩

-- The number of the first instruction that stops the second pass.
def firstRefused (mode : Mode) (labels : Labels) (insts : List Instruction) : Nat :=
  insts.findIdx fun inst => (refusal? mode labels inst).isSome

section Runs

variable {mode : Mode} {labels : Labels} {insts others : List Instruction}

theorem forall₂_filled (hlabels : labels.NonNegative)
    (h : ∀ inst ∈ insts, (outcome mode labels inst).2 = none) :
    List.Forall₂ (Filled mode labels) insts (insts.map (encoded mode labels)) := by
  rw [List.forall₂_map_right_iff, List.forall₂_same]
  intro inst hinst
  exact ⟨_, (written_iff hlabels).mpr (Prod.ext rfl (h inst hinst)), rfl⟩

theorem refusal?_eq_none {inst : Instruction} (h : (outcome mode labels inst).2 = none) :
    refusal? mode labels inst = none := by
  rw [refusal?, h]
  rfl

theorem ofInstructions_cases (mode : Mode) (labels : Labels) (h : WellPlaced 0 insts) :
    ((∀ inst ∈ insts, (outcome mode labels inst).2 = none) ∧
      ofInstructions mode labels insts =
        ⟨insts.map (encoded mode labels), insts.length, none⟩) ∨
    ∃ before inst after defect, insts = before ++ inst :: after ∧
      (∀ other ∈ before, (outcome mode labels other).2 = none) ∧
      (outcome mode labels inst).2 = some defect ∧
      ofInstructions mode labels insts =
        ⟨before.map (encoded mode labels) ++ encoded mode labels inst :: after, before.length,
          some (.rejected ⟨inst.line, inst.text, defect⟩)⟩ := by
  simpa [ofInstructions] using extend_cases mode labels #[] h

-- The second pass writes all instructions up to the first that it refuses.
theorem ofInstructions_eq (h : WellPlaced 0 insts) :
    ofInstructions mode labels insts =
      ⟨(insts.take (firstRefused mode labels insts + 1)).map (encoded mode labels) ++
          insts.drop (firstRefused mode labels insts + 1),
        firstRefused mode labels insts, insts.findSome? (refusal? mode labels)⟩ := by
  rcases ofInstructions_cases mode labels h with ⟨hclean, heq⟩ | hfailed
  · have hnone : ∀ inst ∈ insts, refusal? mode labels inst = none := fun inst hinst =>
      refusal?_eq_none (hclean inst hinst)
    have hfirst : firstRefused mode labels insts = insts.length :=
      List.findIdx_eq_length.mpr fun inst hinst => by rw [hnone inst hinst]; rfl
    rw [heq, hfirst, List.take_of_length_le (Nat.le_succ _), List.drop_of_length_le (Nat.le_succ _),
      List.findSome?_eq_none_iff.mpr hnone]
    simp
  · obtain ⟨before, inst, after, defect, rfl, hbefore, hdefect, heq⟩ := hfailed
    have hnone : ∀ other ∈ before, refusal? mode labels other = none := fun other hother =>
      refusal?_eq_none (hbefore other hother)
    have hsome : refusal? mode labels inst = some (.rejected ⟨inst.line, inst.text, defect⟩) := by
      rw [refusal?, hdefect]
      rfl
    have hfirst : firstRefused mode labels (before ++ inst :: after) = before.length := by
      rw [firstRefused, List.findIdx_append, List.findIdx_eq_length.mpr fun other hother => by
        rw [hnone other hother]; rfl]
      simp [List.findIdx_cons, hsome]
    rw [heq, hfirst, List.findSome?_append, List.findSome?_eq_none_iff.mpr hnone,
      List.take_length_add_append, List.drop_length_add_append]
    simp [hsome]

-- The places of instructions do not depend on their bytes.
theorem wellPlaced_map_blank (offset : Nat) (insts : List Instruction) :
    WellPlaced offset (insts.map Instruction.blank) ↔ WellPlaced offset insts := by
  induction insts generalizing offset with
  | nil => exact Iff.rfl
  | cons inst rest ih => exact and_congr Iff.rfl (ih _)

theorem WellPlaced.of_blank (h : WellPlaced 0 insts)
    (hblank : others.map Instruction.blank = insts.map Instruction.blank) :
    WellPlaced 0 others := by
  rw [← wellPlaced_map_blank, hblank, wellPlaced_map_blank]
  exact h

-- Where the second pass stops and why does not depend on the bytes it finds.
theorem firstRefused_map_blank (insts : List Instruction) :
    firstRefused mode labels (insts.map Instruction.blank) = firstRefused mode labels insts :=
  List.findIdx_map _ _ _

theorem findSome?_map_blank (insts : List Instruction) :
    (insts.map Instruction.blank).findSome? (refusal? mode labels) =
      insts.findSome? (refusal? mode labels) :=
  List.findSome?_map

theorem map_encoded_map_blank (insts : List Instruction) :
    (insts.map Instruction.blank).map (encoded mode labels) =
      insts.map (encoded mode labels) :=
  List.map_map

theorem take_map_take_append_drop (f : Instruction → Instruction) (n : Nat)
    (insts : List Instruction) :
    ((insts.take n).map f ++ insts.drop n).take n = (insts.take n).map f := by
  rcases Nat.le_total n insts.length with hle | hle
  · apply List.take_left'
    rw [List.length_map, List.length_take, Nat.min_eq_left hle]
  · rw [List.drop_of_length_le hle, List.append_nil, List.take_of_length_le]
    rw [List.length_map, List.length_take]
    exact Nat.min_le_left _ _

theorem ofInstructions_congr (h : WellPlaced 0 insts)
    (hblank : others.map Instruction.blank = insts.map Instruction.blank) :
    let result := ofInstructions mode labels insts
    let again := ofInstructions mode labels others
    again.failure = result.failure ∧ again.completed = result.completed ∧
      again.instructions.take (result.completed + 1) =
        result.instructions.take (result.completed + 1) := by
  have hfirst : firstRefused mode labels others = firstRefused mode labels insts := by
    rw [← firstRefused_map_blank, hblank, firstRefused_map_blank]
  simp only [ofInstructions_eq h, ofInstructions_eq (h.of_blank hblank), hfirst,
    take_map_take_append_drop, true_and]
  constructor
  · rw [← findSome?_map_blank, hblank, findSome?_map_blank]
  · rw [← map_encoded_map_blank, List.map_take, hblank, ← List.map_take, map_encoded_map_blank]

theorem map_blank_ofInstructions (mode : Mode) (labels : Labels) (h : WellPlaced 0 insts) :
    (ofInstructions mode labels insts).instructions.map Instruction.blank =
      insts.map Instruction.blank := by
  have hencoded : Instruction.blank ∘ encoded mode labels = Instruction.blank := rfl
  simp only [ofInstructions_eq h, List.map_append, List.map_map, hencoded]
  rw [← List.map_append, List.take_append_drop]

theorem length_ofInstructions (mode : Mode) (labels : Labels) (h : WellPlaced 0 insts) :
    (ofInstructions mode labels insts).instructions.length = insts.length := by
  simpa using congrArg List.length (map_blank_ofInstructions mode labels h)

theorem completed_eq_length (h : WellPlaced 0 insts)
    (hclean : (ofInstructions mode labels insts).failure = none) :
    (ofInstructions mode labels insts).completed = insts.length := by
  simp only [ofInstructions_eq h] at hclean ⊢
  exact List.findIdx_eq_length.mpr fun inst hinst => by
    rw [List.findSome?_eq_none_iff.mp hclean inst hinst]
    rfl

-- Nothing that a pass leaves behind is read by a later one that succeeds.
theorem ofInstructions_retry (h : WellPlaced 0 insts)
    (hblank : others.map Instruction.blank = insts.map Instruction.blank)
    (hclean : (ofInstructions mode labels insts).failure = none) :
    ofInstructions mode labels others = ofInstructions mode labels insts := by
  obtain ⟨hfailure, hcompleted, htake⟩ := @ofInstructions_congr mode labels insts others h hblank
  have hlength : others.length = insts.length := by simpa using congrArg List.length hblank
  have hothers := length_ofInstructions mode labels (h.of_blank hblank)
  have hinsts := length_ofInstructions mode labels h
  rw [completed_eq_length h hclean, List.take_of_length_le (by omega),
    List.take_of_length_le (by omega)] at htake
  exact (Encoding.mk.injEq _ _ _ _ _ _).mpr ⟨htake, hcompleted, hfailure⟩

end Runs

-- The second pass works in place and stops at the first instruction that has no
-- encoding. Those in front of it are written completely, of its own bytes there
-- is the part before the bad operand, and those behind it are as they were.
-- Nothing but bytes changes, and no bytes are read, so that a pass that succeeds
-- later gives the same with or without the failed one.
theorem failure_leaves_part (mode : Mode) (labels : Labels) (insts : List Instruction)
    (hplaced : WellPlaced 0 insts) (hlabels : labels.NonNegative) :
    let result := ofInstructions mode labels insts
    (result.failure = none → result.completed = insts.length ∧
      List.Forall₂ (Filled mode labels) insts result.instructions) ∧
    (∀ failure, result.failure = some failure →
      ∃ before inst after done bytes defect, insts = before ++ inst :: after ∧
        result.completed = before.length ∧
        failure = .rejected ⟨inst.line, inst.text, defect⟩ ∧
        result.instructions = done ++ { inst with bytes } :: after ∧
        List.Forall₂ (Filled mode labels) before done ∧
        (¬∃ whole, Written mode labels inst whole) ∧ Broken mode labels inst bytes ∧
        ∃ operands whole, Written mode .empty { inst with operands } whole ∧
          bytes <+: whole ∧ bytes ≠ whole) ∧
    result.instructions.map Instruction.blank = insts.map Instruction.blank ∧
    (∀ others, others.map Instruction.blank = insts.map Instruction.blank →
      let again := ofInstructions mode labels others
      again.failure = result.failure ∧ again.completed = result.completed ∧
        again.instructions.take (result.completed + 1) =
          result.instructions.take (result.completed + 1)) ∧
    ∀ (mode' : Mode) (labels' : Labels), (ofInstructions mode' labels' insts).failure = none →
      ofInstructions mode' labels' result.instructions = ofInstructions mode' labels' insts := by
  intro result
  have hblank := map_blank_ofInstructions mode labels hplaced
  refine ⟨?_, ?_, hblank, fun others => ofInstructions_congr hplaced,
    fun mode' labels' => ofInstructions_retry hplaced hblank⟩
  · intro hclean
    refine ⟨completed_eq_length hplaced hclean, ?_⟩
    rcases ofInstructions_cases mode labels hplaced with ⟨hall, heq⟩ | hfailed
    · simp only [result, heq]
      exact forall₂_filled hlabels hall
    · obtain ⟨before, inst, after, defect, -, -, -, heq⟩ := hfailed
      simp [result, heq] at hclean
  · intro failure hfailure
    rcases ofInstructions_cases mode labels hplaced with ⟨-, heq⟩ | hfailed
    · simp [result, heq] at hfailure
    · obtain ⟨before, inst, after, defect, hsplit, hbefore, hdefect, heq⟩ := hfailed
      simp only [result, heq, Option.some.injEq] at hfailure ⊢
      have hbroken := broken_outcome hlabels hdefect
      refine ⟨before, inst, after, before.map (encoded mode labels), _, defect, hsplit, rfl,
        hfailure.symm, rfl, forall₂_filled hlabels hbefore, ?_, hbroken, hbroken.exists_whole⟩
      rintro ⟨whole, hwhole⟩
      rw [(written_iff hlabels).mp hwhole] at hdefect
      cases hdefect

-- A jump to a label that the table lacks stops behind its operation. With the label
-- the pass gives what it gives for the instructions as they were.
theorem failure_leaves_part_retried :
    let insts : List Instruction := [⟨1, "WAIT 1", "WAIT", ["1"], 7, [9]⟩,
      ⟨2, "DRAW_BTP 258 1", "DRAW_BTP", ["258", "1"], 0, [9, 9]⟩,
      ⟨3, "JMP @end", "JMP", ["@end"], 5, [9]⟩, ⟨4, "SET_A 300", "SET_A", ["300"], 8, [9]⟩]
    let labels : Labels := Labels.empty.insert "start" 0
    let failed := ofInstructions .lenient labels insts
    failed.failure = some (.rejected ⟨3, "JMP @end", .notANumber "@end"⟩) ∧
      failed.instructions.map Instruction.bytes = [[], [8, 2, 1, 1, 0], [4], [9]] ∧
      let longer := labels.insert "end" 10
      ofInstructions .lenient longer failed.instructions =
        ofInstructions .lenient longer insts := by
  intro insts labels failed
  have hplaced : WellPlaced 0 insts :=
    ⟨by decide +kernel, by decide +kernel, by decide +kernel, by decide +kernel, trivial⟩
  have hlabels : labels.NonNegative := Labels.nonNegative_empty.insert (by decide) _
  obtain ⟨-, -, -, -, hretry⟩ := failure_leaves_part .lenient labels insts hplaced hlabels
  exact ⟨by decide +kernel, by decide +kernel, hretry _ _ (by decide +kernel)⟩

end Encoding

end TileConsole
