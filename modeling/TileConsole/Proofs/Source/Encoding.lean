import TileConsole.Proofs.Source.Layout
import TileConsole.Source.Encoding

namespace TileConsole

open Source

namespace Instruction

-- What an instruction says to do, if its mnemonic is known.
def statement? (inst : Instruction) : Option Statement :=
  (Operation.ofMnemonic? inst.mnemonic).map (⟨·, inst.operands⟩)

-- The bytes that an instruction needs. An unknown mnemonic needs none.
def size (inst : Instruction) : Nat :=
  (inst.statement?.map fun statement => statement.op.size).getD 0

theorem size_of_none {inst : Instruction} (h : inst.statement? = none) : inst.size = 0 := by
  simp [size, h]

theorem size_of_some {inst : Instruction} {statement : Statement}
    (h : inst.statement? = some statement) : inst.size = statement.op.size := by
  simp [size, h]

end Instruction

namespace Source

-- The instruction that a line adds to those of the lines behind it, if it adds
-- one. It says what the line says.
theorem placed_cons_cases (offset : Nat) (line : Line) (rest : List Line) :
    (placed offset (line :: rest) = placed offset rest ∧ line.statement? = none) ∨
    ∃ inst, placed offset (line :: rest) = inst :: placed (offset + inst.size) rest ∧
      inst.statement? = line.statement? ∧ inst.line = line.number ∧ inst.text = line.text ∧
      inst.offset = offset := by
  rcases line with ⟨number, text, kind⟩
  cases kind with
  | label name => exact .inl ⟨rfl, rfl⟩
  | other => exact .inl ⟨rfl, rfl⟩
  | instruction mnemonic operands =>
    refine .inr ⟨⟨number, text, mnemonic, operands, offset, []⟩, ?_, rfl, rfl, rfl, rfl⟩
    rw [placed, codeSize_singleton]
    rfl

theorem codeSize_cons_of_statement?_eq_none {line : Line} (h : line.statement? = none)
    (rest : List Line) : codeSize (line :: rest) = codeSize rest := by
  simp [codeSize_cons line rest, codeSize_singleton, h]

theorem codeSize_cons_of_statement?_eq {line : Line} {inst : Instruction}
    (h : inst.statement? = line.statement?) (rest : List Line) :
    codeSize (line :: rest) = inst.size + codeSize rest := by
  rw [codeSize_cons line rest, codeSize_singleton, ← h, Instruction.size]

theorem filterMap_statement?_placed (offset : Nat) (lines : List Line) :
    (placed offset lines).filterMap Instruction.statement? = statements lines := by
  induction lines generalizing offset with
  | nil => rfl
  | cons line rest ih =>
    rw [statements_cons]
    rcases placed_cons_cases offset line rest with ⟨heq, hnone⟩ | ⟨inst, heq, hinst, -⟩
    · rw [heq, ih, hnone]
      rfl
    · rw [heq, ← hinst, ← ih (offset + inst.size)]
      cases h : inst.statement? <;> simp [h]

theorem sum_size_placed (offset : Nat) (lines : List Line) :
    ((placed offset lines).map Instruction.size).sum = codeSize lines := by
  induction lines generalizing offset with
  | nil => rfl
  | cons line rest ih =>
    rcases placed_cons_cases offset line rest with ⟨heq, hnone⟩ | ⟨inst, heq, hinst, -⟩
    · rw [heq, ih, codeSize_cons_of_statement?_eq_none hnone]
    · rw [heq, List.map_cons, List.sum_cons, ih, codeSize_cons_of_statement?_eq hinst]

-- An instruction lies behind the sizes of all instructions before it, known or
-- not.
theorem offset_of_placed_eq_append {offset : Nat} {lines : List Line}
    {before after : List Instruction} {inst : Instruction}
    (h : placed offset lines = before ++ inst :: after) :
    inst.offset = offset + (before.map Instruction.size).sum := by
  induction lines generalizing offset before with
  | nil => simp [placed] at h
  | cons line rest ih =>
    rcases placed_cons_cases offset line rest with ⟨heq, -⟩ | ⟨first, heq, -, -, -, hoffset⟩
    · exact ih (heq ▸ h)
    · rw [heq] at h
      cases before with
      | nil =>
        obtain ⟨rfl, -⟩ := List.cons.inj h
        simpa using hoffset
      | cons other others =>
        obtain ⟨rfl, hrest⟩ := List.cons.inj h
        rw [ih hrest, List.map_cons, List.sum_cons]
        omega

end Source

namespace Encoding

-- The known instructions lie one after the other from an offset on.
def WellPlaced (offset : Nat) : List Instruction → Prop
  | [] => True
  | inst :: rest =>
    (inst.statement?.isSome → inst.offset = offset) ∧ WellPlaced (offset + inst.size) rest

theorem wellPlaced_placed (offset : Nat) (lines : List Line) :
    WellPlaced offset (placed offset lines) := by
  induction lines generalizing offset with
  | nil => trivial
  | cons line rest ih =>
    rcases placed_cons_cases offset line rest with ⟨heq, -⟩ | ⟨inst, heq, -, -, -, hoffset⟩
    · rw [heq]
      exact ih offset
    · rw [heq]
      exact ⟨fun _ => hoffset, ih _⟩

theorem length_byteOperand {mode : Mode} {word : Text} {bytes : Bytes}
    (h : byteOperand mode word = .ok bytes) : bytes.length = 1 := by
  unfold byteOperand at h
  split at h
  · cases h
  · split at h
    · cases h
    · exact (Except.ok.inj h) ▸ rfl

theorem length_wordOperand {word : Text} {bytes : Bytes}
    (h : wordOperand word = .ok bytes) : bytes.length = 2 := by
  unfold wordOperand at h
  split at h
  · cases h
  · split at h
    · exact (Except.ok.inj h) ▸ Bytes.length_littleEndian 2 _
    · cases h

theorem length_targetOperand {labels : Labels} {word : Text} {bytes : Bytes}
    (h : targetOperand labels word = .ok bytes) : bytes.length = 2 := by
  unfold targetOperand at h
  split at h
  · exact length_wordOperand h
  · split at h
    · exact (Except.ok.inj h) ▸ Bytes.length_littleEndian 2 _
    · cases h

-- The operands of one shape all have the same width.
theorem length_operand {mode : Mode} {labels : Labels} {op : Operation} {word : Text}
    {bytes : Bytes} (h : operand mode labels op word = .ok bytes) :
    bytes.length = if op.shape = .byte then 1 else 2 := by
  unfold operand at h
  split at h
  case isTrue hjump =>
    subst hjump
    exact length_targetOperand h
  case isFalse hjump =>
    split at h
    case isTrue hbyte => rw [if_pos hbyte, length_byteOperand h]
    case isFalse hbyte => rw [if_neg hbyte, length_wordOperand h]

theorem length_join {mode : Mode} {labels : Labels} {op : Operation} {words : List Text}
    (h : (join (words.map (operand mode labels op))).2 = none) :
    (join (words.map (operand mode labels op))).1.length =
      words.length * if op.shape = .byte then 1 else 2 := by
  induction words with
  | nil => simp [join]
  | cons word rest ih =>
    rw [List.map_cons] at h ⊢
    cases hword : operand mode labels op word with
    | error defect => simp [hword, join] at h
    | ok bytes =>
      simp only [hword, join] at h ⊢
      rw [List.length_append, ih h, length_operand hword, List.length_cons, Nat.succ_mul,
        Nat.add_comm]

-- What the second pass encodes has the size that the first pass reserved.
theorem length_encode {mode : Mode} {labels : Labels} {op : Operation} {operands : List Text}
    (h : (encode mode labels op operands).2 = none) :
    (encode mode labels op operands).1.length = op.size := by
  unfold encode at h ⊢
  split at h
  · simp at h
  · split at h
    · simp at h
    · rename_i hfew hmany
      rw [if_neg hfew, if_neg hmany, List.length_cons, length_join h, List.length_take,
        Nat.min_eq_left (Nat.le_of_not_lt hfew), Operation.size]
      cases op <;> rfl

theorem head?_encode {mode : Mode} {labels : Labels} {op : Operation} {operands : List Text}
    (h : (encode mode labels op operands).2 = none) :
    (encode mode labels op operands).1.head? = some op.code := by
  unfold encode at h ⊢
  split at h
  · simp at h
  · split at h
    · simp at h
    · rename_i hfew hmany
      rw [if_neg hfew, if_neg hmany]
      rfl

theorem exists_args {mode : Mode} {labels : Labels} {op : Operation} {operands : List Text}
    (h : (encode mode labels op operands).2 = none) :
    ∃ args, (encode mode labels op operands).1 = op.code :: args ∧
      args.length = op.shape.width := by
  have hlength := length_encode h
  have hhead := head?_encode h
  cases hbytes : (encode mode labels op operands).1 with
  | nil => simp [hbytes] at hhead
  | cons code args =>
    rw [hbytes] at hlength hhead
    obtain rfl : code = op.code := by simpa using hhead
    rw [List.length_cons, Operation.size] at hlength
    exact ⟨args, rfl, by omega⟩

-- What the second pass makes of one instruction: its bytes and a defect.
def outcome (mode : Mode) (labels : Labels) (inst : Instruction) : Bytes × Option Defect :=
  match inst.statement? with
  | some statement => encode mode labels statement.op statement.operands
  | none => ([], none)

def encoded (mode : Mode) (labels : Labels) (inst : Instruction) : Instruction :=
  { inst with bytes := (outcome mode labels inst).1 }

theorem outcome_of_none {mode : Mode} {labels : Labels} {inst : Instruction}
    (h : inst.statement? = none) : outcome mode labels inst = ([], none) := by
  rw [outcome, h]

theorem outcome_of_some {mode : Mode} {labels : Labels} {inst : Instruction} {statement : Statement}
    (h : inst.statement? = some statement) :
    outcome mode labels inst = encode mode labels statement.op statement.operands := by
  rw [outcome, h]

theorem length_outcome {mode : Mode} {labels : Labels} {inst : Instruction}
    (h : (outcome mode labels inst).2 = none) :
    (outcome mode labels inst).1.length = inst.size := by
  unfold outcome at h ⊢
  rw [Instruction.size]
  cases hstatement : inst.statement? with
  | none => rfl
  | some statement =>
    rw [hstatement] at h
    exact length_encode h

-- One step of the second pass at an instruction that is placed where it belongs.
theorem extend_cons {mode : Mode} {labels : Labels} {done : Array Instruction} {offset : Nat}
    {inst : Instruction} {rest : List Instruction}
    (h : inst.statement?.isSome → inst.offset = offset) :
    extend mode labels done offset (inst :: rest) =
      match (outcome mode labels inst).2 with
      | none => extend mode labels (done.push (encoded mode labels inst)) (offset + inst.size) rest
      | some defect => ⟨done.toList ++ encoded mode labels inst :: rest, done.size,
          some (.rejected ⟨inst.line, inst.text, defect⟩)⟩ := by
  have hlength := @length_outcome mode labels inst
  rw [extend]
  cases hop : Operation.ofMnemonic? inst.mnemonic with
  | none => simp [encoded, outcome, Instruction.size, Instruction.statement?, hop]
  | some op =>
    have hstatement : inst.statement? = some ⟨op, inst.operands⟩ := by
      simp [Instruction.statement?, hop]
    have hoffset : inst.offset = offset := h (by simp [hstatement])
    simp only [outcome, hstatement, Instruction.size, Option.map_some, Option.getD_some, encoded]
      at hlength ⊢
    cases hencode : encode mode labels op inst.operands with
    | mk bytes failed =>
      cases failed with
      | some defect => simp [hoffset]
      | none =>
        rw [hencode] at hlength
        simp [hoffset, hlength rfl]

-- Well placed instructions are all encoded, or all up to the first one with a
-- defect. The two passes never disagree about them.
theorem extend_cases (mode : Mode) (labels : Labels) (done : Array Instruction) {offset : Nat}
    {insts : List Instruction} (h : WellPlaced offset insts) :
    ((∀ inst ∈ insts, (outcome mode labels inst).2 = none) ∧
      extend mode labels done offset insts =
        ⟨done.toList ++ insts.map (encoded mode labels), done.size + insts.length, none⟩) ∨
    ∃ before inst after defect, insts = before ++ inst :: after ∧
      (∀ other ∈ before, (outcome mode labels other).2 = none) ∧
      (outcome mode labels inst).2 = some defect ∧
      extend mode labels done offset insts =
        ⟨done.toList ++ before.map (encoded mode labels) ++ encoded mode labels inst :: after,
          done.size + before.length, some (.rejected ⟨inst.line, inst.text, defect⟩)⟩ := by
  induction insts generalizing done offset with
  | nil => exact .inl ⟨by simp, by simp [extend]⟩
  | cons inst rest ih =>
    rw [extend_cons h.1]
    cases hinst : (outcome mode labels inst).2 with
    | some defect => exact .inr ⟨[], inst, rest, defect, rfl, by simp, hinst, by simp⟩
    | none =>
      rcases ih (done.push (encoded mode labels inst)) h.2 with ⟨hall, heq⟩ | hfailed
      · refine .inl ⟨List.forall_mem_cons.mpr ⟨hinst, hall⟩, ?_⟩
        simp [heq, Nat.add_assoc, Nat.add_comm 1]
      · obtain ⟨before, failed, after, defect, rfl, hbefore, hdefect, heq⟩ := hfailed
        refine .inr ⟨inst :: before, failed, after, defect, rfl,
          List.forall_mem_cons.mpr ⟨hinst, hbefore⟩, hdefect, ?_⟩
        simp [heq, Nat.add_assoc, Nat.add_comm 1]

end Encoding

end TileConsole
