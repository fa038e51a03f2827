import TileConsole.Proofs.Source.Encoding

namespace TileConsole

open Source

-- The instructions of a program lie one after the other without gaps, each with
-- the bytes of its operation, and the labels point between them or behind them.
structure Program.LaidOut (program : Program) : Prop where
  offset : ∀ (before after : List Instruction) (inst : Instruction),
    program.instructions = before ++ inst :: after →
    inst.offset = ((before.map fun other => other.bytes.length).sum : Nat)
  known : ∀ inst ∈ program.instructions, ∀ op, Operation.ofMnemonic? inst.mnemonic = some op →
    inst.bytes.length = op.size ∧ inst.bytes.head? = some op.code
  unknown : ∀ inst ∈ program.instructions, Operation.ofMnemonic? inst.mnemonic = none →
    inst.bytes = []
  label : ∀ name offset, program.labels.find? name = some offset →
    0 ≤ offset ∧ offset ≤ program.size ∧
      (offset = program.size ∨ ∃ inst ∈ program.instructions, inst.offset = offset)

namespace Encoding

section Clean

variable {mode : Mode} {labels : Labels} {lines : List Line}

theorem sum_length_encoded {insts : List Instruction}
    (h : ∀ inst ∈ insts, (outcome mode labels inst).2 = none) :
    ((insts.map (encoded mode labels)).map fun inst => inst.bytes.length).sum =
      (insts.map Instruction.size).sum := by
  rw [List.map_map]
  exact congrArg List.sum (List.map_congr_left fun inst hinst => length_outcome (h inst hinst))

theorem size_encoded (h : ∀ inst ∈ placed 0 lines, (outcome mode labels inst).2 = none) :
    Program.size ⟨(placed 0 lines).map (encoded mode labels), labels⟩ = codeSize lines := by
  rw [← Program.length_code, Program.code, List.length_flatMap, sum_length_encoded h,
    sum_size_placed]

theorem offset_encoded (h : ∀ inst ∈ placed 0 lines, (outcome mode labels inst).2 = none)
    {before after : List Instruction} {inst : Instruction}
    (hsplit : (placed 0 lines).map (encoded mode labels) = before ++ inst :: after) :
    inst.offset = ((before.map fun other => other.bytes.length).sum : Nat) := by
  obtain ⟨start, tail, hplaced, rfl, htail⟩ := List.map_eq_append_iff.mp hsplit
  obtain ⟨bare, rest, rfl, rfl, -⟩ := List.map_eq_cons_iff.mp htail
  have hstart : ∀ other ∈ start, (outcome mode labels other).2 = none := fun other hother =>
    h other (by rw [hplaced]; exact List.mem_append_left _ hother)
  rw [sum_length_encoded hstart]
  simpa [encoded] using offset_of_placed_eq_append hplaced

-- A label lies at the first instruction behind its declaration. Where none
-- follows, it lies at the end of the code.
theorem label_encoded (h : ∀ inst ∈ placed 0 lines, (outcome mode labels inst).2 = none)
    {name : Text} {before : List Line} (hbefore : beforeLabel? name lines = some before) :
    codeSize before ≤ codeSize lines ∧ (codeSize before = codeSize lines ∨
      ∃ inst ∈ (placed 0 lines).map (encoded mode labels), inst.offset = codeSize before) := by
  obtain ⟨line, after, rfl, -, -⟩ := (beforeLabel?_eq_some_iff name lines before).mp hbefore
  rw [codeSize_append]
  refine ⟨Nat.le_add_right _ _, ?_⟩
  have hsize := sum_size_placed (codeSize before) (line :: after)
  cases hplaced : placed (codeSize before) (line :: after) with
  | nil =>
    rw [hplaced] at hsize
    exact .inl (by simp [← hsize])
  | cons inst rest =>
    refine .inr ⟨encoded mode labels inst, List.mem_map_of_mem ?_, ?_⟩
    · rw [placed_append, Nat.zero_add, hplaced]
      exact List.mem_append_right _ (List.mem_cons_self)
    · have hoffset := @offset_of_placed_eq_append _ _ [] rest inst hplaced
      simpa [encoded] using hoffset

theorem laidOut_encoded (hlabels : Located lines labels)
    (h : ∀ inst ∈ placed 0 lines, (outcome mode labels inst).2 = none) :
    Program.LaidOut ⟨(placed 0 lines).map (encoded mode labels), labels⟩ := by
  refine ⟨fun before after inst => offset_encoded h, ?_, ?_, ?_⟩
  · intro inst hinst op hop
    obtain ⟨bare, hbare, rfl⟩ := List.mem_map.mp hinst
    have hclean := h bare hbare
    have hstatement : bare.statement? = some ⟨op, bare.operands⟩ := by
      rw [Instruction.statement?, show Operation.ofMnemonic? bare.mnemonic = some op from hop]
      rfl
    simp only [encoded, outcome, hstatement] at hclean ⊢
    exact ⟨length_encode hclean, head?_encode hclean⟩
  · intro inst hinst hop
    obtain ⟨bare, hbare, rfl⟩ := List.mem_map.mp hinst
    have hstatement : bare.statement? = none := by
      rw [Instruction.statement?, show Operation.ofMnemonic? bare.mnemonic = none from hop]
      rfl
    simp only [encoded, outcome, hstatement]
  · intro name offset hoffset
    rw [hlabels, Option.map_eq_some_iff] at hoffset
    obtain ⟨before, hbefore, rfl⟩ := hoffset
    rw [size_encoded h]
    obtain ⟨hle, hplace⟩ := label_encoded h hbefore
    exact ⟨Int.natCast_nonneg _, Int.ofNat_le.mpr hle, hplace.imp (congrArg Nat.cast) id⟩

end Clean

-- An operand is only read where the source has it.
theorem operands_le_or_missing (mode : Mode) (labels : Labels) (op : Operation)
    (operands : List Text) :
    op.shape.operands ≤ operands.length ∨
      encode mode labels op operands = ([], some .operandMissing) := by
  by_cases hfew : operands.length < op.shape.operands
  · exact .inr (if_pos hfew)
  · exact .inl (Nat.le_of_not_lt hfew)

-- The second pass ends in an encoding of everything that was placed or in the
-- defect of one instruction, never in a disagreement with the first pass. A
-- complete encoding is laid out as the first pass predicted.
theorem passes_agree (mode : Mode) (lines : List Line) (layout : Layout)
    (h : Layout.ofLines mode lines = (layout, none)) :
    let insts := layout.instructions.toList
    let encoding := ofInstructions mode layout.labels insts
    let program : Program := ⟨encoding.instructions, layout.labels⟩
    (∀ inst ∈ insts, ∀ op, Operation.ofMnemonic? inst.mnemonic = some op →
      op.shape.operands ≤ inst.operands.length ∨
        encode mode layout.labels op inst.operands = ([], some .operandMissing)) ∧
    (encoding.failure = none ∨ ∃ inst defect, insts[encoding.completed]? = some inst ∧
      encoding.failure = some (.rejected ⟨inst.line, inst.text, defect⟩)) ∧
    (encoding.failure = none →
      program.LaidOut ∧ layout.size = program.size ∧ program.size = program.code.length) := by
  obtain ⟨hinsts, hsize, hlabels⟩ := Layout.ofLines_spec h
  simp only [hinsts, hsize, ofInstructions]
  refine ⟨fun inst _ op _ => operands_le_or_missing _ _ _ _, ?_⟩
  rcases extend_cases mode layout.labels #[] (wellPlaced_placed 0 lines) with
    ⟨hclean, heq⟩ | hfailed
  · rw [heq]
    refine ⟨.inl rfl, fun _ => ?_⟩
    simp only [List.nil_append]
    exact ⟨laidOut_encoded hlabels hclean, (size_encoded hclean).symm,
      (Program.length_code _).symm⟩
  · obtain ⟨before, inst, after, defect, hsplit, -, -, heq⟩ := hfailed
    rw [heq, hsplit]
    exact ⟨.inr ⟨inst, defect, by simp, rfl⟩, by simp⟩

-- A jump over an unknown mnemonic and a line of another kind to a label at the
-- very end.
theorem passes_agree_jump_to_end :
    let lines : List Line := [⟨1, "JMP end", .instruction "JMP" ["end"]⟩,
      ⟨2, "WAIT 1", .instruction "WAIT" ["1"]⟩, ⟨3, "", .other⟩, ⟨4, "@end", .label "end"⟩]
    ∃ layout, Layout.ofLines .lenient lines = (layout, none) ∧
      let encoding := ofInstructions .lenient layout.labels layout.instructions.toList
      encoding.failure = none ∧
        (⟨encoding.instructions, layout.labels⟩ : Program).LaidOut ∧
        layout.labels.find? "end" = some 3 ∧ layout.size = 3 := by
  intro lines
  have hlayout : Layout.ofLines .lenient lines = ((Layout.ofLines .lenient lines).1, none) :=
    Prod.ext rfl (by decide)
  have hfailure : (ofInstructions .lenient (Layout.ofLines .lenient lines).1.labels
      (Layout.ofLines .lenient lines).1.instructions.toList).failure = none := by
    decide
  obtain ⟨-, -, hagree⟩ := passes_agree .lenient lines _ hlayout
  exact ⟨_, hlayout, hfailure, (hagree hfailure).1, by decide, by decide⟩

end Encoding

end TileConsole
