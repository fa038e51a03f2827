import TileConsole.Proofs.Source.Flaws

namespace TileConsole

namespace Source

-- A source without anything that only a lenient assembler lets pass.
structure Tidy (lines : List Line) : Prop where
  placeable : ¬Unplaceable lines
  operands : ∀ statement ∈ statements lines,
    statement.operands.length ≤ statement.op.shape.operands
  bytes : ∀ statement ∈ statements lines, statement.op = .setA →
    ∀ word ∈ statement.operands.head?, ∀ n, Numeral.Literal word n → 0 ≤ n ∧ n ≤ 0xFF

end Source

open Source

namespace Layout

-- A strict assembler has checks of its own, but it places a line that passes
-- them as a lenient one does.
theorem place_strict {layout : Layout} {line : Line} (h : (layout.place .strict line).2 = none) :
    layout.place .strict line = layout.place .lenient line := by
  rcases line with ⟨number, text, kind⟩
  cases kind with
  | label name =>
    simp only [place, true_and] at h ⊢
    split at h
    case isTrue => cases h
    case isFalse hname =>
      split at h
      case isTrue => cases h
      case isFalse hknown => simp [hname, hknown]
  | instruction mnemonic operands =>
    cases hop : Operation.ofMnemonic? mnemonic with
    | some op => simp only [place, hop]
    | none => simp [place, hop] at h
  | other => rfl

theorem extend_strict {layout : Layout} {lines : List Line}
    (h : (layout.extend .strict lines).2 = none) :
    layout.extend .strict lines = layout.extend .lenient lines := by
  induction lines generalizing layout with
  | nil => rfl
  | cons line rest ih =>
    rw [extend] at h ⊢
    rw [extend]
    rcases hline : layout.place .strict line with ⟨next, _ | defect⟩
    · have hlenient : layout.place .lenient line = (next, none) := by
        rw [← place_strict (congrArg Prod.snd hline), hline]
      rw [hline] at h
      rw [hlenient]
      exact ih h
    · rw [hline] at h
      cases h

end Layout

namespace Encoding

section Operands

variable {labels : Labels} {op : Operation} {word : Text}

theorem byteOperand_strict (h : ∀ n, Numeral.Literal word n → 0 ≤ n ∧ n ≤ 0xFF) :
    byteOperand .strict word = byteOperand .lenient word := by
  rw [byteOperand, byteOperand]
  cases hn : number word with
  | error defect => rfl
  | ok n => simp [h n (number_eq_ok_iff.mp hn)]

-- Only the operand of `setA` is a byte, and only a byte depends on the mode.
theorem operand_strict
    (h : op = .setA → ∀ n, Numeral.Literal word n → 0 ≤ n ∧ n ≤ 0xFF) :
    operand .strict labels op word = operand .lenient labels op word := by
  cases op with
  | setA => exact byteOperand_strict (h rfl)
  | _ => rfl

end Operands

section Statements

variable {labels : Labels} {op : Operation} {operands : List Text}

theorem encode_strict (hcount : operands.length ≤ op.shape.operands)
    (hbytes : op = .setA → ∀ word ∈ operands.head?, ∀ n, Numeral.Literal word n →
      0 ≤ n ∧ n ≤ 0xFF) :
    encode .strict labels op operands = encode .lenient labels op operands := by
  have hextra : ¬op.shape.operands < operands.length := Nat.not_lt.mpr hcount
  have hwords : (operands.take op.shape.operands).map (operand .strict labels op) =
      (operands.take op.shape.operands).map (operand .lenient labels op) := by
    apply List.map_congr_left
    intro word hword
    apply operand_strict
    rintro rfl n hn
    -- the shape of `setA` leaves one word, the first
    cases operands with
    | nil => simp at hword
    | cons first rest =>
      obtain rfl : word = first := by simpa [Operation.shape, Shape.operands] using hword
      exact hbytes rfl word rfl n hn
  simp only [encode, hwords, hextra, and_false, reduceCtorEq]

theorem length_le_of_encode_strict (h : (encode .strict labels op operands).2 = none) :
    operands.length ≤ op.shape.operands := by
  apply Nat.le_of_not_lt
  intro hextra
  have hfew : ¬operands.length < op.shape.operands := Nat.not_lt.mpr (Nat.le_of_lt hextra)
  simp [encode, hfew, hextra] at h

theorem byte_of_encode_strict (h : (encode .strict labels .setA operands).2 = none) :
    ∀ word ∈ operands.head?, ∀ n, Numeral.Literal word n → 0 ≤ n ∧ n ≤ 0xFF := by
  obtain ⟨word, rest, bytes, rfl, hword, -⟩ := encode_single rfl h
  intro first hfirst n hn
  obtain rfl : word = first := by simpa using hfirst
  have hbyte : byteOperand .strict word = .ok bytes := hword
  rw [byteOperand, number_eq_ok_iff.mpr hn] at hbyte
  dsimp only at hbyte
  split at hbyte
  case isTrue => cases hbyte
  case isFalse hrange => simpa using hrange

end Statements

-- The second pass has no other use for the mode than to encode statements.
theorem extend_strict {labels : Labels} {insts : List Instruction}
    (h : ∀ inst ∈ insts, ∀ op, Operation.ofMnemonic? inst.mnemonic = some op →
      encode .strict labels op inst.operands = encode .lenient labels op inst.operands)
    (done : Array Instruction) (offset : Nat) :
    extend .strict labels done offset insts = extend .lenient labels done offset insts := by
  induction insts generalizing done offset with
  | nil => rfl
  | cons inst rest ih =>
    obtain ⟨hinst, hrest⟩ := List.forall_mem_cons.mp h
    rw [extend, extend]
    cases hop : Operation.ofMnemonic? inst.mnemonic with
    | none => exact ih hrest _ _
    | some op => simp only [hinst op hop, ih hrest]

end Encoding

namespace Assembly

-- On a tidy source the mode does not matter at all. Errors are the same too.
theorem ofLines_strict {lines : List Line} (h : Tidy lines) :
    ofLines .strict lines = ofLines .lenient lines := by
  have hflawless : Flawless (PlacingFlaw .strict) lines := by
    apply Classical.not_not.mp
    intro hflaw
    exact h.placeable ((not_flawless_placing_iff .strict lines).mp hflaw).2
  have hlayout : Layout.ofLines .strict lines = Layout.ofLines .lenient lines :=
    Layout.extend_strict ((Layout.ofLines_eq_none_iff .strict lines).mpr hflawless)
  rw [ofLines, ofLines, hlayout]
  rcases hplaced : Layout.ofLines .lenient lines with ⟨layout, _ | error⟩
  · obtain ⟨hinsts, -, -⟩ := Layout.ofLines_spec hplaced
    have hencoding : Encoding.ofInstructions .strict layout.labels layout.instructions.toList =
        Encoding.ofInstructions .lenient layout.labels layout.instructions.toList := by
      apply Encoding.extend_strict
      intro inst hinst op hop
      have hstatement : (⟨op, inst.operands⟩ : Statement) ∈ statements lines := by
        rw [← filterMap_statement?_placed 0 lines, ← hinsts]
        exact List.mem_filterMap.mpr ⟨inst, hinst, by simp [Instruction.statement?, hop]⟩
      exact Encoding.encode_strict (h.operands _ hstatement) (h.bytes _ hstatement)
    simp only [hencoding]
  · rfl

theorem tidy_of_ofLines_strict {lines : List Line} {program : Program}
    (h : ofLines .strict lines = .ok program) : Tidy lines := by
  obtain ⟨-, hclean, -⟩ := ofLines_eq_ok h
  have hencode := Encoding.encode_clean hclean
  refine ⟨fun hrefused => ?_, fun statement hstatement => ?_, fun statement hstatement hop => ?_⟩
  · have hflaw := (not_flawless_placing_iff .strict lines).mpr ⟨rfl, hrefused⟩
    obtain ⟨line, defect, hfirst⟩ := (not_flawless_iff lines).mp hflaw
    have herror := (ofLines_eq_error_iff .strict lines _).mpr ⟨line, defect, rfl, .inl hfirst⟩
    rw [h] at herror
    cases herror
  · exact Encoding.length_le_of_encode_strict (hencode statement hstatement)
  · have hstrict := hencode statement hstatement
    rw [hop] at hstrict
    exact Encoding.byte_of_encode_strict hstrict

-- A strict assembler only rejects. What it accepts are the tidy ones among the
-- sources that a lenient assembler accepts, with the same program.
theorem ofStream_strict_eq_ok_iff (source : Stream) (program : Program) :
    ofStream .strict source = .ok program ↔
      Tidy (Line.readAll (Text.ofBytes source.bytes)) ∧
        ofStream .lenient source = .ok program := by
  rcases source with ⟨bytes, _ | error⟩
  · change ofLines .strict _ = _ ↔ _ ∧ ofLines .lenient _ = _
    constructor
    · intro hstrict
      have htidy := tidy_of_ofLines_strict hstrict
      exact ⟨htidy, (ofLines_strict htidy).symm.trans hstrict⟩
    · rintro ⟨htidy, hlenient⟩
      exact (ofLines_strict htidy).trans hlenient
  · simp [ofStream]

end Assembly

end TileConsole
