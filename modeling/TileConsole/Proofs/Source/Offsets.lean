import TileConsole.Proofs.Source.Meaning

namespace TileConsole

namespace Source

-- Where the statement with a number lies in the code. The number of all
-- statements gives the end of the code.
def offsetAt (lines : List Line) (i : Nat) : Nat :=
  (((statements lines).take i).map fun statement => statement.op.size).sum

-- The number of the first statement after the last declaration of the label
-- that a jump names. Behind a label at the very end there is none, so its number
-- is the number of all statements.
def target? (lines : List Line) (word : Text) : Option Nat :=
  (beforeTarget? lines word).map fun before => (statements before).length

@[simp]
theorem offsetAt_zero (lines : List Line) : offsetAt lines 0 = 0 := rfl

theorem offsetAt_length (lines : List Line) :
    offsetAt lines (statements lines).length = codeSize lines := by
  rw [offsetAt, List.take_length, codeSize]

theorem offsetAt_succ {lines : List Line} {i : Nat} {statement : Statement}
    (h : (statements lines)[i]? = some statement) :
    offsetAt lines (i + 1) = offsetAt lines i + statement.op.size := by
  simp [offsetAt, List.take_add_one, h]

theorem offsetAt_cons_of_none {line : Line} (h : line.statement? = none) (rest : List Line)
    (i : Nat) : offsetAt (line :: rest) i = offsetAt rest i := by
  simp [offsetAt, statements_cons, h]

theorem offsetAt_cons_succ {line : Line} {statement : Statement}
    (h : line.statement? = some statement) (rest : List Line) (i : Nat) :
    offsetAt (line :: rest) (i + 1) = statement.op.size + offsetAt rest i := by
  simp [offsetAt, statements_cons, h]

-- The statements that are left fill the rest of the code.
theorem offsetAt_add_drop (lines : List Line) (i : Nat) :
    offsetAt lines i + (((statements lines).drop i).map fun statement => statement.op.size).sum =
      codeSize lines := by
  rw [offsetAt, ← List.sum_append, ← List.map_append, List.take_append_drop, codeSize]

theorem offsetAt_lt {lines : List Line} {i : Nat} (h : i < (statements lines).length) :
    offsetAt lines i < codeSize lines := by
  have hrest := offsetAt_add_drop lines i
  rw [List.drop_eq_getElem_cons h, List.map_cons, List.sum_cons, Operation.size] at hrest
  omega

theorem offsetAt_statements_before {lines before : List Line} {line : Line} {after : List Line}
    (h : lines = before ++ line :: after) :
    offsetAt lines (statements before).length = codeSize before := by
  rw [offsetAt, h, statements_append, List.take_left, codeSize]

-- A jump that names a label goes to the statement behind the declaration.
theorem address?_eq_some {lines : List Line} {word : Text} {address : Nat}
    (h : address? lines word = some address) :
    ∃ target, target? lines word = some target ∧ target ≤ (statements lines).length ∧
      address = offsetAt lines target := by
  obtain ⟨before, hbefore, rfl⟩ := Option.map_eq_some_iff.mp h
  have hlabel : ∃ name, beforeLabel? name lines = some before := by
    rw [beforeTarget?, Option.or_eq_some_iff] at hbefore
    rcases hbefore with hword | ⟨-, hstripped⟩
    · exact ⟨_, hword⟩
    · exact ⟨_, hstripped⟩
  obtain ⟨name, hname⟩ := hlabel
  obtain ⟨line, after, hsplit, -, -⟩ := (beforeLabel?_eq_some_iff name lines before).mp hname
  refine ⟨(statements before).length, ?_, ?_, (offsetAt_statements_before hsplit).symm⟩
  · rw [target?, hbefore]
    rfl
  · rw [hsplit, statements_append, List.length_append]
    exact Nat.le_add_right _ _

theorem drop_flatMap {bytes : Statement → Bytes} {l : List Statement}
    (hsize : ∀ statement ∈ l, (bytes statement).length = statement.op.size) (i : Nat) :
    (l.flatMap bytes).drop ((l.take i).map fun statement => statement.op.size).sum =
      (l.drop i).flatMap bytes := by
  induction l generalizing i with
  | nil => simp
  | cons statement rest ih =>
    obtain ⟨hfirst, hrest⟩ := List.forall_mem_cons.mp hsize
    cases i with
    | zero => rfl
    | succ i =>
      rw [List.take_succ_cons, List.map_cons, List.sum_cons, List.flatMap_cons, ← hfirst,
        List.drop_length_add_append, ih hrest]
      rfl

end Source

open Source

-- The instructions of a program whose mnemonic is known.
def Program.recognised (program : Program) : List Instruction :=
  program.instructions.filter fun inst => (Operation.ofMnemonic? inst.mnemonic).isSome

namespace Source

-- The recognised instructions are placed where the statements lie.
theorem offset_recognised_placed (offset : Nat) (lines : List Line) (i : Nat) :
    (((placed offset lines).filter fun inst => inst.statement?.isSome)[i]?).map
        Instruction.offset =
      (statements lines)[i]?.map fun _ => ((offset + offsetAt lines i : Nat) : Int) := by
  induction lines generalizing offset i with
  | nil => simp [placed]
  | cons line rest ih =>
    rw [statements_cons]
    rcases placed_cons_cases offset line rest with ⟨heq, hnone⟩ | ⟨inst, heq, hinst, -, -, hoffset⟩
    · rw [heq, ih, hnone, offsetAt_cons_of_none hnone]
      rfl
    · rw [heq, ← hinst]
      cases hstatement : inst.statement? with
      | none =>
        have hline : line.statement? = none := hinst.symm.trans hstatement
        rw [List.filter_cons_of_neg (by simp [hstatement]), Instruction.size_of_none hstatement,
          Nat.add_zero, ih, offsetAt_cons_of_none hline]
        rfl
      | some statement =>
        have hline : line.statement? = some statement := hinst.symm.trans hstatement
        rw [List.filter_cons_of_pos (by simp [hstatement]), Instruction.size_of_some hstatement]
        cases i with
        | zero => simp [hoffset]
        | succ i =>
          rw [List.getElem?_cons_succ, ih, offsetAt_cons_succ hline, Nat.add_assoc]
          rfl

end Source

namespace Assembly

variable {mode : Mode} {lines : List Line} {program : Program}

-- The recognised instructions of an accepted source are its statements, one by
-- one, at their offsets.
theorem offset_recognised (h : ofLines mode lines = .ok program) (i : Nat) :
    program.recognised[i]?.map Instruction.offset =
      (statements lines)[i]?.map fun _ => (offsetAt lines i : Int) := by
  obtain ⟨-, -, hinsts⟩ := ofLines_eq_ok h
  have hplaced := offset_recognised_placed 0 lines i
  rw [Nat.zero_add] at hplaced
  rw [← hplaced, Program.recognised, hinsts, List.filter_map, List.getElem?_map, Option.map_map]
  simp [Function.comp_def, Encoding.encoded, Instruction.statement?]

theorem length_encode_statement (h : ofLines mode lines = .ok program) :
    ∀ statement ∈ statements lines,
      (Encoding.encode mode program.labels statement.op statement.operands).1.length =
        statement.op.size := by
  obtain ⟨-, hclean, -⟩ := ofLines_eq_ok h
  exact fun statement hstatement =>
    Encoding.length_encode (Encoding.encode_clean hclean statement hstatement)

theorem length_code_eq (h : ofLines mode lines = .ok program) :
    program.code.length = codeSize lines := by
  rw [code_eq h, List.length_flatMap, codeSize]
  exact congrArg List.sum (List.map_congr_left (length_encode_statement h))

-- The code at the offset of a statement starts with the bytes that it denotes.
theorem drop_code (h : ofLines mode lines = .ok program) {i : Nat} {statement : Statement}
    (hi : (statements lines)[i]? = some statement) :
    ∃ args rest, program.code.drop (offsetAt lines i) = statement.op.code :: (args ++ rest) ∧
      args.length = statement.op.shape.width ∧
      statement.Denotes lines (statement.op.code :: args) := by
  obtain ⟨hlabels, hclean, -⟩ := ofLines_eq_ok h
  have hmem := List.mem_of_getElem? hi
  have hencode := Encoding.encode_clean hclean statement hmem
  have hdenotes := Encoding.denotes_encode hlabels hencode
  obtain ⟨args, hbytes, hargs⟩ := Encoding.exists_args hencode
  obtain ⟨hlt, hget⟩ := List.getElem?_eq_some_iff.mp hi
  rw [hbytes] at hdenotes
  rw [code_eq h, offsetAt, drop_flatMap (length_encode_statement h), List.drop_eq_getElem_cons hlt,
    hget, List.flatMap_cons, hbytes]
  exact ⟨args, _, rfl, hargs, hdenotes⟩

end Assembly

end TileConsole
