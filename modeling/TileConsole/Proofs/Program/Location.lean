import Mathlib.Data.List.Nodup
import TileConsole.Proofs.Source.Lines
import TileConsole.Proofs.Source.Meaning

namespace TileConsole

open Source

namespace Instruction

-- An offset of the code is the place of one of the bytes of an instruction.
def Spans (inst : Instruction) (offset : Int) : Prop :=
  inst.offset ≤ offset ∧ offset < inst.offset + inst.bytes.length

-- The line of a source that has the number of an instruction has its text in
-- front of the comment, and says what the instruction says.
def ReadFrom (source : Bytes) (inst : Instruction) : Prop :=
  ∃ (index : Nat) (raw : Bytes), inst.line = index + 1 ∧ (source.splitOn 0x0A)[index]? = some raw ∧
    Line.content (Text.ofBytes raw) = inst.text ∧
    said? raw = some (.instruction inst.mnemonic inst.operands)

theorem spans_of_covers {inst : Instruction} {offset : Int} (h : inst.covers offset) :
    inst.Spans offset := by
  simp only [covers, Bool.and_eq_true, decide_eq_true_eq] at h
  exact h.1

theorem covers_of_spans {inst : Instruction} {offset : Int} (h : inst.Spans offset)
    (hfits : Numeral.fitsInt64 (inst.offset + inst.bytes.length)) : inst.covers offset := by
  simp only [Numeral.fitsInt64, Bool.and_eq_true, decide_eq_true_eq] at hfits
  simp only [covers, Bool.and_eq_true, decide_eq_true_eq]
  exact ⟨h, hfits.2⟩

end Instruction

namespace Program

-- One instruction spans an offset, and no other instruction of the program does.
def Owns (program : Program) (inst : Instruction) (offset : Int) : Prop :=
  ∃ before after, program.instructions = before ++ inst :: after ∧ inst.Spans offset ∧
    ∀ other ∈ before ++ after, ¬other.Spans offset

-- The instruction that a byte of the code comes from.
theorem exists_split {insts : List Instruction} {i : Nat}
    (h : i < (insts.flatMap Instruction.bytes).length) :
    ∃ before inst after, insts = before ++ inst :: after ∧
      (before.flatMap Instruction.bytes).length ≤ i ∧
      i < (before.flatMap Instruction.bytes).length + inst.bytes.length := by
  induction insts generalizing i with
  | nil => simp at h
  | cons inst rest ih =>
    by_cases hfirst : i < inst.bytes.length
    · exact ⟨[], inst, rest, rfl, by simp, by simpa using hfirst⟩
    · rw [List.flatMap_cons, List.length_append] at h
      obtain ⟨before, found, after, rfl, hstart, hend⟩ :=
        @ih (i - inst.bytes.length) (by omega)
      refine ⟨inst :: before, found, after, rfl, ?_, ?_⟩
      · rw [List.flatMap_cons, List.length_append]
        omega
      · rw [List.flatMap_cons, List.length_append]
        omega

namespace LaidOut

variable {program : Program} {before after : List Instruction} {inst other : Instruction}
  {offset : Int}

theorem offset_eq (h : program.LaidOut) (hsplit : program.instructions = before ++ inst :: after) :
    inst.offset = (before.flatMap Instruction.bytes).length := by
  rw [h.offset before after inst hsplit, List.length_flatMap]

-- Instructions do not overlap.
theorem end_le (h : program.LaidOut) (hsplit : program.instructions = before ++ inst :: after)
    (hother : other ∈ before) : other.offset + other.bytes.length ≤ inst.offset := by
  obtain ⟨front, back, rfl⟩ := List.append_of_mem hother
  have hlater := h.offset_eq hsplit
  rw [List.append_assoc, List.cons_append] at hsplit
  rw [hlater, h.offset_eq hsplit, List.flatMap_append, List.flatMap_cons, List.length_append,
    List.length_append]
  omega

theorem le_offset (h : program.LaidOut) (hsplit : program.instructions = before ++ inst :: after)
    (hother : other ∈ after) : inst.offset + inst.bytes.length ≤ other.offset := by
  obtain ⟨front, back, rfl⟩ := List.append_of_mem hother
  have hlater : program.instructions = (before ++ inst :: front) ++ other :: back := by
    rw [hsplit, List.append_assoc, List.cons_append]
  exact h.end_le hlater (by simp)

theorem end_le_length (h : program.LaidOut)
    (hsplit : program.instructions = before ++ inst :: after) :
    inst.offset + inst.bytes.length ≤ program.code.length := by
  rw [h.offset_eq hsplit, code, hsplit, List.flatMap_append, List.flatMap_cons, List.length_append,
    List.length_append]
  omega

theorem owns (h : program.LaidOut) (hsplit : program.instructions = before ++ inst :: after)
    (hspans : inst.Spans offset) : program.Owns inst offset := by
  refine ⟨before, after, hsplit, hspans, ?_⟩
  intro other hother
  unfold Instruction.Spans at hspans ⊢
  rcases List.mem_append.mp hother with hbefore | hafter
  · have hend := h.end_le hsplit hbefore
    omega
  · have hstart := h.le_offset hsplit hafter
    omega

-- Instructions leave no gap.
theorem exists_owner (h : program.LaidOut) (hstart : 0 ≤ offset)
    (hend : offset < program.code.length) : ∃ inst, program.Owns inst offset := by
  have hbyte : offset.toNat < (program.instructions.flatMap Instruction.bytes).length := by
    rw [code] at hend
    omega
  obtain ⟨before, inst, after, hsplit, hlow, hhigh⟩ := exists_split hbyte
  have hoffset := h.offset_eq hsplit
  refine ⟨inst, h.owns hsplit ?_⟩
  unfold Instruction.Spans
  omega

-- The byte at an offset is the one that the instruction there has for it.
theorem getElem?_code (h : program.LaidOut) (howns : program.Owns inst offset) :
    0 ≤ offset ∧ offset < program.code.length ∧
      program.code[offset.toNat]? = inst.bytes[(offset - inst.offset).toNat]? := by
  obtain ⟨before, after, hsplit, ⟨hlow, hhigh⟩, -⟩ := howns
  have hoffset := h.offset_eq hsplit
  have hend := h.end_le_length hsplit
  have hindex : offset.toNat - (before.flatMap Instruction.bytes).length =
      (offset - inst.offset).toNat := by
    omega
  refine ⟨by omega, by omega, ?_⟩
  rw [code, hsplit, List.flatMap_append, List.flatMap_cons, List.getElem?_append_right (by omega),
    hindex, List.getElem?_append_left (by omega)]

-- An unknown mnemonic has no bytes.
theorem isSome_ofMnemonic? (h : program.LaidOut) (howns : program.Owns inst offset) :
    (Operation.ofMnemonic? inst.mnemonic).isSome := by
  obtain ⟨before, after, hsplit, ⟨hlow, hhigh⟩, -⟩ := howns
  have hmem : inst ∈ program.instructions := by simp [hsplit]
  rw [Option.isSome_iff_ne_none]
  intro hunknown
  rw [h.unknown inst hmem hunknown, List.length_nil] at hhigh
  omega

theorem locate?_of_owns (h : program.LaidOut) (hfits : Numeral.fitsInt64 program.code.length)
    (howns : program.Owns inst offset) :
    program.locate? offset = some ⟨inst, offset - inst.offset⟩ := by
  obtain ⟨before, after, hsplit, hspans, hothers⟩ := howns
  have hcovers : inst.covers offset := by
    apply Instruction.covers_of_spans hspans
    have hend := h.end_le_length hsplit
    have hoffset := h.offset_eq hsplit
    simp only [Numeral.fitsInt64, Bool.and_eq_true, decide_eq_true_eq] at hfits ⊢
    omega
  have hbefore : before.find? (·.covers offset) = none := by
    rw [List.find?_eq_none]
    exact fun other hother hcovered =>
      hothers other (List.mem_append_left _ hother) (Instruction.spans_of_covers hcovered)
  have hfirst : (inst :: after).find? (·.covers offset) = some inst :=
    List.find?_cons_of_pos hcovers
  rw [locate?, hsplit, List.find?_append, hbefore, hfirst]
  rfl

theorem owns_of_locate? (h : program.LaidOut) {found : Location}
    (hfound : program.locate? offset = some found) :
    program.Owns found.instruction offset ∧ found.index = offset - found.instruction.offset := by
  obtain ⟨inst, hfind, rfl⟩ := Option.map_eq_some_iff.mp hfound
  obtain ⟨hcovers, before, after, hsplit, -⟩ := List.find?_eq_some_iff_append.mp hfind
  exact ⟨h.owns hsplit (Instruction.spans_of_covers hcovers), rfl⟩

theorem locate?_eq_none_iff (h : program.LaidOut)
    (hfits : Numeral.fitsInt64 program.code.length) :
    program.locate? offset = none ↔ offset < 0 ∨ program.code.length ≤ offset := by
  constructor
  · intro hnone
    by_contra hinside
    have hstart : 0 ≤ offset := by omega
    obtain ⟨inst, howns⟩ := h.exists_owner hstart (by omega)
    rw [h.locate?_of_owns hfits howns] at hnone
    cases hnone
  · intro houtside
    cases hfound : program.locate? offset with
    | none => rfl
    | some found =>
      obtain ⟨hstart, hend, -⟩ := h.getElem?_code (h.owns_of_locate? hfound).1
      omega

end LaidOut

end Program

namespace Source

-- An instruction stands for one line, and the instructions come in the order of
-- their lines.
theorem exists_line_of_mem_placed {offset : Nat} {lines : List Line} {inst : Instruction}
    (h : inst ∈ placed offset lines) :
    ∃ line ∈ lines, line.number = inst.line ∧ line.text = inst.text ∧
      line.kind = .instruction inst.mnemonic inst.operands := by
  induction lines generalizing offset with
  | nil => simp [placed] at h
  | cons line rest ih =>
    rw [placed, List.mem_append, Option.mem_toList] at h
    rcases h with hfirst | hrest
    · refine ⟨line, List.mem_cons_self, ?_⟩
      rcases line with ⟨number, text, _ | ⟨mnemonic, operands⟩ | _⟩
      · cases hfirst
      · obtain rfl := Option.some.inj hfirst
        exact ⟨rfl, rfl, rfl⟩
      · cases hfirst
    · obtain ⟨found, hmem, hfound⟩ := ih hrest
      exact ⟨found, List.mem_cons_of_mem _ hmem, hfound⟩

theorem pairwise_line_placed {offset : Nat} {lines : List Line}
    (h : lines.Pairwise (·.number < ·.number)) :
    (placed offset lines).Pairwise (·.line < ·.line) := by
  induction lines generalizing offset with
  | nil => exact .nil
  | cons line rest ih =>
    obtain ⟨hfirst, hrest⟩ := List.pairwise_cons.mp h
    rcases placed_cons_cases offset line rest with ⟨heq, -⟩ | ⟨inst, heq, -, hline, -, -⟩
    · rw [heq]
      exact ih hrest
    · rw [heq, List.pairwise_cons]
      refine ⟨?_, ih hrest⟩
      intro other hother
      obtain ⟨found, hmem, hnumber, -⟩ := exists_line_of_mem_placed hother
      rw [hline, ← hnumber]
      exact hfirst found hmem

end Source

namespace Assembly

variable {mode : Mode} {program : Program}

theorem laidOut {lines : List Line} (h : ofLines mode lines = .ok program) : program.LaidOut := by
  obtain ⟨hlabels, hclean, hinsts⟩ := ofLines_eq_ok h
  have hlaidOut := Encoding.laidOut_encoded hlabels hclean
  rw [← hinsts] at hlaidOut
  exact hlaidOut

theorem readFrom_of_mem {source : Stream} (h : ofStream mode source = .ok program)
    {inst : Instruction} (hinst : inst ∈ program.instructions) : inst.ReadFrom source.bytes := by
  obtain ⟨-, -, hinsts⟩ := ofLines_eq_ok (ofLines_of_ofStream h)
  rw [hinsts] at hinst
  obtain ⟨bare, hbare, rfl⟩ := List.mem_map.mp hinst
  obtain ⟨line, hline, hnumber, htext, hkind⟩ := exists_line_of_mem_placed hbare
  rw [Line.readAll_ofBytes] at hline
  obtain ⟨index, text, hget, hindex, hread⟩ := Line.exists_of_mem_readFrom hline
  rw [List.getElem?_map] at hget
  obtain ⟨raw, hraw, rfl⟩ := Option.map_eq_some_iff.mp hget
  rw [Line.read?_eq] at hread
  obtain ⟨kind, hsaid, heq⟩ := Option.map_eq_some_iff.mp hread
  have hcontent : Line.content (Text.ofBytes raw) = line.text := congrArg Line.text heq
  have hsame : kind = line.kind := congrArg Line.kind heq
  refine ⟨index, raw, ?_, hraw, hcontent.trans htext, ?_⟩
  · change bare.line = _
    omega
  · rw [said?, hsaid, hsame, hkind]
    rfl

-- No two instructions stand on the same line.
theorem eq_of_line_eq {source : Stream} (h : ofStream mode source = .ok program)
    {inst other : Instruction} (hinst : inst ∈ program.instructions)
    (hother : other ∈ program.instructions) (hline : other.line = inst.line) : other = inst := by
  obtain ⟨-, -, hinsts⟩ := ofLines_eq_ok (ofLines_of_ofStream h)
  have hpairwise : program.instructions.Pairwise (·.line < ·.line) := by
    rw [hinsts, List.pairwise_map, Line.readAll_ofBytes]
    exact pairwise_line_placed (Line.pairwise_number_readFrom 1 _)
  have hnodup : (program.instructions.map Instruction.line).Nodup :=
    List.pairwise_map.mpr (hpairwise.imp Int.ne_of_lt)
  exact List.inj_on_of_nodup_map hnodup hother hinst hline

-- The look-up of a byte of the code inverts the layout of an assembled program.
-- It leads to the one instruction that the byte belongs to, and from there to the
-- one line of the source that has this instruction. Offsets are 64-bit integers, as
-- is the length of any code that can be held in memory.
theorem location_inverts_layout (mode : Mode) (source : Stream) (program : Program)
    (h : ofStream mode source = .ok program) (offset : Int) :
    (Numeral.fitsInt64 program.code.length →
      (program.locate? offset = none ↔ offset < 0 ∨ program.code.length ≤ offset)) ∧
    ∀ inst index, program.locate? offset = some ⟨inst, index⟩ →
      program.Owns inst offset ∧ (Operation.ofMnemonic? inst.mnemonic).isSome ∧
      inst.offset + index = offset ∧ 0 ≤ index ∧ index < inst.bytes.length ∧
      program.code[offset.toNat]? = inst.bytes[index.toNat]? ∧
      inst.ReadFrom source.bytes ∧
      ∀ other ∈ program.instructions, other.line = inst.line → other = inst := by
  have hlaidOut := laidOut (ofLines_of_ofStream h)
  refine ⟨hlaidOut.locate?_eq_none_iff, ?_⟩
  intro inst index hfound
  obtain ⟨howns, hindex⟩ := hlaidOut.owns_of_locate? hfound
  dsimp only at howns hindex
  obtain ⟨-, -, hbyte⟩ := hlaidOut.getElem?_code howns
  have hknown := hlaidOut.isSome_ofMnemonic? howns
  obtain ⟨before, after, hsplit, ⟨hlow, hhigh⟩, -⟩ := id howns
  have hmem : inst ∈ program.instructions := by simp [hsplit]
  exact ⟨howns, hknown, by omega, by omega, by omega, hindex ▸ hbyte, readFrom_of_mem h hmem,
    fun other hother => eq_of_line_eq h hmem hother⟩

-- The last byte of a code with an unknown mnemonic on the line in the middle.
theorem location_inverts_layout_last_byte :
    let source := Stream.whole (Text.toBytes "SET_A 1\nBOGUS\n\tSET_X 2 ; two")
    ∃ program, ofStream .lenient source = .ok program ∧ program.locate? 5 = none ∧
      ∃ inst, program.locate? 4 = some ⟨inst, 2⟩ ∧ program.Owns inst 4 ∧
        inst.line = 3 ∧ inst.text = "SET_X 2" ∧ inst.ReadFrom source.bytes := by
  intro source
  have hlocated : (ofStream .lenient source).toOption.map (fun program =>
      (program.code, program.locate? 4)) =
        some ([0x01, 0x01, 0x02, 0x02, 0x00],
          some ⟨⟨3, "SET_X 2", "SET_X", ["2"], 2, [0x02, 0x02, 0x00]⟩, 2⟩) := by
    decide +kernel
  cases hsource : ofStream .lenient source with
  | error error =>
    rw [hsource] at hlocated
    cases hlocated
  | ok program =>
    rw [hsource] at hlocated
    obtain ⟨hcode, hfound⟩ := Prod.mk.inj (Option.some.inj hlocated)
    have hbehind := (location_inverts_layout .lenient source program hsource 5).1
    obtain ⟨howns, -, -, -, -, -, hread, -⟩ :=
      (location_inverts_layout .lenient source program hsource 4).2 _ _ hfound
    rw [hcode] at hbehind
    exact ⟨program, rfl, (hbehind (by decide)).mpr (.inr (by decide)), _, hfound, howns, rfl, rfl,
      hread⟩

end Assembly

end TileConsole
