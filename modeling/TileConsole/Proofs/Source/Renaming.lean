import Mathlib.Data.Set.Function
import TileConsole.Proofs.Source.Concatenation

namespace TileConsole

namespace Source

-- The names that lines declare, one for each declaration.
def declared (lines : List Line) : List Text :=
  lines.filterMap fun line =>
    match line.kind with
    | .label name => some name
    | _ => none

-- The label that a jump names: the word itself if it is declared, else the word
-- without its mark.
def named? (lines : List Line) (word : Text) : Option Text :=
  if (declared lines).contains word then some word
  else if (declared lines).contains (word.stripFirst Line.labelMark) then
    some (word.stripFirst Line.labelMark)
  else none

-- New names for the labels of lines. Labels stay different, and a word that names
-- no label does not name one by its new name.
structure Renames (lines : List Line) (newName : Text → Text) : Prop where
  injOn : Set.InjOn newName {name | name ∈ declared lines}
  apart : ∀ statement ∈ statements lines, statement.op = .jump →
    ∀ word ∈ statement.operands.head?, named? lines word = none → ∀ name ∈ declared lines,
      newName name ≠ word ∧ newName name ≠ word.stripFirst Line.labelMark

-- The word of a jump once the labels of lines have new names.
def renamedWord (lines : List Line) (newName : Text → Text) (word : Text) : Text :=
  match named? lines word with
  | some name => newName name
  | none => word

def renamedOperands (lines : List Line) (newName : Text → Text) (mnemonic : Text)
    (operands : List Text) : List Text :=
  if Operation.ofMnemonic? mnemonic = some .jump then
    operands.modifyHead (renamedWord lines newName)
  else operands

end Source

open Source

-- A line with new names, where it declares a label or jumps to one.
def Line.renamed (lines : List Line) (newName : Text → Text) (line : Line) : Line :=
  { line with
    kind := match line.kind with
      | .label name => .label (newName name)
      | .instruction mnemonic operands =>
        .instruction mnemonic (renamedOperands lines newName mnemonic operands)
      | .other => .other }

def Instruction.renamed (lines : List Line) (newName : Text → Text) (inst : Instruction) :
    Instruction :=
  { inst with operands := renamedOperands lines newName inst.mnemonic inst.operands }

theorem Instruction.isSome_statement?_renamed (lines : List Line) (newName : Text → Text)
    (inst : Instruction) :
    (inst.renamed lines newName).statement?.isSome = inst.statement?.isSome := by
  simp [statement?, renamed]

theorem Instruction.size_renamed (lines : List Line) (newName : Text → Text)
    (inst : Instruction) : (inst.renamed lines newName).size = inst.size := by
  simp only [size, statement?, renamed, Option.map_map, Function.comp_def]

-- Code with the same bytes and the same failure, of instructions with new names.
def Encoding.renamed (lines : List Line) (newName : Text → Text) (encoding : Encoding) :
    Encoding :=
  { encoding with
    instructions := encoding.instructions.map (Instruction.renamed lines newName) }

namespace Source

section Lines

variable {lines part : List Line} {newName : Text → Text} {name word : Text}

theorem mem_declared : name ∈ declared lines ↔ ∃ line ∈ lines, line.kind = .label name := by
  rw [declared, List.mem_filterMap]
  apply exists_congr
  intro line
  apply and_congr_right
  intro _
  cases line.kind <;> simp

theorem beforeLabel?_eq_none_iff_notMem :
    beforeLabel? name lines = none ↔ name ∉ declared lines := by
  rw [beforeLabel?_eq_none_iff, mem_declared]
  simp

theorem exists_beforeLabel? (h : name ∈ declared lines) :
    ∃ before, beforeLabel? name lines = some before := by
  rw [← Option.ne_none_iff_exists', Ne, beforeLabel?_eq_none_iff_notMem]
  exact not_not_intro h

theorem codeSize_singleton_renamed (line : Line) :
    codeSize [line.renamed lines newName] = codeSize [line] := by
  rw [codeSize_singleton, codeSize_singleton]
  rcases line with ⟨number, text, kind⟩
  cases kind with
  | instruction mnemonic operands =>
    simp only [Line.renamed, Line.statement?, Option.map_map]
    rfl
  | _ => rfl

theorem codeSize_renamed (part : List Line) :
    codeSize (part.map (Line.renamed lines newName)) = codeSize part := by
  induction part with
  | nil => rfl
  | cons line rest ih =>
    rw [List.map_cons, codeSize_cons, codeSize_singleton_renamed, ih, codeSize_cons line rest]

theorem placed_renamed (offset : Nat) (part : List Line) :
    placed offset (part.map (Line.renamed lines newName)) =
      (placed offset part).map (Instruction.renamed lines newName) := by
  induction part generalizing offset with
  | nil => rfl
  | cons line rest ih =>
    rw [List.map_cons, placed, ih, placed, codeSize_singleton_renamed, List.map_append]
    congr 1
    rcases line with ⟨number, text, kind⟩
    cases kind <;> rfl

-- A declaration is found under its new name, as the names of labels stay different.
theorem beforeLabel?_renamed (hinj : Set.InjOn newName {name | name ∈ declared lines})
    (hname : name ∈ declared lines) (hpart : ∀ line ∈ part, line ∈ lines) :
    beforeLabel? (newName name) (part.map (Line.renamed lines newName)) =
      (beforeLabel? name part).map (List.map (Line.renamed lines newName)) := by
  induction part with
  | nil => rfl
  | cons line rest ih =>
    obtain ⟨hline, hrest⟩ := List.forall_mem_cons.mp hpart
    have hkind : (line.renamed lines newName).kind = .label (newName name) ↔
        line.kind = .label name := by
      rcases line with ⟨number, text, kind⟩
      cases kind with
      | label other =>
        have hother : other ∈ declared lines := mem_declared.mpr ⟨_, hline, rfl⟩
        simp only [Line.renamed, LineKind.label.injEq]
        exact ⟨fun same => hinj hother hname same, congrArg newName⟩
      | _ => simp [Line.renamed]
    rw [List.map_cons, beforeLabel?, ih hrest, beforeLabel?]
    cases beforeLabel? name rest with
    | some before => rfl
    | none =>
      simp only [Option.map_none, hkind]
      split <;> rfl

theorem beforeLabel?_renamed_of_apart (h : ∀ name ∈ declared lines, newName name ≠ word) :
    beforeLabel? word (lines.map (Line.renamed lines newName)) = none := by
  rw [beforeLabel?_eq_none_iff]
  intro other hother
  obtain ⟨line, hline, rfl⟩ := List.mem_map.mp hother
  rcases line with ⟨number, text, kind⟩
  cases kind with
  | label name =>
    simp only [Line.renamed, ne_eq, LineKind.label.injEq]
    exact h name (mem_declared.mpr ⟨_, hline, rfl⟩)
  | _ => simp [Line.renamed]

theorem renamedWord_of_address?_eq_none (h : address? lines word = none) :
    renamedWord lines newName word = word := by
  rw [address?, Option.map_eq_none_iff, beforeTarget?, Option.or_eq_none_iff,
    beforeLabel?_eq_none_iff_notMem, beforeLabel?_eq_none_iff_notMem] at h
  simp [renamedWord, named?, h.1, h.2]

end Lines

namespace Renames

variable {lines : List Line} {newName : Text → Text} {statement : Statement} {word : Text}

-- A jump that names a label names it by its new name. Any other jump still names
-- none.
theorem beforeTarget?_eq (h : Renames lines newName) (hstatement : statement ∈ statements lines)
    (hjump : statement.op = .jump) (hword : word ∈ statement.operands.head?) :
    beforeTarget? (lines.map (Line.renamed lines newName)) (renamedWord lines newName word) =
      (beforeTarget? lines word).map (List.map (Line.renamed lines newName)) := by
  have hapart := h.apart statement hstatement hjump word hword
  have hfound {name : Text} (hname : name ∈ declared lines) :=
    beforeLabel?_renamed h.injOn hname (fun _ hline => hline)
  unfold named? at hapart
  unfold renamedWord named? beforeTarget?
  by_cases hexact : word ∈ declared lines
  · obtain ⟨before, hbefore⟩ := exists_beforeLabel? hexact
    simp [hexact, hfound hexact, hbefore]
  · have hnone := beforeLabel?_eq_none_iff_notMem.mpr hexact
    by_cases hstripped : word.stripFirst Line.labelMark ∈ declared lines
    · obtain ⟨before, hbefore⟩ := exists_beforeLabel? hstripped
      simp [hexact, hstripped, hnone, hfound hstripped, hbefore]
    · have hnew := hapart (by simp [hexact, hstripped])
      have hneither := beforeLabel?_eq_none_iff_notMem.mpr hstripped
      simp [hexact, hstripped, hnone, hneither,
        beforeLabel?_renamed_of_apart fun name hname => (hnew name hname).1,
        beforeLabel?_renamed_of_apart fun name hname => (hnew name hname).2]

theorem address?_eq (h : Renames lines newName) (hstatement : statement ∈ statements lines)
    (hjump : statement.op = .jump) (hword : word ∈ statement.operands.head?) :
    address? (lines.map (Line.renamed lines newName)) (renamedWord lines newName word) =
      address? lines word := by
  rw [address?, h.beforeTarget?_eq hstatement hjump hword, Option.map_map, address?]
  congr 1
  exact funext fun before => codeSize_renamed before

end Renames

end Source

namespace Encoding

section Renaming

variable {mode : Mode} {lines : List Line} {newName : Text → Text} {labels table : Labels}

theorem targetOperand_renamed (h : Renames lines newName) (hlabels : Located lines labels)
    (htable : Located (lines.map (Line.renamed lines newName)) table) {statement : Statement}
    (hstatement : statement ∈ statements lines) (hjump : statement.op = .jump) {word : Text}
    (hword : word ∈ statement.operands.head?) :
    targetOperand table (renamedWord lines newName word) = targetOperand labels word := by
  rw [targetOperand, targetOperand, targetLabel?_eq htable, targetLabel?_eq hlabels,
    h.address?_eq hstatement hjump hword]
  cases haddress : address? lines word with
  | none => rw [renamedWord_of_address?_eq_none haddress]
  | some address => rfl

-- Only jumps look at the labels.
theorem encode_of_ne_jump {op : Operation} (h : op ≠ .jump) (operands : List Text) :
    encode mode table op operands = encode mode labels op operands := by
  have hoperand : operand mode table op = operand mode labels op := by
    funext word
    simp only [operand, h, ite_false]
  rw [encode, encode, hoperand]

theorem encode_jump {operands : List Text} {newWord : Text → Text}
    (h : ∀ word ∈ operands.head?, targetOperand table (newWord word) = targetOperand labels word) :
    encode mode table .jump (operands.modifyHead newWord) = encode mode labels .jump operands := by
  cases operands with
  | nil => rfl
  | cons word rest =>
    have hword := h word rfl
    -- Only the first operand of a jump is encoded.
    simp [encode, operand, hword, Operation.shape, Shape.operands]

theorem outcome_renamed (h : Renames lines newName) (hlabels : Located lines labels)
    (htable : Located (lines.map (Line.renamed lines newName)) table) {inst : Instruction}
    (hinst : inst ∈ placed 0 lines) :
    outcome mode table (inst.renamed lines newName) = outcome mode labels inst := by
  cases hop : Operation.ofMnemonic? inst.mnemonic with
  | none => simp [outcome, Instruction.statement?, Instruction.renamed, hop]
  | some op =>
    have hstatement : (⟨op, inst.operands⟩ : Statement) ∈ statements lines := by
      rw [← filterMap_statement?_placed 0 lines, List.mem_filterMap]
      exact ⟨inst, hinst, by simp [Instruction.statement?, hop]⟩
    simp only [outcome, Instruction.statement?, Instruction.renamed, hop, Option.map_some,
      renamedOperands, Option.some.injEq]
    by_cases hjump : op = .jump
    · subst hjump
      rw [if_pos rfl]
      exact encode_jump fun word hword =>
        targetOperand_renamed h hlabels htable hstatement rfl hword
    · rw [if_neg hjump]
      exact encode_of_ne_jump hjump inst.operands

-- The second pass goes through both lists in step.
theorem extend_renamed (done : Array Instruction) {offset : Nat} {insts : List Instruction}
    (hplaced : WellPlaced offset insts)
    (houtcome : ∀ inst ∈ insts,
      outcome mode table (inst.renamed lines newName) = outcome mode labels inst) :
    extend mode table (done.map (Instruction.renamed lines newName)) offset
        (insts.map (Instruction.renamed lines newName)) =
      (extend mode labels done offset insts).renamed lines newName := by
  induction insts generalizing done offset with
  | nil => simp [extend, Encoding.renamed]
  | cons inst rest ih =>
    obtain ⟨hoffset, hrest⟩ := hplaced
    obtain ⟨hinst, houtcomes⟩ := List.forall_mem_cons.mp houtcome
    have hoffset' : (inst.renamed lines newName).statement?.isSome →
        (inst.renamed lines newName).offset = offset := by
      rw [Instruction.isSome_statement?_renamed]
      exact hoffset
    have hencoded : encoded mode table (inst.renamed lines newName) =
        (encoded mode labels inst).renamed lines newName := by
      rw [encoded, hinst]
      rfl
    rw [List.map_cons, extend_cons hoffset', extend_cons hoffset, hinst, hencoded,
      Instruction.size_renamed]
    cases (outcome mode labels inst).2 with
    | none =>
      dsimp only
      rw [← Array.map_push]
      exact ih _ hrest houtcomes
    | some defect => simp [Encoding.renamed, Instruction.renamed]

theorem ofInstructions_renamed (h : Renames lines newName) (hlabels : Located lines labels)
    (htable : Located (lines.map (Line.renamed lines newName)) table) :
    ofInstructions mode table (placed 0 (lines.map (Line.renamed lines newName))) =
      (ofInstructions mode labels (placed 0 lines)).renamed lines newName := by
  have houtcome : ∀ inst ∈ placed 0 lines,
      outcome mode table (inst.renamed lines newName) = outcome mode labels inst :=
    fun _ hinst => outcome_renamed h hlabels htable hinst
  have hrun := extend_renamed #[] (wellPlaced_placed 0 lines) houtcome
  rwa [Array.map_empty, ← placed_renamed] at hrun

end Renaming

end Encoding

namespace Source

-- A label is found under a name if one with that new name was found there before.
theorem find?_renamed_eq_some_iff {lines : List Line} {newName : Text → Text}
    {labels table : Labels} (hinj : Set.InjOn newName {name | name ∈ declared lines})
    (hlabels : Located lines labels)
    (htable : Located (lines.map (Line.renamed lines newName)) table) (name : Text)
    (offset : Int) :
    table.find? name = some offset ↔
      ∃ old, newName old = name ∧ labels.find? old = some offset := by
  have hmem {old : Text} (h : labels.find? old = some offset) : old ∈ declared lines := by
    rw [hlabels] at h
    by_contra hold
    rw [beforeLabel?_eq_none_iff_notMem.mpr hold] at h
    cases h
  have hfound {old : Text} (hold : old ∈ declared lines) :
      table.find? (newName old) = labels.find? old := by
    rw [htable, hlabels, beforeLabel?_renamed hinj hold fun _ hline => hline, Option.map_map]
    congr 1
    exact funext fun before => congrArg Nat.cast (codeSize_renamed before)
  constructor
  · intro h
    by_cases himage : ∃ old ∈ declared lines, newName old = name
    · obtain ⟨old, hold, rfl⟩ := himage
      exact ⟨old, rfl, hfound hold ▸ h⟩
    · have hapart : ∀ old ∈ declared lines, newName old ≠ name := by
        intro old hold heq
        exact himage ⟨old, hold, heq⟩
      rw [htable, beforeLabel?_renamed_of_apart hapart] at h
      cases h
  · rintro ⟨old, rfl, hold⟩
    rw [hfound (hmem hold), hold]

-- New names for the labels leave the code as it is, and every complaint about it.
-- Only the table of labels shows them.
theorem label_names_do_not_matter (lines : List Line) (newName : Text → Text)
    (h : Renames lines newName) :
    let first := Layout.ofLines .lenient lines
    let second := Layout.ofLines .lenient (lines.map (Line.renamed lines newName))
    first.2 = none ∧ second.2 = none ∧
      second.1.instructions.toList =
        first.1.instructions.toList.map (Instruction.renamed lines newName) ∧
      second.1.size = first.1.size ∧
      (∀ name offset, second.1.labels.find? name = some offset ↔
        ∃ old, newName old = name ∧ first.1.labels.find? old = some offset) ∧
      Encoding.ofInstructions .lenient second.1.labels second.1.instructions.toList =
        (Encoding.ofInstructions .lenient first.1.labels first.1.instructions.toList).renamed
          lines newName := by
  intro first second
  obtain ⟨hinsts, hsize, hlabels⟩ := Layout.lenient_spec lines
  obtain ⟨hinsts', hsize', htable⟩ :=
    Layout.lenient_spec (lines.map (Line.renamed lines newName))
  refine ⟨Layout.ofLines_lenient _, Layout.ofLines_lenient _, ?_, ?_,
    find?_renamed_eq_some_iff h.injOn hlabels htable, ?_⟩
  · rw [hinsts', hinsts, placed_renamed]
  · rw [hsize', hsize, codeSize_renamed]
  · rw [hinsts', hinsts]
    exact Encoding.ofInstructions_renamed h hlabels htable

-- Two labels that differ by the mark only change their names, and the label that
-- has no name gets one. Each jump still reaches what it reached, the number too.
theorem label_names_do_not_matter_swapped :
    let lines : List Line := [⟨1, "@x:", .label "x"⟩, ⟨2, "JMP @x", .instruction "JMP" ["@x"]⟩,
      ⟨3, "JMP 5", .instruction "JMP" ["5"]⟩, ⟨4, "@@x:", .label "@x"⟩,
      ⟨5, "JMP @", .instruction "JMP" ["@"]⟩, ⟨6, "@:", .label ""⟩]
    let newName : Text → Text := fun name =>
      if name = "x" then "@x" else if name = "@x" then "x" else "start"
    let others := lines.map (Line.renamed lines newName)
    let second := Layout.ofLines .lenient others
    Renames lines newName ∧
      others.map Line.kind = [.label "@x", .instruction "JMP" ["x"], .instruction "JMP" ["5"],
        .label "x", .instruction "JMP" ["start"], .label "start"] ∧
      (Encoding.ofInstructions .lenient second.1.labels
        second.1.instructions.toList).instructions.map Instruction.bytes =
          [[0x04, 0x06, 0x00], [0x04, 0x05, 0x00], [0x04, 0x09, 0x00]] := by
  intro lines newName others second
  have hrenames : Renames lines newName := by
    have hinj : ∀ name ∈ declared lines, ∀ other ∈ declared lines,
        newName name = newName other → name = other := by
      decide +kernel
    exact ⟨fun name hname other hother => hinj name hname other hother, by decide +kernel⟩
  obtain ⟨-, -, -, -, -, hcode⟩ := label_names_do_not_matter lines newName hrenames
  refine ⟨hrenames, by decide +kernel, ?_⟩
  rw [hcode]
  decide +kernel

end Source

end TileConsole
