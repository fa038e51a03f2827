import Mathlib.Logic.Relation
import TileConsole.Proofs.Source.LineEdits
import TileConsole.Proofs.Source.Numbering

namespace TileConsole

namespace Source

-- A line of a source that is being edited, and whether it was inserted.
structure DraftLine where
  bytes : Bytes
  inserted : Bool
deriving DecidableEq

abbrev Draft := List DraftLine

namespace Draft

def ofSource (source : Bytes) : Draft :=
  (source.splitOn 0x0A).map (⟨·, false⟩)

def source (draft : Draft) : Bytes :=
  [0x0A].intercalate (draft.map DraftLine.bytes)

-- The edits of a source: of one line, or a new line that says nothing.
inductive Edit : Draft → Draft → Prop
  | change {line other : Bytes} (h : LineEdit line other) (inserted : Bool) (above below : Draft) :
      Edit (above ++ ⟨line, inserted⟩ :: below) (above ++ ⟨other, inserted⟩ :: below)
  | insert {line : Bytes} (h : SaysNothing line) (above below : Draft) :
      Edit (above ++ below) (above ++ ⟨line, true⟩ :: below)

-- How many inserted lines stand above a line of the source, counted from zero.
def insertedAbove : Draft → Nat → Nat
  | [], _ => 0
  | ⟨_, true⟩ :: below, index => insertedAbove below index + 1
  | ⟨_, false⟩ :: _, 0 => 0
  | ⟨_, false⟩ :: below, index + 1 => insertedAbove below index

-- Where the line of a given number has come to stand.
def moved (draft : Draft) (number : Int) : Int :=
  number + draft.insertedAbove (number - 1).toNat

-- The draft has the lines of a source, which say what they said, among lines
-- that say nothing.
structure Keeps (pieces : List Bytes) (draft : Draft) : Prop where
  lines : ∀ line ∈ draft, 0x0A ∉ line.bytes ∧ (line.inserted → said? line.bytes = none)
  said : (draft.filter (!·.inserted)).map (said? ·.bytes) = pieces.map said?

section Keeps

variable {pieces : List Bytes} {draft next : Draft}

theorem Keeps.edit (h : Keeps pieces draft) (hedit : Edit draft next) : Keeps pieces next := by
  obtain ⟨hlines, hsaid⟩ := h
  cases hedit with
  | @change line other hline inserted above below =>
    rw [List.forall_mem_append, List.forall_mem_cons] at hlines
    obtain ⟨habove, ⟨hnewline, hquiet⟩, hbelow⟩ := hlines
    refine ⟨?_, ?_⟩
    · rw [List.forall_mem_append, List.forall_mem_cons, hline.said?_eq]
      exact ⟨habove, ⟨hline.newline_notMem hnewline, hquiet⟩, hbelow⟩
    · rw [← hsaid]
      cases inserted <;> simp [hline.said?_eq]
  | @insert line hline above below =>
    rw [List.forall_mem_append] at hlines
    refine ⟨?_, ?_⟩
    · rw [List.forall_mem_append, List.forall_mem_cons]
      exact ⟨hlines.1, ⟨hline.newline_notMem, fun _ => hline.said?_eq⟩, hlines.2⟩
    · rw [← hsaid]
      simp

theorem Keeps.edits (h : Keeps pieces draft) (hedits : Relation.ReflTransGen Edit draft next) :
    Keeps pieces next := by
  induction hedits with
  | refl => exact h
  | tail _ hedit ih => exact ih.edit hedit

theorem keeps_ofSource (source : Bytes) : Keeps (source.splitOn 0x0A) (ofSource source) := by
  refine ⟨?_, ?_⟩
  · rw [ofSource, List.forall_mem_map]
    exact fun piece hpiece => ⟨Line.newline_notMem_of_splitOn hpiece, by simp⟩
  · rw [ofSource, List.filter_eq_self.mpr (by simp), List.map_map]
    rfl

theorem Keeps.of_inserted {line : Bytes} {below : Draft}
    (h : Keeps pieces (⟨line, true⟩ :: below)) : said? line = none ∧ Keeps pieces below := by
  obtain ⟨hline, hbelow⟩ := List.forall_mem_cons.mp h.lines
  exact ⟨hline.2 rfl, hbelow, by simpa using h.said⟩

theorem Keeps.of_kept {line : Bytes} {below : Draft} (h : Keeps pieces (⟨line, false⟩ :: below)) :
    ∃ piece others, pieces = piece :: others ∧ said? line = said? piece ∧ Keeps others below := by
  have hbelow := (List.forall_mem_cons.mp h.lines).2
  have hsaid := h.said
  cases pieces with
  | nil => simp at hsaid
  | cons piece others =>
    obtain ⟨hfirst, hrest⟩ := List.cons.inj (by simpa using hsaid)
    exact ⟨piece, others, rfl, hfirst, hbelow, hrest⟩

-- The lines that say something stand in both sources, in the same order. The
-- induction goes from a line of each, the second `count` lines further down.
theorem Keeps.readFrom (h : Keeps pieces draft) (number count : Nat) :
    List.Forall₂
      (fun line other => (number : Int) ≤ line.number ∧
        line.Agrees (fun n => n + count + draft.insertedAbove (n - number).toNat) other)
      (Line.readFrom number (pieces.map Text.ofBytes))
      (Line.readFrom (number + count) (draft.map (Text.ofBytes ·.bytes))) := by
  induction draft generalizing pieces number count with
  | nil =>
    obtain rfl : pieces = [] := by simpa using h.said.symm
    exact .nil
  | cons first below ih =>
    rcases first with ⟨line, _ | _⟩
    · obtain ⟨piece, others, rfl, hsaid, hbelow⟩ := h.of_kept
      rw [List.map_cons, Line.readFrom_cons, List.map_cons, Line.readFrom_cons, read?_ofBytes,
        read?_ofBytes, hsaid]
      apply List.rel_append
      · cases said? piece with
        | none => exact .nil
        | some kind => exact .cons ⟨by simp, rfl, by simp [insertedAbove]⟩ .nil
      · rw [Nat.add_right_comm]
        refine (ih hbelow (number + 1) count).imp ?_
        intro found other ⟨hlow, hkind, hnumber⟩
        -- The line is below the first one of the source.
        obtain ⟨index, hindex⟩ : ∃ index : Nat, found.number = number + index + 1 :=
          ⟨(found.number - number - 1).toNat, by omega⟩
        have hbefore : (found.number - (number + 1 : Nat)).toNat = index := by omega
        have hafter : (found.number - number).toNat = index + 1 := by omega
        refine ⟨by omega, hkind, hnumber.trans ?_⟩
        rw [hbefore, hafter, insertedAbove]
    · obtain ⟨hquiet, hbelow⟩ := h.of_inserted
      rw [List.map_cons, Line.readFrom_cons, read?_ofBytes, hquiet]
      refine (ih hbelow number (count + 1)).imp ?_
      intro found other ⟨hlow, hkind, hnumber⟩
      refine ⟨hlow, hkind, hnumber.trans ?_⟩
      simp only [insertedAbove]
      omega

end Keeps

end Draft

open Draft

-- The layout of a source does not matter to what it assembles to.
theorem edits_keep_program (mode : Mode) (source : Bytes) (draft : Draft)
    (h : Relation.ReflTransGen Edit (ofSource source) draft) :
    Assembly.Agrees draft.moved (Assembly.ofStream mode (.whole source))
      (Assembly.ofStream mode (.whole draft.source)) := by
  have hkeeps := (keeps_ofSource source).edits h
  have hdraft : ∀ piece ∈ draft.map DraftLine.bytes, 0x0A ∉ piece := by
    rw [List.forall_mem_map]
    exact fun line hline => (hkeeps.lines line hline).1
  have hlines := hkeeps.readFrom 1 0
  rw [← Line.readAll_ofBytes, Nat.add_zero, ← Function.comp_def, ← List.map_map,
    ← Line.readAll_intercalate hdraft] at hlines
  apply Assembly.ofLines_agrees
  refine hlines.imp ?_
  intro line other ⟨hlow, hkind, hnumber⟩
  exact ⟨hkind, by simpa [moved] using hnumber⟩

-- A jump to the end, laid out anew under a line of remarks.
theorem edits_keep_program_jump :
    ∃ draft : Draft,
      Relation.ReflTransGen Edit (ofSource (Text.toBytes "JMP a\n@a")) draft ∧
      draft.source = Text.toBytes "; end\n\tjMP\t,a;go\n@a" ∧ draft.moved 1 = 2 ∧
      (∃ program, Assembly.ofStream .strict (.whole (Text.toBytes "JMP a\n@a")) = .ok program ∧
        program.code = [0x04, 0x03, 0x00]) ∧
      Assembly.Agrees draft.moved (Assembly.ofStream .strict (.whole (Text.toBytes "JMP a\n@a")))
        (Assembly.ofStream .strict (.whole draft.source)) := by
  have hnothing : SaysNothing (Text.toBytes "; end") :=
    ⟨[], Text.toBytes "; end", rfl, by simp [IsGap], by decide +kernel, by decide +kernel⟩
  have hrecase : LineEdit [0x4A, 0x4D, 0x50, 0x20, 0x61] [0x6A, 0x4D, 0x50, 0x20, 0x61] :=
    @LineEdit.recase [] [] [0x4D, 0x50, 0x20, 0x61] 0x4A 0x6A
      ⟨1, "JMP a", "JMP", ["a"], by decide +kernel⟩ (by simp [IsGap]) (by simp)
      ⟨9, by decide, by decide, by decide⟩
  have hrespace : LineEdit [0x6A, 0x4D, 0x50, 0x20, 0x61] [0x6A, 0x4D, 0x50, 0x09, 0x2C, 0x61] :=
    @LineEdit.respace [0x6A, 0x4D, 0x50] [0x20] [0x09, 0x2C] [0x61]
      ⟨1, "jMP a", "JMP", ["a"], by decide +kernel⟩ (by decide +kernel) (by decide +kernel)
      ⟨by simp, by decide, by decide +kernel⟩ ⟨by simp, by decide, by decide +kernel⟩
  have hremark : LineEdit [0x6A, 0x4D, 0x50, 0x09, 0x2C, 0x61]
      [0x6A, 0x4D, 0x50, 0x09, 0x2C, 0x61, 0x3B, 0x67, 0x6F] :=
    @LineEdit.remark [0x67, 0x6F] [] (by decide) isBlank_nil [0x6A, 0x4D, 0x50, 0x09, 0x2C, 0x61]
  have hindent : LineEdit [0x6A, 0x4D, 0x50, 0x09, 0x2C, 0x61, 0x3B, 0x67, 0x6F]
      [0x09, 0x6A, 0x4D, 0x50, 0x09, 0x2C, 0x61, 0x3B, 0x67, 0x6F] :=
    @LineEdit.indent [0x09] ⟨by decide, by decide +kernel⟩ _
  have hchange : ∀ {line other : Bytes}, LineEdit line other →
      Edit [⟨line, false⟩, ⟨[0x40, 0x61], false⟩] [⟨other, false⟩, ⟨[0x40, 0x61], false⟩] :=
    fun h => .change h false [] _
  have hsource : ofSource (Text.toBytes "JMP a\n@a") =
      [⟨[0x4A, 0x4D, 0x50, 0x20, 0x61], false⟩, ⟨[0x40, 0x61], false⟩] := by
    decide +kernel
  have hedits : Relation.ReflTransGen Edit (ofSource (Text.toBytes "JMP a\n@a"))
      [⟨Text.toBytes "; end", true⟩,
        ⟨[0x09, 0x6A, 0x4D, 0x50, 0x09, 0x2C, 0x61, 0x3B, 0x67, 0x6F], false⟩,
        ⟨[0x40, 0x61], false⟩] := by
    rw [hsource]
    exact ((((Relation.ReflTransGen.single (hchange hrecase)).tail (hchange hrespace)).tail
      (hchange hremark)).tail (hchange hindent)).tail (.insert hnothing [] _)
  have hcode : (Assembly.ofStream .strict (.whole (Text.toBytes "JMP a\n@a"))).toOption.map
      Program.code = some [0x04, 0x03, 0x00] := by
    decide +kernel
  have hassembled : ∃ program, Assembly.ofStream .strict (.whole (Text.toBytes "JMP a\n@a")) =
      .ok program ∧ program.code = [0x04, 0x03, 0x00] := by
    cases hsource : Assembly.ofStream .strict (.whole (Text.toBytes "JMP a\n@a")) with
    | error error => simp [hsource, Except.toOption] at hcode
    | ok program => exact ⟨program, rfl, by simpa [hsource, Except.toOption] using hcode⟩
  exact ⟨_, hedits, by decide +kernel, by decide, hassembled,
    edits_keep_program .strict _ _ hedits⟩

end Source

end TileConsole
