import TileConsole.Proofs.Program.Entries
import TileConsole.Proofs.Program.Location

namespace TileConsole

open Source

namespace Text

-- A text that ends with its only line feed.
def IsLine (text : Text) : Prop :=
  ∃ body, text = body ++ [newline] ∧ newline ∉ body

end Text

namespace Numeral

theorem newline_notMem_toDigits (n : Nat) : '\n' ∉ Nat.toDigits 16 n := by
  induction n using Nat.strongRecOn with
  | ind n ih =>
    rw [Nat.toDigits_eq_if (by decide)]
    split
    · simp
    · rw [List.mem_append, not_or]
      exact ⟨ih (n / 16) (by omega), by simp⟩

theorem newline_notMem_hex (width : Nat) (n : Int) : Text.newline ∉ hex width n := by
  have hdigits (places : Nat) :
      Text.newline ∉ (padZero places (Nat.toDigits 16 n.natAbs)).map Symbol.char := by
    simp [padZero, Text.newline, newline_notMem_toDigits]
  unfold hex
  split
  · rw [List.mem_cons, not_or]
    exact ⟨by decide, hdigits _⟩
  · exact hdigits _

theorem newline_notMem_hexDump (bytes : Bytes) : Text.newline ∉ hexDump bytes := by
  unfold hexDump
  induction bytes with
  | nil => simp
  | cons b rest ih =>
    cases rest with
    | nil => simpa using newline_notMem_hex 2 b.toNat
    | cons next rest =>
      rw [List.map_cons, List.map_cons, List.intercalate_cons_cons, List.mem_append,
        List.mem_append, not_or, not_or]
      exact ⟨⟨newline_notMem_hex 2 b.toNat, by decide⟩, ih⟩

end Numeral

namespace ListingEntry

-- A line of a listing is broken only where what it repeats is.
theorem isLine_line (entry : ListingEntry) (h : Text.newline ∉ entry.text) :
    entry.line.IsLine := by
  cases entry with
  | label label =>
    have hname : Text.newline ∉ label.1 := h
    refine ⟨Numeral.hex 4 label.2 ++ ":                @" ++ label.1, rfl, ?_⟩
    simp only [List.mem_append, not_or]
    exact ⟨⟨Numeral.newline_notMem_hex 4 label.2, by decide⟩, hname⟩
  | instruction inst =>
    have htext : Text.newline ∉ inst.text := h
    have hbytes : Text.newline ∉ (Numeral.hexDump inst.bytes).padEnd 15 := by
      rw [Text.padEnd, List.mem_append, not_or]
      exact ⟨Numeral.newline_notMem_hexDump inst.bytes, by simp [Text.newline]⟩
    refine ⟨Numeral.hex 4 inst.offset ++ ": " ++ (Numeral.hexDump inst.bytes).padEnd 15 ++ "  " ++
      inst.text, rfl, ?_⟩
    simp only [List.mem_append, not_or]
    exact ⟨⟨⟨⟨Numeral.newline_notMem_hex 4 inst.offset, by decide⟩, hbytes⟩, by decide⟩, htext⟩

end ListingEntry

namespace Assembly

variable {mode : Mode} {source : Stream} {program : Program}

theorem newline_notMem_text (h : ofStream mode source = .ok program) {inst : Instruction}
    (hinst : inst ∈ program.instructions) : Text.newline ∉ inst.text := by
  obtain ⟨-, -, hinsts⟩ := ofLines_eq_ok (ofLines_of_ofStream h)
  rw [hinsts] at hinst
  obtain ⟨bare, hbare, rfl⟩ := List.mem_map.mp hinst
  obtain ⟨line, hline, -, htext, -⟩ := exists_line_of_mem_placed hbare
  have hfeed := (Line.newline_notMem_of_mem_readAll hline).1
  rw [htext] at hfeed
  exact hfeed

theorem newline_notMem_name (h : ofStream mode source = .ok program) {label : Text × Int}
    (hlabel : label ∈ program.labels.entries) : Text.newline ∉ label.1 := by
  obtain ⟨hlabels, -, -⟩ := ofLines_eq_ok (ofLines_of_ofStream h)
  have hfound := Labels.find?_of_mem hlabel
  rw [hlabels, Option.map_eq_some_iff] at hfound
  obtain ⟨before, hbefore, -⟩ := hfound
  obtain ⟨line, after, hsplit, hline, -⟩ := (beforeLabel?_eq_some_iff _ _ _).mp hbefore
  have hmem : line ∈ Line.readAll (Text.ofBytes source.bytes) := by
    rw [hsplit]
    simp
  exact (Line.newline_notMem_of_mem_readAll hmem).2 label.1 hline

end Assembly

namespace Program

section Writing

variable {refuses : Nat → Option WriteError} {written : Array Text} {lines : List Text}

theorem writeLines_of_accepted (h : ∀ i < lines.length, refuses (written.size + i) = none) :
    writeLines refuses written lines = (written.toList ++ lines, none) := by
  induction lines generalizing written with
  | nil => simp [writeLines]
  | cons line rest ih =>
    have hfirst : refuses written.size = none := h 0 (by simp)
    have hrest : ∀ i < rest.length, refuses ((written.push line).size + i) = none := by
      intro i hi
      rw [Array.size_push, Nat.add_assoc, Nat.add_comm 1]
      exact h (i + 1) (by simpa using hi)
    rw [writeLines, hfirst]
    dsimp only
    rw [ih hrest, Array.toList_push, List.append_assoc]
    rfl

-- A refused write ends the listing. What was written before stays.
theorem writeLines_of_refused {n : Nat} {error : WriteError} (hn : n < lines.length)
    (h : ∀ i < n, refuses (written.size + i) = none)
    (hrefused : refuses (written.size + n) = some error) :
    writeLines refuses written lines = (written.toList ++ lines.take n, some error) := by
  induction lines generalizing written n with
  | nil => simp at hn
  | cons line rest ih =>
    cases n with
    | zero =>
      rw [Nat.add_zero] at hrefused
      rw [writeLines, hrefused]
      simp
    | succ n =>
      have hfirst : refuses written.size = none := h 0 (by simp)
      have hshift (i : Nat) : (written.push line).size + i = written.size + (i + 1) := by
        rw [Array.size_push, Nat.add_assoc, Nat.add_comm 1]
      rw [writeLines, hfirst]
      dsimp only
      rw [ih (by simpa using hn) (fun i hi => hshift i ▸ h (i + 1) (by omega))
        ((hshift n).symm ▸ hrefused), Array.toList_push, List.append_assoc]
      rfl

end Writing

theorem LaidOut.pairwise_offset {program : Program} (h : program.LaidOut) :
    program.instructions.Pairwise (·.offset ≤ ·.offset) := by
  rw [List.pairwise_iff_getElem]
  intro i j hi hj hij
  have hsplit : program.instructions = program.instructions.take j ++
      program.instructions[j] :: program.instructions.drop (j + 1) := by
    rw [← List.drop_eq_getElem_cons hj, List.take_append_drop]
  have hmem : program.instructions[i] ∈ program.instructions.take j :=
    List.mem_take_iff_getElem.mpr ⟨i, by omega, rfl⟩
  have hend := h.end_le hsplit hmem
  omega

-- A label has the offset of an instruction or that of the end.
theorem LaidOut.offset_of_mem {program : Program} (h : program.LaidOut) {label : Text × Int}
    (hlabel : label ∈ program.labels.entries) :
    (∃ inst ∈ program.instructions, inst.offset = label.2) ∨ label.2 = program.code.length := by
  obtain ⟨-, -, hplace⟩ := h.label label.1 label.2 (Labels.find?_of_mem hlabel)
  rw [length_code]
  exact hplace.symm

theorem LaidOut.pairwise_entries {program : Program} (h : program.LaidOut) :
    program.entries.Pairwise (·.offset ≤ ·.offset) := by
  apply pairwise_offset_entriesFrom h.pairwise_offset
  intro label hlabel
  refine (h.offset_of_mem ((sorted_perm _).mem_iff.mp hlabel)).imp id ?_
  intro hend inst hinst
  obtain ⟨before, after, hsplit⟩ := List.append_of_mem hinst
  have hinside := h.end_le_length hsplit
  omega

-- A listing shows every instruction and every label of a program on a line of its
-- own, whatever the offsets are. A writer that stops early has got the lines up to
-- there. In an assembled program the offsets rise from line to line, and only
-- labels of the end stand below the last instruction.
theorem listing_shows_everything_once (program : Program) :
    program.listing.length = program.instructions.length + program.labels.size ∧
    (∃ entries, program.Lists entries ∧ program.listing = entries.map ListingEntry.line ∧
      (∀ entry ∈ entries, Text.newline ∉ entry.text → entry.line.IsLine) ∧
      ∀ mode source, Assembly.ofStream mode source = .ok program →
        (∀ entry ∈ entries, Text.newline ∉ entry.text) ∧
        entries.Pairwise (·.offset ≤ ·.offset) ∧
        ∀ (above below : List ListingEntry) (label : Text × Int),
          entries = above ++ .label label :: below →
          (∀ entry ∈ below, entry.instruction? = none) → label.2 = program.code.length) ∧
    ∀ refuses : Nat → Option WriteError,
      ((∀ i < program.listing.length, refuses i = none) →
        program.writeListing refuses = (program.listing, none)) ∧
      ∀ n < program.listing.length, ∀ error, (∀ i < n, refuses i = none) →
        refuses n = some error →
        program.writeListing refuses = (program.listing.take n, some error) := by
  have hlists := lists_entries program
  refine ⟨?_, ⟨program.entries, hlists, listing_eq program, ?_, ?_⟩, ?_⟩
  · rw [listing_eq, List.length_map, ListingEntry.length_eq, hlists.instructions,
      hlists.labels.length_eq]
    rfl
  · exact fun entry _ => entry.isLine_line
  · intro mode source h
    have hlaidOut := Assembly.laidOut (Assembly.ofLines_of_ofStream h)
    refine ⟨?_, hlaidOut.pairwise_entries, ?_⟩
    · intro entry hentry
      rcases mem_entriesFrom hentry with ⟨label, hlabel, rfl⟩ | ⟨inst, hinst, rfl⟩
      · exact Assembly.newline_notMem_name h ((sorted_perm _).mem_iff.mp hlabel)
      · exact Assembly.newline_notMem_text h hinst
    · intro above below label hsplit hbelow
      obtain ⟨hlabel, hnone⟩ := of_label_below_all hsplit hbelow
      rcases hlaidOut.offset_of_mem ((sorted_perm _).mem_iff.mp hlabel) with
        ⟨inst, hinst, heq⟩ | hend
      · exact absurd heq (hnone inst hinst)
      · exact hend
  · intro refuses
    refine ⟨?_, ?_⟩
    · intro haccepted
      exact writeLines_of_accepted fun i hi => (Nat.zero_add i).symm ▸ haccepted i hi
    · intro n hn error hbefore hrefused
      exact writeLines_of_refused hn (fun i hi => (Nat.zero_add i).symm ▸ hbefore i hi)
        ((Nat.zero_add n).symm ▸ hrefused)

-- Two labels above an unknown mnemonic that shares its offset with the next
-- instruction, a label at the end, and a writer that refuses the fourth line.
theorem listing_shows_everything_once_refused :
    let source := Stream.whole (Text.toBytes "@c\n@b\nWAIT\nNOP\n@a")
    let program : Program := ⟨[⟨3, "WAIT", "WAIT", [], 0, []⟩, ⟨4, "NOP", "NOP", [], 0, [0]⟩],
      ((Labels.empty.insert "c" 0).insert "b" 0).insert "a" 1⟩
    let lines : List Text := ["0000:                @b\n", "0000:                @c\n",
      "0000:                  WAIT\n", "0000: 00               NOP\n", "0001:                @a\n"]
    let refuses := fun i => if i = 3 then some WriteError.interrupted else none
    Assembly.ofStream .lenient source = .ok program ∧ program.listing = lines ∧
      program.writeListing refuses = (lines.take 3, some .interrupted) ∧
      ∃ entries, program.Lists entries ∧ lines = entries.map ListingEntry.line ∧
        entries.Pairwise (·.offset ≤ ·.offset) := by
  intro source program lines refuses
  have hsource : Assembly.ofStream .lenient source = .ok program := by decide +kernel
  have hsorted : program.labels.sorted = program.labels.entries :=
    List.mergeSort_of_pairwise (by decide +kernel)
  have hlisting : program.listing = lines := by
    have hpending : (program.instructions.foldl listInstruction
        ⟨#[], program.labels.entries⟩).pending = [(Text.ofString "a", 1)] := by
      decide +kernel
    rw [listing, hsorted, hpending, List.mergeSort_singleton]
    decide +kernel
  obtain ⟨-, ⟨entries, hlists, hlines, -, hassembled⟩, hwrites⟩ :=
    listing_shows_everything_once program
  rw [hlisting] at hlines hwrites
  refine ⟨hsource, hlisting, ?_, entries, hlists, hlines, (hassembled .lenient source hsource).2.1⟩
  exact (hwrites refuses).2 3 (by decide) .interrupted (by decide) rfl

end Program

end TileConsole
