import Mathlib.Data.List.Basic
import Mathlib.Data.List.Pairwise
import TileConsole.Program.Listing

namespace TileConsole

namespace Text

theorem le_trans {a b c : Text} (hab : le a b) (hbc : le b c) : le a c := by
  simp only [le, decide_eq_true_eq] at hab hbc ⊢
  exact List.le_trans hab hbc

theorem le_total (a b : Text) : le a b || le b a := by
  simp only [le, Bool.or_eq_true, decide_eq_true_eq]
  exact List.le_total _ _

end Text

-- What a line of a listing shows.
inductive ListingEntry where
  | label (entry : Text × Int)
  | instruction (inst : Instruction)

namespace ListingEntry

def line : ListingEntry → Text
  | label entry => Program.labelLine entry
  | instruction inst => Program.instructionLine inst

def offset : ListingEntry → Int
  | label entry => entry.2
  | instruction inst => inst.offset

-- The part of the source that the line repeats.
def text : ListingEntry → Text
  | label entry => entry.1
  | instruction inst => inst.text

def label? : ListingEntry → Option (Text × Int)
  | label entry => some entry
  | instruction _ => none

def instruction? : ListingEntry → Option Instruction
  | label _ => none
  | instruction inst => some inst

@[simp]
theorem filterMap_label?_map_label (entries : List (Text × Int)) :
    (entries.map label).filterMap label? = entries := by
  rw [List.filterMap_map]
  exact List.filterMap_some

@[simp]
theorem filterMap_instruction?_map_label (entries : List (Text × Int)) :
    (entries.map label).filterMap instruction? = [] := by
  rw [List.filterMap_map]
  exact List.filterMap_eq_nil_iff.mpr fun _ _ => rfl

theorem length_eq (entries : List ListingEntry) :
    entries.length =
      (entries.filterMap instruction?).length + (entries.filterMap label?).length := by
  induction entries with
  | nil => rfl
  | cons entry rest ih =>
    cases entry with
    | label label =>
      simp only [List.filterMap_cons, instruction?, label?, List.length_cons, ih]
      omega
    | instruction inst =>
      simp only [List.filterMap_cons, instruction?, label?, List.length_cons, ih]
      omega

end ListingEntry

-- The order of labels that no instruction has the offset of.
def Labels.Precedes (a b : Text × Int) : Prop :=
  a.2 < b.2 ∨ a.2 = b.2 ∧ Text.le a.1 b.1

namespace Program

-- How the entries of a listing are arranged. The labels of one offset stand
-- together, by name, right above the first instruction at that offset. Those of
-- which no instruction has the offset stand below everything else.
structure Lists (program : Program) (entries : List ListingEntry) : Prop where
  instructions : entries.filterMap ListingEntry.instruction? = program.instructions
  labels : (entries.filterMap ListingEntry.label?).Perm program.labels.entries
  ahead : ∀ before inst after, program.instructions = before ++ inst :: after →
    (∀ other ∈ before, other.offset ≠ inst.offset) →
    ∃ (above below : List ListingEntry) (here : List (Text × Int)),
      entries = above ++ here.map .label ++ .instruction inst :: below ∧
      above.filterMap ListingEntry.instruction? = before ∧
      here.Perm (program.labels.entries.filter fun entry => entry.2 = inst.offset) ∧
      here.Pairwise fun a b => Text.le a.1 b.1
  behind : ∃ (above : List ListingEntry) (rest : List (Text × Int)),
    entries = above ++ rest.map .label ∧
    above.filterMap ListingEntry.instruction? = program.instructions ∧
    rest.Perm (program.labels.entries.filter fun entry =>
      ∀ inst ∈ program.instructions, inst.offset ≠ entry.2) ∧
    rest.Pairwise Labels.Precedes

-- The entries of some instructions and of the labels that wait for their place.
def entriesFrom (pending : List (Text × Int)) : List Instruction → List ListingEntry
  | [] => (pending.mergeSort fun a b => decide (a.2 ≤ b.2)).map .label
  | inst :: rest =>
    (pending.filter fun entry => entry.2 = inst.offset).map .label ++ .instruction inst ::
      entriesFrom (pending.filter fun entry => entry.2 ≠ inst.offset) rest

def entries (program : Program) : List ListingEntry :=
  entriesFrom program.labels.sorted program.instructions

theorem foldl_listInstruction (insts : List Instruction) (lines : Array Text)
    (pending : List (Text × Int)) :
    let state := insts.foldl listInstruction ⟨lines, pending⟩
    state.lines.toList ++ (state.pending.mergeSort fun a b => decide (a.2 ≤ b.2)).map labelLine =
      lines.toList ++ (entriesFrom pending insts).map ListingEntry.line := by
  induction insts generalizing lines pending with
  | nil =>
    simp only [List.foldl_nil, entriesFrom, List.map_map]
    rfl
  | cons inst rest ih =>
    have hstep : listInstruction ⟨lines, pending⟩ inst =
        ⟨(lines ++ ((pending.filter fun entry => entry.2 = inst.offset).map labelLine).toArray).push
          (instructionLine inst), pending.filter fun entry => entry.2 ≠ inst.offset⟩ := by
      simp only [listInstruction, List.partition_eq_filter_filter, Function.comp_def, ne_eq,
        decide_not]
      rfl
    rw [List.foldl_cons, hstep]
    dsimp only
    rw [ih]
    simp [entriesFrom, ListingEntry.line, Function.comp_def]

theorem listing_eq (program : Program) :
    program.listing = program.entries.map ListingEntry.line := by
  have hfold := foldl_listInstruction program.instructions #[] program.labels.sorted
  simpa [listing, entries] using hfold

section StableSort

variable {labels : List (Text × Int)}

theorem pairwise_offset_mergeSort (labels : List (Text × Int)) :
    (labels.mergeSort fun a b => decide (a.2 ≤ b.2)).Pairwise fun a b => a.2 ≤ b.2 := by
  have hsorted := @List.pairwise_mergeSort (Text × Int) (fun a b => decide (a.2 ≤ b.2))
    (by simpa using fun _ _ _ => Int.le_trans) (by simpa using Int.le_total) labels
  simpa using hsorted

-- Labels that share an offset stay in the order that they had.
theorem filter_mergeSort (labels : List (Text × Int)) (offset : Int) :
    (labels.mergeSort fun a b => decide (a.2 ≤ b.2)).filter (fun label => label.2 = offset) =
      labels.filter fun label => label.2 = offset := by
  have hsame : (labels.filter fun label => label.2 = offset).Pairwise fun a b =>
      decide (a.2 ≤ b.2) := by
    apply List.pairwise_of_forall_mem_list
    intro a ha b hb
    simp only [List.mem_filter, decide_eq_true_eq] at ha hb ⊢
    omega
  have hkept := List.sublist_mergeSort (by simpa using fun _ _ _ => Int.le_trans)
    (by simpa using Int.le_total) hsame List.filter_sublist
  have hsublist := hkept.filter fun label => label.2 = offset
  simp only [List.filter_filter, Bool.and_self] at hsublist
  have hlength := ((List.mergeSort_perm labels fun a b => decide (a.2 ≤ b.2)).filter
    fun label => label.2 = offset).length_eq
  exact (hsublist.eq_of_length hlength.symm).symm

theorem pairwise_precedes_mergeSort (h : labels.Pairwise fun a b => Text.le a.1 b.1) :
    (labels.mergeSort fun a b => decide (a.2 ≤ b.2)).Pairwise Labels.Precedes := by
  rw [List.pairwise_iff_forall_sublist]
  intro a b hab
  have hoffset := List.pairwise_iff_forall_sublist.mp (pairwise_offset_mergeSort labels) hab
  by_cases hsame : a.2 = b.2
  · have hkept := hab.filter fun label => label.2 = b.2
    rw [filter_mergeSort, List.filter_eq_self.mpr (by simp [hsame])] at hkept
    exact .inr ⟨hsame, List.pairwise_iff_forall_sublist.mp h (hkept.trans List.filter_sublist)⟩
  · exact .inl (by omega)

end StableSort

section Entries

variable {pending : List (Text × Int)} {insts : List Instruction}

theorem filterMap_instruction?_entriesFrom :
    (entriesFrom pending insts).filterMap ListingEntry.instruction? = insts := by
  induction insts generalizing pending with
  | nil => exact ListingEntry.filterMap_instruction?_map_label _
  | cons inst rest ih =>
    rw [entriesFrom, List.filterMap_append, ListingEntry.filterMap_instruction?_map_label]
    simp only [List.nil_append, List.filterMap_cons, ListingEntry.instruction?, ih]

-- No label gets lost between those shown here and those shown later.
theorem filterMap_label?_entriesFrom :
    ((entriesFrom pending insts).filterMap ListingEntry.label?).Perm pending := by
  induction insts generalizing pending with
  | nil =>
    rw [entriesFrom, ListingEntry.filterMap_label?_map_label]
    exact List.mergeSort_perm _ _
  | cons inst rest ih =>
    have hparts := List.filter_append_perm (fun entry => decide (entry.2 = inst.offset)) pending
    rw [entriesFrom, List.filterMap_append, ListingEntry.filterMap_label?_map_label,
      List.filterMap_cons_none rfl]
    simp only [decide_not]
    exact (List.Perm.append_left _ ih).trans hparts

theorem mem_entriesFrom {entry : ListingEntry} (h : entry ∈ entriesFrom pending insts) :
    (∃ label ∈ pending, entry = .label label) ∨ ∃ inst ∈ insts, entry = .instruction inst := by
  cases entry with
  | label label =>
    have hmem : label ∈ (entriesFrom pending insts).filterMap ListingEntry.label? :=
      List.mem_filterMap.mpr ⟨_, h, rfl⟩
    exact .inl ⟨label, filterMap_label?_entriesFrom.mem_iff.mp hmem, rfl⟩
  | instruction inst =>
    have hmem : inst ∈ (entriesFrom pending insts).filterMap ListingEntry.instruction? :=
      List.mem_filterMap.mpr ⟨_, h, rfl⟩
    rw [filterMap_instruction?_entriesFrom] at hmem
    exact .inr ⟨inst, hmem, rfl⟩

-- Until the first instruction at an offset, the labels there wait.
theorem exists_ahead {before after : List Instruction} {inst : Instruction}
    (h : ∀ other ∈ before, other.offset ≠ inst.offset) :
    ∃ above below, entriesFrom pending (before ++ inst :: after) =
        above ++ (pending.filter fun entry => entry.2 = inst.offset).map .label ++
          .instruction inst :: below ∧
      above.filterMap ListingEntry.instruction? = before := by
  induction before generalizing pending with
  | nil => exact ⟨[], _, rfl, rfl⟩
  | cons first rest ih =>
    obtain ⟨hfirst, hrest⟩ := List.forall_mem_cons.mp h
    obtain ⟨above, below, heq, habove⟩ :=
      @ih (pending.filter fun entry => entry.2 ≠ first.offset) hrest
    have hwait : (pending.filter fun entry => entry.2 ≠ first.offset).filter
        (fun entry => entry.2 = inst.offset) =
          pending.filter fun entry => entry.2 = inst.offset := by
      rw [List.filter_filter]
      apply List.filter_congr
      intro entry _
      by_cases hhere : entry.2 = inst.offset <;> simp [hhere, Ne.symm hfirst]
    refine ⟨(pending.filter fun entry => entry.2 = first.offset).map .label ++
      .instruction first :: above, below, ?_, ?_⟩
    · rw [List.cons_append, entriesFrom, heq, hwait]
      simp
    · simp [habove, ListingEntry.instruction?]

theorem exists_behind :
    ∃ above, entriesFrom pending insts =
        above ++ ((pending.filter fun entry => ∀ inst ∈ insts, inst.offset ≠ entry.2).mergeSort
          fun a b => decide (a.2 ≤ b.2)).map .label ∧
      above.filterMap ListingEntry.instruction? = insts := by
  induction insts generalizing pending with
  | nil => exact ⟨[], by simp [entriesFrom], rfl⟩
  | cons inst rest ih =>
    obtain ⟨above, heq, habove⟩ := @ih (pending.filter fun entry => entry.2 ≠ inst.offset)
    have hleft : (pending.filter fun entry => entry.2 ≠ inst.offset).filter
        (fun entry => ∀ other ∈ rest, other.offset ≠ entry.2) =
          pending.filter fun entry => ∀ other ∈ inst :: rest, other.offset ≠ entry.2 := by
      rw [List.filter_filter]
      apply List.filter_congr
      intro entry _
      simp only [List.forall_mem_cons, ne_eq, Bool.decide_and, eq_comm, Bool.and_comm]
    refine ⟨(pending.filter fun entry => entry.2 = inst.offset).map .label ++
      .instruction inst :: above, ?_, ?_⟩
    · rw [entriesFrom, heq, hleft]
      simp
    · simp [habove, ListingEntry.instruction?]

-- A label with no instruction below it has the offset of none.
theorem of_label_below_all {above below : List ListingEntry} {label : Text × Int}
    (h : entriesFrom pending insts = above ++ .label label :: below)
    (hbelow : ∀ entry ∈ below, entry.instruction? = none) :
    label ∈ pending ∧ ∀ inst ∈ insts, inst.offset ≠ label.2 := by
  induction insts generalizing pending above with
  | nil =>
    refine ⟨?_, by simp⟩
    have hmem : ListingEntry.label label ∈ entriesFrom pending [] := by simp [h]
    rcases mem_entriesFrom hmem with ⟨found, hfound, heq⟩ | ⟨inst, hinst, -⟩
    · exact ListingEntry.label.inj heq ▸ hfound
    · cases hinst
  | cons inst rest ih =>
    rw [entriesFrom] at h
    rcases List.append_eq_append_iff.mp h with ⟨front, -, hfront⟩ | ⟨front, -, hfront⟩
    · cases front with
      | nil => cases hfront
      | cons first front =>
        obtain ⟨-, hrest⟩ := List.cons.inj hfront
        obtain ⟨hpending, hothers⟩ := ih hrest
        simp only [List.mem_filter, decide_eq_true_eq] at hpending
        exact ⟨hpending.1, List.forall_mem_cons.mpr ⟨hpending.2.symm, hothers⟩⟩
    · cases front with
      | nil => cases hfront
      | cons first front =>
        obtain ⟨-, rfl⟩ := List.cons.inj hfront
        cases hbelow (.instruction inst) (by simp)

-- Where the instructions come by their offsets and each label has the offset of an
-- instruction or a later one, so do all entries.
theorem pairwise_offset_entriesFrom (hinsts : insts.Pairwise (·.offset ≤ ·.offset))
    (hpending : ∀ label ∈ pending, (∃ inst ∈ insts, inst.offset = label.2) ∨
      ∀ inst ∈ insts, inst.offset ≤ label.2) :
    (entriesFrom pending insts).Pairwise (·.offset ≤ ·.offset) := by
  induction insts generalizing pending with
  | nil =>
    rw [entriesFrom, List.pairwise_map]
    exact pairwise_offset_mergeSort pending
  | cons inst rest ih =>
    obtain ⟨hfirst, hrest⟩ := List.pairwise_cons.mp hinsts
    have hlow : ∀ label ∈ pending, inst.offset ≤ label.2 := by
      intro label hlabel
      rcases hpending label hlabel with ⟨found, hfound, heq⟩ | hall
      · rcases List.mem_cons.mp hfound with rfl | hlater
        · exact Int.le_of_eq heq
        · exact heq ▸ hfirst found hlater
      · exact hall inst List.mem_cons_self
    have hhere : ∀ label ∈ pending.filter (fun label => label.2 = inst.offset),
        label.2 = inst.offset := by
      simp
    have hlater : ∀ entry ∈ entriesFrom (pending.filter fun label => label.2 ≠ inst.offset) rest,
        inst.offset ≤ entry.offset := by
      intro entry hentry
      rcases mem_entriesFrom hentry with ⟨label, hlabel, rfl⟩ | ⟨other, hother, rfl⟩
      · exact hlow label (List.mem_of_mem_filter hlabel)
      · exact hfirst other hother
    have htail : (entriesFrom (pending.filter fun label => label.2 ≠ inst.offset) rest).Pairwise
        (·.offset ≤ ·.offset) := by
      apply ih hrest
      intro label hlabel
      simp only [List.mem_filter, decide_eq_true_eq] at hlabel
      rcases hpending label hlabel.1 with ⟨found, hfound, heq⟩ | hall
      · rcases List.mem_cons.mp hfound with rfl | hmem
        · exact absurd heq.symm hlabel.2
        · exact .inl ⟨found, hmem, heq⟩
      · exact .inr fun other hother => hall other (List.mem_cons_of_mem _ hother)
    rw [entriesFrom, List.pairwise_append, List.pairwise_map, List.pairwise_cons]
    refine ⟨?_, ⟨hlater, htail⟩, ?_⟩
    · apply List.pairwise_of_forall_mem_list
      intro a ha b hb
      exact Int.le_of_eq ((hhere a ha).trans (hhere b hb).symm)
    · intro entry hentry other hother
      obtain ⟨label, hlabel, rfl⟩ := List.mem_map.mp hentry
      have hoffset : (ListingEntry.label label).offset = inst.offset := hhere label hlabel
      rw [hoffset]
      rcases List.mem_cons.mp hother with rfl | hmem
      · exact Int.le_refl _
      · exact hlater other hmem

end Entries

theorem sorted_perm (labels : Labels) : labels.sorted.Perm labels.entries :=
  List.mergeSort_perm _ _

theorem pairwise_sorted (labels : Labels) :
    labels.sorted.Pairwise fun a b => Text.le a.1 b.1 :=
  @List.pairwise_mergeSort (Text × Int) (fun a b => Text.le a.1 b.1) (fun _ _ _ => Text.le_trans)
    (fun a b => Text.le_total a.1 b.1) labels.entries

theorem lists_entries (program : Program) : program.Lists program.entries := by
  have hperm := sorted_perm program.labels
  have hnames := pairwise_sorted program.labels
  refine ⟨filterMap_instruction?_entriesFrom, filterMap_label?_entriesFrom.trans hperm, ?_, ?_⟩
  · intro before inst after hsplit hfirst
    obtain ⟨above, below, heq, habove⟩ := exists_ahead hfirst
    rw [← hsplit] at heq
    exact ⟨above, below, _, heq, habove, hperm.filter _, hnames.filter _⟩
  · obtain ⟨above, heq, habove⟩ := exists_behind
    refine ⟨above, _, heq, habove, ?_, pairwise_precedes_mergeSort (hnames.filter _)⟩
    exact (List.mergeSort_perm _ _).trans (hperm.filter _)

end Program

end TileConsole
