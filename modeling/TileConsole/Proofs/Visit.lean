import TileConsole.Program.Basic

namespace TileConsole

namespace Visit

variable {σ : Type u} {α : Type v} {consume : σ → α → σ × Bool}

-- What a consumer answers to elements that it is shown one after another, also to
-- those behind a request to stop.
def answers (consume : σ → α → σ × Bool) : List α → σ → List Bool
  | [], _ => []
  | a :: rest, state => (consume state a).2 :: answers consume rest (consume state a).1

-- The same consumer with a record of its calls: what it was shown and what it
-- answered.
def recorded (consume : σ → α → σ × Bool) (state : σ × List (α × Bool)) (a : α) :
    (σ × List (α × Bool)) × Bool :=
  let reply := consume state.1 a
  ((reply.1, state.2 ++ [(a, reply.2)]), reply.2)

-- A consumer that asks to stop at one element, counted from the first, and not
-- before: there is such an answer just when it was shown that many.
def StopsAfter (count : Nat) (consume : σ → α → σ × Bool) (state : σ) : Prop :=
  ∀ items : List α, (answers consume items state).any id ↔ count ≤ items.length

-- The elements up to and including the one where a consumer first asks to stop.
def shown (consume : σ → α → σ × Bool) (items : List α) (state : σ) : List α :=
  items.take ((answers consume items state).findIdx id + 1)

-- The same elements with the answers to them.
def calls (consume : σ → α → σ × Bool) (items : List α) (state : σ) : List (α × Bool) :=
  (shown consume items state).zip (answers consume items state)

theorem shown_cons (consume : σ → α → σ × Bool) (a : α) (rest : List α) (state : σ) :
    shown consume (a :: rest) state =
      if (consume state a).2 then [a] else a :: shown consume rest (consume state a).1 := by
  rw [shown, answers, List.findIdx_cons]
  cases (consume state a).2 <;> simp [shown]

theorem calls_cons (consume : σ → α → σ × Bool) (a : α) (rest : List α) (state : σ) :
    calls consume (a :: rest) state =
      if (consume state a).2 then [(a, true)]
      else (a, false) :: calls consume rest (consume state a).1 := by
  rw [calls, shown_cons, answers]
  cases (consume state a).2 <;> simp [calls]

theorem length_answers (items : List α) (state : σ) :
    (answers consume items state).length = items.length := by
  induction items generalizing state with
  | nil => rfl
  | cons a rest ih => rw [answers, List.length_cons, ih, List.length_cons]

theorem map_fst_calls (items : List α) (state : σ) :
    (calls consume items state).map Prod.fst = shown consume items state := by
  rw [calls, List.map_fst_zip]
  rw [shown, List.length_take, length_answers]
  exact Nat.min_le_right _ _

-- No call is made behind one that asks to stop.
theorem snd_of_mem_dropLast_calls {items : List α} {state : σ} {call : α × Bool}
    (h : call ∈ (calls consume items state).dropLast) : call.2 = false := by
  induction items generalizing state with
  | nil => simp [calls, shown] at h
  | cons a rest ih =>
    rw [calls_cons] at h
    split at h
    case isTrue => simp at h
    case isFalse =>
      cases hcalls : calls consume rest (consume state a).1 with
      | nil => simp [hcalls] at h
      | cons next others =>
        rw [hcalls, List.dropLast_cons_cons, ← hcalls] at h
        rcases List.mem_cons.mp h with rfl | hmem
        · rfl
        · exact ih hmem

theorem list_append (first second : List α) (state : σ) :
    list consume (first ++ second) state =
      match list consume first state with
      | (next, true) => (next, true)
      | (next, false) => list consume second next := by
  induction first generalizing state with
  | nil => rfl
  | cons a rest ih =>
    rw [List.cons_append, list, list]
    rcases consume state a with ⟨next, _ | _⟩
    · exact ih next
    · rfl

-- A stop within a list is a stop of the whole, so the borders of the lists do not
-- matter.
theorem each_eq_list (lists : List (List α)) (state : σ) :
    each consume lists state = list consume lists.flatten state := by
  induction lists generalizing state with
  | nil => rfl
  | cons items rest ih =>
    rw [List.flatten_cons, list_append, each]
    rcases list consume items state with ⟨next, _ | _⟩
    · exact ih next
    · rfl

theorem list_eq (items : List α) (state : σ) :
    list consume items state =
      ((shown consume items state).foldl (fun current a => (consume current a).1) state,
        (answers consume items state).any id) := by
  induction items generalizing state with
  | nil => rfl
  | cons a rest ih =>
    rw [list, shown_cons, answers, List.any_cons]
    rcases hcall : consume state a with ⟨next, _ | _⟩
    · simp [hcall, ih]
    · simp [hcall]

theorem list_of_goes (step : σ → α → σ) (items : List α) (state : σ) :
    list (fun current a => (step current a, false)) items state =
      (items.foldl step state, false) := by
  induction items generalizing state with
  | nil => rfl
  | cons a rest ih => exact ih (step state a)

theorem list_recorded (items : List α) (state : σ) (log : List (α × Bool)) :
    list (recorded consume) items (state, log) =
      (((list consume items state).1, log ++ calls consume items state),
        (list consume items state).2) := by
  induction items generalizing state log with
  | nil => simp [list, calls, shown]
  | cons a rest ih =>
    rw [list, list, recorded, calls_cons]
    rcases hcall : consume state a with ⟨next, _ | _⟩
    · simp [ih]
    · simp

-- A consumer that stops after a number of elements is shown that many, if there
-- are.
theorem StopsAfter.shown_eq {count : Nat} {state : σ} (h : StopsAfter count consume state)
    (items : List α) : shown consume items state = items.take count := by
  induction items generalizing count state with
  | nil => simp [shown]
  | cons a rest ih =>
    have hfirst := h [a]
    simp only [answers, List.any_cons, List.any_nil, id, Bool.or_false, List.length_singleton]
      at hfirst
    rw [shown_cons]
    rcases count with _ | _ | count
    · simpa [answers] using h []
    · simp [hfirst]
    · have hgoes : (consume state a).2 = false := by simpa using hfirst
      have hrest : StopsAfter (count + 1) consume (consume state a).1 := by
        intro items
        simpa [answers, hgoes] using h (a :: items)
      simp [hgoes, ih hrest]

theorem stopsAfter_keep {count : Nat} {found : Array α} (h : found.size < count) :
    StopsAfter (count - found.size) (keep count) found := by
  intro items
  induction items generalizing found with
  | nil =>
    have hmore : ¬count - found.size ≤ 0 := by omega
    simp [answers, hmore]
  | cons a rest ih =>
    simp only [answers, keep, List.any_cons, Array.size_push, id, Bool.or_eq_true,
      decide_eq_true_eq, List.length_cons]
    by_cases hfull : count ≤ found.size + 1
    · simp only [hfull, true_or, true_iff]
      omega
    · have hrest := @ih (found.push a) (by rw [Array.size_push]; omega)
      rw [hrest, Array.size_push]
      omega

theorem foldl_keep (count : Nat) (items : List α) (found : Array α) :
    items.foldl (fun current a => (keep count current a).1) found = found ++ items.toArray := by
  simp [keep]

theorem collect_eq_take (count : Nat) (lists : List (List α)) :
    collect count lists = lists.flatten.take count := by
  rw [collect]
  split
  case isTrue hzero => rw [hzero, List.take_zero]
  case isFalse hpos =>
    have hstops : StopsAfter count (keep count) (#[] : Array α) :=
      stopsAfter_keep (Nat.pos_of_ne_zero hpos)
    rw [each_eq_list, list_eq, hstops.shown_eq, foldl_keep]
    simp

end Visit

namespace Program

theorem visitCode_eq_list {σ : Type u} (program : Program) (consume : σ → UInt8 → σ × Bool)
    (state : σ) : program.visitCode consume state = Visit.list consume program.code state := by
  rw [visitCode, Visit.each_eq_list, code, List.flatMap_def]

theorem head_eq_take (program : Program) (count : Nat) :
    program.head count = program.code.take count := by
  rw [head, Visit.collect_eq_take, code, List.flatMap_def]

end Program

namespace Visit

-- Several lists are shown as one sequence, up to and including the element where
-- the consumer first asks to stop. It is not called again. So a consumer of code
-- that stops after a number of bytes sees just these, and one that collects all
-- it is shown has the code section.
theorem shows_up_to_stop :
    (∀ (σ : Type u) (α : Type v) (consume : σ → α → σ × Bool) (lists : List (List α)) (state : σ),
      let whole := lists.flatten
      let replies := answers consume whole state
      let seen := whole.take (replies.findIdx id + 1)
      let last := seen.foldl (fun current a => (consume current a).1) state
      each consume lists state = (last, replies.any id) ∧
        each (recorded consume) lists (state, []) =
          ((last, seen.zip replies), replies.any id) ∧
        ∀ call ∈ (seen.zip replies).dropLast, call.2 = false) ∧
    ∀ program : Program,
      (∀ (σ : Type u) (count : Nat) (consume : σ → UInt8 → σ × Bool) (state : σ),
        StopsAfter count consume state →
          (program.visitCode (recorded consume) (state, [])).1.2.map Prod.fst =
            program.code.take count) ∧
      (∀ count, program.head count = program.code.take count) ∧
      program.visitCode (fun found b => (found ++ [b], false)) [] = (program.code, false) ∧
      program.code.length = program.size := by
  refine ⟨?_, ?_⟩
  · intro σ α consume lists state whole replies seen last
    refine ⟨?_, ?_, fun call hcall => snd_of_mem_dropLast_calls hcall⟩
    · rw [each_eq_list, list_eq]
      rfl
    · rw [each_eq_list, list_recorded, list_eq]
      rfl
  · intro program
    refine ⟨?_, program.head_eq_take, ?_, program.length_code⟩
    · intro σ count consume state hstops
      rw [program.visitCode_eq_list, list_recorded, List.nil_append, map_fst_calls,
        hstops.shown_eq]
    · rw [program.visitCode_eq_list, list_of_goes, List.foldl_append_eq_append, List.nil_append,
        ← List.flatMap_def, List.flatMap_singleton']

-- The stop falls on the last byte of an instruction, in front of one without bytes.
theorem shows_up_to_stop_between_instructions :
    let inst := fun (offset : Int) (bytes : Bytes) => Instruction.mk 1 [] [] [] offset bytes
    let program : Program := ⟨[inst 0 [0x01, 0x05], inst 2 [], inst 2 [0xFF]], .empty⟩
    StopsAfter 2 (keep 2) (#[] : Array UInt8) ∧
      (program.visitCode (recorded (keep 2)) (#[], [])).1.2.map Prod.fst = [0x01, 0x05] := by
  intro inst program
  have hstops : StopsAfter 2 (keep 2) (#[] : Array UInt8) := stopsAfter_keep (by decide)
  exact ⟨hstops, (shows_up_to_stop.{0, 0}.2 program).1 _ 2 _ _ hstops⟩

end Visit

end TileConsole
