import Mathlib.Logic.Function.Iterate
import TileConsole.Proofs.Machine.Loaded

namespace TileConsole.Machine

-- Where a run led and what its last step answered, without the number of steps.
def Run.outcome (batch : Run) : Machine × Except MachineError Bool :=
  (batch.machine, batch.result)

section Run

variable {step : Machine → Machine × Except MachineError Bool}

theorem outcome_runFrom (calls count : Nat) (machine : Machine) :
    (runFrom step calls count machine).outcome = (run step count machine).outcome := by
  suffices h : ∀ others, (runFrom step calls count machine).outcome =
      (runFrom step others count machine).outcome from h 0
  induction count generalizing calls machine with
  | zero => exact fun _ => rfl
  | succ count ih =>
    intro others
    rw [runFrom, runFrom]
    rcases step machine with ⟨next, error | _ | _⟩
    · rfl
    · exact ih (calls + 1) next (others + 1)
    · rfl

theorem outcome_run_succ (count : Nat) (machine : Machine) :
    (run step (count + 1) machine).outcome =
      match step machine with
      | (next, .ok false) => (run step count next).outcome
      | stopped => stopped := by
  rw [run, runFrom]
  rcases step machine with ⟨next, error | _ | _⟩
  · rfl
  · exact outcome_runFrom 1 count next
  · rfl

-- A run goes on where its first part ended, unless that part was stopped.
theorem outcome_run_add (first second : Nat) (machine : Machine) :
    (run step (first + second) machine).outcome =
      match (run step first machine).outcome with
      | (next, .ok false) => (run step second next).outcome
      | stopped => stopped := by
  induction first generalizing machine with
  | zero =>
    rw [Nat.zero_add]
    rfl
  | succ first ih =>
    rw [Nat.succ_add, outcome_run_succ, outcome_run_succ]
    rcases step machine with ⟨next, error | _ | _⟩
    · rfl
    · exact ih next
    · rfl

theorem outcome_run_batches (size count : Nat) (machine : Machine) :
    (run (fun start => (run step size start).outcome) count machine).outcome =
      (run step (count * size) machine).outcome := by
  induction count generalizing machine with
  | zero =>
    rw [Nat.zero_mul]
    rfl
  | succ count ih =>
    rw [outcome_run_succ, Nat.succ_mul, Nat.add_comm, outcome_run_add]
    rcases (run step size machine).outcome with ⟨next, error | _ | _⟩
    · rfl
    · exact ih next
    · rfl

-- Where a step that ends or fails leaves a machine that no further step moves,
-- it does not matter for the machine whether a run stops there.
theorem machine_run
    (h : ∀ machine, (step machine).2 ≠ .ok false → (step (step machine).1).1 = (step machine).1)
    (count : Nat) (machine : Machine) :
    (run step count machine).machine = (fun start => (step start).1)^[count] machine := by
  induction count generalizing machine with
  | zero => rfl
  | succ count ih =>
    have houtcome : (run step (count + 1) machine).machine = _ :=
      congrArg Prod.fst (outcome_run_succ count machine)
    have hstopped := h machine
    rw [houtcome, Function.iterate_succ_apply]
    rcases hstep : step machine with ⟨next, error | _ | _⟩
    · rw [hstep] at hstopped
      exact (Function.iterate_fixed (hstopped (by simp)) count).symm
    · exact ih next
    · rw [hstep] at hstopped
      exact (Function.iterate_fixed (hstopped (by simp)) count).symm

end Run

-- The only operation that fails has left the code by then.
theorem done_of_fault {machine : Machine} {op : Operation} {args : Bytes} {fault : RunFault}
    (h : (machine.perform op args).2 = some fault) : (machine.perform op args).1.done := by
  cases op with
  | jump =>
    simp only [perform] at h ⊢
    split at h
    case isTrue hoff =>
      rw [if_pos hoff]
      simp [done]
    case isFalse => cases h
  | _ => cases h

-- A machine that has ended or failed stands still.
theorem tick_of_stopped {listing : Option Program} {machine : Machine}
    (h : (machine.tick listing).2 ≠ .ok false) :
    ((machine.tick listing).1.tick listing).1 = (machine.tick listing).1 := by
  rcases tick_cases listing machine with hsame | ⟨op, args, hdone, hfetch, -⟩
  · rw [hsame, hsame]
  by_cases hbooted : machine.booted
  · have hnext : (machine.tick listing).1.done := by
      rw [tick_of_fetch listing hbooted hdone hfetch] at h ⊢
      dsimp only at h ⊢
      split at h
      case h_1 fault hfault => exact done_of_fault hfault
      case h_2 => simpa using h
    have hkept := (Keeps.tick listing machine).booted.trans hbooted
    rw [tick_of_done listing hkept hnext]
  · have hsame : (machine.tick listing).1 = machine := by rw [tick_of_unbooted listing hbooted]
    rw [hsame, hsame]

-- A frame is a batch of ticks and nothing else. This holds for a machine in any
-- state, whether or not somebody looks at the answers and stops.
theorem frames_are_ticks (listing : Option Program) (machine : Machine) (count : Nat) :
    (fun start => (frame listing start).1)^[count] machine =
      (fun start => (tick listing start).1)^[count * cyclesPerFrame] machine ∧
    (run (frame listing) count machine).machine =
      (run (tick listing) (count * cyclesPerFrame) machine).machine ∧
    (run (frame listing) count machine).result =
      (run (tick listing) (count * cyclesPerFrame) machine).result := by
  have hbatches := @outcome_run_batches (tick listing) cyclesPerFrame count machine
  refine ⟨?_, congrArg Prod.fst hbatches, congrArg Prod.snd hbatches⟩
  have hframe : (fun start => (frame listing start).1) =
      (fun start => (tick listing start).1)^[cyclesPerFrame] :=
    funext fun start => machine_run (fun _ => tick_of_stopped) cyclesPerFrame start
  rw [hframe, ← Function.iterate_mul, Nat.mul_comm]

end TileConsole.Machine
