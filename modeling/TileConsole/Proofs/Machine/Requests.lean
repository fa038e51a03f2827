import TileConsole.Proofs.Machine.Loaded

namespace TileConsole.Machine

-- What can be asked of a machine from outside.
inductive Request where
  | boot (cartridge : Cartridge)
  | reset
  | tick (listing : Option Program)
  | frame (listing : Option Program)
  | plot (x y : Int) (color : UInt8)
  | drawTiles (start : UInt16) (x y : Int)

-- The cartridge that a request brings into the machine. One that is too large
-- stays outside.
def Request.accepted? : Request → Option Cartridge
  | boot cartridge => if cartridge.code.length ≤ ramSize then some cartridge else none
  | _ => none

def obey (machine : Machine) : Request → Machine
  | .boot cartridge => (machine.boot cartridge).1
  | .reset => machine.reset
  | .tick listing => (machine.tick listing).1
  | .frame listing => (machine.frame listing).1
  | .plot x y color => machine.plot x y color
  | .drawTiles start x y => machine.drawTiles start x y

-- The machine after a number of requests, the first one first.
def after (machine : Machine) (requests : List Request) : Machine :=
  requests.foldl obey machine

-- The last cartridge that any of the requests brought into the machine.
def lastAccepted? (requests : List Request) : Option Cartridge :=
  (requests.filterMap Request.accepted?).getLast?

theorem lastAccepted?_cons (request : Request) (rest : List Request) :
    lastAccepted? (request :: rest) = (lastAccepted? rest).or request.accepted? := by
  unfold lastAccepted?
  cases haccepted : request.accepted? with
  | none => simp [haccepted]
  | some cartridge =>
    rw [List.filterMap_cons_some haccepted, List.getLast?_cons]
    cases (rest.filterMap Request.accepted?).getLast? <;> rfl

-- What every step keeps is kept by a number of steps, wherever they stop.
theorem runFrom_induction {motive : Machine → Prop}
    {step : Machine → Machine × Except MachineError Bool}
    (hstep : ∀ machine, motive machine → motive (step machine).1) (calls count : Nat)
    {machine : Machine} (h : motive machine) :
    motive (runFrom step calls count machine).machine := by
  induction count generalizing calls machine with
  | zero => exact h
  | succ count ih =>
    have hnext := hstep machine h
    rw [runFrom]
    split
    case h_1 next heq =>
      rw [heq] at hnext
      exact ih (calls + 1) hnext
    case h_2 next result _ heq =>
      rw [heq] at hnext
      exact hnext

theorem frame_induction {motive : Machine → Prop} {listing : Option Program}
    (htick : ∀ machine, motive machine → motive (machine.tick listing).1) {machine : Machine}
    (h : motive machine) : motive (machine.frame listing).1 :=
  runFrom_induction htick 0 cyclesPerFrame h

namespace Keeps

theorem frame (listing : Option Program) (machine : Machine) :
    machine.Keeps (machine.frame listing).1 :=
  frame_induction (fun next h => h.trans (tick listing next)) (refl machine)

theorem obey (machine : Machine) {request : Request} (h : request.accepted? = none) :
    machine.Keeps (machine.obey request) := by
  cases request with
  | boot cartridge =>
    have hlarge : ramSize < cartridge.code.length := by
      simpa [Request.accepted?] using h
    rw [Machine.obey, boot_of_lt machine hlarge]
    exact refl machine
  | reset => exact ⟨rfl, rfl, rfl, rfl, rfl⟩
  | tick listing => exact tick listing machine
  | frame listing => exact frame listing machine
  | plot x y color => exact ⟨rfl, rfl, rfl, rfl, rfl⟩
  | drawTiles start x y => exact ⟨rfl, rfl, rfl, rfl, rfl⟩

-- Without a new cartridge, requests leave everything that came from the old one.
theorem after (machine : Machine) {requests : List Request}
    (h : ∀ request ∈ requests, request.accepted? = none) :
    machine.Keeps (machine.after requests) := by
  induction requests generalizing machine with
  | nil => exact refl machine
  | cons request rest ih =>
    obtain ⟨hrequest, hrest⟩ := List.forall_mem_cons.mp h
    exact (obey machine hrequest).trans (ih _ hrest)

-- A reset depends on nothing else.
theorem reset_eq {machine next : Machine} (h : machine.Keeps next) : next.reset = machine.reset := by
  rw [reset, reset, h.ram, h.vram, h.codeSize, h.entry, h.booted]

end Keeps

end TileConsole.Machine
