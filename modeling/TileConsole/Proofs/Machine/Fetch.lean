import TileConsole.Machine.Tick

namespace TileConsole.Machine

theorem getElem?_memory (size : Nat) (bytes : Bytes) {i : Nat} (h : i < size) :
    (memory size bytes)[i]? = some (bytes.getD i 0) := by
  simp [memory, h]

-- Memory that holds all of some bytes reads as they do.
theorem getElem?_memory_of_lt {size : Nat} {bytes : Bytes} (hfits : bytes.length ≤ size) {i : Nat}
    (h : i < bytes.length) : (memory size bytes)[i]? = bytes[i]? := by
  rw [getElem?_memory size bytes (by omega), List.getD_eq_getElem?_getD,
    List.getElem?_eq_getElem h]
  rfl

theorem toList_memory (size : Nat) (bytes : Bytes) :
    (memory size bytes).toList = (bytes ++ List.replicate size 0).take size := by
  apply List.ext_getElem?
  intro i
  rw [Vector.getElem?_toList]
  by_cases h : i < size
  · rw [getElem?_memory size bytes h, List.getElem?_take_of_lt h, List.getD_eq_getElem?_getD]
    by_cases hi : i < bytes.length
    · rw [List.getElem?_append_left hi, List.getElem?_eq_getElem hi]
      rfl
    · have hzero : i - bytes.length < size := by omega
      rw [List.getElem?_append_right (by omega), List.getElem?_eq_none (by omega),
        List.getElem?_replicate_of_lt hzero]
      rfl
  · rw [List.getElem?_eq_none (by rw [List.length_take]; omega)]
    simp [h]

theorem toList_memory_of_le {size : Nat} {bytes : Bytes} (h : bytes.length ≤ size) :
    (memory size bytes).toList = bytes ++ List.replicate (size - bytes.length) 0 := by
  have hzeros : min (size - bytes.length) size = size - bytes.length := by omega
  rw [toList_memory, List.take_append, List.take_of_length_le h, List.take_replicate, hzeros]

theorem bytesAt?_eq_take (machine : Machine) {address count : Nat}
    (h : address + count ≤ ramSize) :
    machine.bytesAt? address count = some ((machine.ram.toList.drop address).take count) := by
  induction count with
  | zero => simp [bytesAt?]
  | succ count ih =>
    have hfirst := ih (by omega)
    have hlast : address + count < ramSize := by omega
    have hbyte : machine.ram[address + count]? = some machine.ram[address + count] :=
      Vector.getElem?_eq_getElem hlast
    rw [bytesAt?] at hfirst ⊢
    rw [List.range_succ, List.mapM_append, hfirst, List.take_add_one, List.getElem?_drop,
      Vector.getElem?_toList, hbyte]
    simp [hbyte]

-- An operation is at the program counter, and its operand bytes lie behind it
-- within the code.
structure Fetches (machine : Machine) (op : Operation) (args : Bytes) : Prop where
  opcode : machine.ram[machine.pc.toNat]? = some op.code
  room : machine.pc.toNat + op.size ≤ machine.codeSize
  operands : machine.bytesAt? (machine.pc.toNat + 1) op.shape.width = some args

theorem fetch_eq_ok_iff {machine : Machine} {op : Operation} {args : Bytes} :
    machine.fetch = .ok (op, args) ↔ machine.Fetches op args := by
  unfold fetch
  dsimp only
  constructor
  · intro h
    cases hbyte : machine.ram[machine.pc.toNat]? with
    | none => simp [hbyte] at h
    | some b =>
      cases hop : Operation.ofByte? b with
      | none => simp [hbyte, hop] at h
      | some found =>
        by_cases hcut : machine.codeSize < machine.pc.toNat + found.size
        · simp [hbyte, hop, hcut] at h
        cases hargs : machine.bytesAt? (machine.pc.toNat + 1) found.shape.width with
        | none => simp [hbyte, hop, hcut, hargs] at h
        | some bytes =>
          obtain ⟨rfl, rfl⟩ : found = op ∧ bytes = args := by
            simpa [hbyte, hop, hcut, hargs] using h
          exact ⟨by rw [hbyte, Operation.code_of_ofByte? hop], Nat.le_of_not_lt hcut, hargs⟩
  · intro h
    simp [h.opcode, Operation.ofByte?_code, Nat.not_lt.mpr h.room, h.operands]

section Loaded

variable {machine : Machine} {code : Bytes}

theorem bytesAt?_eq (hram : machine.ram = memory ramSize code) (hfits : code.length ≤ ramSize)
    {address count : Nat} (h : address + count ≤ code.length) :
    machine.bytesAt? address count = some ((code.drop address).take count) := by
  have hrest : count ≤ (code.drop address).length := by
    rw [List.length_drop]
    omega
  rw [bytesAt?_eq_take machine (by omega), hram, toList_memory_of_le hfits,
    List.drop_append_of_le_length (by omega), List.take_append_of_le_length hrest]

-- A machine fetches the instruction that its code holds at the program counter.
theorem fetch_eq (hram : machine.ram = memory ramSize code) (hsize : machine.codeSize = code.length)
    (hfits : code.length ≤ ramSize) {pc : Nat} (hpc : machine.pc = pc) {op : Operation}
    {args rest : Bytes} (hdrop : code.drop pc = op.code :: (args ++ rest))
    (hargs : args.length = op.shape.width) : machine.fetch = .ok (op, args) := by
  have hlength : code.length - pc = args.length + rest.length + 1 := by
    simpa using congrArg List.length hdrop
  have hbyte : machine.ram[pc]? = some op.code := by
    rw [hram, getElem?_memory_of_lt hfits (by omega)]
    simpa using congrArg List.head? hdrop
  have hbytes : machine.bytesAt? (pc + 1) op.shape.width = some args := by
    rw [bytesAt?_eq hram hfits (by omega), ← List.drop_drop, hdrop, ← hargs]
    simp
  have hwhole : pc + op.size ≤ machine.codeSize := by
    rw [hsize, Operation.size]
    omega
  have hcounter : machine.pc.toNat = pc := by omega
  exact fetch_eq_ok_iff.mpr ⟨hcounter ▸ hbyte, hcounter ▸ hwhole, hcounter ▸ hbytes⟩

end Loaded

section Tick

variable {machine : Machine} {op : Operation} {args : Bytes}

theorem tick_of_unbooted (listing : Option Program) (h : ¬machine.booted) :
    machine.tick listing = (machine, .error .notBooted) := by
  rw [tick, if_pos h]

theorem tick_of_done (listing : Option Program) (hbooted : machine.booted) (h : machine.done) :
    machine.tick listing = (machine, .ok true) := by
  rw [tick, if_neg (not_not_intro hbooted), if_pos h]

theorem tick_of_fetch_error (listing : Option Program) (hbooted : machine.booted)
    (h : ¬machine.done) {fault : RunFault} (hfetch : machine.fetch = .error fault) :
    machine.tick listing = (machine, .error (faultAt listing machine.pc fault)) := by
  rw [tick, if_neg (not_not_intro hbooted), if_neg h, hfetch]

-- A tick moves behind the instruction that was fetched and carries it out.
theorem tick_of_fetch (listing : Option Program) (hbooted : machine.booted) (h : ¬machine.done)
    (hfetch : machine.fetch = .ok (op, args)) :
    let moved := { machine with pc := machine.pc + op.size, ticks := machine.ticks + 1 }
    machine.tick listing = ((moved.perform op args).1,
      match (moved.perform op args).2 with
      | some fault => .error (faultAt listing machine.pc fault)
      | none => .ok (moved.perform op args).1.done) := by
  intro moved
  rw [tick, if_neg (not_not_intro hbooted), if_neg h, hfetch]
  dsimp only
  rcases moved.perform op args with ⟨next, _ | fault⟩ <;> rfl

-- A tick leaves the machine alone or carries out the instruction that was
-- fetched.
theorem tick_cases (listing : Option Program) (machine : Machine) :
    (machine.tick listing).1 = machine ∨
      ∃ op args, ¬machine.done ∧ machine.fetch = .ok (op, args) ∧
        (machine.tick listing).1 =
          (perform { machine with pc := machine.pc + op.size, ticks := machine.ticks + 1 }
            op args).1 := by
  by_cases hbooted : machine.booted
  · by_cases hdone : machine.done
    · rw [tick_of_done listing hbooted hdone]
      exact .inl rfl
    · cases hfetch : machine.fetch with
      | error fault =>
        rw [tick_of_fetch_error listing hbooted hdone hfetch]
        exact .inl rfl
      | ok found =>
        rw [tick_of_fetch listing hbooted hdone hfetch]
        exact .inr ⟨found.1, found.2, hdone, rfl, rfl⟩
  · rw [tick_of_unbooted listing hbooted]
    exact .inl rfl

theorem pc_lt_of_not_done (h : ¬machine.done) :
    0 ≤ machine.pc ∧ machine.pc.toNat < machine.codeSize := by
  simp only [done, Bool.or_eq_true, decide_eq_true_eq] at h
  omega

end Tick

end TileConsole.Machine
