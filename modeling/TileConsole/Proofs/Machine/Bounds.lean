import TileConsole.Proofs.Machine.Fetch

namespace TileConsole

-- The operations of this module check every access. They give nothing as soon as
-- an index is out of range or an operation byte is one that nobody handles.

-- A 16-bit number, read byte by byte.
def Bytes.word? (read : Nat → Option UInt8) (offset : Nat) : Option Nat := do
  let low ← read offset
  let high ← read (offset + 1)
  some (toNat [low, high])

theorem Bytes.word?_eq {bytes : Bytes} {offset : Nat} (h : offset + 2 ≤ bytes.length) :
    word? (fun i => bytes[i]?) offset = some (toNat ((bytes.drop offset).take 2)) := by
  have hpair : (bytes.drop offset).take 2 = [bytes[offset], bytes[offset + 1]] := by
    rw [List.drop_eq_getElem_cons (by omega), List.take_succ_cons,
      List.drop_eq_getElem_cons (by omega), List.take_succ_cons, List.take_zero]
  simp [word?, hpair, List.getElem?_eq_getElem (show offset < bytes.length by omega),
    List.getElem?_eq_getElem (show offset + 1 < bytes.length by omega)]

namespace Screen

-- Sets a pixel by its place in the list of pixels.
def store? (screen : Screen) (index : Nat) (color : UInt8) : Option Screen :=
  if h : index < screenWidth * screenHeight then some (screen.set index color h) else none

def plot? (screen : Screen) (x y : Int) (color : UInt8) : Option Screen :=
  if x < 0 ∨ screenWidth ≤ x ∨ y < 0 ∨ screenHeight ≤ y then some screen
  else screen.store? (place x y) (color &&& 0x0F)

def plotPair? (screen : Screen) (x y : Int) (packed : UInt8) : Option Screen := do
  let left ← screen.plot? x y (packed >>> 4)
  left.plot? (x + 1) y (packed &&& 0x0F)

-- Draws up to `count` packed bytes from the byte `k` on. Before each of them it
-- looks whether video memory has ended.
def drawFrom? (vram : VideoMemory) (start across : Nat) (x y : Int) :
    Nat → Nat → Screen → Option Screen
  | 0, _, screen => some screen
  | count + 1, k, screen =>
    if vramSize ≤ start + 4 + k then some screen
    else do
      let packed ← vram[start + 4 + k]?
      let drawn ← screen.plotPair? (x + pairColumn across k) (y + pairRow across k) packed
      drawFrom? vram start across x y count (k + 1) drawn

def drawTiles? (screen : Screen) (vram : VideoMemory) (start : Nat) (x y : Int) : Option Screen :=
  if vramSize < start + 4 then some screen
  else do
    let width ← Bytes.word? (fun i => vram[i]?) start
    let height ← Bytes.word? (fun i => vram[i]?) (start + 2)
    drawFrom? vram start (tileCount width) x y (32 * tileCount width * tileCount height) 0 screen

theorem plot?_eq (screen : Screen) (x y : Int) (color : UInt8) :
    screen.plot? x y color = some (screen.plot x y color) := by
  by_cases inside : Inside x y
  · have hguard : ¬(x < 0 ∨ screenWidth ≤ x ∨ y < 0 ∨ screenHeight ≤ y) := by
      unfold Inside at inside
      omega
    rw [plot?, if_neg hguard, store?, dif_pos (place_lt inside), plot, dif_pos inside]
  · have hguard : x < 0 ∨ screenWidth ≤ x ∨ y < 0 ∨ screenHeight ≤ y := by
      unfold Inside at inside
      omega
    rw [plot?, if_pos hguard, plot, dif_neg inside]

theorem plotPair?_eq (screen : Screen) (x y : Int) (packed : UInt8) :
    screen.plotPair? x y packed = some (screen.plotPair x y packed) := by
  simp only [plotPair?, plot?_eq, Option.bind_eq_bind, Option.bind_some, plotPair]

theorem getElem?_eq_getD (vram : VideoMemory) {i : Nat} (h : i < vramSize) :
    vram[i]? = some (vram.getD i 0) := by
  rw [Vector.getD, Array.getD_eq_getD_getElem?, Vector.getElem?_toArray,
    Vector.getElem?_eq_getElem h]
  rfl

-- The check before each byte stops the drawing exactly where it has to stop.
theorem drawFrom?_eq (vram : VideoMemory) (start across : Nat) (x y : Int) (count k : Nat)
    (screen : Screen) :
    drawFrom? vram start across x y count k screen =
      some ((List.range' k (min count (vramSize - (start + 4 + k)))).foldl (fun drawn k =>
        drawn.plotPair (x + pairColumn across k) (y + pairRow across k)
          (vram.getD (start + 4 + k) 0)) screen) := by
  induction count generalizing k screen with
  | zero => simp [drawFrom?]
  | succ count ih =>
    rw [drawFrom?]
    by_cases hend : vramSize ≤ start + 4 + k
    · have hnone : min (count + 1) (vramSize - (start + 4 + k)) = 0 := by omega
      rw [if_pos hend, hnone]
      rfl
    · have hsome : min (count + 1) (vramSize - (start + 4 + k)) =
          min count (vramSize - (start + 4 + (k + 1))) + 1 := by omega
      rw [if_neg hend, getElem?_eq_getD vram (Nat.lt_of_not_le hend)]
      simp only [plotPair?_eq, Option.bind_eq_bind, Option.bind_some, ih]
      rw [hsome, List.range'_succ, List.foldl_cons]

theorem word?_vram (vram : VideoMemory) {offset : Nat} (h : offset + 1 < vramSize) :
    Bytes.word? (fun i => vram[i]?) offset = some (wordAt vram offset) := by
  have hlow := getElem?_eq_getD vram (Nat.lt_of_succ_lt h)
  have hhigh := getElem?_eq_getD vram h
  simp only [Bytes.word?, hlow, hhigh, Option.bind_eq_bind, Option.bind_some, wordAt]

theorem drawTiles?_eq (screen : Screen) (vram : VideoMemory) (start : Nat) (x y : Int) :
    screen.drawTiles? vram start x y = some (screen.drawTiles vram start x y) := by
  rw [drawTiles?, drawTiles]
  by_cases hend : vramSize < start + 4
  · rw [if_pos hend, if_pos hend]
  · have hwidth := word?_vram vram (show start + 1 < vramSize by omega)
    have hheight := word?_vram vram (show start + 2 + 1 < vramSize by omega)
    simp only [if_neg hend, hwidth, hheight, Option.bind_eq_bind, Option.bind_some, drawFrom?_eq,
      drawPairs, List.range_eq_range', Nat.add_zero]

end Screen

namespace Machine

-- Carries out the operation with a code byte.
def perform? (machine : Machine) (code : UInt8) (args : Bytes) :
    Option (Machine × Option RunFault) :=
  let word := Bytes.word? fun i => args[i]?
  match code with
  | 0x00 => some (machine, none)
  | 0x01 => do
    let value ← args[0]?
    some ({ machine with a := value }, none)
  | 0x02 => do
    let value ← word 0
    some ({ machine with x := UInt16.ofNat value }, none)
  | 0x03 => do
    let x := machine.x.toNat
    let screen ← machine.screen.plot? (x % screenWidth : Nat) (x / screenWidth : Nat) machine.a
    some ({ machine with screen }, none)
  | 0x04 => do
    let target ← word 0
    if machine.codeSize ≤ target then
      some ({ machine with pc := machine.codeSize }, some .jumpOutside)
    else some ({ machine with pc := target }, none)
  | 0x05 => do
    let value ← word 0
    some ({ machine with tiles := UInt16.ofNat value }, none)
  | 0x08 => do
    let x ← word 0
    let y ← word 2
    let screen ← machine.screen.drawTiles? machine.vram machine.tiles.toNat (Bytes.signed16 x)
      (Bytes.signed16 y)
    some ({ machine with screen }, none)
  | 0xFF => some ({ machine with pc := machine.codeSize }, none)
  | _ => none

def fetch? (machine : Machine) : Option (Except RunFault (Operation × Bytes)) := do
  let pc := machine.pc.toNat
  let b ← machine.ram[pc]?
  match Operation.ofByte? b with
  | none => some (.error (.unknownByte b))
  | some op =>
    if machine.codeSize < pc + op.size then some (.error .operandsCut)
    else do
      let args ← machine.bytesAt? (pc + 1) op.shape.width
      some (.ok (op, args))

def tick? (listing : Option Program) (machine : Machine) :
    Option (Machine × Except MachineError Bool) :=
  if ¬machine.booted then some (machine, .error .notBooted)
  else if machine.done then some (machine, .ok true)
  else do
    let pc := machine.pc
    match ← machine.fetch? with
    | .error fault => some (machine, .error (faultAt listing pc fault))
    | .ok (op, args) =>
      let moved := { machine with pc := pc + op.size, ticks := machine.ticks + 1 }
      match ← moved.perform? op.code args with
      | (next, some fault) => some (next, .error (faultAt listing pc fault))
      | (next, none) => some (next, .ok next.done)

def drawTiles? (machine : Machine) (start : UInt16) (x y : Int) : Option Machine := do
  let screen ← machine.screen.drawTiles? machine.vram start.toNat x y
  some { machine with screen }

theorem word?_args {args : Bytes} (h : args.length = 2) :
    Bytes.word? (fun i => args[i]?) 0 = some (Bytes.toNat args) := by
  rw [Bytes.word?_eq (by omega), List.drop_zero, List.take_of_length_le (by omega)]

-- Every operation of the table is handled, and its operands are all there.
theorem perform?_eq (machine : Machine) {op : Operation} {args : Bytes}
    (h : args.length = op.shape.width) :
    machine.perform? op.code args = some (machine.perform op args) := by
  cases op with
  | nop => rfl
  | halt => rfl
  | setA =>
    obtain ⟨b, rfl⟩ := List.length_eq_one_iff.mp h
    simp [perform?, perform, Operation.code, Bytes.toNat]
  | setX => simp [perform?, perform, Operation.code, word?_args h]
  | setVram => simp [perform?, perform, Operation.code, word?_args h]
  | plot => simp [perform?, perform, Operation.code, Screen.plot?_eq, plot]
  | jump =>
    simp only [perform?, perform, Operation.code, word?_args h, Option.bind_eq_bind,
      Option.bind_some]
    split
    · rfl
    · rfl
  | drawTiles =>
    have hlength : args.length = 4 := h
    have hx := Bytes.word?_eq (show 0 + 2 ≤ args.length by omega)
    have hy := Bytes.word?_eq (show 2 + 2 ≤ args.length by omega)
    rw [List.drop_zero] at hx
    rw [List.take_of_length_le (by rw [List.length_drop]; omega)] at hy
    simp [perform?, perform, Operation.code, hx, hy, Screen.drawTiles?_eq, drawTiles]

section Fits

variable {machine : Machine}

theorem fetch?_eq (hfits : machine.codeSize ≤ ramSize) (h : ¬machine.done) :
    machine.fetch? = some machine.fetch := by
  have hpc := (pc_lt_of_not_done h).2
  have hbyte : machine.ram[machine.pc.toNat]? = some machine.ram[machine.pc.toNat] :=
    Vector.getElem?_eq_getElem (Nat.lt_of_lt_of_le hpc hfits)
  simp only [fetch?, fetch, hbyte, Option.bind_eq_bind, Option.bind_some]
  cases hop : Operation.ofByte? machine.ram[machine.pc.toNat] with
  | none => rfl
  | some op =>
    dsimp only
    by_cases hcut : machine.codeSize < machine.pc.toNat + op.size
    · rw [if_pos hcut, if_pos hcut]
    · have hroom : machine.pc.toNat + 1 + op.shape.width ≤ ramSize := by
        unfold Operation.size at hcut
        omega
      rw [if_neg hcut, if_neg hcut, bytesAt?_eq_take machine hroom]
      rfl

theorem length_of_fetch (hfits : machine.codeSize ≤ ramSize) {op : Operation} {args : Bytes}
    (h : machine.fetch = .ok (op, args)) : args.length = op.shape.width := by
  obtain ⟨-, hsize, hbytes⟩ := fetch_eq_ok_iff.mp h
  unfold Operation.size at hsize
  rw [bytesAt?_eq_take machine (by omega)] at hbytes
  obtain rfl := Option.some.inj hbytes
  rw [List.length_take, List.length_drop, Vector.length_toList]
  omega

-- Code that fits in memory is executed without an access out of range.
theorem tick?_eq (listing : Option Program) (hfits : machine.codeSize ≤ ramSize) :
    machine.tick? listing = some (machine.tick listing) := by
  rw [tick?, tick]
  by_cases hbooted : machine.booted
  · rw [if_neg (not_not_intro hbooted), if_neg (not_not_intro hbooted)]
    by_cases hdone : machine.done
    · rw [if_pos hdone, if_pos hdone]
    · rw [if_neg hdone, if_neg hdone, fetch?_eq hfits hdone]
      simp only [Option.bind_eq_bind, Option.bind_some]
      cases hfetch : machine.fetch with
      | error fault => rfl
      | ok found =>
        rcases found with ⟨op, args⟩
        simp only [perform?_eq _ (length_of_fetch hfits hfetch), Option.bind_some]
        rcases perform _ op args with ⟨next, _ | fault⟩ <;> rfl
  · rw [if_pos hbooted, if_pos hbooted]

end Fits

theorem drawTiles?_eq (machine : Machine) (start : UInt16) (x y : Int) :
    machine.drawTiles? start x y = some (machine.drawTiles start x y) := by
  simp only [drawTiles?, Screen.drawTiles?_eq, Option.bind_eq_bind, Option.bind_some, drawTiles]

end Machine

end TileConsole
