import TileConsole.Machine.Basic
import TileConsole.Proofs.Machine.Drawing

namespace TileConsole

-- What a loop does follows from what one pass does. `state` is the invariant,
-- told by the number of passes.
theorem foldlM_range_of_pass {σ ε : Type} {state : Nat → Except ε σ}
    {pass : σ → Nat → Except ε σ} {count : Nat}
    (h : ∀ i < count, (state i >>= (pass · i)) = state (i + 1)) :
    (state 0 >>= (List.range count).foldlM pass) = state count := by
  induction count with
  | zero => simp
  | succ count ih =>
    have hbefore := ih fun i hi => h i (Nat.lt_succ_of_lt hi)
    rw [← h count (Nat.lt_succ_self count), ← hbefore]
    simp [List.range_succ]

namespace Screen

-- A drawing under way: the address of the next packed byte, and the screen so
-- far.
structure Pen where
  address : Nat
  screen : Screen

namespace Pen

-- Draws the next packed byte at a position. At the end of video memory the
-- whole drawing stops.
def drawNext (vram : VideoMemory) (x y : Int) (pen : Pen) : Except Screen Pen :=
  if vramSize ≤ pen.address then .error pen.screen
  else .ok ⟨pen.address + 1, pen.screen.plotPair x y (vram.getD pen.address 0)⟩

def drawLine (vram : VideoMemory) (x y : Int) (pen : Pen) : Except Screen Pen :=
  (List.range 4).foldlM (fun pen (pair : Nat) => pen.drawNext vram (x + 2 * pair) y) pen

def drawTile (vram : VideoMemory) (x y : Int) (pen : Pen) : Except Screen Pen :=
  (List.range 8).foldlM (fun pen (line : Nat) => pen.drawLine vram x (y + line)) pen

def drawBand (vram : VideoMemory) (across : Nat) (x y : Int) (pen : Pen) : Except Screen Pen :=
  (List.range across).foldlM (fun pen (tile : Nat) => pen.drawTile vram (x + 8 * tile) y) pen

def drawBands (vram : VideoMemory) (across down : Nat) (x y : Int) (pen : Pen) :
    Except Screen Pen :=
  (List.range down).foldlM (fun pen (band : Nat) => pen.drawBand vram across x (y + 8 * band)) pen

-- The screen that is left, whether or not video memory was long enough.
def result : Except Screen Pen → Screen
  | .ok pen => pen.screen
  | .error screen => screen

section Walk

variable (vram : VideoMemory) (start across : Nat) (x y : Int) (screen : Screen)

-- The drawing when its packed byte `k` is due. Video memory may have ended
-- before that.
def due (k : Nat) : Except Screen Pen :=
  if start + 4 + k ≤ vramSize then
    .ok ⟨start + 4 + k, drawPairs vram start across x y k screen⟩
  else .error (drawPairs vram start across x y (vramSize - (start + 4)) screen)

variable {start}

theorem due_drawNext (hstart : start + 4 ≤ vramSize) (k : Nat) :
    (due vram start across x y screen k >>=
        drawNext vram (x + pairColumn across k) (y + pairRow across k)) =
      due vram start across x y screen (k + 1) := by
  rcases Nat.lt_trichotomy (start + 4 + k) vramSize with hlt | heq | hgt
  · rw [due, if_pos (Nat.le_of_lt hlt), due, if_pos (by omega), drawPairs_succ]
    exact if_neg (Nat.not_le.mpr hlt)
  · have hall : vramSize - (start + 4) = k := by omega
    rw [due, if_pos (Nat.le_of_eq heq), due, if_neg (by omega), hall]
    exact if_pos (Nat.le_of_eq heq.symm)
  · rw [due, if_neg (by omega), due, if_neg (by omega)]
    rfl

variable {across}

theorem due_drawLine (hstart : start + 4 ≤ vramSize) {tile line : Nat} (htile : tile < across)
    (hline : line < 8) (band : Nat) :
    (due vram start across x y screen (32 * (band * across + tile) + 4 * line) >>=
        drawLine vram (x + 8 * tile) (y + 8 * band + line)) =
      due vram start across x y screen (32 * (band * across + tile) + 4 * (line + 1)) := by
  refine @foldlM_range_of_pass _ _
    (fun pair => due vram start across x y screen (32 * (band * across + tile) + 4 * line + pair))
    (fun pen (pair : Nat) => pen.drawNext vram (x + 8 * tile + 2 * pair) (y + 8 * band + line))
    4 fun pair hpair => ?_
  have htiles : (8 * tile + 2 * pair) / 8 = tile := by omega
  have hbands : (8 * band + line) / 8 = band := by omega
  have hplace : pairAt across (8 * tile + 2 * pair) (8 * band + line) =
      32 * (band * across + tile) + 4 * line + pair := by
    rw [pairAt, htiles, hbands]
    omega
  have hstep := due_drawNext vram across x y screen hstart
    (pairAt across (8 * tile + 2 * pair) (8 * band + line))
  have hcolumn : x + (2 * ((8 * tile + 2 * pair) / 2) : Nat) = x + 8 * tile + 2 * pair := by omega
  have hrow : y + (8 * band + line : Nat) = y + 8 * band + line := by omega
  rw [pairColumn_pairAt (by omega), pairRow_pairAt (by omega), hplace, hcolumn, hrow] at hstep
  exact hstep

theorem due_drawTile (hstart : start + 4 ≤ vramSize) {tile : Nat} (htile : tile < across)
    (band : Nat) :
    (due vram start across x y screen (32 * (band * across + tile)) >>=
        drawTile vram (x + 8 * tile) (y + 8 * band)) =
      due vram start across x y screen (32 * (band * across + (tile + 1))) :=
  @foldlM_range_of_pass _ _
    (fun line => due vram start across x y screen (32 * (band * across + tile) + 4 * line))
    (fun pen (line : Nat) => pen.drawLine vram (x + 8 * tile) (y + 8 * band + line)) 8
    fun _ hline => due_drawLine vram x y screen hstart htile hline band

theorem due_drawBand (hstart : start + 4 ≤ vramSize) (band : Nat) :
    (due vram start across x y screen (32 * (band * across)) >>=
        drawBand vram across x (y + 8 * band)) =
      due vram start across x y screen (32 * ((band + 1) * across)) := by
  rw [Nat.succ_mul band across]
  exact @foldlM_range_of_pass _ _
    (fun tile => due vram start across x y screen (32 * (band * across + tile)))
    (fun pen (tile : Nat) => pen.drawTile vram (x + 8 * tile) (y + 8 * band)) across
    fun tile htile => due_drawTile vram x y screen hstart htile band

-- Before each packed byte the address is told by the tiles, the lines and the
-- pairs that are done.
theorem drawBands_eq (hstart : start + 4 ≤ vramSize) (down : Nat) :
    drawBands vram across down x y ⟨start + 4, screen⟩ =
      due vram start across x y screen (32 * across * down) := by
  have hfirst : due vram start across x y screen (32 * (0 * across)) = .ok ⟨start + 4, screen⟩ := by
    rw [Nat.zero_mul]
    exact if_pos hstart
  have hwalk := @foldlM_range_of_pass _ _
    (fun band => due vram start across x y screen (32 * (band * across)))
    (fun pen (band : Nat) => pen.drawBand vram across x (y + 8 * band)) down
    fun band _ => due_drawBand vram x y screen hstart band
  rw [hfirst] at hwalk
  rw [Nat.mul_assoc, Nat.mul_comm across]
  exact hwalk

end Walk

end Pen

-- Walks over the tiles, the lines of a tile and the pairs of a line, with one
-- running address.
def walkTiles (screen : Screen) (vram : VideoMemory) (start : Nat) (x y : Int) : Screen :=
  if vramSize < start + 4 then screen
  else
    Pen.result (Pen.drawBands vram (tileCount (wordAt vram start))
      (tileCount (wordAt vram (start + 2))) x y ⟨start + 4, screen⟩)

theorem drawTiles_eq_walkTiles (screen : Screen) (vram : VideoMemory) (start : Nat) (x y : Int) :
    screen.drawTiles vram start x y = screen.walkTiles vram start x y := by
  rw [drawTiles, walkTiles]
  by_cases hend : vramSize < start + 4
  · rw [if_pos hend, if_pos hend]
  · rw [if_neg hend, if_neg hend, Pen.drawBands_eq vram x y screen (Nat.le_of_not_lt hend), Pen.due]
    dsimp only
    split
    case isTrue hroom => rw [Nat.min_eq_left (by omega), Pen.result]
    case isFalse hfull => rw [Nat.min_eq_right (by omega), Pen.result]

end Screen

namespace Machine

open Screen (Inside half pairAt tileCount wordAt)

-- What drawing tiles does. One pass over the packed bytes after the header
-- reaches each pixel of each tile once, and nothing but the screen changes.
theorem drawTiles_closed_form (machine : Machine) (start : UInt16) (x y : Int) :
    (vramSize < start.toNat + 4 → machine.drawTiles start x y = machine) ∧
      (start.toNat + 4 ≤ vramSize →
        let across := tileCount (wordAt machine.vram start.toNat)
        let down := tileCount (wordAt machine.vram (start.toNat + 2))
        let address (i j : Nat) : Nat :=
          start.toNat + 4 + 32 * (j / 8 * across + i / 8) + 4 * (j % 8) + i % 8 / 2
        let screen := machine.screen.walkTiles machine.vram start.toNat x y
        machine.drawTiles start x y = { machine with screen := screen } ∧
          (∀ i < 8 * across, ∀ j < 8 * down, ∀ hroom : address i j < vramSize,
            Inside (x + i) (y + j) →
              screen.pixel (x + i) (y + j) = half machine.vram[address i j] i) ∧
          ∀ p q, (∀ i < 8 * across, ∀ j < 8 * down, address i j < vramSize →
              ¬(p = x + i ∧ q = y + j)) →
            screen.pixel p q = machine.screen.pixel p q) := by
  constructor
  · intro hend
    rw [drawTiles, Screen.drawTiles, if_pos hend]
  · intro hstart across down address screen
    have hscreen : screen = machine.screen.drawTiles machine.vram start.toNat x y :=
      (Screen.drawTiles_eq_walkTiles _ _ _ _ _).symm
    have haddress : ∀ i j, start.toNat + 4 + pairAt across i j = address i j := by
      intro i j
      simp only [address, pairAt]
      omega
    refine ⟨by rw [hscreen, drawTiles], ?_, ?_⟩
    · intro i hi j hj hroom hinside
      have hi' : (x + i - x).toNat = i := by omega
      have hj' : (y + j - y).toNat = j := by omega
      have hpixel := Screen.pixel_drawTiles machine.screen machine.vram hstart x y (x + i) (y + j)
      dsimp only at hpixel
      rw [hi', hj', haddress, if_pos ⟨hinside, by omega, by omega, by omega, by omega, hroom⟩,
        ← hscreen] at hpixel
      rw [hpixel, Screen.getD_eq_getElem _ hroom]
    · intro p q hout
      rw [hscreen, Screen.pixel_drawTiles _ _ hstart, if_neg]
      rintro ⟨hinside, hleft, hright, htop, hbottom, hroom⟩
      rw [haddress] at hroom
      exact hout _ (by omega) _ (by omega) hroom (by omega)

-- One tile whose second byte is the last one of video memory, drawn over the left
-- edge.
theorem drawTiles_closed_form_cut_off :
    let bytes : Bytes := [8, 0, 1, 0, 0xA7, 0xC5]
    let machine : Machine :=
      { unbooted with vram := Vector.ofFn fun i => bytes.getD (i.val - 65530) 0 }
    let screen := (machine.drawTiles 65530 (-1) 0).screen
    screen.pixel 0 0 = 0x7 ∧ screen.pixel 2 0 = 0x5 ∧ screen.pixel 3 0 = 0 := by
  intro bytes machine screen
  have hbyte : ∀ i (hi : i < vramSize), machine.vram[i] = bytes.getD (i - 65530) 0 := by
    intro i hi
    exact Vector.getElem_ofFn hi
  have hword : ∀ i, i + 1 < vramSize → wordAt machine.vram i =
      Bytes.toNat [bytes.getD (i - 65530) 0, bytes.getD (i + 1 - 65530) 0] := by
    intro i hi
    rw [wordAt, Screen.getD_eq_getElem _ hi, Screen.getD_eq_getElem _ (Nat.lt_of_succ_lt hi), hbyte,
      hbyte]
  have hacross : tileCount (wordAt machine.vram (UInt16.toNat 65530)) = 1 := by
    rw [hword _ (by decide)]
    decide
  have hdown : tileCount (wordAt machine.vram (UInt16.toNat 65530 + 2)) = 1 := by
    rw [hword _ (by decide)]
    decide
  have hform := (drawTiles_closed_form machine 65530 (-1) 0).2 (by decide)
  rw [hacross, hdown] at hform
  obtain ⟨hmachine, hdrawn, hrest⟩ := hform
  have hscreen : screen = _ := congrArg Machine.screen hmachine
  rw [hscreen]
  refine ⟨?_, ?_, ?_⟩
  · refine (hdrawn 1 (by decide) 0 (by decide) (by decide) (by decide)).trans ?_
    rw [hbyte]
    decide
  · refine (hdrawn 3 (by decide) 0 (by decide) (by decide) (by decide)).trans ?_
    rw [hbyte]
    decide
  · refine (hrest 3 0 ?_).trans (Screen.pixel_blank 3 0)
    intro i hi j hj hroom hplace
    have hi' : i = 4 := by omega
    have hj' : j = 0 := by omega
    subst hi' hj'
    exact absurd hroom (by decide)

end Machine

end TileConsole
