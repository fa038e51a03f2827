import TileConsole.Picture.Load
import TileConsole.Proofs.Picture.Packing

namespace TileConsole

-- The corners of a rectangle are points of the plane, which has 64-bit
-- coordinates.
structure Frame.InPlane (frame : Frame) : Prop where
  left : Numeral.fitsInt64 frame.left
  top : Numeral.fitsInt64 frame.top
  right : Numeral.fitsInt64 frame.right
  bottom : Numeral.fitsInt64 frame.bottom

-- A side is measured as it is, or it comes out negative.
theorem Frame.InPlane.sides {frame : Frame} (h : frame.InPlane) :
    (frame.columns = frame.width ∨ frame.columns < 0) ∧
      (frame.rows = frame.height ∨ frame.rows < 0) := by
  obtain ⟨hleft, htop, hright, hbottom⟩ := h
  unfold Frame.right at hright
  unfold Frame.bottom at hbottom
  simp only [Numeral.fitsInt64, Bool.and_eq_true, decide_eq_true_eq] at *
  exact ⟨Numeral.wrapInt64_natCast_cases (by omega), Numeral.wrapInt64_natCast_cases (by omega)⟩

-- The sides of tiles are stored in 16 bits each.
theorem IndexedPicture.length_tiles_lt {picture : IndexedPicture} {tiles : Bytes}
    (hplane : picture.frame.InPlane) (h : picture.tiles = .ok tiles) :
    tiles.length < 0x100000000 := by
  obtain ⟨hcolumns, hrows⟩ := hplane.sides
  have hheader : (sideBytes picture.frame.columns ++ sideBytes picture.frame.rows).length = 4 := by
    simp [sideBytes]
  unfold IndexedPicture.tiles at h
  dsimp only at h
  split at h
  · cases h
  case isFalse hsides =>
    split at h
    · cases h
    split at h
    · rw [← Except.ok.inj h, hheader]
      decide
    case isFalse hmeasured =>
      rw [maxSide] at hsides
      have hpairs : picture.frame.width / 2 * picture.frame.height ≤ 0xFFFF / 2 * 0xFFFF :=
        Nat.mul_le_mul (by omega) (by omega)
      split at h
      · cases h
      · rw [← Except.ok.inj h, List.length_append, hheader, length_packTiles]
        omega

theorem Picture.frame_of_quantizeWith {draw : Drawing} {picture : Picture}
    {quantized : IndexedPicture} (h : picture.quantizeWith draw = .ok quantized) :
    quantized.frame = picture.frame := by
  unfold quantizeWith at h
  cases hfitting : picture.fitting? with
  | some fitting =>
    obtain rfl : fitting = quantized := by simpa [hfitting] using h
    cases picture with
    | direct picture => cases hfitting
    | indexed picture =>
      rw [fitting?] at hfitting
      split at hfitting
      · rw [Option.some.inj hfitting, frame]
      · cases hfitting
  | none =>
    cases hcolors : picture.colors with
    | error fault => simp [hfitting, hcolors] at h
    | ok colors =>
      by_cases hhuge : picture.frame.columns < 0 ∨ picture.frame.rows < 0
      · simp [hfitting, hcolors, hhuge] at h
      · obtain rfl : reduce draw picture.frame colors = quantized := by
          simpa [hfitting, hcolors, hhuge] using h
        rfl

-- The bytes of the four channels of a colour, the high one first.
def Color.sample (color : Color) (i : Nat) : UInt8 :=
  let channel := [color.red, color.green, color.blue, color.alpha].getD (i / 2) 0
  if i % 2 = 0 then UInt8.ofNat (channel.toNat / 256) else UInt8.ofNat channel.toNat

theorem Color.sample_pair (color : Color) (i : Nat) :
    (color.sample (2 * i)).toNat * 256 + (color.sample (2 * i + 1)).toNat =
      ([color.red, color.green, color.blue, color.alpha].getD i 0).toNat := by
  have heven : 2 * i % 2 = 0 := by omega
  have hodd : (2 * i + 1) % 2 ≠ 0 := by omega
  have hfirst : 2 * i / 2 = i := by omega
  have hsecond : (2 * i + 1) / 2 = i := by omega
  have hlt := ([color.red, color.green, color.blue, color.alpha].getD i 0).toNat_lt
  simp only [sample, heven, hodd, hfirst, hsecond, if_true, if_false, UInt8.toNat_ofNat']
  omega

theorem SampleFormat.color_rgba64 {color : Color} {sample : Nat → UInt8}
    (h : ∀ i < 8, sample i = color.sample i) : SampleFormat.rgba64.color sample = color := by
  have hpair : ∀ i < 4, (sample (2 * i)).toNat * 256 + (sample (2 * i + 1)).toNat =
      ([color.red, color.green, color.blue, color.alpha].getD i 0).toNat := by
    intro i hi
    rw [h _ (by omega), h _ (by omega), color.sample_pair]
  rw [SampleFormat.color]
  dsimp only
  rw [hpair 0 (by decide), hpair 1 (by decide), hpair 2 (by decide), hpair 3 (by decide)]
  simp [Color.ofNats]

-- Any colours are those of a picture without a palette.
theorem Picture.exists_of_colors (frame : Frame) {colors : List Color}
    (h : colors.length = frame.area) :
    ∃ picture : Picture, picture.frame = frame ∧ picture.fitting? = none ∧
      picture.colors = .ok colors := by
  let sampled : DirectPicture := ⟨frame, .rgba64,
    Array.ofFn fun k : Fin (frame.area * 8) => (colors.getD (k / 8) .black).sample (k % 8)⟩
  have hsize : ¬sampled.samples.size < frame.area * SampleFormat.rgba64.width := by
    simp [sampled, SampleFormat.width]
  have hcolor : ∀ n (hn : n < colors.length), sampled.color n = colors[n] := by
    intro n hn
    apply SampleFormat.color_rgba64
    intro i hi
    have hplace : (n * 8 + i) / 8 = n := by omega
    have hbyte : (n * 8 + i) % 8 = i := by omega
    have hlt : n * 8 + i < frame.area * 8 := by omega
    have hsample : sampled.samples.getD (n * 8 + i) 0 =
        (colors.getD ((n * 8 + i) / 8) .black).sample ((n * 8 + i) % 8) := by
      simp [sampled, Array.getD_eq_getD_getElem?, hlt]
    rw [hplace, hbyte, List.getD_eq_getElem?_getD, List.getElem?_eq_getElem hn] at hsample
    exact hsample
  refine ⟨.direct sampled, rfl, rfl, ?_⟩
  refine (if_neg hsize).trans (congrArg Except.ok ?_)
  apply List.ext_getElem
  · rw [List.length_map, List.length_range, h]
  · intro n hn hn'
    rw [List.getElem_map, List.getElem_range, hcolor n hn']

namespace Imaging

variable {ε : Type}

-- What is taken for granted of the pictures that files are decoded to.
def DecodesInPlane (imaging : Imaging ε) : Prop :=
  ∀ source picture, imaging.decode source = .ok (.ok picture) → picture.frame.InPlane

-- A file can be opened and decoded, and its picture quantized and packed.
def HoldsTiles (imaging : Imaging ε) (storage : Storage) (path : Text) (tiles : Bytes) : Prop :=
  ∃ source picture quantized, storage.openStream path = .ok source ∧
    imaging.decode source = .ok (.ok picture) ∧
    picture.quantizeWith imaging.draw = .ok quantized ∧ quantized.tiles = .ok tiles

-- A file can be opened, but the work on its picture stops for good.
inductive Stops (imaging : Imaging ε) (storage : Storage) (path : Text) : PictureFault → Prop
  | decoding {source : Stream} {fault : PictureFault} (hopen : storage.openStream path = .ok source)
    (h : imaging.decode source = .error fault) : Stops imaging storage path fault
  | quantizing {source : Stream} {picture : Picture} {fault : PictureFault}
    (hopen : storage.openStream path = .ok source)
    (hdecode : imaging.decode source = .ok (.ok picture))
    (h : picture.quantizeWith imaging.draw = .error fault) : Stops imaging storage path fault
  | packing {source : Stream} {picture : Picture} {quantized : IndexedPicture}
    {fault : PictureFault} (hopen : storage.openStream path = .ok source)
    (hdecode : imaging.decode source = .ok (.ok picture))
    (hquantize : picture.quantizeWith imaging.draw = .ok quantized)
    (h : quantized.tiles = .error (.stopped fault)) : Stops imaging storage path fault

section Load

variable {imaging : Imaging ε} {storage : Storage} {path : Text} {tiles : Bytes}
  {fault : PictureFault}

theorem HoldsTiles.loadTiles_eq (h : imaging.HoldsTiles storage path tiles) :
    imaging.loadTiles storage path = .ok (.ok tiles) := by
  obtain ⟨source, picture, quantized, hopen, hdecode, hquantize, htiles⟩ := h
  simp [loadTiles, Picture.tilesWith, hopen, hdecode, hquantize, htiles]

theorem Stops.loadTiles_eq (h : imaging.Stops storage path fault) :
    imaging.loadTiles storage path = .error fault := by
  cases h with
  | decoding hopen h => simp [loadTiles, hopen, h]
  | quantizing hopen hdecode h => simp [loadTiles, Picture.tilesWith, hopen, hdecode, h]
  | packing hopen hdecode hquantize h =>
    simp [loadTiles, Picture.tilesWith, hopen, hdecode, hquantize, h]

-- The ways in which loading can go.
theorem loadTiles_cases (imaging : Imaging ε) (storage : Storage) (path : Text) :
    (∃ tiles, imaging.HoldsTiles storage path tiles) ∨
      (∃ fault, imaging.Stops storage path fault) ∨
      ∃ error, imaging.loadTiles storage path = .ok (.error error) := by
  cases hopen : storage.openStream path with
  | error error => exact .inr (.inr ⟨.unreadable error, by simp [loadTiles, hopen]⟩)
  | ok source =>
    rcases hdecode : imaging.decode source with fault | error | picture
    · exact .inr (.inl ⟨fault, .decoding hopen hdecode⟩)
    · exact .inr (.inr ⟨.undecodable path error, by simp [loadTiles, hopen, hdecode]⟩)
    · cases hquantize : picture.quantizeWith imaging.draw with
      | error fault => exact .inr (.inl ⟨fault, .quantizing hopen hdecode hquantize⟩)
      | ok quantized =>
        rcases htiles : quantized.tiles with (⟨width, height⟩ | fault) | tiles
        · refine .inr (.inr ⟨.tooLarge width height, ?_⟩)
          simp [loadTiles, Picture.tilesWith, hopen, hdecode, hquantize, htiles]
        · exact .inr (.inl ⟨fault, .packing hopen hdecode hquantize htiles⟩)
        · exact .inl ⟨tiles, source, picture, quantized, hopen, hdecode, hquantize, htiles⟩

theorem loadTiles_eq_ok_iff :
    imaging.loadTiles storage path = .ok (.ok tiles) ↔ imaging.HoldsTiles storage path tiles := by
  refine ⟨fun h => ?_, HoldsTiles.loadTiles_eq⟩
  rcases loadTiles_cases imaging storage path with ⟨found, hholds⟩ | ⟨fault, hstops⟩ | ⟨error, heq⟩
  · obtain rfl : tiles = found := by simpa [h] using hholds.loadTiles_eq
    exact hholds
  · simp [hstops.loadTiles_eq] at h
  · simp [heq] at h

theorem loadTiles_eq_error_iff :
    imaging.loadTiles storage path = .error fault ↔ imaging.Stops storage path fault := by
  refine ⟨fun h => ?_, Stops.loadTiles_eq⟩
  rcases loadTiles_cases imaging storage path with ⟨tiles, hholds⟩ | ⟨found, hstops⟩ | ⟨error, heq⟩
  · simp [hholds.loadTiles_eq] at h
  · obtain rfl : fault = found := by simpa [h] using hstops.loadTiles_eq
    exact hstops
  · simp [heq] at h

-- Tiles from a file fit on a cartridge.
theorem HoldsTiles.length_lt (hplane : imaging.DecodesInPlane)
    (h : imaging.HoldsTiles storage path tiles) : tiles.length < 0x100000000 := by
  obtain ⟨source, picture, quantized, -, hdecode, hquantize, htiles⟩ := h
  apply quantized.length_tiles_lt _ htiles
  rw [Picture.frame_of_quantizeWith hquantize]
  exact hplane source picture hdecode

end Load

end Imaging

theorem Bytes.natAbs_signed32_le (n : Nat) : (signed32 n).natAbs ≤ 0xFFFFFFFF := by
  have hlow : -(4294967296 / 2) ≤ signed32 n := Int.le_bmod (by decide)
  have hhigh : signed32 n < (4294967296 + 1) / 2 := Int.bmod_lt (by decide)
  omega

namespace Bitmap

-- The sides of a picture in a bitmap file are stored in 32 bits.
theorem sides_of_readHeader {data : Bytes} {header : Header} (h : readHeader data = .ok header) :
    header.width ≤ 0xFFFFFFFF ∧ header.height ≤ 0xFFFFFFFF := by
  have hwidth := Bytes.natAbs_signed32_le (field data 18 4)
  have hheight := Bytes.natAbs_signed32_le (field data 22 4)
  unfold readHeader at h
  split at h
  · cases h
  split at h
  · cases h
  dsimp only at h
  split at h
  · cases h
  split at h
  · cases h
  split at h
  · cases h
  cases hdepth : readDepth data (field data 14 4) with
  | error error => simp [hdepth, bind, Except.bind] at h
  | ok found =>
    obtain rfl : _ = header := by simpa [hdepth, bind, Except.bind, pure, Except.pure] using h
    dsimp only
    omega

theorem frame_of_decode {data : Bytes} {picture : Picture} (h : decode data = .ok (.ok picture)) :
    ∃ header, readHeader data = .ok header ∧ picture.frame = header.frame := by
  unfold decode at h
  cases hheader : readHeader data with
  | error error => simp [hheader] at h
  | ok header =>
    cases hreserve : header.reserve with
    | error fault => simp [hheader, hreserve] at h
    | ok _ =>
      cases hsamples : readSamples header with
      | error error => simp [hheader, hreserve, hsamples, Except.map] at h
      | ok samples =>
        obtain rfl : header.picture samples = picture := by
          simpa [hheader, hreserve, hsamples, Except.map] using h
        refine ⟨header, rfl, ?_⟩
        unfold Header.picture
        cases header.depth <;> rfl

theorem decodesInPlane_imaging : imaging.DecodesInPlane := by
  intro source picture h
  obtain ⟨header, hheader, hframe⟩ := frame_of_decode h
  obtain ⟨hwidth, hheight⟩ := sides_of_readHeader hheader
  have hside : ∀ n : Nat, n ≤ 0xFFFFFFFF → Numeral.fitsInt64 (0 + n) := by
    intro n hn
    rw [Int.zero_add]
    exact Numeral.fitsInt64_natCast (by omega)
  rw [hframe, Header.frame]
  exact ⟨rfl, rfl, hside _ hwidth, hside _ hheight⟩

end Bitmap

end TileConsole
