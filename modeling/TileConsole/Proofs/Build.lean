import TileConsole.Command.Build
import TileConsole.Proofs.Cartridge
import TileConsole.Proofs.Picture.Loading
import TileConsole.Proofs.Storage

namespace TileConsole

namespace Cartridge

variable {write : Storage.Writer} {storage next : Storage} {path : Text} {error : SaveError}

theorem length_le_of_toBytes {cartridge : Cartridge} {data : Bytes}
    (h : cartridge.toBytes = .ok data) :
    cartridge.code.length ≤ maxSection ∧ cartridge.graphics.length ≤ maxSection := by
  unfold toBytes at h
  split at h
  · cases h
  · omega

theorem saveWith_eq_ok_iff {cartridge : Cartridge} :
    cartridge.saveWith write storage path = .ok next ↔
      ∃ data, cartridge.toBytes = .ok data ∧ write storage path data = .ok next := by
  unfold saveWith
  cases cartridge.toBytes with
  | error error => simp
  | ok data => cases hwrite : write storage path data <;> simp [hwrite]

theorem saveWith_eq_error_iff {cartridge : Cartridge} :
    cartridge.saveWith write storage path = .error error ↔
      (∃ problem, cartridge.toBytes = .error problem ∧ error = .malformed problem) ∨
        ∃ data problem, cartridge.toBytes = .ok data ∧ write storage path data = .error problem ∧
          error = .unwritable problem := by
  unfold saveWith
  cases cartridge.toBytes with
  | error problem => simp [eq_comm]
  | ok data => cases hwrite : write storage path data <;> simp [hwrite, eq_comm]

-- A cartridge that was saved can be loaded from its file.
theorem load_of_saveWith (hwhole : write.Whole) {cartridge : Cartridge}
    (h : cartridge.saveWith write storage path = .ok next) : load next path = .ok cartridge := by
  obtain ⟨data, hdata, hwrite⟩ := saveWith_eq_ok_iff.mp h
  obtain ⟨hcode, hgraphics⟩ := length_le_of_toBytes hdata
  obtain rfl : cartridge.header ++ (cartridge.code ++ cartridge.graphics) = data :=
    Except.ok.inj ((toBytes_eq hcode hgraphics).symm.trans hdata)
  have hread := ofBytes_append hcode hgraphics []
  rw [List.append_nil] at hread
  rw [load, (hwhole _ _ _ _ hwrite).read]
  dsimp only
  rw [hread]

-- Code that cannot be saved cannot be saved with other graphics either.
theorem saveWith_eq_error_of_alike (halike : write.Alike) {code tiles others : Bytes}
    (htiles : tiles.length ≤ maxSection) (hothers : others.length ≤ maxSection)
    (h : (ofSections code tiles).saveWith write storage path = .error error) :
    (ofSections code others).saveWith write storage path = .error error := by
  by_cases hcode : code.length ≤ maxSection
  · have hbytes : ∀ {graphics : Bytes}, graphics.length ≤ maxSection →
        ∃ data, (ofSections code graphics).toBytes = .ok data :=
      fun hgraphics => ⟨_, toBytes_eq hcode hgraphics⟩
    obtain ⟨data, hdata⟩ := hbytes htiles
    obtain ⟨other, hother⟩ := hbytes hothers
    rw [saveWith_eq_error_iff, hdata] at h
    rw [saveWith_eq_error_iff, hother]
    rcases h with ⟨problem, hmalformed, -⟩ | ⟨written, problem, -, hwrite, rfl⟩
    · cases hmalformed
    · exact .inr ⟨other, problem, rfl, halike _ _ _ _ hwrite other, rfl⟩
  · have hlarge : ∀ graphics, (ofSections code graphics).toBytes = .error .sectionTooLarge := by
      intro graphics
      rw [toBytes, if_pos (.inl (Nat.lt_of_not_le hcode))]
    rw [saveWith, hlarge] at h ⊢
    exact h

end Cartridge

namespace Build

variable {ε : Type}

-- The graphics that a path stands for: the tiles of the picture there, or none
-- if there is no path or no picture that can be used.
def GraphicsAt (imaging : Imaging ε) (storage : Storage) (path : Text) (tiles : Bytes) : Prop :=
  (path ≠ [] ∧ imaging.HoldsTiles storage path tiles) ∨
    (tiles = [] ∧ (path = [] ∨ ∀ found, ¬imaging.HoldsTiles storage path found))

section Graphics

variable {imaging : Imaging ε} {storage : Storage} {path : Text} {tiles : Bytes}

theorem GraphicsAt.length_le (hplane : imaging.DecodesInPlane)
    (h : GraphicsAt imaging storage path tiles) : tiles.length ≤ Cartridge.maxSection := by
  rcases h with ⟨-, hholds⟩ | ⟨rfl, -⟩
  · exact Nat.le_of_lt_succ (hholds.length_lt hplane)
  · exact Nat.zero_le _

theorem GraphicsAt.eq {others : Bytes} (h : GraphicsAt imaging storage path tiles)
    (hothers : GraphicsAt imaging storage path others) : tiles = others := by
  rcases h with ⟨hpath, hholds⟩ | ⟨rfl, hnone⟩ <;>
    rcases hothers with ⟨hpath', hholds'⟩ | ⟨rfl, hnone'⟩
  · simpa [hholds.loadTiles_eq] using hholds'.loadTiles_eq
  · exact absurd hholds (hnone'.resolve_left hpath tiles)
  · exact absurd hholds' (hnone.resolve_left hpath' others)
  · rfl

theorem loadGraphics_eq_error_iff {fault : PictureFault} :
    loadGraphics imaging storage path = .error fault ↔
      path ≠ [] ∧ imaging.Stops storage path fault := by
  rw [← Imaging.loadTiles_eq_error_iff, loadGraphics]
  by_cases hpath : path = []
  · simp [hpath]
  · rw [if_neg hpath]
    rcases imaging.loadTiles storage path with fault | error | tiles <;> simp [hpath]

theorem graphicsAt_of_loadGraphics {graphics : Graphics}
    (h : loadGraphics imaging storage path = .ok graphics) :
    GraphicsAt imaging storage path graphics.tiles := by
  unfold loadGraphics at h
  by_cases hpath : path = []
  · rw [if_pos hpath] at h
    rw [← Except.ok.inj h]
    exact .inr ⟨rfl, .inl hpath⟩
  · rw [if_neg hpath] at h
    rcases hload : imaging.loadTiles storage path with fault | error | tiles
    · simp [hload] at h
    · rw [hload] at h
      rw [← Except.ok.inj h]
      refine .inr ⟨rfl, .inr fun found hholds => ?_⟩
      simp [hholds.loadTiles_eq] at hload
    · rw [hload] at h
      rw [← Except.ok.inj h]
      exact .inl ⟨hpath, Imaging.loadTiles_eq_ok_iff.mp hload⟩

end Graphics

-- What a build does before it saves anything: the lines it lists, and the
-- program. Graphics have no part in it.
def prepare (storage : Storage) (request : Request) : List Text × Except Failure Program :=
  match storage.openStream request.source with
  | .error error => ([], .error (.unopened error))
  | .ok source =>
    match Assembly.ofStream request.mode source with
    | .error error => ([], .error (.unassembled error))
    | .ok program =>
      match list request.listing program with
      | (listed, some error) => (listed, .error (.unlisted error))
      | (listed, none) => (listed, .ok program)

-- How a build ends that has its graphics: what it lists, the storage it leaves
-- and its cartridge.
inductive Ends (write : Storage.Writer) (storage : Storage) (request : Request) (tiles : Bytes) :
    List Text → Storage → Except Failure Cartridge → Prop
  | unprepared {listed : List Text} {failure : Failure}
      (hprepare : prepare storage request = (listed, .error failure)) :
      Ends write storage request tiles listed storage (.error failure)
  | unsaved {listed : List Text} {program : Program} {error : SaveError}
      (hprepare : prepare storage request = (listed, .ok program))
      (hsave : (Cartridge.ofSections program.code tiles).saveWith write storage request.output =
        .error error) :
      Ends write storage request tiles listed storage (.error (.unsaved error))
  | saved {listed : List Text} {program : Program} {next : Storage}
      (hprepare : prepare storage request = (listed, .ok program))
      (hsave : (Cartridge.ofSections program.code tiles).saveWith write storage request.output =
        .ok next) :
      Ends write storage request tiles listed next (.ok (Cartridge.ofSections program.code tiles))

section Run

variable {host : Host ε} {storage : Storage} {request : Request}

theorem prepare_eq_ok_iff {program : Program} :
    (prepare storage request).2 = .ok program ↔
      ∃ source, storage.openStream request.source = .ok source ∧
        Assembly.ofStream request.mode source = .ok program ∧
        (list request.listing program).2 = none := by
  unfold prepare
  cases storage.openStream request.source with
  | error error => simp
  | ok source =>
    cases hassemble : Assembly.ofStream request.mode source with
    | error error => simp [hassemble]
    | ok found =>
      rcases hlist : list request.listing found with ⟨listed, _ | error⟩
      · grind
      · grind

theorem exists_ends {graphics : Graphics}
    (h : loadGraphics host.toImaging storage request.graphics = .ok graphics) :
    ∃ result, run host storage request = .ok result ∧
      Ends host.write storage request graphics.tiles result.listed result.storage
        result.cartridge := by
  unfold run
  rw [h]
  dsimp only
  cases hopen : storage.openStream request.source with
  | error error => exact ⟨_, rfl, .unprepared (by simp [prepare, hopen])⟩
  | ok source =>
    dsimp only
    cases hassemble : Assembly.ofStream request.mode source with
    | error error => exact ⟨_, rfl, .unprepared (by simp [prepare, hopen, hassemble])⟩
    | ok program =>
      dsimp only
      rcases hlist : list request.listing program with ⟨listed, _ | error⟩
      · have hprepare : prepare storage request = (listed, .ok program) := by
          simp [prepare, hopen, hassemble, hlist]
        dsimp only
        cases hsave : (Cartridge.ofSections program.code graphics.tiles).saveWith host.write
            storage request.output with
        | error error => exact ⟨_, rfl, .unsaved hprepare hsave⟩
        | ok next => exact ⟨_, rfl, .saved hprepare hsave⟩
      · exact ⟨_, rfl, .unprepared (by simp [prepare, hopen, hassemble, hlist])⟩

-- Nothing but the picture can stop a build for good.
theorem run_eq_error_iff {fault : PictureFault} :
    run host storage request = .error fault ↔
      request.graphics ≠ [] ∧ host.Stops storage request.graphics fault := by
  rw [← loadGraphics_eq_error_iff]
  cases hgraphics : loadGraphics host.toImaging storage request.graphics with
  | error other => simp [run, hgraphics]
  | ok graphics =>
    obtain ⟨result, hrun, -⟩ := exists_ends hgraphics
    simp [hrun]

theorem ends_of_run {result : Result} (h : run host storage request = .ok result) :
    ∃ tiles, GraphicsAt host.toImaging storage request.graphics tiles ∧
      Ends host.write storage request tiles result.listed result.storage result.cartridge := by
  cases hgraphics : loadGraphics host.toImaging storage request.graphics with
  | error fault => simp [run, hgraphics] at h
  | ok graphics =>
    obtain ⟨found, hrun, hends⟩ := exists_ends hgraphics
    obtain rfl : found = result := Except.ok.inj (hrun.symm.trans h)
    exact ⟨graphics.tiles, graphicsAt_of_loadGraphics hgraphics, hends⟩

end Run

section Ends

variable {write : Storage.Writer} {storage next : Storage} {request : Request} {tiles : Bytes}
  {listed : List Text}

theorem Ends.storage_of_error {failure : Failure}
    (h : Ends write storage request tiles listed next (.error failure)) : next = storage := by
  cases h <;> rfl

-- A build succeeds unless its source, its listing or its output fails.
theorem Ends.succeeds_iff {outcome : Except Failure Cartridge}
    (h : Ends write storage request tiles listed next outcome) :
    (∃ cartridge, outcome = .ok cartridge) ↔
      ∃ program written, (prepare storage request).2 = .ok program ∧
        (Cartridge.ofSections program.code tiles).saveWith write storage request.output =
          .ok written := by
  cases h with
  | unprepared hprepare => simp [hprepare]
  | unsaved hprepare hsave => simp [hprepare, hsave]
  | saved hprepare hsave => simp [hprepare, hsave]

-- What a build says about its code, told without its graphics.
def codeOutcome (write : Storage.Writer) (storage : Storage) (request : Request) :
    List Text × Except Failure Bytes :=
  match prepare storage request with
  | (listed, .error failure) => (listed, .error failure)
  | (listed, .ok program) =>
    match (Cartridge.ofSections program.code []).saveWith write storage request.output with
    | .error error => (listed, .error (.unsaved error))
    | .ok _ => (listed, .ok program.code)

theorem Ends.codeOutcome_eq (halike : write.Alike) (htiles : tiles.length ≤ Cartridge.maxSection)
    {outcome : Except Failure Cartridge}
    (h : Ends write storage request tiles listed next outcome) :
    codeOutcome write storage request = (listed, outcome.map Cartridge.code) := by
  have hnone : ([] : Bytes).length ≤ Cartridge.maxSection := Nat.zero_le _
  cases h with
  | unprepared hprepare => simp [codeOutcome, hprepare, Except.map]
  | unsaved hprepare hsave =>
    have hplain := Cartridge.saveWith_eq_error_of_alike halike htiles hnone hsave
    simp [codeOutcome, hprepare, hplain, Except.map]
  | @saved program _ hprepare hsave =>
    cases hplain : (Cartridge.ofSections program.code []).saveWith write storage
        request.output with
    | error error =>
      have hunsaved := Cartridge.saveWith_eq_error_of_alike halike hnone htiles hplain
      simp [hunsaved] at hsave
    | ok written =>
      simp only [codeOutcome, hprepare, hplain]
      rfl

end Ends

-- What is taken for granted of a host: its pictures lie in the plane, and a file
-- that it has written is there as a whole.
structure Host.Lawful (host : Host ε) : Prop where
  inPlane : host.DecodesInPlane
  whole : host.write.Whole

-- What a build leaves behind that succeeds: one new file, with the code of the
-- source and the graphics that there are.
structure Built (host : Host ε) (storage : Storage) (request : Request) (next : Storage)
    (cartridge : Cartridge) : Prop where
  assembled : ∃ source program tiles, storage.openStream request.source = .ok source ∧
    Assembly.ofStream request.mode source = .ok program ∧
    GraphicsAt host.toImaging storage request.graphics tiles ∧ cartridge = ⟨0, program.code, tiles⟩
  saved : ∃ data, cartridge.toBytes = .ok data ∧ storage.Rewrites request.output data next
  loaded : Cartridge.load next request.output = .ok cartridge

theorem Ends.built {host : Host ε} (hhost : host.Lawful) {storage next : Storage}
    {request : Request} {tiles : Bytes} {listed : List Text} {cartridge : Cartridge}
    (hgraphics : GraphicsAt host.toImaging storage request.graphics tiles)
    (h : Ends host.write storage request tiles listed next (.ok cartridge)) :
    Built host storage request next cartridge := by
  cases h with
  | @saved program _ hprepare hsave =>
    obtain ⟨source, hopen, hassemble, -⟩ := prepare_eq_ok_iff.mp (congrArg Prod.snd hprepare)
    obtain ⟨data, hdata, hwrite⟩ := Cartridge.saveWith_eq_ok_iff.mp hsave
    exact ⟨⟨source, program, tiles, hopen, hassemble, hgraphics, rfl⟩,
      ⟨data, hdata, hhost.whole _ _ _ _ hwrite⟩, Cartridge.load_of_saveWith hhost.whole hsave⟩

-- A build writes a whole cartridge or nothing, whatever pictures its host can
-- read. Its graphics decide neither whether it succeeds nor what its code is, if
-- the host does not refuse to write one file where it would write another.
theorem builds_whole_or_nothing {host : Host ε} (hhost : host.Lawful) (storage : Storage)
    (request : Request) :
    (∀ fault, run host storage request = .error fault ↔
      request.graphics ≠ [] ∧ host.Stops storage request.graphics fault) ∧
    (∀ result, run host storage request = .ok result →
      (match result.cartridge with
        | .error _ => result.storage = storage
        | .ok cartridge => Built host storage request result.storage cartridge) ∧
      ((∃ cartridge, result.cartridge = .ok cartridge) ↔
        ∃ source program tiles, storage.openStream request.source = .ok source ∧
          Assembly.ofStream request.mode source = .ok program ∧
          (list request.listing program).2 = none ∧
          GraphicsAt host.toImaging storage request.graphics tiles ∧
          program.code.length ≤ Cartridge.maxSection ∧
          ∃ data next, Cartridge.toBytes ⟨0, program.code, tiles⟩ = .ok data ∧
            host.write storage request.output data = .ok next)) ∧
    (host.write.Alike → ∀ graphics result other, run host storage request = .ok result →
      run host storage { request with graphics } = .ok other →
      other.listed = result.listed ∧
        other.cartridge.map Cartridge.code = result.cartridge.map Cartridge.code) := by
  refine ⟨fun fault => run_eq_error_iff, ?_, ?_⟩
  · intro result hrun
    obtain ⟨tiles, hgraphics, hends⟩ := ends_of_run hrun
    refine ⟨?_, ?_⟩
    · cases hcartridge : result.cartridge with
      | error failure =>
        rw [hcartridge] at hends
        exact hends.storage_of_error
      | ok cartridge =>
        rw [hcartridge] at hends
        exact hends.built hhost hgraphics
    · rw [hends.succeeds_iff]
      simp only [prepare_eq_ok_iff, Cartridge.saveWith_eq_ok_iff]
      constructor
      · rintro ⟨program, next, ⟨source, hopen, hassemble, hlist⟩, data, hdata, hwrite⟩
        exact ⟨source, program, tiles, hopen, hassemble, hlist, hgraphics,
          (Cartridge.length_le_of_toBytes hdata).1, data, next, hdata, hwrite⟩
      · rintro ⟨source, program, found, hopen, hassemble, hlist, hfound, -, data, next, hdata,
          hwrite⟩
        obtain rfl := hgraphics.eq hfound
        exact ⟨program, next, ⟨source, hopen, hassemble, hlist⟩, data, hdata, hwrite⟩
  · intro halike graphics result other hrun hother
    obtain ⟨tiles, hgraphics, hends⟩ := ends_of_run hrun
    obtain ⟨others, hgraphics', hends'⟩ := ends_of_run hother
    have hcode := hends.codeOutcome_eq halike (hgraphics.length_le hhost.inPlane)
    have hcode' := hends'.codeOutcome_eq halike (hgraphics'.length_le hhost.inPlane)
    -- The graphics are not in the outcome, so it is one and the same.
    exact Prod.mk.inj (hcode'.symm.trans hcode)

theorem lawful_host : BuildCommand.host.Lawful :=
  ⟨Bitmap.decodesInPlane_imaging, Storage.whole_writer⟩

-- A host that knows the pictures of one more format, with a picture that is there
-- and one that is not.
theorem builds_whole_or_nothing_other_format :
    let signature : Bytes := [0x89, 0x50, 0x4E, 0x47]
    let square : IndexedPicture := ⟨⟨0, 0, 8, 8⟩, Screen.palette, Array.replicate 64 7⟩
    let host : Host PictureError :=
      { BuildCommand.host with
        decode := fun source =>
          if source.bytes = signature then .ok (.ok (.indexed square))
          else BuildCommand.host.decode source }
    let source := Text.toBytes "@Start:\nSET_A 5\nJMP Start\nHALT\n"
    let storage : Storage :=
      (Storage.empty.install "game.asm" (.file source)).install "tiles.png" (.file signature)
    let request : Request := ⟨.strict, false, "game.asm", "tiles.png", "game.BGF", none⟩
    host.Lawful ∧ host.write.Alike ∧
      ∃ result cartridge other, run host storage request = .ok result ∧
        result.cartridge = .ok cartridge ∧
        cartridge.code = [0x01, 0x05, 0x04, 0x00, 0x00, 0xFF] ∧ cartridge.graphics.length = 36 ∧
        Cartridge.load result.storage "game.BGF" = .ok cartridge ∧
        run host storage { request with graphics := "missing.png" } = .ok other ∧
        other.cartridge.map Cartridge.code = .ok cartridge.code := by
  intro signature square host source storage request
  have hhost : host.Lawful := by
    refine ⟨fun source picture h => ?_, Storage.whole_writer⟩
    by_cases hsignature : source.bytes = signature
    · obtain rfl : .indexed square = picture := by simpa [host, hsignature] using h
      exact ⟨by decide, by decide, by decide, by decide⟩
    · exact lawful_host.inPlane source picture (by simpa [host, hsignature] using h)
  have hbuilt : (run host storage request).toOption.map (fun result =>
      result.cartridge.toOption.map fun cartridge =>
        (cartridge.code, cartridge.graphics.length)) =
      some (some ([0x01, 0x05, 0x04, 0x00, 0x00, 0xFF], 36)) := by
    decide +kernel
  have hmissing :
      (run host storage { request with graphics := "missing.png" }).toOption.isSome := by
    decide +kernel
  obtain ⟨-, hresult, hgraphics⟩ := builds_whole_or_nothing hhost storage request
  cases hrun : run host storage request with
  | error fault => simp [hrun, Except.toOption] at hbuilt
  | ok result =>
    cases hcartridge : result.cartridge with
    | error failure => simp [hrun, hcartridge, Except.toOption] at hbuilt
    | ok cartridge =>
      have hloaded := (hresult result hrun).1
      rw [hcartridge] at hloaded
      obtain ⟨hcode, hlength⟩ : cartridge.code = [0x01, 0x05, 0x04, 0x00, 0x00, 0xFF] ∧
          cartridge.graphics.length = 36 := by
        simpa [hrun, hcartridge, Except.toOption] using hbuilt
      cases hother : run host storage { request with graphics := "missing.png" } with
      | error fault => simp [hother, Except.toOption] at hmissing
      | ok other =>
        have hsame := (hgraphics Storage.alike_writer "missing.png" result other hrun hother).2
        rw [hcartridge] at hsame
        exact ⟨hhost, Storage.alike_writer, result, cartridge, other, rfl, hcartridge, hcode,
          hlength, hloaded.loaded, rfl, hsame⟩

end Build

end TileConsole
