import TileConsole.Storage

namespace TileConsole.Storage

section Ways

variable {storage : Storage} {directory place : Place}

theorem enter_eq_ok_iff {name : Text} :
    storage.enter directory name = .ok place ↔
      step directory name = .ok place ∧ storage.lookup? place = some .directory := by
  unfold enter
  cases step directory name with
  | error problem => simp
  | ok next =>
    cases hnext : storage.lookup? next with
    | none => grind
    | some entry => cases entry <;> grind

theorem descend_cons_eq_ok_iff {name : Text} {rest : List Text} :
    storage.descend directory (name :: rest) = .ok place ↔
      ∃ next, storage.enter directory name = .ok next ∧ storage.descend next rest = .ok place := by
  rw [descend]
  cases storage.enter directory name <;> simp

theorem reach_eq_ok_iff {path : Path} :
    storage.reach path = .ok place ↔
      (path.names = [] ∧ place = ⟨path.base, []⟩) ∨
      ∃ last directory, path.names.getLast? = some last ∧
        storage.descend ⟨path.base, []⟩ path.names.dropLast = .ok directory ∧
        step directory last = .ok place := by
  unfold reach
  cases hlast : path.names.getLast? with
  | none =>
    rw [List.getLast?_eq_none_iff] at hlast
    simp [hlast, eq_comm]
  | some last =>
    have hne : path.names ≠ [] := by
      intro hnil
      simp [hnil] at hlast
    cases storage.descend ⟨path.base, []⟩ path.names.dropLast <;> simp [hne]

theorem locate_eq_ok_iff {path : Text} {entry : StorageEntry} :
    storage.locate path = .ok entry ↔
      Path.problem? path = none ∧ (entry = .directory ∨ (Path.ofText path).endsInSlash = false) ∧
        ∃ place, storage.reach (Path.ofText path) = .ok place ∧
          storage.lookup? place = some entry := by
  unfold locate
  cases Path.problem? path with
  | some problem => simp
  | none =>
    cases storage.reach (Path.ofText path) with
    | error problem => simp
    | ok place =>
      cases hplace : storage.lookup? place with
      | none => simp [hplace]
      | some found =>
        cases found with
        | directory => grind
        | file content => grind

theorem read_eq_ok_iff {path : Text} {content : Bytes} :
    storage.read path = .ok content ↔ storage.locate path = .ok (.file content) := by
  unfold read
  cases storage.locate path with
  | error problem => simp
  | ok entry => cases entry <;> simp

theorem find?_eq_some_iff {path : Text} {entry : StorageEntry} :
    storage.find? path = some entry ↔ storage.locate path = .ok entry := by
  rw [find?]
  cases storage.locate path <;> simp [Except.toOption]

end Ways

section Put

variable {storage : Storage} {place : Place} {content : Bytes}

-- A file where no directory is opens no way and closes none.
theorem enter_put_eq_ok_iff (hplace : place.names ≠ [])
    (hfile : storage.lookup? place ≠ some .directory) {directory next : Place} {name : Text} :
    (storage.put place (.file content)).enter directory name = .ok next ↔
      storage.enter directory name = .ok next := by
  rw [enter_eq_ok_iff, enter_eq_ok_iff, lookup?_put storage _ next hplace]
  by_cases hnext : place = next
  · subst hnext
    simp [hfile]
  · rw [if_neg hnext]

theorem descend_put_eq_ok_iff (hplace : place.names ≠ [])
    (hfile : storage.lookup? place ≠ some .directory) {directory next : Place} {names : List Text} :
    (storage.put place (.file content)).descend directory names = .ok next ↔
      storage.descend directory names = .ok next := by
  induction names generalizing directory with
  | nil => rfl
  | cons name rest ih =>
    rw [descend_cons_eq_ok_iff, descend_cons_eq_ok_iff]
    simp only [enter_put_eq_ok_iff hplace hfile, ih]

theorem reach_put_eq_ok_iff (hplace : place.names ≠ [])
    (hfile : storage.lookup? place ≠ some .directory) {next : Place} {path : Path} :
    (storage.put place (.file content)).reach path = .ok next ↔ storage.reach path = .ok next := by
  rw [reach_eq_ok_iff, reach_eq_ok_iff]
  simp only [descend_put_eq_ok_iff hplace hfile]

-- A path finds what it found, unless it leads to the file.
theorem find?_put (hplace : place.names ≠ []) (hfile : storage.lookup? place ≠ some .directory)
    {path : Text} (h : storage.reach (Path.ofText path) ≠ .ok place) :
    (storage.put place (.file content)).find? path = storage.find? path := by
  have hlookup : ∀ next, storage.reach (Path.ofText path) = .ok next →
      (storage.put place (.file content)).lookup? next = storage.lookup? next := by
    intro next hnext
    have hne : place ≠ next := by
      rintro rfl
      exact h hnext
    rw [lookup?_put storage _ next hplace, if_neg hne]
  apply Option.ext
  intro entry
  rw [find?_eq_some_iff, find?_eq_some_iff, locate_eq_ok_iff, locate_eq_ok_iff]
  simp only [reach_put_eq_ok_iff hplace hfile]
  grind

end Put

section Write

variable {storage next : Storage} {path : Text} {content : Bytes} {error : FileError}

theorem names_ne_nil_of_step {directory place : Place} {name : Text} (hhere : name ≠ Path.here)
    (hup : name ≠ Path.up) (h : step directory name = .ok place) : place.names ≠ [] := by
  unfold step at h
  split at h
  · cases h
  · obtain rfl := Except.ok.inj h
    rw [Path.follow, if_neg hhere, if_neg hup, Place.child]
    simp

theorem target_eq_ok {path : Path} {place : Place} (h : storage.target path = .ok place) :
    storage.reach path = .ok place ∧ path.endsInSlash = false ∧ place.names ≠ [] ∧
      storage.lookup? place ≠ some .directory := by
  unfold target at h
  cases hlast : path.names.getLast? with
  | none => simp [hlast] at h
  | some last =>
    cases hdirectory : storage.descend ⟨path.base, []⟩ path.names.dropLast with
    | error problem => simp [hlast, hdirectory] at h
    | ok directory =>
      by_cases hnames : namesDirectory path last
      · simp [hlast, hdirectory, hnames] at h
      cases hstep : step directory last with
      | error problem => simp [hlast, hdirectory, hnames, hstep] at h
      | ok found =>
        by_cases hfound : storage.lookup? found = some .directory
        · simp [hlast, hdirectory, hnames, hstep, hfound] at h
        obtain rfl : found = place := by
          simpa [hlast, hdirectory, hnames, hstep, hfound] using h
        simp only [namesDirectory, Bool.or_eq_true, beq_iff_eq, not_or] at hnames
        obtain ⟨⟨hslash, hhere⟩, hup⟩ := hnames
        have hreach : storage.reach path = .ok found :=
          reach_eq_ok_iff.mpr (.inr ⟨last, directory, hlast, hdirectory, hstep⟩)
        exact ⟨hreach, Bool.eq_false_iff.mpr hslash, names_ne_nil_of_step hhere hup hstep, hfound⟩

-- One file has a new content, and all else is as it was.
structure Rewrites (storage : Storage) (path : Text) (content : Bytes) (next : Storage) : Prop where
  read : next.read path = .ok content
  lookup? : ∀ place, storage.reach (Path.ofText path) ≠ .ok place →
    next.lookup? place = storage.lookup? place
  find? : ∀ other, storage.reach (Path.ofText other) ≠ storage.reach (Path.ofText path) →
    next.find? other = storage.find? other

theorem write_eq_ok (h : storage.write path content = .ok next) :
    storage.Rewrites path content next := by
  unfold write at h
  cases hproblem : Path.problem? path with
  | some problem => simp [hproblem] at h
  | none =>
    cases htarget : storage.target (Path.ofText path) with
    | error problem => simp [hproblem, htarget] at h
    | ok place =>
      obtain rfl : storage.put place (.file content) = next := by
        simpa [hproblem, htarget] using h
      obtain ⟨hreach, hslash, hplace, hfile⟩ := target_eq_ok htarget
      refine ⟨?_, ?_, ?_⟩
      · rw [read_eq_ok_iff, locate_eq_ok_iff]
        refine ⟨hproblem, .inr hslash, place, (reach_put_eq_ok_iff hplace hfile).mpr hreach, ?_⟩
        rw [lookup?_put storage _ place hplace, if_pos rfl]
      · intro other hother
        rw [hreach] at hother
        rw [lookup?_put storage _ other hplace, if_neg fun heq => hother (congrArg _ heq)]
      · intro other hother
        exact find?_put hplace hfile (hreach ▸ hother)

-- Only the path decides whether a file can be written to the storage.
theorem write_eq_error (h : storage.write path content = .error error) (other : Bytes) :
    storage.write path other = .error error := by
  unfold write at h ⊢
  cases hproblem : Path.problem? path with
  | some problem => simpa [hproblem] using h
  | none =>
    cases htarget : storage.target (Path.ofText path) with
    | error problem => simpa [hproblem, htarget] using h
    | ok place => simp [hproblem, htarget] at h

end Write

namespace Writer

-- A file that was written is there as a whole, and all else is as it was.
def Whole (write : Writer) : Prop :=
  ∀ storage path content next, write storage path content = .ok next →
    Rewrites storage path content next

-- Whether a file can be written does not depend on its content.
def Alike (write : Writer) : Prop :=
  ∀ storage path content error, write storage path content = .error error →
    ∀ other, write storage path other = .error error

end Writer

theorem writer_of_ok {storage next : Storage} {path : Text} {content : Bytes}
    (h : storage.write path content = .ok next) : writer storage path content = .ok next := by
  rw [writer, h]
  rfl

theorem writer_of_error {storage : Storage} {path : Text} {content : Bytes} {error : FileError}
    (h : storage.write path content = .error error) :
    writer storage path content = .error (.file error) := by
  rw [writer, h]
  rfl

theorem whole_writer : writer.Whole := by
  intro storage path content next h
  cases hwrite : storage.write path content with
  | error error => simp [writer_of_error hwrite] at h
  | ok written =>
    obtain rfl : written = next := by simpa [writer_of_ok hwrite] using h
    exact write_eq_ok hwrite

theorem alike_writer : writer.Alike := by
  intro storage path content error h other
  cases hwrite : storage.write path content with
  | error problem =>
    rw [← h, writer_of_error hwrite]
    exact writer_of_error (write_eq_error hwrite other)
  | ok written => simp [writer_of_ok hwrite] at h

end TileConsole.Storage
