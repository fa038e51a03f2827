import TileConsole.Path

namespace TileConsole

inductive StorageEntry where
  | file (content : Bytes)
  | directory
deriving DecidableEq, Repr

-- The files and directories that a command can reach, by their places. The
-- first entry of a place counts.
structure Storage where
  entries : List (Place × StorageEntry)
deriving DecidableEq, Repr

namespace Storage

def empty : Storage :=
  ⟨[]⟩

-- What is at a place. A base is always a directory.
def lookup? (storage : Storage) (place : Place) : Option StorageEntry :=
  if place.names = [] then some .directory
  else (storage.entries.find? fun entry => entry.1 == place).map Prod.snd

-- The place of a name in a directory, unless the name is too long to be one.
def step (directory : Place) (name : Text) : Except FileProblem Place :=
  if Path.maxName < (Text.toBytes name).length then .error .nameTooLong
  else .ok (Path.follow directory name)

-- Goes into a directory.
def enter (storage : Storage) (directory : Place) (name : Text) : Except FileProblem Place :=
  match step directory name with
  | .error problem => .error problem
  | .ok next =>
    match storage.lookup? next with
    | some .directory => .ok next
    | some (.file _) => .error .notDirectory
    | none => .error .missing

-- Goes through directories one after the other.
def descend (storage : Storage) (directory : Place) : List Text → Except FileProblem Place
  | [] => .ok directory
  | name :: rest =>
    match storage.enter directory name with
    | .error problem => .error problem
    | .ok next => storage.descend next rest

-- The place of a path whose directories are there.
def reach (storage : Storage) (path : Path) : Except FileProblem Place :=
  match path.names.getLast? with
  | none => .ok ⟨path.base, []⟩
  | some last =>
    match storage.descend ⟨path.base, []⟩ path.names.dropLast with
    | .error problem => .error problem
    | .ok directory => step directory last

-- What a path leads to. Only a directory can have a slash behind it.
def locate (storage : Storage) (path : Text) : Except FileProblem StorageEntry :=
  match Path.problem? path with
  | some problem => .error problem
  | none =>
    match storage.reach (Path.ofText path) with
    | .error problem => .error problem
    | .ok place =>
      match storage.lookup? place with
      | none => .error .missing
      | some .directory => .ok .directory
      | some (.file content) =>
        if (Path.ofText path).endsInSlash then .error .notDirectory else .ok (.file content)

def find? (storage : Storage) (path : Text) : Option StorageEntry :=
  (storage.locate path).toOption

-- Opens a file. A directory can be opened but not read.
def openStream (storage : Storage) (path : Text) : Except FileError Stream :=
  match storage.locate path with
  | .ok (.file content) => .ok (.whole content)
  | .ok .directory => .ok ⟨[], some (.file ⟨.reading, path, .isDirectory⟩)⟩
  | .error problem => .error ⟨.opening, path, problem⟩

-- Reads a whole file.
def read (storage : Storage) (path : Text) : Except FileError Bytes :=
  match storage.locate path with
  | .ok (.file content) => .ok content
  | .ok .directory => .error ⟨.reading, path, .isDirectory⟩
  | .error problem => .error ⟨.opening, path, problem⟩

def put (storage : Storage) (place : Place) (entry : StorageEntry) : Storage :=
  ⟨(place, entry) :: storage.entries.filter fun old => old.1 != place⟩

-- Only what is at the place changes.
theorem lookup?_put (storage : Storage) {place : Place} (entry : StorageEntry) (other : Place)
    (h : place.names ≠ []) :
    (storage.put place entry).lookup? other =
      if place = other then some entry else storage.lookup? other := by
  by_cases same : place = other
  · subst same
    simp [lookup?, put, h]
  · have kept (old : Place × StorageEntry) :
        (!decide (old.1 = place) && decide (old.1 = other)) = (old.1 == other) := by
      by_cases found : old.1 = other
      · simp [found, Ne.symm same]
      · simp [found]
    simp [lookup?, put, same, List.find?_filter, kept]

-- The last name of a path that can only be a directory, whatever is there.
def namesDirectory (path : Path) (last : Text) : Bool :=
  path.endsInSlash || last == Path.here || last == Path.up

-- Where a file with a given path is written, if it can be.
def target (storage : Storage) (path : Path) : Except FileProblem Place :=
  match path.names.getLast? with
  | none => .error .isDirectory
  | some last =>
    match storage.descend ⟨path.base, []⟩ path.names.dropLast with
    | .error problem => .error problem
    | .ok directory =>
      if namesDirectory path last then .error .isDirectory
      else
        match step directory last with
        | .error problem => .error problem
        | .ok place =>
          if storage.lookup? place = some .directory then .error .isDirectory else .ok place

-- Writes a whole file, or changes nothing.
def write (storage : Storage) (path : Text) (content : Bytes) : Except FileError Storage :=
  match Path.problem? path with
  | some problem => .error ⟨.opening, path, problem⟩
  | none =>
    match storage.target (Path.ofText path) with
    | .error problem => .error ⟨.opening, path, problem⟩
    | .ok place => .ok (storage.put place (.file content))

-- A way to write whole files. One that fails changes nothing.
abbrev Writer := Storage → Text → Bytes → Except WriteError Storage

def writer : Writer :=
  fun storage path content => (storage.write path content).mapError .file

-- Adds an entry together with the directories that lead to it.
def install (storage : Storage) (path : Text) (entry : StorageEntry) : Storage :=
  let place := (Path.ofText path).place
  (place.ancestors.foldl (fun found parent => found.put parent .directory) storage).put place entry

end Storage

end TileConsole
