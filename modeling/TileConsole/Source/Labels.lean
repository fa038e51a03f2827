import TileConsole.Text.Basic

namespace TileConsole

-- A table of label offsets in which no name occurs twice.
structure Labels where
  entries : List (Text × Int)
  distinct : (entries.map Prod.fst).Nodup
deriving DecidableEq

namespace Labels

def empty : Labels :=
  ⟨[], by simp⟩

instance : Inhabited Labels := ⟨empty⟩

def find? (labels : Labels) (name : Text) : Option Int :=
  (labels.entries.find? fun entry => entry.1 == name).map Prod.snd

def contains (labels : Labels) (name : Text) : Bool :=
  (labels.find? name).isSome

def size (labels : Labels) : Nat :=
  labels.entries.length

-- A later declaration replaces an earlier one.
def insert (labels : Labels) (name : Text) (offset : Int) : Labels where
  entries := (name, offset) :: labels.entries.filter fun entry => entry.1 != name
  distinct := by
    rw [List.map_cons, List.nodup_cons]
    constructor
    · intro found
      obtain ⟨entry, kept, same⟩ := List.mem_map.mp found
      simp [same] at kept
    · exact labels.distinct.sublist (List.filter_sublist.map Prod.fst)

-- Only the look-up of the new name changes.
theorem find?_insert (labels : Labels) (name other : Text) (offset : Int) :
    (labels.insert name offset).find? other =
      if name = other then some offset else labels.find? other := by
  by_cases h : name = other
  · simp [find?, insert, h]
  · have kept (entry : Text × Int) :
        (!decide (entry.1 = name) && decide (entry.1 = other)) = (entry.1 == other) := by
      by_cases same : entry.1 = other
      · simp [same, Ne.symm h]
      · simp [same]
    simp [find?, insert, h, List.find?_filter, kept]

theorem eq_empty {labels : Labels} (h : ∀ name, labels.find? name = none) : labels = empty := by
  rcases labels with ⟨entries, hdistinct⟩
  cases entries with
  | nil => rfl
  | cons entry rest =>
    have hentry := h entry.1
    simp [find?] at hentry

-- Every entry is the one that a look-up finds.
theorem find?_of_mem {labels : Labels} {label : Text × Int} (h : label ∈ labels.entries) :
    labels.find? label.1 = some label.2 := by
  obtain ⟨before, after, heq⟩ := List.append_of_mem h
  have hdistinct := labels.distinct
  rw [heq, List.map_append, List.map_cons, List.nodup_append] at hdistinct
  have hbefore : before.find? (fun entry => entry.1 == label.1) = none := by
    rw [List.find?_eq_none]
    intro entry hentry
    simpa using hdistinct.2.2 entry.1 (List.mem_map_of_mem hentry) label.1 List.mem_cons_self
  rw [find?, heq, List.find?_append, hbefore]
  simp

def ofList (entries : List (Text × Int)) : Labels :=
  entries.foldl (fun labels entry => labels.insert entry.1 entry.2) empty

-- The entries by the bytes of their names.
def sorted (labels : Labels) : List (Text × Int) :=
  labels.entries.mergeSort fun a b => Text.le a.1 b.1

end Labels

end TileConsole
