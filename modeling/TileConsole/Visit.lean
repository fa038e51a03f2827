namespace TileConsole.Visit

-- Shows the elements of a list to a consumer that keeps a state and may ask to
-- stop. The answer tells whether it did.
def list (consume : σ → α → σ × Bool) : List α → σ → σ × Bool
  | [], state => (state, false)
  | a :: rest, state =>
    match consume state a with
    | (next, true) => (next, true)
    | (next, false) => list consume rest next

-- Shows the elements of several lists in turn, as one sequence.
def each (consume : σ → α → σ × Bool) : List (List α) → σ → σ × Bool
  | [], state => (state, false)
  | items :: rest, state =>
    match list consume items state with
    | (next, true) => (next, true)
    | (next, false) => each consume rest next

-- A consumer that keeps what it sees and stops once it has `count` elements.
def keep (count : Nat) (found : Array α) (a : α) : Array α × Bool :=
  let more := found.push a
  (more, decide (count ≤ more.size))

-- The first `count` elements of several lists.
def collect (count : Nat) (lists : List (List α)) : List α :=
  if count = 0 then [] else (each (keep count) lists #[]).1.toList

end TileConsole.Visit
