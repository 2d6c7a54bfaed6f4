import Deontica.Prover
import Deontica.Strategy
import Deontica.Text.Quoted

/-!
# The registry of provers

Provers are registered under their names.  A prover that is registered under a name already taken
gets the place of the one before.  Every registration has a number of its own, by which calls are
counted.

Candidates for a problem are all registered provers: first those recommended, in the order of
recommendation, then the others in the order of registration.
-/

namespace Deontica

/-- A prover that has been registered. -/
structure Seat where
  /-- The number of the registration. -/
  id : Nat
  prover : Prover

/-- The name of the registered prover. -/
def Seat.name (s : Seat) : String :=
  s.prover.name

/-- The registered provers. -/
structure Registry where
  /-- In order of their places. -/
  seats : List Seat := []
  /-- The number of the next registration. -/
  next : Nat := 0

namespace Registry

/-- Puts a seat in the place of the one of its name, or at the end. -/
def place (seat : Seat) : List Seat → List Seat
  | [] => [seat]
  | s :: seats => if s.name = seat.name then seat :: seats else s :: place seat seats

/-- Registers a prover. -/
def register (r : Registry) (p : Prover) : Registry where
  seats := place ⟨r.next, p⟩ r.seats
  next := r.next + 1

def find? (r : Registry) (name : String) : Option Seat :=
  r.seats.find? (·.name == name)

def names (r : Registry) : List String :=
  r.seats.map (·.name)

/-- The place of a name, counted from 0. -/
def position? (r : Registry) (name : String) : Option Nat :=
  r.seats.findIdx? (·.name == name)

def size (r : Registry) : Nat :=
  r.seats.length

def isEmpty (r : Registry) : Bool :=
  r.seats.isEmpty

/-! ### Candidates -/

/-- Adds a seat at the end unless there is one of its name. -/
def addCandidate (seats : List Seat) (seat : Seat) : List Seat :=
  if seats.any (·.name == seat.name) then seats else seats ++ [seat]

/-- All registered provers, the recommended ones first. -/
def ranked (r : Registry) (recommended : List String) : List Seat :=
  (recommended.filterMap r.find? ++ r.seats).foldl addCandidate []

/-- The registered provers sorted by a key, and by place where keys agree. -/
def sortedBy (key : Seat → Nat) (r : Registry) (seats : List Seat) : List Seat :=
  let place (s : Seat) : Nat := (r.position? s.name).getD r.size
  seats.mergeSort fun s t =>
    decide (key s < key t) || key s == key t && decide (place s ≤ place t)

/-- The candidates in the order in which a strategy takes them. -/
def ordered (r : Registry) (strategy : Strategy) (recommended : List String) : List Seat :=
  let candidates := r.ranked recommended
  match strategy with
  | .fastest => sortedBy (·.prover.capabilities.latency) r candidates
  | .mostCapable => sortedBy (5 - ·.prover.capabilities.featureCount) r candidates
  | .auto | .sequential | .parallel => candidates

/-- The available provers in the order of ranking. -/
def candidates (r : Registry) (recommended : List String) : List Seat :=
  (r.ranked recommended).filter (·.prover.available)

/-- A description of the registry. -/
def describe (r : Registry) : String :=
  "ProverRegistry \x7b provers: [" ++ ", ".intercalate (r.names.map Text.quoted) ++ "] \x7d"

end Registry

end Deontica
