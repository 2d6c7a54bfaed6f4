import Deontica.Formula
import Deontica.Tableau.Frame

/-!
# Branches of a tableau

A branch is an attempt at a counter-model: formulas that are to hold at numbered worlds, the edges
between the worlds, and the constants that quantifiers range over.  Expanding a formula adds what
has to hold if the formula does, or leaves a choice between alternatives.

* `□` and `O` are kept and apply to every successor, now or later; so do universal formulas for
  every constant.
* `◊` and `P` call for a successor; a witness that is there already will do.
* `X` has one successor for each world.
* A spanning formula is replaced by weaker ones that follow from it.  A branch that did so, or that
  ran into its limit of worlds or constants, may still close, but its staying open means nothing:
  it is marked as approximate.

A branch closes as soon as a formula and its negation are to hold at one world.
-/

namespace Deontica

/-- A formula that is to hold at a world. -/
abbrev Labelled : Type := World × Formula

/-- A branch of a tableau. -/
structure Branch where
  logic : Logic
  maxWorlds : Nat
  /-- Formulas not yet expanded, oldest first. -/
  pending : List Labelled
  /-- Every formula added so far. -/
  seen : List Labelled
  /-- The number of worlds. -/
  worlds : Nat
  edges : List Edge
  /-- What has to hold at every successor of a world, oldest first. -/
  boxes : List (Relation × World × Formula)
  /-- What has to hold for every constant at a world: the world, the variable and the body. -/
  universals : List (World × String × Formula)
  /-- The constants. -/
  domain : List String
  /-- The next world of a world, where one was called for. -/
  nextOf : List (World × World)
  /-- How far the numbering of fresh constants has got. -/
  fresh : Nat
  closed : Bool
  approximate : Bool
  deriving Repr, Inhabited

namespace Branch

/-- A branch with one world and nothing to hold there. -/
def start (logic : Logic) (maxWorlds : Nat) (domain : List String) : Branch where
  logic := logic
  maxWorlds := maxWorlds
  pending := []
  seen := []
  worlds := 1
  edges := Edge.reflect logic 0 []
  boxes := []
  universals := []
  domain := domain
  nextOf := []
  fresh := 0
  closed := false
  approximate := false

/-! ### Adding formulas -/

/-- Lets `f` hold at `w`, or closes the branch if its negation is to hold there. -/
def add (b : Branch) (w : World) (f : Formula) : Branch :=
  if b.closed || (w, f) ∈ b.seen then b
  else if (w, f.negation) ∈ b.seen then { b with closed := true }
  else { b with seen := (w, f) :: b.seen, pending := b.pending ++ [(w, f)] }

/-- Adds several formulas. -/
def addAll (b : Branch) (fs : List Labelled) : Branch :=
  fs.foldl (fun b (w, f) => b.add w f) b

/-- The worlds that `w` sees. -/
def successors (b : Branch) (r : Relation) (w : World) : List World :=
  Edge.successors b.edges r w

/-! ### Worlds -/

/-- A new world, or none when the limit is reached. -/
def newWorld (b : Branch) : Option World × Branch :=
  if b.maxWorlds ≤ b.worlds then (none, { b with approximate := true })
  else
    (some b.worlds,
      { b with worlds := b.worlds + 1, edges := Edge.reflect b.logic b.worlds b.edges })

/-- Lets every box hold at every successor of its world. -/
def propagate (b : Branch) : Branch :=
  b.addAll (b.boxes.flatMap fun (r, w, body) => (b.successors r w).map (·, body))

/-- Lets `v` see `w`. -/
def connect (b : Branch) (r : Relation) (v w : World) : Branch :=
  propagate { b with edges := Edge.link b.logic r v w b.edges }

/-- Lets `body` hold at every successor of `w`. -/
def box (b : Branch) (r : Relation) (w : World) (body : Formula) : Branch :=
  addAll { b with boxes := b.boxes ++ [(r, w, body)] } ((b.successors r w).map (·, body))

/-- Lets `body` hold at some successor of `w`. -/
def diamond (b : Branch) (r : Relation) (w : World) (body : Formula) : Branch :=
  if (b.successors r w).any fun v => (v, body) ∈ b.seen then b
  else
    match b.newWorld with
    | (some v, b) => (b.add v body).connect r w v
    | (none, b) => b

/-- Lets `body` hold at the next world of `w`. -/
def next (b : Branch) (w : World) (body : Formula) : Branch :=
  match b.nextOf.lookup w with
  | some v => b.add v body
  | none =>
    match b.newWorld with
    | (some v, b) =>
      (connect { b with nextOf := (w, v) :: b.nextOf } .temporal w v).add v body
    | (none, b) => b

/-! ### Constants -/

/-- The name of the `n`-th fresh constant. -/
def freshName (n : Nat) : String :=
  "sk" ++ toString n

/-- A constant that the branch does not have yet, or none when the limit is reached.  Of as many
fresh names and one more as there are constants, one is new. -/
def freshConstant (b : Branch) : Option String × Branch :=
  if b.maxWorlds ≤ b.domain.length then (none, { b with approximate := true })
  else
    match (List.range' (b.fresh + 1) (b.domain.length + 1)).find?
        (fun n => freshName n ∉ b.domain) with
    | some n =>
      (some (freshName n), { b with fresh := n, domain := b.domain ++ [freshName n] })
    | none => (none, { b with approximate := true })

/-- Lets every universal formula hold for the constant `c`. -/
def instantiate (b : Branch) (c : String) : Branch :=
  b.addAll (b.universals.map fun (w, x, body) => (w, body.substitute x (.const c)))

/-- Lets `body` hold at `w` for every value of `x`.  The domain is never empty. -/
def universal (b : Branch) (w : World) (x : String) (body : Formula) : Branch :=
  let b := { b with universals := b.universals ++ [(w, x, body)] }
  if b.domain.isEmpty then
    match b.freshConstant with
    | (some c, b) => b.instantiate c
    | (none, b) => b
  else b.addAll (b.domain.map fun c => (w, body.substitute x (.const c)))

/-- Lets `body` hold at `w` for some value of `x`, a fresh constant. -/
def existential (b : Branch) (w : World) (x : String) (body : Formula) : Branch :=
  match b.freshConstant with
  | (some c, b) => (b.add w (body.substitute x (.const c))).instantiate c
  | (none, b) => b

/-! ### Steps -/

/-- What one step on a branch comes to. -/
inductive Step where
  | progress (b : Branch)
  /-- The branch is to go on with one of the alternatives. -/
  | split (b : Branch) (alternatives : List (List Labelled))
  /-- Nothing is left to do. -/
  | complete (b : Branch)
  deriving Repr, Inhabited

/-- Expands the negation of `f` at `w`. -/
def expandNot (b : Branch) (w : World) (f : Formula) : Step :=
  match f with
  | .pred _ _ => .progress b
  | .not a => .progress (b.add w a)
  | .and l r => .split b [[(w, l.negation)], [(w, r.negation)]]
  | .or l r => .progress ((b.add w l.negation).add w r.negation)
  | .implies l r => .progress ((b.add w l).add w r.negation)
  | .iff l r => .split b [[(w, l), (w, r.negation)], [(w, l.negation), (w, r)]]
  | .xor l r => .split b [[(w, l), (w, r)], [(w, l.negation), (w, r.negation)]]
  | .all x a => .progress (b.existential w x a.negation)
  | .exists x a => .progress (b.universal w x a.negation)
  | .obligatory a => .progress (b.diamond .deontic w a.negation)
  | .permitted a => .progress (b.box .deontic w a.negation)
  | .forbidden a => .progress (b.diamond .deontic w a)
  | .always a => .progress (b.diamond .temporal w a.negation)
  | .eventually a => .progress (b.box .temporal w a.negation)
  | .next a => .progress (b.next w a.negation)
  | .span _ _ r => .progress (add { b with approximate := true } w r.negation)

/-- Expands `f` at `w`. -/
def expand (b : Branch) (w : World) (f : Formula) : Step :=
  match f with
  | .pred _ _ => .progress b
  | .and l r => .progress ((b.add w l).add w r)
  | .or l r => .split b [[(w, l)], [(w, r)]]
  | .implies l r => .split b [[(w, l.negation)], [(w, r)]]
  | .iff l r => .split b [[(w, l), (w, r)], [(w, l.negation), (w, r.negation)]]
  | .xor l r => .split b [[(w, l), (w, r.negation)], [(w, l.negation), (w, r)]]
  | .all x a => .progress (b.universal w x a)
  | .exists x a => .progress (b.existential w x a)
  | .obligatory a => .progress (b.box .deontic w a)
  | .permitted a => .progress (b.diamond .deontic w a)
  | .forbidden a => .progress (b.box .deontic w a.negation)
  | .always a => .progress (b.box .temporal w a)
  | .eventually a => .progress (b.diamond .temporal w a)
  | .next a => .progress (b.next w a)
  | .until l r => .split { b with approximate := true } [[(w, r)], [(w, l), (w, r.eventually)]]
  | .since l r => .split { b with approximate := true } [[(w, r)], [(w, l)]]
  | .not a => b.expandNot w a

/-- When a formula is expanded: zero for one that only adds, one for one that makes a world or a
constant, two for one that splits. -/
def urgency : Formula → Nat
  | .or _ _ | .implies _ _ | .iff _ _ | .xor _ _ | .span _ _ _ => 2
  | .not (.and _ _) | .not (.iff _ _) | .not (.xor _ _) => 2
  | .not (.always _) | .not (.next _) | .not (.obligatory _) | .not (.forbidden _)
  | .not (.all _ _) => 1
  | .eventually _ | .next _ | .permitted _ | .exists _ _ => 1
  | _ => 0

/-- The first pending formula of the given urgency, and the others in their order. -/
def takeUrgency (n : Nat) : List Labelled → Option (Labelled × List Labelled)
  | [] => none
  | p :: ps =>
    if urgency p.2 = n then some (p, ps)
    else (takeUrgency n ps).map fun (q, rest) => (q, p :: rest)

/-- The pending formula to expand next, and the others in their order. -/
def pick (pending : List Labelled) : Option (Labelled × List Labelled) :=
  (takeUrgency 0 pending).orElse fun _ =>
    (takeUrgency 1 pending).orElse fun _ => takeUrgency 2 pending

/-- The worlds at which a box has no successor to hold at, in order. -/
def needy (b : Branch) : List (Relation × World) :=
  let bare := b.boxes.filterMap fun (r, w, _) =>
    if (b.successors r w).isEmpty then some (r, w) else none
  let worldsOf (r : Relation) : List (Relation × World) :=
    (SortedSet.ofList (bare.filterMap fun p => if p.1 = r then some p.2 else none)).map (r, ·)
  worldsOf .temporal ++ worldsOf .deontic

/-- Gives a successor to every world that needs one, and says whether one was made. -/
def serialize (b : Branch) : Bool × Branch :=
  if !b.logic.isSerial || b.logic.isReflexive then (false, b)
  else
    b.needy.foldl
      (fun (made, b) (r, w) =>
        match b.newWorld with
        | (some v, b) => (true, b.connect r w v)
        | (none, b) => (made, b))
      (false, b)

/-- One step on a branch. -/
def step (b : Branch) : Step :=
  match pick b.pending with
  | some ((w, f), rest) => expand { b with pending := rest } w f
  | none =>
    match b.serialize with
    | (true, b) => .progress b
    | (false, b) => .complete b

end Branch

end Deontica
