/-!
# Terms

First-order terms: variables, constants and applications of function symbols.  A variable is meant
to be bound by an enclosing quantifier; a name that no quantifier binds is a constant.

Functions over argument lists are written beside the functions over terms, one recursion for both,
so that every definition here is structural.
-/

namespace Deontica

/-- A first-order term. -/
inductive Term where
  /-- A variable bound by an enclosing quantifier. -/
  | var (name : String)
  /-- A constant. -/
  | const (name : String)
  /-- A function symbol applied to its arguments, of which there may be none. -/
  | app (symbol : String) (args : List Term)
  deriving Repr, Inhabited

namespace Term

/-! ### Equality -/

mutual

/-- Terms have decidable equality. -/
def decEq : (s t : Term) → Decidable (s = t)
  | .var a, .var b =>
    if h : a = b then isTrue (by rw [h]) else isFalse fun e => h (Term.var.inj e)
  | .const a, .const b =>
    if h : a = b then isTrue (by rw [h]) else isFalse fun e => h (Term.const.inj e)
  | .app f as, .app g bs =>
    if h : f = g then
      match decEqArgs as bs with
      | isTrue h' => isTrue (by rw [h, h'])
      | isFalse h' => isFalse fun e => h' (Term.app.inj e).2
    else isFalse fun e => h (Term.app.inj e).1
  | .var _, .const _ | .var _, .app _ _ | .const _, .var _ | .const _, .app _ _
  | .app _ _, .var _ | .app _ _, .const _ => isFalse nofun

/-- Argument lists have decidable equality. -/
def decEqArgs : (ss ts : List Term) → Decidable (ss = ts)
  | [], [] => isTrue rfl
  | [], _ :: _ | _ :: _, [] => isFalse nofun
  | s :: ss, t :: ts =>
    match decEq s t with
    | isTrue h =>
      match decEqArgs ss ts with
      | isTrue h' => isTrue (by rw [h, h'])
      | isFalse h' => isFalse fun e => h' (List.cons.inj e).2
    | isFalse h => isFalse fun e => h (List.cons.inj e).1

end

instance : DecidableEq Term := decEq

/-! ### Order -/

/-- The place of a term's kind in the order of terms. -/
def rank : Term → Nat
  | .var _ => 0
  | .const _ => 1
  | .app _ _ => 2

mutual

/-- Terms are ordered by kind (variables, constants, applications), then by name, then by their
arguments from left to right, a shorter list coming before its extensions. -/
def order : Term → Term → Ordering
  | .var a, .var b => compare a b
  | .const a, .const b => compare a b
  | .app f as, .app g bs => (compare f g).then (orderArgs as bs)
  | s, t => compare s.rank t.rank

/-- The lexicographic order of argument lists. -/
def orderArgs : List Term → List Term → Ordering
  | [], [] => .eq
  | [], _ :: _ => .lt
  | _ :: _, [] => .gt
  | s :: ss, t :: ts => (order s t).then (orderArgs ss ts)

end

instance : Ord Term := ⟨order⟩

/-! ### Text -/

mutual

/-- The text of a term: a name, or a symbol with its arguments in parentheses. -/
def render : Term → String
  | .var x => x
  | .const c => c
  | .app f args => f ++ "(" ++ renderArgs args ++ ")"

/-- The texts of the arguments, separated by a comma and a space. -/
def renderArgs : List Term → String
  | [] => ""
  | t :: ts => render t ++ renderMore ts

/-- The texts of the arguments after the first, each led by a comma and a space. -/
def renderMore : List Term → String
  | [] => ""
  | t :: ts => ", " ++ render t ++ renderMore ts

end

/-! ### Operations -/

/-- The name of a variable or constant, or the symbol at the head of an application. -/
def head : Term → String
  | .var x => x
  | .const c => c
  | .app f _ => f

mutual

/-- Whether no variable occurs in the term. -/
def isGround : Term → Bool
  | .var _ => false
  | .const _ => true
  | .app _ args => allGround args

/-- Whether no variable occurs in any of the terms. -/
def allGround : List Term → Bool
  | [] => true
  | t :: ts => isGround t && allGround ts

end

mutual

/-- Puts `replacement` for every occurrence of the variable `x`. -/
def substitute (t : Term) (x : String) (replacement : Term) : Term :=
  match t with
  | .var y => if y = x then replacement else .var y
  | .const c => .const c
  | .app f args => .app f (substituteArgs args x replacement)

/-- Puts `replacement` for every occurrence of the variable `x` in a list of terms. -/
def substituteArgs (ts : List Term) (x : String) (replacement : Term) : List Term :=
  match ts with
  | [] => []
  | t :: ts => t.substitute x replacement :: substituteArgs ts x replacement

end

mutual

/-- The names of the constants of a term, one for each occurrence, from left to right. -/
def constants : Term → List String
  | .var _ => []
  | .const c => [c]
  | .app _ args => constantsArgs args

/-- The names of the constants of a list of terms. -/
def constantsArgs : List Term → List String
  | [] => []
  | t :: ts => constants t ++ constantsArgs ts

end

end Term

end Deontica
