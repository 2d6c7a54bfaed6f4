import Deontica.Formula
import Deontica.Token.Lexer

/-!
# Reading formulas

A formula is read from its tokens by descent along a ladder of precedence.  From loosest to
tightest the rungs are `↔`, `→`, `∨`, `⊕`, `∧`, then `U` and `S`, then the prefix operators.
Implication and the two spans group to the right, the others to the left, and the body of a
quantifier reaches as far right as it can.

Nesting is bounded.  The *room* of a reader is the number of levels it may still open: a formula, an
operand of a prefix operator, the right operand of an implication or span, and a term each take one.
Recursion is on the room, so every text is read in the end, and a text nested too deeply is refused
at the place where the room ran out.  Chains of left-grouping operators take no room while they are
read; the depth of the tree they build is held to the same limit operand by operand.

A name in argument position is a variable when an enclosing quantifier binds it, and a constant
otherwise.
-/

namespace Deontica

/-- What stays fixed while one text is read. -/
structure Source where
  /-- The nesting limit, for error messages and for the depth of chains. -/
  limit : Nat
  /-- The length of the text in bytes. -/
  length : Nat

/-- A reader takes an `α` off the front of a token list and gives it with the tokens left over. -/
abbrev Reader (α : Type) : Type := List Located → Except ParseError (α × List Located)

namespace Source

/-- The offset of the first token left, or the end of the text. -/
def offset (s : Source) : List Located → Nat
  | [] => s.length
  | t :: _ => t.offset

/-- The complaint that the tokens left do not begin as they should. -/
def refuse {α : Type} (s : Source) (tokens : List Located) (complaint : Option Token → Complaint) :
    Except ParseError α :=
  .error (.malformed (s.offset tokens) (complaint (tokens.head?.map (·.token))))

/-- The complaint that nesting has no room left. -/
def tooDeep {α : Type} (s : Source) (tokens : List Located) : Except ParseError α :=
  .error (.tooDeep s.limit (s.offset tokens))

/-- Passes the token `wanted`. -/
def expect (s : Source) (wanted : Token) : List Located → Except ParseError (List Located)
  | [] => s.refuse [] (.expected wanted)
  | t :: rest => if t.token = wanted then .ok rest else s.refuse (t :: rest) (.expected wanted)

/-! ### Terms -/

/-- Reads the arguments after the first up to the closing parenthesis.  The count bounds the
number of tokens. -/
def moreArgs (s : Source) (term : Reader Term) :
    Nat → Reader (List Term)
  | n + 1, t :: rest =>
    match t.token with
    | .close => .ok ([], rest)
    | .comma => do
      let (arg, rest) ← term rest
      let (args, rest) ← moreArgs s term n rest
      return (arg :: args, rest)
    | _ => s.refuse (t :: rest) .expectedSeparator
  | _, tokens => s.refuse tokens .expectedSeparator

/-- Reads arguments in parentheses, of which there may be none. -/
def args (s : Source) (term : Reader Term) (tokens : List Located) :
    Except ParseError (List Term × List Located) := do
  let tokens ← s.expect .open tokens
  match tokens with
  | ⟨.close, _⟩ :: rest => return ([], rest)
  | _ =>
    let (arg, rest) ← term tokens
    let (args, rest) ← s.moreArgs term rest.length rest
    return (arg :: args, rest)

/-- Reads a term with the given room, where `bound` lists the variables in scope. -/
def term (s : Source) (bound : List String) : (room : Nat) → Reader Term
  | 0, tokens => s.tooDeep tokens
  | room + 1, tokens =>
    match tokens with
    | ⟨.name x, _⟩ :: rest =>
      match rest with
      | ⟨.open, _⟩ :: _ => do
        let (args, rest) ← s.args (term s bound room) rest
        return (.app x args, rest)
      | _ => .ok (if x ∈ bound then .var x else .const x, rest)
    | _ => s.refuse tokens .expectedTerm

/-! ### Operators -/

/-- Reads the operands after the first of a left-grouping operator, `token`, and builds the tree as
it goes.  `depth` is the depth of `left`; the count bounds the number of tokens. -/
def chain (s : Source) (op : Connective) (token : Token) (operand : Reader Formula) :
    Nat → (left : Formula) → (depth : Nat) → Reader Formula
  | n + 1, left, depth, t :: rest =>
    if t.token = token then do
      let (right, rest) ← operand rest
      let depth := max depth right.depth + 1
      if depth > s.limit then s.tooDeep rest
      else chain s op token operand n (.binary op left right) depth rest
    else .ok (left, t :: rest)
  | _, left, _, tokens => .ok (left, tokens)

/-- Reads operands joined by a left-grouping operator. -/
def leftGrouped (s : Source) (op : Connective) (token : Token)
    (operand : Reader Formula) (tokens : List Located) :
    Except ParseError (Formula × List Located) := do
  let (left, rest) ← operand tokens
  s.chain op token operand rest.length left left.depth rest

/-- The span operator that a token stands for after an operand. -/
def spanOp : Token → Option Span
  | .until | .name "U" => some .until
  | .since | .name "S" => some .since
  | _ => none

/-- The deontic operator that a name stands for before a parenthesis. -/
def normOp : String → Option Norm
  | "O" => some .obligatory
  | "P" => some .permitted
  | "F" => some .forbidden
  | _ => none

/-- The places at which reading opens a level. -/
inductive Rung where
  | formula
  | implication
  | span
  | unary
  deriving Repr, DecidableEq

/-- The readers of the next level: one for each rung, and one for terms.  Both take the variables in
scope. -/
structure Level where
  formula : Rung → List String → Reader Formula
  term : List String → Reader Term

/-- Reads a formula in parentheses. -/
def parenthesized (s : Source) (below : Level) (bound : List String) (tokens : List Located) :
    Except ParseError (Formula × List Located) := do
  let tokens ← s.expect .open tokens
  let (body, rest) ← below.formula .formula bound tokens
  let rest ← s.expect .close rest
  return (body, rest)

/-- Reads what follows a quantifier: the variable, an optional point or colon, and the body. -/
def quantified (s : Source) (below : Level) (bound : List String) (q : Quantifier)
    (tokens : List Located) : Except ParseError (Formula × List Located) :=
  match tokens with
  | ⟨.name x, _⟩ :: rest => do
    let rest := match rest with
      | ⟨.point, _⟩ :: more | ⟨.colon, _⟩ :: more => more
      | _ => rest
    let (body, rest) ← below.formula .formula (x :: bound) rest
    return (.quant q x body, rest)
  | _ => s.refuse tokens .expectedVariable

/-- Reads what starts with the name `x`, given the tokens after it: a deontic operator or `X` when
it stands for one and a parenthesis follows, otherwise a predicate. -/
def named (s : Source) (below : Level) (bound : List String) (x : String)
    (tokens : List Located) : Except ParseError (Formula × List Located) :=
  match tokens with
  | ⟨.open, _⟩ :: _ =>
    match normOp x with
    | some op => do
      let (body, rest) ← s.parenthesized below bound tokens
      return (.deontic op body, rest)
    | none =>
      if x = "X" then do
        let (body, rest) ← s.parenthesized below bound tokens
        return (.next body, rest)
      else do
        let (args, rest) ← s.args (below.term bound) tokens
        return (.pred x args, rest)
  | _ => .ok (.pred x [], tokens)

/-- Reads a formula whose first token decides its shape. -/
def unary (s : Source) (below : Level) (bound : List String) (tokens : List Located) :
    Except ParseError (Formula × List Located) :=
  let operand (build : Formula → Formula) (rest : List Located) :
      Except ParseError (Formula × List Located) := do
    let (body, rest) ← below.formula .unary bound rest
    return (build body, rest)
  match tokens with
  | ⟨.not, _⟩ :: rest => operand .not rest
  | ⟨.always, _⟩ :: rest => operand .always rest
  | ⟨.eventually, _⟩ :: rest => operand .eventually rest
  | ⟨.next, _⟩ :: rest => operand .next rest
  | ⟨.all, _⟩ :: rest => s.quantified below bound .all rest
  | ⟨.exists, _⟩ :: rest => s.quantified below bound .exists rest
  | ⟨.open, _⟩ :: _ => s.parenthesized below bound tokens
  | ⟨.name x, _⟩ :: rest => s.named below bound x rest
  | _ => s.refuse tokens .unexpected

/-! ### The ladder -/

/-- Reads at a rung of the ladder, given the readers one level below, or `none` when there is no
room for another level. -/
def ladder (s : Source) (below : Option Level) (rung : Rung) (bound : List String)
    (tokens : List Located) : Except ParseError (Formula × List Located) :=
  let enter (rung : Rung) (tokens : List Located) : Except ParseError (Formula × List Located) :=
    match below with
    | none => s.tooDeep tokens
    | some level => level.formula rung bound tokens
  let prefixed (tokens : List Located) : Except ParseError (Formula × List Located) :=
    match below with
    | none => s.tooDeep tokens
    | some level => s.unary level bound tokens
  let spanning (tokens : List Located) : Except ParseError (Formula × List Located) := do
    let (left, rest) ← prefixed tokens
    match rest with
    | [] => return (left, [])
    | t :: more =>
      match spanOp t.token with
      | none => return (left, rest)
      | some op =>
        let (right, rest) ← enter .span more
        return (.span op left right, rest)
  let conjunction := s.leftGrouped .and .and spanning
  let parity := s.leftGrouped .xor .xor conjunction
  let disjunction := s.leftGrouped .or .or parity
  match rung with
  | .unary => prefixed tokens
  | .span => spanning tokens
  | .implication => do
    let (left, rest) ← disjunction tokens
    match rest with
    | ⟨.implies, _⟩ :: more =>
      let (right, rest) ← enter .implication more
      return (.implies left right, rest)
    | _ => return (left, rest)
  | .formula => s.leftGrouped .iff .iff (enter .implication) tokens

/-- Reads at a rung with the given room. -/
def read (s : Source) : (room : Nat) → Rung → List String → Reader Formula
  | 0, rung, bound, tokens => s.ladder none rung bound tokens
  | room + 1, rung, bound, tokens =>
    s.ladder (some ⟨read s room, fun bound => s.term bound room⟩) rung bound tokens

end Source

namespace Formula

/-- The nesting limit when none is given. -/
def defaultLimit : Nat := 256

/-- Reads a formula from its text.  The whole text has to be used, and the formula may not be deeper
than `limit`. -/
def parseWithin (limit : Nat) (text : String) : Except ParseError Formula := do
  let tokens ← Token.tokenize text
  let s : Source := ⟨limit, text.utf8ByteSize⟩
  if tokens.isEmpty then throw (.malformed 0 .empty)
  let (f, rest) ← s.read limit .formula [] tokens
  if !rest.isEmpty then s.refuse rest .unexpected
  else if f.depth > limit then throw (.tooDeep limit 0)
  else return f

/-- Reads a formula with the usual nesting limit. -/
def parse (text : String) : Except ParseError Formula :=
  parseWithin defaultLimit text

/-- Reads several formulas and stops at the first that fails. -/
def parseAllWithin (limit : Nat) (texts : List String) : Except ParseError (List Formula) :=
  texts.mapM (parseWithin limit)

end Formula

end Deontica
