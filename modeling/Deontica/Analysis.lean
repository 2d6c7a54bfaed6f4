import Deontica.Config
import Deontica.Formula
import Deontica.Text.LowerCase

/-!
# Analysis of a problem

A goal and its axioms are walked once and profiled: how often each kind of operator occurs, how deep
operators and quantifiers nest, and whether arithmetic is used.  From the profile follow the
fragment of logic that the problem lives in, a score of its difficulty from 0 to 100 with a bucket,
and the provers recommended for that fragment and bucket.

Counts of several formulas add up, depths take the greatest, and the fragment is the widest present.
-/

namespace Deontica

/-! ### Fragments and buckets -/

/-- The fragment of logic that a problem lives in. -/
inductive Fragment where
  /-- Terms or quantifiers, the latter not nested. -/
  | firstOrder
  /-- `□` and `◊` only. -/
  | modal
  /-- `X`, `U` or `S`. -/
  | temporal
  | deontic
  /-- Deontic operators together with temporal ones. -/
  | mixed
  /-- Arithmetic symbols or numerals. -/
  | arithmetic
  /-- Nested quantifiers. -/
  | quantified
  | propositional
  deriving Repr, DecidableEq, Inhabited

namespace Fragment

def name : Fragment → String
  | .firstOrder => "FOL"
  | .modal => "Modal"
  | .temporal => "Temporal"
  | .deontic => "Deontic"
  | .mixed => "Mixed"
  | .arithmetic => "Arithmetic"
  | .quantified => "Quantified"
  | .propositional => "Propositional"

/-- All fragments. -/
def every : List Fragment :=
  [.firstOrder, .modal, .temporal, .deontic, .mixed, .arithmetic, .quantified, .propositional]

end Fragment

/-- How hard a problem is, roughly. -/
inductive Bucket where
  | low
  | medium
  | high
  deriving Repr, DecidableEq, Inhabited

namespace Bucket

def name : Bucket → String
  | .low => "Low"
  | .medium => "Medium"
  | .high => "High"

/-- All buckets. -/
def every : List Bucket := [.low, .medium, .high]

end Bucket

/-! ### Recommended provers -/

/-- A row of a prover mapping; without a bucket it is for every bucket. -/
structure MappingRow where
  fragment : Fragment
  bucket : Option Bucket
  provers : List String
  deriving Repr, DecidableEq, Inhabited

/-- Which provers to recommend: those of the first row that applies, or the fallback. -/
structure Mapping where
  rows : List MappingRow
  fallback : List String
  deriving Repr, DecidableEq, Inhabited

namespace Mapping

/-- The provers for a fragment and a bucket, best first. -/
def lookup (m : Mapping) (fragment : Fragment) (bucket : Bucket) : List String :=
  match m.rows.find? fun row => row.fragment == fragment && row.bucket.all (· == bucket) with
  | some row => row.provers
  | none => m.fallback

/-- The mapping in use unless another is given. -/
def standard : Mapping where
  rows :=
    [⟨.propositional, some .low, ["native", "z3", "cvc5"]⟩,
      ⟨.propositional, none, ["z3", "native", "cvc5"]⟩,
      ⟨.firstOrder, some .low, ["native", "vampire", "z3"]⟩,
      ⟨.firstOrder, none, ["vampire", "z3", "native"]⟩,
      ⟨.quantified, none, ["vampire", "cvc5", "z3", "native"]⟩,
      ⟨.arithmetic, none, ["z3", "cvc5", "native"]⟩,
      ⟨.modal, some .high, ["isabelle", "lean", "native"]⟩,
      ⟨.modal, none, ["native", "isabelle", "lean"]⟩,
      ⟨.temporal, some .high, ["isabelle", "coq", "native"]⟩,
      ⟨.temporal, none, ["native", "isabelle", "coq"]⟩,
      ⟨.deontic, some .high, ["isabelle", "native"]⟩,
      ⟨.deontic, none, ["native", "isabelle"]⟩,
      ⟨.mixed, some .high, ["isabelle", "coq", "lean", "native"]⟩,
      ⟨.mixed, none, ["native", "isabelle", "coq"]⟩]
  fallback := ["native"]

end Mapping

/-! ### Settings -/

/-- Settings of the analyzer. -/
structure AnalyzerConfig where
  /-- Scores below this are low. -/
  lowThreshold : Nat := 30
  /-- Scores from this on are high. -/
  highThreshold : Nat := 60
  /-- Names of predicates and functions that count as arithmetic, in any case. -/
  arithmeticSymbols : List String :=
    ["add", "sub", "mul", "div", "mod", "plus", "minus", "times", "succ", "pred", "lt", "le", "gt",
      "ge", "less", "greater", "leq", "geq", "sum", "product", "even", "odd", "prime", "divides"]
  mapping : Mapping := .standard
  deriving Repr, DecidableEq, Inhabited

namespace AnalyzerConfig

def validate (c : AnalyzerConfig) : Except ConfigError Unit := do
  demand (c.lowThreshold < c.highThreshold && c.highThreshold ≤ 100)
    (.thresholds c.lowThreshold c.highThreshold)
  demand (!c.mapping.fallback.isEmpty) .noFallback
  match c.mapping.rows.find? (·.provers.isEmpty) with
  | some row => .error (.emptyRow row.fragment.name)
  | none => .ok ()

/-- The bucket of a score. -/
def bucket (c : AnalyzerConfig) (score : Nat) : Bucket :=
  if score < c.lowThreshold then .low else if score < c.highThreshold then .medium else .high

/-- Whether a name is one of the arithmetic symbols. -/
def isArithmetic (c : AnalyzerConfig) (name : String) : Bool :=
  let name := Text.lower name
  c.arithmeticSymbols.any (Text.lower · == name)

end AnalyzerConfig

/-! ### Profiles -/

/-- How often each kind of operator occurs. -/
structure OperatorCounts where
  predicates : Nat := 0
  negations : Nat := 0
  connectives : Nat := 0
  quantifiers : Nat := 0
  obligations : Nat := 0
  permissions : Nat := 0
  prohibitions : Nat := 0
  /-- `□` and `◊`. -/
  modal : Nat := 0
  /-- `X`, `U` and `S`. -/
  temporal : Nat := 0
  deriving Repr, DecidableEq, Inhabited

/-- How often a deontic operator occurs. -/
def OperatorCounts.deontic (c : OperatorCounts) : Nat :=
  c.obligations + c.permissions + c.prohibitions

/-- What a walk over formulas has met. -/
structure Profile where
  counts : OperatorCounts := {}
  /-- The most quantifiers on one path. -/
  quantifierDepth : Nat := 0
  /-- The most operators above a node. -/
  nesting : Nat := 0
  size : Nat := 0
  arithmetic : Bool := false
  /-- Whether some predicate has arguments. -/
  hasArgs : Bool := false
  deriving Repr, DecidableEq, Inhabited

namespace Profile

mutual

/-- Whether a term is a numeral or uses an arithmetic symbol. -/
def arithmeticTerm (isSymbol : String → Bool) : Term → Bool
  | .var _ => false
  | .const c => !c.isEmpty && c.toList.all Char.isDigit
  | .app f args => isSymbol f || arithmeticArgs isSymbol args

/-- Whether one of the terms is a numeral or uses an arithmetic symbol. -/
def arithmeticArgs (isSymbol : String → Bool) : List Term → Bool
  | [] => false
  | t :: ts => arithmeticTerm isSymbol t || arithmeticArgs isSymbol ts

end

/-- Accounts for a node with so many operators and quantifiers above it, the node's own quantifier
included. -/
def meet (p : Profile) (nesting quantifiers : Nat) : Profile :=
  { p with
    size := p.size + 1
    nesting := max p.nesting nesting
    quantifierDepth := max p.quantifierDepth quantifiers }

/-- Counts a deontic operator. -/
def countNorm (c : OperatorCounts) : Norm → OperatorCounts
  | .obligatory => { c with obligations := c.obligations + 1 }
  | .permitted => { c with permissions := c.permissions + 1 }
  | .forbidden => { c with prohibitions := c.prohibitions + 1 }

/-- Counts a temporal operator on one formula. -/
def countTense (c : OperatorCounts) : Tense → OperatorCounts
  | .next => { c with temporal := c.temporal + 1 }
  | .always | .eventually => { c with modal := c.modal + 1 }

/-- Walks over a formula that has so many operators and quantifiers above it. -/
def observe (isSymbol : String → Bool) (f : Formula) (nesting quantifiers : Nat) (p : Profile) :
    Profile :=
  let c := p.counts
  match f with
  | .pred name args =>
    let p := p.meet nesting quantifiers
    { p with
      counts := { c with predicates := c.predicates + 1 }
      hasArgs := p.hasArgs || !args.isEmpty
      arithmetic := p.arithmetic || isSymbol name || arithmeticArgs isSymbol args }
  | .not a =>
    let p := { p.meet nesting quantifiers with counts := { c with negations := c.negations + 1 } }
    observe isSymbol a (nesting + 1) quantifiers p
  | .binary _ a b =>
    let p :=
      { p.meet nesting quantifiers with counts := { c with connectives := c.connectives + 1 } }
    observe isSymbol b (nesting + 1) quantifiers (observe isSymbol a (nesting + 1) quantifiers p)
  | .quant _ _ a =>
    let p :=
      { p.meet nesting (quantifiers + 1) with
        counts := { c with quantifiers := c.quantifiers + 1 } }
    observe isSymbol a (nesting + 1) (quantifiers + 1) p
  | .deontic op a =>
    let p := { p.meet nesting quantifiers with counts := countNorm c op }
    observe isSymbol a (nesting + 1) quantifiers p
  | .tense op a =>
    let p := { p.meet nesting quantifiers with counts := countTense c op }
    observe isSymbol a (nesting + 1) quantifiers p
  | .span _ a b =>
    let p := { p.meet nesting quantifiers with counts := { c with temporal := c.temporal + 1 } }
    observe isSymbol b (nesting + 1) quantifiers (observe isSymbol a (nesting + 1) quantifiers p)

/-- The profile of several formulas, each walked on its own. -/
def ofFormulas (isSymbol : String → Bool) (fs : List Formula) : Profile :=
  fs.foldl (fun p f => observe isSymbol f 0 0 p) {}

/-- The fragment that a profile speaks of. -/
def fragment (p : Profile) : Fragment :=
  if 0 < p.counts.deontic && (0 < p.counts.modal || 0 < p.counts.temporal) then .mixed
  else if 0 < p.counts.deontic then .deontic
  else if 0 < p.counts.temporal then .temporal
  else if 0 < p.counts.modal then .modal
  else if p.arithmetic then .arithmetic
  else if 2 ≤ p.quantifierDepth then .quantified
  else if 0 < p.counts.quantifiers || p.hasArgs then .firstOrder
  else .propositional

/-- Twice the weight of a profile: a node weighs a half, a level of nesting 2, a quantifier 3, a
level of quantifiers 8, a deontic or modal operator 4, a temporal one 5. -/
def doubleWeight (p : Profile) : Nat :=
  p.size + 4 * p.nesting + 6 * p.counts.quantifiers + 16 * p.quantifierDepth +
    8 * p.counts.deontic + 8 * p.counts.modal + 10 * p.counts.temporal

/-- The weight, rounded up to a whole number and cut off at 100. -/
def score (p : Profile) : Nat :=
  min 100 ((p.doubleWeight + 1) / 2)

end Profile

/-! ### Analyses -/

/-- What is known of a problem before it is tried. -/
structure Analysis where
  fragment : Fragment
  score : Nat
  bucket : Bucket
  quantifierDepth : Nat
  nesting : Nat
  size : Nat
  counts : OperatorCounts
  /-- The names of provers, best first. -/
  recommended : List String
  deriving Repr, DecidableEq, Inhabited

namespace AnalyzerConfig

/-- The analysis that a profile leads to. -/
def conclude (c : AnalyzerConfig) (p : Profile) : Analysis where
  fragment := p.fragment
  score := p.score
  bucket := c.bucket p.score
  quantifierDepth := p.quantifierDepth
  nesting := p.nesting
  size := p.size
  counts := p.counts
  recommended := c.mapping.lookup p.fragment (c.bucket p.score)

/-- The analysis of one formula. -/
def analyze (c : AnalyzerConfig) (f : Formula) : Analysis :=
  c.conclude (Profile.observe c.isArithmetic f 0 0 {})

/-- The analysis of a goal with its axioms. -/
def analyzeProblem (c : AnalyzerConfig) (goal : Formula) (axioms : List Formula) : Analysis :=
  c.conclude (Profile.ofFormulas c.isArithmetic (goal :: axioms))

end AnalyzerConfig

end Deontica
