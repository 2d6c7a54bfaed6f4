import Deontica.Analysis
import Deontica.Analysis.Json
import Deontica.Budget
import Deontica.Cache
import Deontica.Cache.Key
import Deontica.Config
import Deontica.Config.Json
import Deontica.Config.System
import Deontica.Config.System.Json
import Deontica.Digest.Blake3
import Deontica.Dispatch
import Deontica.Duration
import Deontica.Engine
import Deontica.Formula
import Deontica.Formula.Json
import Deontica.Formula.Order
import Deontica.Formula.Parser
import Deontica.Formula.Printer
import Deontica.Formula.Walk
import Deontica.Json
import Deontica.Json.Fields
import Deontica.Json.Reader
import Deontica.Logic
import Deontica.ParseError
import Deontica.Pattern
import Deontica.Proof
import Deontica.Proof.Json
import Deontica.Proofs.Cache.Key
import Deontica.Proofs.Engine
import Deontica.Proofs.Engine.Consequence
import Deontica.Proofs.Engine.CounterModel
import Deontica.Proofs.Engine.Limits
import Deontica.Proofs.Formula.Accepted
import Deontica.Proofs.Formula.Canonical
import Deontica.Proofs.Formula.Ladder
import Deontica.Proofs.Formula.Levels
import Deontica.Proofs.Formula.RoundTrip
import Deontica.Proofs.Kripke
import Deontica.Proofs.Pattern
import Deontica.Proofs.Range
import Deontica.Proofs.Rule
import Deontica.Proofs.Rule.Agreement
import Deontica.Proofs.Tableau.Branch
import Deontica.Proofs.Tableau.BranchModel
import Deontica.Proofs.Tableau.Closure
import Deontica.Proofs.Tableau.Demand
import Deontica.Proofs.Tableau.Frame
import Deontica.Proofs.Tableau.Rounds
import Deontica.Proofs.Tableau.Run
import Deontica.Proofs.Tableau.Saturation
import Deontica.Proofs.Token.Lexer
import Deontica.Prover
import Deontica.Prover.Json
import Deontica.Prover.Native
import Deontica.Race
import Deontica.Race.Runner
import Deontica.Reconciliation
import Deontica.Registry
import Deontica.Router
import Deontica.Rule
import Deontica.Rule.Catalogue
import Deontica.Session
import Deontica.SortedMap
import Deontica.SortedSet
import Deontica.Strategy
import Deontica.Tableau
import Deontica.Tableau.Branch
import Deontica.Tableau.Frame
import Deontica.Term
import Deontica.Term.Walk
import Deontica.Text.Alphanumeric
import Deontica.Text.Blank
import Deontica.Text.LowerCase
import Deontica.Text.Quoted
import Deontica.Text.Range
import Deontica.Text.Share
import Deontica.Token
import Deontica.Token.Lexer
import Deontica.Proofs.Rule.Instance
import Deontica.Proofs.Engine.LeastClosure
import Deontica.Proofs.Engine.Trace
import Deontica.Proofs.Engine.Clash
import Deontica.Proofs.Formula.Vocabulary
import Deontica.Proofs.Rule.WeightedDepth
import Deontica.Proofs.Tableau.Termination
import Deontica.Proofs.Engine.Termination
import Deontica.Proofs.Cache.Recency
import Deontica.Proofs.Cache.Shelf
import Deontica.Proofs.Session
import Deontica.Proofs.Session.Conservative
import Deontica.Proofs.Office
import Deontica.Proofs.Office.Router
import Deontica.Proofs.Office.Coherence
import Deontica.Proofs.Formula.Grammar
import Deontica.Proofs.Formula.Grammar.Sound
import Deontica.Proofs.Formula.Grammar.Complete
import Deontica.Proofs.Formula.Limit
import Deontica.Proofs.Formula.Scope
import Deontica.Proofs.Registry
import Deontica.Proofs.Dispatch
import Deontica.Proofs.Race
import Deontica.Proofs.Race.Runner
import Deontica.Proofs.Prover
import Deontica.Proofs.Router.Reports
import Deontica.Proofs.Router.Fates
import Deontica.Proofs.Dispatch.Visit
import Deontica.Proofs.Router.Repeated
import Deontica.Proofs.Router.Verdict
import Deontica.Proofs.Dispatch.Accounts
import Deontica.Proofs.Office.Accounts
import Deontica.Proofs.Router.Accounts
import Deontica.Proofs.Token.Spelling
import Deontica.Proofs.Formula.ErrorOffset
import Deontica.Proofs.Tableau.Invariant
import Deontica.Proofs.Cache.Accounts
import Deontica.Proofs.Registry.Order
import Deontica.Proofs.Reconciliation
import Deontica.Proofs.Analysis
import Deontica.Proofs.Analysis.Logic
import Deontica.Proofs.Router.InTurn
import Deontica.Proofs.Pattern.MostGeneral
import Deontica.Proofs.Analysis.Problem
import Deontica.Proofs.Session.Growth
import Deontica.Proofs.Kripke.Substitution
import Deontica.Proofs.Formula.Walk
