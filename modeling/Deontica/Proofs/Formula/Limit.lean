import Deontica.Proofs.Formula.Grammar.Complete
import Mathlib.Data.Nat.Find

/-!
# Reading under a larger limit

The limit on nesting never changes what a text is read to.  Under every limit a text is refused for
its nesting, or it comes to the very formula or complaint that it comes to under all larger limits;
and two levels for each token are enough for it not to be refused (`parseWithin_eq_of_le`).

The same tokens are read side by side by two readers, one with at least as much room as the other
and with a limit at least as large.  They give the same until the first one has to refuse for want
of room or for the depth of a chain (`Relaxes`); a reader passes on what it was refused below, so
the relation goes through all binds.
-/

namespace Deontica

/-- It was refused to read on for the nesting. -/
def IsTooDeep {α : Type} (x : Except ParseError α) : Prop :=
  ∃ limit offset, x = .error (.tooDeep limit offset)

/-- `y` is what `x` is, unless `x` was refused for its nesting. -/
def Relaxes {α : Type} (x y : Except ParseError α) : Prop :=
  IsTooDeep x ∨ y = x

namespace Relaxes

variable {α β : Type} {x y : Except ParseError α}

theorem refl (x : Except ParseError α) : Relaxes x x :=
  .inr rfl

theorem tooDeep {s : Source} {tokens : List Located} : Relaxes (s.tooDeep tokens) y :=
  .inl ⟨_, _, rfl⟩

theorem bind {f g : α → Except ParseError β} (hx : Relaxes x y)
    (hf : ∀ a, Relaxes (f a) (g a)) : Relaxes (x >>= f) (y >>= g) := by
  obtain ⟨limit, offset, rfl⟩ | rfl := hx
  · exact .inl ⟨limit, offset, rfl⟩
  · cases y with
    | error e => exact .refl _
    | ok a => exact hf a

theorem bind_refl (hx : Relaxes x y) (f : α → Except ParseError β) :
    Relaxes (x >>= f) (y >>= f) :=
  hx.bind fun _ => .refl _

end Relaxes

namespace Source

/-- The same text under another limit. -/
def withLimit (s : Source) (limit : Nat) : Source :=
  { s with limit := limit }

variable {s : Source} {limit : Nat} {bound : List String}

/-- What is expected does not depend on the limit. -/
theorem expect_withLimit (wanted : Token) (tokens : List Located) :
    (s.withLimit limit).expect wanted tokens = s.expect wanted tokens := by
  cases tokens <;> rfl

/-! ### Terms -/

section Terms

variable {read read' : Reader Term} (hread : ∀ tokens, Relaxes (read tokens) (read' tokens))
include hread

theorem relaxes_moreArgs (count : Nat) (tokens : List Located) :
    Relaxes (s.moreArgs read count tokens) ((s.withLimit limit).moreArgs read' count tokens) := by
  induction count generalizing tokens with
  | zero => exact .refl _
  | succ count ih =>
    cases tokens with
    | nil => exact .refl _
    | cons t rest =>
      rw [moreArgs, moreArgs]
      split
      · exact .refl _
      · refine (hread rest).bind fun p => ?_
        exact (ih p.2).bind_refl _
      · exact .refl _

theorem relaxes_args (tokens : List Located) :
    Relaxes (s.args read tokens) ((s.withLimit limit).args read' tokens) := by
  rw [args, args, expect_withLimit]
  refine (Relaxes.refl _).bind fun tokens => ?_
  split
  · exact .refl _
  · refine (hread tokens).bind fun p => ?_
    exact (relaxes_moreArgs hread _ p.2).bind_refl _

end Terms

theorem relaxes_term {room room' : Nat} (hroom : room ≤ room') (tokens : List Located) :
    Relaxes (s.term bound room tokens) ((s.withLimit limit).term bound room' tokens) := by
  induction room generalizing room' tokens with
  | zero => exact .tooDeep
  | succ room ih =>
    obtain ⟨extra, rfl⟩ := Nat.exists_eq_add_of_le' hroom
    rw [← Nat.add_assoc, term.eq_def, term.eq_def]
    dsimp only
    split
    · split
      · exact (relaxes_args (ih (Nat.le_add_left room extra)) _).bind_refl _
      · exact .refl _
    · exact .refl _

/-! ### Formulas -/

section Grouped

variable (hlimit : s.limit ≤ limit) {op : Connective} {token : Token}
  {operand operand' : Reader Formula}
  (hoperand : ∀ tokens, Relaxes (operand tokens) (operand' tokens))
include hlimit hoperand

theorem relaxes_chain (count : Nat) (left : Formula) (depth : Nat) (tokens : List Located) :
    Relaxes (s.chain op token operand count left depth tokens)
      ((s.withLimit limit).chain op token operand' count left depth tokens) := by
  induction count generalizing left depth tokens with
  | zero => exact .refl _
  | succ count ih =>
    cases tokens with
    | nil => exact .refl _
    | cons t rest =>
      rw [chain, chain]
      split
      · refine (hoperand rest).bind fun p => ?_
        obtain ⟨right, rest⟩ := p
        dsimp only
        by_cases hdeep : max depth right.depth + 1 > s.limit
        · rw [if_pos hdeep]
          exact .tooDeep
        · -- a tree within the limit is within the larger one
          have hdeep' : ¬max depth right.depth + 1 > (s.withLimit limit).limit :=
            fun h => hdeep (Nat.lt_of_le_of_lt hlimit h)
          rw [if_neg hdeep, if_neg hdeep']
          exact ih _ _ rest
      · exact .refl _

theorem relaxes_leftGrouped (tokens : List Located) :
    Relaxes (s.leftGrouped op token operand tokens)
      ((s.withLimit limit).leftGrouped op token operand' tokens) :=
  (hoperand tokens).bind fun p => relaxes_chain hlimit hoperand _ p.1 _ p.2

end Grouped

section Level

variable {below below' : Level}
  (hformula : ∀ rung bound tokens,
    Relaxes (below.formula rung bound tokens) (below'.formula rung bound tokens))
  (hterm : ∀ bound tokens, Relaxes (below.term bound tokens) (below'.term bound tokens))
include hformula

theorem relaxes_parenthesized (tokens : List Located) :
    Relaxes (s.parenthesized below bound tokens)
      ((s.withLimit limit).parenthesized below' bound tokens) := by
  rw [parenthesized, parenthesized, expect_withLimit]
  refine (Relaxes.refl _).bind fun tokens => (hformula _ _ tokens).bind fun p => ?_
  obtain ⟨body, rest⟩ := p
  dsimp only
  rw [expect_withLimit]
  exact .refl _

theorem relaxes_quantified (q : Quantifier) (tokens : List Located) :
    Relaxes (s.quantified below bound q tokens)
      ((s.withLimit limit).quantified below' bound q tokens) := by
  rw [quantified.eq_def, quantified.eq_def]
  split
  · exact (hformula _ _ _).bind_refl _
  · exact .refl _

include hterm

theorem relaxes_named (x : String) (tokens : List Located) :
    Relaxes (s.named below bound x tokens)
      ((s.withLimit limit).named below' bound x tokens) := by
  rw [named.eq_def, named.eq_def]
  split
  · split
    · exact (relaxes_parenthesized hformula _).bind_refl _
    · split
      · exact (relaxes_parenthesized hformula _).bind_refl _
      · exact (relaxes_args (hterm bound) _).bind_refl _
  · exact .refl _

theorem relaxes_unary (tokens : List Located) :
    Relaxes (s.unary below bound tokens) ((s.withLimit limit).unary below' bound tokens) := by
  rw [unary.eq_def, unary.eq_def]
  dsimp only
  split
  · exact (hformula _ _ _).bind_refl _
  · exact (hformula _ _ _).bind_refl _
  · exact (hformula _ _ _).bind_refl _
  · exact (hformula _ _ _).bind_refl _
  · exact relaxes_quantified hformula _ _
  · exact relaxes_quantified hformula _ _
  · exact relaxes_parenthesized hformula _
  · exact relaxes_named hformula hterm _ _
  · exact .refl _

end Level

section Rungs

variable (hlimit : s.limit ≤ limit) {room room' : Nat}
  (henter : ∀ rung bound tokens, Relaxes (s.enter rung room bound tokens)
    ((s.withLimit limit).enter rung room' bound tokens))
  (hunary : ∀ bound tokens, Relaxes (s.read room .unary bound tokens)
    ((s.withLimit limit).read room' .unary bound tokens))
include henter

theorem relaxes_spanTail (left : Formula) (tokens : List Located) :
    Relaxes (s.spanTail room bound left tokens)
      ((s.withLimit limit).spanTail room' bound left tokens) := by
  rw [spanTail.eq_def, spanTail.eq_def]
  split
  · exact .refl _
  · split
    · exact .refl _
    · exact (henter _ _ _).bind_refl _

theorem relaxes_impliesTail (left : Formula) (tokens : List Located) :
    Relaxes (s.impliesTail room bound left tokens)
      ((s.withLimit limit).impliesTail room' bound left tokens) := by
  rw [impliesTail.eq_def, impliesTail.eq_def]
  split
  · exact (henter _ _ _).bind_refl _
  · exact .refl _

include hunary

theorem relaxes_span (bound : List String) (tokens : List Located) :
    Relaxes (s.read room .span bound tokens)
      ((s.withLimit limit).read room' .span bound tokens) := by
  rw [read_span, read_span]
  exact (hunary bound tokens).bind fun p => relaxes_spanTail henter p.1 p.2

include hlimit

theorem relaxes_disjunction (bound : List String) (tokens : List Located) :
    Relaxes (s.disjunction room bound tokens)
      ((s.withLimit limit).disjunction room' bound tokens) :=
  relaxes_leftGrouped hlimit (relaxes_leftGrouped hlimit (relaxes_leftGrouped hlimit
    (relaxes_span henter hunary bound))) tokens

/-- A rung relaxes if the levels below and the lowest rung do. -/
theorem relaxes_rung (rung : Rung) (bound : List String) (tokens : List Located) :
    Relaxes (s.read room rung bound tokens)
      ((s.withLimit limit).read room' rung bound tokens) := by
  cases rung with
  | unary => exact hunary bound tokens
  | span => exact relaxes_span henter hunary bound tokens
  | implication =>
    rw [read_implication, read_implication]
    refine (relaxes_disjunction hlimit henter hunary bound tokens).bind fun p => ?_
    exact relaxes_impliesTail henter p.1 p.2
  | formula =>
    rw [read_formula, read_formula]
    exact relaxes_leftGrouped hlimit (henter .implication bound) tokens

end Rungs

/-- **More room and a larger limit do not change what is read**, unless it was refused for its
nesting. -/
theorem relaxes_read (hlimit : s.limit ≤ limit) {room room' : Nat} (hroom : room ≤ room')
    (rung : Rung) (bound : List String) (tokens : List Located) :
    Relaxes (s.read room rung bound tokens)
      ((s.withLimit limit).read room' rung bound tokens) := by
  induction room generalizing room' rung bound tokens with
  | zero =>
    -- without room every rung opens a level that is refused
    refine relaxes_rung hlimit ?_ ?_ rung bound tokens
    · exact fun _ _ _ => .tooDeep
    · exact fun _ _ => .tooDeep
  | succ room ih =>
    obtain ⟨extra, rfl⟩ := Nat.exists_eq_add_of_le' hroom
    have hbelow : room ≤ extra + room := Nat.le_add_left room extra
    refine relaxes_rung hlimit ?_ ?_ rung bound tokens
    · exact ih hbelow
    · intro bound tokens
      exact relaxes_unary (ih hbelow) (fun _ => relaxes_term hbelow) tokens

end Source

namespace Formula

theorem relaxes_parseWithin {limit limit' : Nat} (hle : limit ≤ limit') (text : String) :
    Relaxes (parseWithin limit text) (parseWithin limit' text) := by
  refine (Relaxes.refl _).bind fun tokens => ?_
  dsimp only
  split
  · exact .refl _
  · let s : Source := ⟨limit, text.utf8ByteSize⟩
    have hread : Relaxes (s.read limit .formula [] tokens)
        ((s.withLimit limit').read limit' .formula [] tokens) :=
      Source.relaxes_read hle hle .formula [] tokens
    refine hread.bind fun p => ?_
    obtain ⟨f, rest⟩ := p
    dsimp only
    split
    · exact .refl _
    · by_cases hdeep : f.depth > limit
      · rw [if_pos hdeep]
        exact .inl ⟨_, _, rfl⟩
      · rw [if_neg hdeep, if_neg fun h => hdeep (Nat.lt_of_le_of_lt hle h)]
        exact .refl _

/-- With two levels for each token and two more, no text is refused for its nesting. -/
theorem not_isTooDeep_of_length {limit : Nat} {text : String} {tokens : List Located}
    (htokens : Token.tokenize text = .ok tokens) (hlimit : 2 * tokens.length + 2 ≤ limit) :
    ¬IsTooDeep (parseWithin limit text) := by
  rintro ⟨n, offset, hdeep⟩
  obtain ⟨f, hf, -⟩ | ⟨_, _, hmalformed⟩ := derives_of_parseWithin htokens hlimit
  · exact nomatch hf.symm.trans hdeep
  · exact nomatch hmalformed.symm.trans hdeep

/-- For every text there is a limit that does not refuse it for its nesting. -/
theorem exists_not_isTooDeep (text : String) : ∃ limit, ¬IsTooDeep (parseWithin limit text) := by
  cases htokens : Token.tokenize text with
  | ok tokens => exact ⟨_, not_isTooDeep_of_length htokens (Nat.le_refl _)⟩
  | error e =>
    -- a text without tokens is not read at all
    obtain ⟨c, offset, rfl⟩ := Token.exists_unknownOperator_of_scan htokens
    refine ⟨0, ?_⟩
    rintro ⟨limit, offset', hdeep⟩
    rw [parseWithin, htokens] at hdeep
    cases hdeep

/-- **The limit only ever refuses.**  A text that is not refused for its nesting comes to the same
formula or the same error under every larger limit.  So for each text there is a least limit that
does not refuse it, which is no more than two levels for each token and two. -/
theorem parseWithin_eq_of_le (text : String) :
    (∀ limit limit', limit ≤ limit' → ¬IsTooDeep (parseWithin limit text) →
      parseWithin limit' text = parseWithin limit text) ∧
    ∃ least, (∀ limit, IsTooDeep (parseWithin limit text) ↔ limit < least) ∧
      ∀ tokens, Token.tokenize text = .ok tokens → least ≤ 2 * tokens.length + 2 := by
  have hkeep : ∀ limit limit', limit ≤ limit' → ¬IsTooDeep (parseWithin limit text) →
      parseWithin limit' text = parseWithin limit text :=
    fun limit limit' hle h => (relaxes_parseWithin hle text).resolve_left h
  classical
  obtain ⟨least, hleast, hmin⟩ := Nat.findX (exists_not_isTooDeep text)
  have hiff : ∀ limit, IsTooDeep (parseWithin limit text) ↔ limit < least := by
    intro limit
    constructor
    · intro hdeep
      by_contra hlt
      rw [hkeep least limit (Nat.not_lt.mp hlt) hleast] at hdeep
      exact hleast hdeep
    · exact fun hlt => not_not.mp (hmin limit hlt)
  refine ⟨hkeep, least, hiff, fun tokens htokens => ?_⟩
  by_contra hlt
  exact not_isTooDeep_of_length htokens (Nat.le_refl _) ((hiff _).mpr (Nat.lt_of_not_le hlt))

/-- A parenthesis that is not closed is noticed with four levels, and in the same place with more;
with three the text is refused for its nesting. -/
theorem parseWithin_eq_of_le_unclosed :
    IsTooDeep (parseWithin 3 "P & (Q") ∧
      parseWithin 4 "P & (Q" = .error (.malformed 6 (.expected .close none)) ∧
      parseWithin 256 "P & (Q" = .error (.malformed 6 (.expected .close none)) := by
  have hfour : parseWithin 4 "P & (Q" = .error (.malformed 6 (.expected .close none)) := by
    decide +kernel
  have hshallow : ¬IsTooDeep (parseWithin 4 "P & (Q") := by
    rintro ⟨limit, offset, hdeep⟩
    exact nomatch hfour.symm.trans hdeep
  refine ⟨⟨3, 5, by decide +kernel⟩, hfour, ?_⟩
  exact ((parseWithin_eq_of_le "P & (Q").1 4 256 (by decide) hshallow).trans hfour

end Formula

end Deontica
