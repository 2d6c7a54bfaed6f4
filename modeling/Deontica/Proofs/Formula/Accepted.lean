import Deontica.Proofs.Formula.Canonical
import Deontica.Proofs.Formula.Ladder

/-!
# What is accepted is well formed

Every formula that is read from a text is well formed and no deeper than the limit
(`isWellFormed_of_parseWithin`).  Names come from the scanner, which gives names only; a name in
argument position becomes a variable exactly under a quantifier that binds it; and a name before a
parenthesis is tried as an operator first.

The readers are put together with binds, and so are the statements about them: `Gives` says that
what a reader gives has a property and that the tokens left are still named by names.
-/

namespace Deontica.Source

/-- Every name among the tokens is a name. -/
def Named (tokens : List Located) : Prop :=
  ∀ t ∈ tokens, ∀ x, t.token = .name x → Token.isName x = true

theorem Named.tail {t : Located} {tokens : List Located} (h : Named (t :: tokens)) :
    Named tokens :=
  fun u hu => h u (List.mem_cons_of_mem t hu)

theorem Named.head {x : String} {offset : Nat} {tokens : List Located}
    (h : Named (⟨.name x, offset⟩ :: tokens)) : Token.isName x = true :=
  h _ List.mem_cons_self x rfl

/-- Whatever `x` gives has the property `P`, and leaves tokens named by names. -/
def Gives {α : Type} (x : Except ParseError (α × List Located)) (P : α → Prop) : Prop :=
  ∀ a rest, x = .ok (a, rest) → P a ∧ Named rest

namespace Gives

variable {α β : Type} {x : Except ParseError (α × List Located)} {P : α → Prop} {Q : β → Prop}
  {tokens : List Located}

theorem ok {a : α} (ha : P a) (h : Named tokens) : Gives (.ok (a, tokens)) P := by
  rintro _ _ ⟨⟩
  exact ⟨ha, h⟩

theorem error {e : ParseError} : Gives (.error e) P :=
  nofun

theorem bind {f : α × List Located → Except ParseError (β × List Located)} (hx : Gives x P)
    (hf : ∀ a rest, P a → Named rest → Gives (f (a, rest)) Q) : Gives (x >>= f) Q := by
  intro b rest h
  obtain ⟨⟨a, more⟩, ha, hb⟩ := bind_eq_ok_iff.mp h
  obtain ⟨hP, hmore⟩ := hx a more ha
  exact hf a more hP hmore b rest hb

theorem expect {s : Source} {wanted : Token}
    {f : List Located → Except ParseError (β × List Located)} (h : Named tokens)
    (hf : ∀ rest, Named rest → Gives (f rest) Q) : Gives (s.expect wanted tokens >>= f) Q := by
  cases tokens with
  | nil => exact error
  | cons t rest =>
    rw [Source.expect]
    split
    · exact hf rest h.tail
    · exact error

end Gives

variable {s : Source} {bound : List String} {tokens : List Located}

/-! ### Terms -/

theorem gives_moreArgs {read : Reader Term}
    (hread : ∀ {tokens}, Named tokens → Gives (read tokens) (·.isWellFormedOver bound = true))
    {count : Nat} (h : Named tokens) :
    Gives (s.moreArgs read count tokens) (Term.allWellFormedOver bound · = true) := by
  induction count generalizing tokens with
  | zero => exact .error
  | succ count ih =>
    cases tokens with
    | nil => exact .error
    | cons t rest =>
      rw [moreArgs]
      split
      · exact .ok rfl h.tail
      · refine (hread h.tail).bind fun arg rest harg hrest => ?_
        refine (ih hrest).bind fun args rest hargs hrest => .ok ?_ hrest
        rw [Term.allWellFormedOver, Bool.and_eq_true]
        exact ⟨harg, hargs⟩
      · exact .error

theorem gives_args {read : Reader Term}
    (hread : ∀ {tokens}, Named tokens → Gives (read tokens) (·.isWellFormedOver bound = true))
    (h : Named tokens) :
    Gives (s.args read tokens) (Term.allWellFormedOver bound · = true) := by
  refine .expect h fun rest hrest => ?_
  split
  · exact .ok rfl hrest.tail
  · refine (hread hrest).bind fun arg rest harg hrest => ?_
    refine (gives_moreArgs hread hrest).bind fun args rest hargs hrest => .ok ?_ hrest
    rw [Term.allWellFormedOver, Bool.and_eq_true]
    exact ⟨harg, hargs⟩

theorem gives_term {room : Nat} (h : Named tokens) :
    Gives (s.term bound room tokens) (·.isWellFormedOver bound = true) := by
  induction room generalizing tokens with
  | zero => exact .error
  | succ room ih =>
    rw [term.eq_def]
    dsimp only
    split
    · rename_i x offset rest
      split
      · refine (gives_args ih h.tail).bind fun args rest hargs hrest => .ok ?_ hrest
        rw [Term.isWellFormedOver, Bool.and_eq_true]
        exact ⟨h.head, hargs⟩
      · refine .ok ?_ h.tail
        by_cases hx : x ∈ bound
        · rw [if_pos hx, Term.isWellFormedOver, Bool.and_eq_true]
          exact ⟨h.head, List.contains_iff_mem.mpr hx⟩
        · rw [if_neg hx, Term.isWellFormedOver, Bool.and_eq_true, Bool.not_eq_true',
            ← Bool.not_eq_true, List.contains_iff_mem]
          exact ⟨h.head, hx⟩
    · exact .error

/-! ### Formulas -/

theorem gives_chain {op : Connective} {token : Token} {operand : Reader Formula}
    (hoperand : ∀ {tokens}, Named tokens →
      Gives (operand tokens) (·.isWellFormedOver bound = true))
    {count depth : Nat} {left : Formula} (hleft : left.isWellFormedOver bound = true)
    (h : Named tokens) :
    Gives (s.chain op token operand count left depth tokens)
      (·.isWellFormedOver bound = true) := by
  induction count generalizing left depth tokens with
  | zero => exact .ok hleft h
  | succ count ih =>
    cases tokens with
    | nil => exact .ok hleft h
    | cons t rest =>
      rw [chain]
      split
      · refine (hoperand h.tail).bind fun right rest hright hrest => ?_
        dsimp only
        split
        · exact .error
        · refine ih ?_ hrest
          rw [Formula.isWellFormedOver, Bool.and_eq_true]
          exact ⟨hleft, hright⟩
      · exact .ok hleft h

theorem gives_leftGrouped {op : Connective} {token : Token} {operand : Reader Formula}
    (hoperand : ∀ {tokens}, Named tokens →
      Gives (operand tokens) (·.isWellFormedOver bound = true)) (h : Named tokens) :
    Gives (s.leftGrouped op token operand tokens) (·.isWellFormedOver bound = true) :=
  (hoperand h).bind fun _ _ hleft hrest => gives_chain hoperand hleft hrest

theorem not_mem_operatorNames {x : String} (hnorm : normOp x = none) (hnext : x ≠ "X") :
    x ∉ Formula.operatorNames := by
  simp only [Formula.operatorNames, List.mem_cons, List.not_mem_nil, or_false, not_or]
  refine ⟨?_, ?_, ?_, hnext⟩ <;> rintro rfl <;> cases hnorm

section Level

variable {below : Level}
  (hformula : ∀ {rung bound tokens}, Named tokens →
    Gives (below.formula rung bound tokens) (·.isWellFormedOver bound = true))
  (hterm : ∀ {bound tokens}, Named tokens →
    Gives (below.term bound tokens) (·.isWellFormedOver bound = true))
include hformula

theorem gives_parenthesized (h : Named tokens) :
    Gives (s.parenthesized below bound tokens) (·.isWellFormedOver bound = true) := by
  refine .expect h fun rest hrest => (hformula hrest).bind fun body rest hbody hrest => ?_
  exact .expect hrest fun rest hrest => .ok hbody hrest

theorem gives_quantified {q : Quantifier} (h : Named tokens) :
    Gives (s.quantified below bound q tokens) (·.isWellFormedOver bound = true) := by
  rw [quantified.eq_def]
  split
  · rename_i x offset rest
    refine (hformula ?_).bind fun body rest hbody hrest => .ok ?_ hrest
    · split
      · exact h.tail.tail
      · exact h.tail.tail
      · exact h.tail
    · rw [Formula.isWellFormedOver, Bool.and_eq_true]
      exact ⟨h.head, hbody⟩
  · exact .error

include hterm

theorem gives_named {x : String} (hx : Token.isName x = true) (h : Named tokens) :
    Gives (s.named below bound x tokens) (·.isWellFormedOver bound = true) := by
  rw [named.eq_def]
  split
  · split
    · exact (gives_parenthesized hformula h).bind fun body rest hbody hrest => .ok hbody hrest
    · rename_i hnorm
      split
      · exact (gives_parenthesized hformula h).bind fun body rest hbody hrest => .ok hbody hrest
      · rename_i hnext
        refine (gives_args hterm h).bind fun args rest hargs hrest => .ok ?_ hrest
        -- The name is none of the operators, which were tried first.
        have hp := not_mem_operatorNames hnorm hnext
        rw [Formula.isWellFormedOver, hx, hargs]
        simpa using .inr hp
  · exact .ok (by rw [Formula.isWellFormedOver, hx]; rfl) h

theorem gives_unary (h : Named tokens) :
    Gives (s.unary below bound tokens) (·.isWellFormedOver bound = true) := by
  rw [unary.eq_def]
  dsimp only
  split
  · exact (hformula h.tail).bind fun body rest hbody hrest => .ok hbody hrest
  · exact (hformula h.tail).bind fun body rest hbody hrest => .ok hbody hrest
  · exact (hformula h.tail).bind fun body rest hbody hrest => .ok hbody hrest
  · exact (hformula h.tail).bind fun body rest hbody hrest => .ok hbody hrest
  · exact gives_quantified hformula h.tail
  · exact gives_quantified hformula h.tail
  · exact gives_parenthesized hformula h
  · exact gives_named hformula hterm h.head h.tail
  · exact .error

end Level

section Rungs

variable {room : Nat}
  (henter : ∀ {rung bound tokens}, Named tokens →
    Gives (s.enter rung room bound tokens) (·.isWellFormedOver bound = true))
  (hunary : ∀ {bound tokens}, Named tokens →
    Gives (s.read room .unary bound tokens) (·.isWellFormedOver bound = true))
include henter hunary

theorem gives_span (h : Named tokens) :
    Gives (s.read room .span bound tokens) (·.isWellFormedOver bound = true) := by
  rw [read_span]
  refine (hunary h).bind fun left rest hleft hrest => ?_
  dsimp only
  rw [spanTail.eq_def]
  split
  · exact .ok hleft hrest
  · split
    · exact .ok hleft hrest
    · refine (henter hrest.tail).bind fun right rest hright hrest => .ok ?_ hrest
      rw [Formula.isWellFormedOver, Bool.and_eq_true]
      exact ⟨hleft, hright⟩

theorem gives_disjunction (h : Named tokens) :
    Gives (s.disjunction room bound tokens) (·.isWellFormedOver bound = true) :=
  gives_leftGrouped (gives_leftGrouped (gives_leftGrouped (gives_span henter hunary))) h

theorem gives_implication (h : Named tokens) :
    Gives (s.read room .implication bound tokens) (·.isWellFormedOver bound = true) := by
  rw [read_implication]
  refine (gives_disjunction henter hunary h).bind fun left rest hleft hrest => ?_
  dsimp only
  rw [impliesTail.eq_def]
  split
  · refine (henter hrest.tail).bind fun right rest hright hrest => .ok ?_ hrest
    rw [Formula.isWellFormedOver, Bool.and_eq_true]
    exact ⟨hleft, hright⟩
  · exact .ok hleft hrest

/-- Whatever is read at a rung is well formed if it is one level below and at the lowest rung. -/
theorem gives_rung {rung : Rung} (h : Named tokens) :
    Gives (s.read room rung bound tokens) (·.isWellFormedOver bound = true) := by
  cases rung with
  | unary => exact hunary h
  | span => exact gives_span henter hunary h
  | implication => exact gives_implication henter hunary h
  | formula =>
    rw [read_formula]
    exact gives_leftGrouped henter h

end Rungs

/-- Whatever is read is well formed over the variables in scope. -/
theorem gives_read {room : Nat} {rung : Rung} (h : Named tokens) :
    Gives (s.read room rung bound tokens) (·.isWellFormedOver bound = true) := by
  induction room generalizing rung bound tokens with
  | zero =>
    -- Without room nothing is read.
    refine gives_rung ?_ ?_ h
    · exact fun _ => .error
    · exact fun _ => .error
  | succ room ih =>
    -- One level below is the induction hypothesis, at every rung and for all variables in scope.
    refine gives_rung ih ?_ h
    exact fun h => gives_unary ih gives_term h

end Deontica.Source

namespace Deontica.Formula

/-- **What is accepted is well formed and no deeper than the limit.** -/
theorem isWellFormed_of_parseWithin {limit : Nat} {text : String} {f : Formula}
    (h : parseWithin limit text = .ok f) : f.isWellFormed = true ∧ f.depth ≤ limit := by
  obtain ⟨tokens, htokens, h⟩ := bind_eq_ok_iff.mp h
  have hnamed : Source.Named tokens := Token.isName_of_mem_scan htokens
  dsimp only at h
  split at h
  · cases h
  obtain ⟨⟨g, rest⟩, hread, h⟩ := bind_eq_ok_iff.mp h
  dsimp only at h
  split at h
  · cases h
  split at h
  · cases h
  · rename_i hdepth
    obtain rfl := Except.ok.inj h
    exact ⟨(Source.gives_read hnamed g rest hread).1, Nat.not_lt.mp hdepth⟩

end Deontica.Formula
