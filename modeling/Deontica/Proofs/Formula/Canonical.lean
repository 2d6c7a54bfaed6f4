import Deontica.Formula.Printer
import Deontica.Proofs.Token.Lexer

/-!
# The tokens of canonical texts

A formula is *well formed* if its names are names, its variables are those that quantifiers bind,
and no name stands where it would be taken for an operator.  The canonical text of such a formula is
scanned to the tokens of the formula (`tokenize_render`), which are written down here beside the
text by the same recursion.
-/

namespace Deontica

/-! ### Well-formed formulas -/

mutual

/-- Whether a term is made of names, with the bound names as its variables and others as its
constants. -/
def Term.isWellFormedOver (bound : List String) : Term → Bool
  | .var x => Token.isName x && bound.contains x
  | .const c => Token.isName c && !bound.contains c
  | .app f args => Token.isName f && Term.allWellFormedOver bound args

/-- Whether terms are made of names, with the bound names as their variables. -/
def Term.allWellFormedOver (bound : List String) : List Term → Bool
  | [] => true
  | t :: ts => t.isWellFormedOver bound && Term.allWellFormedOver bound ts

end

namespace Formula

/-- The names that stand for an operator when a parenthesis follows. -/
def operatorNames : List String := ["O", "P", "F", "X"]

/-- Whether a formula is made of names, none of which would be taken for an operator, with those
names as variables that are in the list or bound by a quantifier above. -/
def isWellFormedOver (bound : List String) : Formula → Bool
  | .pred p args =>
    Token.isName p && (args.isEmpty || !operatorNames.contains p) &&
      Term.allWellFormedOver bound args
  | .not a | .deontic _ a | .tense _ a => a.isWellFormedOver bound
  | .binary _ a b | .span _ a b => a.isWellFormedOver bound && b.isWellFormedOver bound
  | .quant _ x a => Token.isName x && a.isWellFormedOver (x :: bound)

/-- Whether a formula is made of names, none of which would be taken for an operator, with those
names as variables that a quantifier above binds. -/
def isWellFormed (f : Formula) : Bool :=
  f.isWellFormedOver []

end Formula

/-! ### Tokens -/

namespace Term

mutual

/-- The tokens of a term. -/
def tokens : Term → List Token
  | .var x => [.name x]
  | .const c => [.name c]
  | .app f args => .name f :: .open :: (tokensArgs args ++ [.close])

/-- The tokens of arguments with commas between them. -/
def tokensArgs : List Term → List Token
  | [] => []
  | t :: ts => tokens t ++ tokensMore ts

/-- The tokens of the arguments after the first, each led by a comma. -/
def tokensMore : List Term → List Token
  | [] => []
  | t :: ts => .comma :: (tokens t ++ tokensMore ts)

end

end Term

/-- The token of a connective. -/
def Connective.token : Connective → Token
  | .and => .and
  | .or => .or
  | .implies => .implies
  | .iff => .iff
  | .xor => .xor

/-- The token of a quantifier. -/
def Quantifier.token : Quantifier → Token
  | .all => .all
  | .exists => .exists

namespace Formula

/-- Puts the parentheses that `f` needs as an operand around its tokens. -/
def encloseTokens (f : Formula) (tokens : List Token) : List Token :=
  match f with
  | .binary _ _ _ | .quant _ _ _ | .span _ _ _ => .open :: (tokens ++ [.close])
  | _ => tokens

/-- The tokens of a formula without parentheses of its own. -/
def bareTokens : Formula → List Token
  | .pred p [] => [.name p]
  | .pred p (t :: ts) => .name p :: .open :: (Term.tokensArgs (t :: ts) ++ [.close])
  | .not a => .not :: a.encloseTokens a.bareTokens
  | .binary op a b =>
    a.encloseTokens a.bareTokens ++ op.token :: b.encloseTokens b.bareTokens
  | .quant q x a => q.token :: .name x :: .point :: a.bareTokens
  | .deontic op a => .name op.letter :: .open :: (a.bareTokens ++ [.close])
  | .tense .always a => .always :: a.encloseTokens a.bareTokens
  | .tense .eventually a => .eventually :: a.encloseTokens a.bareTokens
  | .tense .next a => .name "X" :: .open :: (a.bareTokens ++ [.close])
  | .span op a b =>
    a.encloseTokens a.bareTokens ++ .name op.letter :: b.encloseTokens b.bareTokens

/-- The tokens of the canonical text of a formula. -/
def tokens (f : Formula) : List Token :=
  f.encloseTokens f.bareTokens

end Formula

/-! ### Scanning canonical texts -/

open Token

namespace Term

mutual

theorem spells_render {bound : List String} :
    ∀ t : Term, t.isWellFormedOver bound = true → Spells t.render.toList t.tokens
  | .var x, h => by
    rw [isWellFormedOver, Bool.and_eq_true] at h
    exact .name h.1
  | .const c, h => by
    rw [isWellFormedOver, Bool.and_eq_true] at h
    exact .name h.1
  | .app f args, h => by
    rw [isWellFormedOver, Bool.and_eq_true] at h
    simp only [render, tokens, String.toList_append, List.append_assoc]
    exact Spells.append (.name h.1) (spells_renderArgs args h.2).parentheses
      (endsName_cons (by decide) _)

theorem spells_renderArgs {bound : List String} :
    ∀ ts : List Term, allWellFormedOver bound ts = true →
      Spells (renderArgs ts).toList (tokensArgs ts)
  | [], h => .nil
  | t :: ts, h => by
    rw [allWellFormedOver, Bool.and_eq_true] at h
    rw [renderArgs, tokensArgs, String.toList_append]
    obtain ⟨hmore, hends⟩ := spells_renderMore ts h.2
    exact (spells_render t h.1).append hmore hends

theorem spells_renderMore {bound : List String} :
    ∀ ts : List Term, allWellFormedOver bound ts = true →
      Spells (renderMore ts).toList (tokensMore ts) ∧ endsName (renderMore ts).toList
  | [], h => ⟨.nil, nofun⟩
  | t :: ts, h => by
    rw [allWellFormedOver, Bool.and_eq_true] at h
    simp only [renderMore, tokensMore, String.toList_append, List.append_assoc]
    obtain ⟨hmore, hends⟩ := spells_renderMore ts h.2
    refine ⟨?_, endsName_cons (by decide) _⟩
    refine Spells.symbol (by decide) (fun _ => rfl) (.blank ?_)
    exact (spells_render t h.1).append hmore hends

end

end Term

namespace Formula

theorem isName_normLetter (op : Norm) : isName op.letter = true := by
  cases op <;> decide +kernel

theorem isName_spanLetter (op : Span) : isName op.letter = true := by
  cases op <;> decide +kernel

theorem spells_enclose {f : Formula} (h : Spells f.bare.toList f.bareTokens) :
    Spells (f.enclose f.bare).toList (f.encloseTokens f.bareTokens) := by
  cases f with
  | binary op a b =>
    rw [enclose, encloseTokens, String.toList_append, String.toList_append, List.append_assoc]
    exact h.parentheses
  | quant q x a =>
    rw [enclose, encloseTokens, String.toList_append, String.toList_append, List.append_assoc]
    exact h.parentheses
  | span op a b =>
    rw [enclose, encloseTokens, String.toList_append, String.toList_append, List.append_assoc]
    exact h.parentheses
  | pred p args => exact h
  | not a => exact h
  | deontic op a => exact h
  | tense op a => exact h

/-- The text of a well-formed formula without its parentheses spells its tokens. -/
theorem spells_bare {f : Formula} {bound : List String} (h : f.isWellFormedOver bound = true) :
    Spells f.bare.toList f.bareTokens := by
  induction f generalizing bound with
  | pred p args =>
    simp only [isWellFormedOver, Bool.and_eq_true] at h
    cases args with
    | nil => exact .name h.1.1
    | cons t ts =>
      simp only [bare, bareTokens, String.toList_append, List.append_assoc]
      exact Spells.append (.name h.1.1) (Term.spells_renderArgs _ h.2).parentheses
        (endsName_cons (by decide) _)
  | not a ih =>
    rw [bare, bareTokens, String.toList_append]
    exact .symbol (by decide) (fun _ => rfl) (spells_enclose (ih h))
  | binary op a b iha ihb =>
    rw [isWellFormedOver, Bool.and_eq_true] at h
    simp only [bare, bareTokens, String.toList_append, List.append_assoc]
    refine Spells.append (spells_enclose (iha h.1)) (.blank ?_) (endsName_cons (by decide) _)
    have hb : Spells (' ' :: (b.enclose b.bare).toList) (b.encloseTokens b.bareTokens) :=
      .blank (spells_enclose (ihb h.2))
    cases op <;> exact .symbol (by decide) (fun _ => rfl) hb
  | quant q x a ih =>
    rw [isWellFormedOver, Bool.and_eq_true] at h
    simp only [bare, bareTokens, String.toList_append, List.append_assoc]
    have hx : Spells (x.toList ++ '.' :: ' ' :: a.bare.toList)
        (.name x :: .point :: a.bareTokens) :=
      Spells.append (.name h.1) (.symbol (by decide) (fun _ => rfl) (.blank (ih h.2)))
        (endsName_cons (by decide) _)
    cases q <;> exact .symbol (by decide) (fun _ => rfl) hx
  | deontic op a ih =>
    simp only [bare, bareTokens, String.toList_append, List.append_assoc]
    exact Spells.append (.name (isName_normLetter op)) (ih h).parentheses
      (endsName_cons (by decide) _)
  | tense op a ih =>
    cases op with
    | always =>
      rw [bare, bareTokens, String.toList_append]
      exact .symbol (by decide) (fun _ => rfl) (spells_enclose (ih h))
    | eventually =>
      rw [bare, bareTokens, String.toList_append]
      exact .symbol (by decide) (fun _ => rfl) (spells_enclose (ih h))
    | next =>
      simp only [bare, bareTokens, String.toList_append, List.append_assoc]
      have hx : isName "X" = true := by decide +kernel
      exact Spells.append (.name hx) (ih h).parentheses (endsName_cons (by decide) _)
  | span op a b iha ihb =>
    rw [isWellFormedOver, Bool.and_eq_true] at h
    simp only [bare, bareTokens, String.toList_append, List.append_assoc]
    refine Spells.append (spells_enclose (iha h.1)) (.blank ?_) (endsName_cons (by decide) _)
    exact Spells.append (.name (isName_spanLetter op)) (.blank (spells_enclose (ihb h.2)))
      (endsName_cons (by decide) _)

/-- **The canonical text of a well-formed formula is scanned to its tokens.** -/
theorem tokenize_render {f : Formula} (h : f.isWellFormed = true) :
    ∃ located : List Located, located.map (·.token) = f.tokens ∧
      tokenize f.render = .ok located :=
  (spells_enclose (spells_bare h)).tokenize

end Formula

end Deontica
