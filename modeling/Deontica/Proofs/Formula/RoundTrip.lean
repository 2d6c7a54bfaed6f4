import Deontica.Proofs.Formula.Accepted
import Deontica.Proofs.Formula.Levels

/-!
# Reading canonical texts

The canonical text of a well-formed formula is read back to the formula if the limit leaves room for
its levels (`parseWithin_render_of_levels`), and refused for its nesting otherwise
(`parseWithin_render_of_lt_levels`).  The levels are at most four times the depth of the formula and
the nesting of its terms (`levels_le`).

They can be more than the text took from which the formula was read: canonical texts have
parentheses where a text may do without.  So a text can be accepted under a limit that refuses the
canonical text of what was read, and `parseWithin_render_iff_levels` says when.
-/

namespace Deontica.Formula

/-! ### The number of levels -/

theorem le_encloseLevels (f : Formula) (n : Nat) : n ≤ f.encloseLevels n := by
  cases f <;> simp only [encloseLevels] <;> omega

theorem bareLevels_binary_le (op : Connective) (a b : Formula) :
    (binary op a b).bareLevels ≤
      max (a.encloseLevels a.bareLevels) (b.encloseLevels b.bareLevels + 1) := by
  cases op <;> simp only [bareLevels] <;> omega

/-- An operand takes at most four levels for each level of its depth, and those of its terms. -/
theorem encloseLevels_bareLevels_le (f : Formula) :
    f.encloseLevels f.bareLevels + 3 ≤ 4 * f.depth + f.termNesting := by
  induction f with
  | pred p args =>
    change Term.nestingArgs args + 1 + 3 ≤ 4 * 1 + Term.nestingArgs args
    omega
  | not a ih =>
    change a.encloseLevels a.bareLevels + 1 + 3 ≤ 4 * (a.depth + 1) + a.termNesting
    omega
  | binary op a b iha ihb =>
    have hbare := bareLevels_binary_le op a b
    change (binary op a b).bareLevels + 2 + 3 ≤
      4 * (max a.depth b.depth + 1) + max a.termNesting b.termNesting
    omega
  | quant q x a ih =>
    have hbare := a.le_encloseLevels a.bareLevels
    change a.bareLevels + 2 + 2 + 3 ≤ 4 * (a.depth + 1) + a.termNesting
    omega
  | deontic op a ih =>
    have hbare := a.le_encloseLevels a.bareLevels
    change a.bareLevels + 2 + 3 ≤ 4 * (a.depth + 1) + a.termNesting
    omega
  | tense op a ih =>
    have hbare := a.le_encloseLevels a.bareLevels
    have hlevels : (tense op a).bareLevels ≤ a.encloseLevels a.bareLevels + 2 := by
      cases op <;> simp only [bareLevels] <;> omega
    change (tense op a).bareLevels + 3 ≤ 4 * (a.depth + 1) + a.termNesting
    omega
  | span op a b iha ihb =>
    change max (a.encloseLevels a.bareLevels) (b.encloseLevels b.bareLevels + 1) + 2 + 3 ≤
      4 * (max a.depth b.depth + 1) + max a.termNesting b.termNesting
    omega

theorem levels_le (f : Formula) : f.levels + 2 ≤ 4 * f.depth + f.termNesting :=
  f.encloseLevels_bareLevels_le

/-! ### Reading canonical texts -/

theorem tokens_ne_nil (f : Formula) : f.tokens ≠ [] := by
  cases f with
  | pred p args => cases args <;> nofun
  | tense op a => cases op <;> nofun
  | not a => nofun
  | binary op a b => nofun
  | quant q x a => nofun
  | deontic op a => nofun
  | span op a b => nofun

section Canonical

variable {f : Formula} {limit : Nat}

theorem parseWithin_eq {text : String} {located : List Located}
    (htokens : Token.tokenize text = .ok located) (hne : located ≠ []) :
    parseWithin limit text = (do
      let s : Source := ⟨limit, text.utf8ByteSize⟩
      let (f, rest) ← s.read limit .formula [] located
      if !rest.isEmpty then s.refuse rest .unexpected
      else if f.depth > limit then throw (.tooDeep limit 0)
      else return f) := by
  rw [parseWithin, htokens]
  cases located with
  | nil => exact absurd rfl hne
  | cons t more => rfl

/-- The tokens of a canonical text, and what reading them takes. -/
theorem exists_takes_render (hf : f.isWellFormed = true) (hdepth : f.depth ≤ limit) :
    ∃ located, Token.tokenize f.render = .ok located ∧ located ≠ [] ∧
      Source.Takes ⟨limit, f.render.utf8ByteSize⟩ f.levels
        (fun room => Source.read ⟨limit, f.render.utf8ByteSize⟩ room .formula [] located)
        (f, []) := by
  obtain ⟨located, hl, htokens⟩ := tokenize_render hf
  refine ⟨located, htokens, ?_, Source.takes_tokens hf hdepth hl⟩
  rintro rfl
  exact f.tokens_ne_nil hl.symm

/-- With room for its levels, a canonical text is read back to its formula. -/
theorem parseWithin_render_of_levels (hf : f.isWellFormed = true) (hdepth : f.depth ≤ limit)
    (hlevels : f.levels ≤ limit) : parseWithin limit f.render = .ok f := by
  obtain ⟨located, htokens, hne, hread⟩ := exists_takes_render hf hdepth
  rw [parseWithin_eq htokens hne]
  dsimp only
  rw [hread.read limit hlevels]
  exact if_neg (Nat.not_lt.mpr hdepth)

/-- Without room for its levels, a canonical text is refused for its nesting. -/
theorem parseWithin_render_of_lt_levels (hf : f.isWellFormed = true) (hdepth : f.depth ≤ limit)
    (hlevels : limit < f.levels) :
    ∃ offset, parseWithin limit f.render = .error (.tooDeep limit offset) := by
  obtain ⟨located, htokens, hne, hread⟩ := exists_takes_render hf hdepth
  obtain ⟨offset, hrefused⟩ := hread.refused limit hlevels
  refine ⟨offset, ?_⟩
  rw [parseWithin_eq htokens hne]
  dsimp only
  rw [hrefused]
  rfl

/-- **Reading undoes printing.**  The canonical text of a well-formed formula is read back to the
formula if the limit allows for four levels at each level of its depth, and for those of its
terms. -/
theorem parseWithin_render (hf : f.isWellFormed = true)
    (hlimit : 4 * f.depth + f.termNesting + 1 ≤ limit) : parseWithin limit f.render = .ok f := by
  have hlevels := f.levels_le
  exact parseWithin_render_of_levels hf (by omega) (by omega)

/-- A letter that is no operator here, a name bound twice and a constant beside a variable. -/
theorem parseWithin_render_shadowed :
    ∃ f : Formula, f.render = "(∀x. R(f(x), c) → O(¬U U X(∃x. Q(x))))" ∧ f.isWellFormed = true ∧
      4 * f.depth + f.termNesting + 1 = 31 ∧ parseWithin 31 f.render = .ok f := by
  let f : Formula := .all "x" (.implies (.pred "R" [.app "f" [.var "x"], .const "c"])
    (.obligatory (.until (.not (.atom "U")) (.next (.exists "x" (.pred "Q" [.var "x"]))))))
  have hf : f.isWellFormed = true := by decide +kernel
  have hlimit : 4 * f.depth + f.termNesting + 1 = 31 := by decide +kernel
  exact ⟨f, by decide +kernel, hf, hlimit, parseWithin_render hf (Nat.le_of_eq hlimit)⟩

/-- **A canonical text is accepted under the limit of the text it stands for exactly if its levels
are within that limit.**  Otherwise it is refused for its nesting. -/
theorem parseWithin_render_iff_levels {text : String} (h : parseWithin limit text = .ok f) :
    (parseWithin limit f.render = .ok f ↔ f.levels ≤ limit) ∧
      (limit < f.levels →
        ∃ offset, parseWithin limit f.render = .error (.tooDeep limit offset)) := by
  obtain ⟨hf, hdepth⟩ := isWellFormed_of_parseWithin h
  refine ⟨⟨fun hread => ?_, parseWithin_render_of_levels hf hdepth⟩,
    parseWithin_render_of_lt_levels hf hdepth⟩
  by_contra hlevels
  obtain ⟨offset, hrefused⟩ := parseWithin_render_of_lt_levels hf hdepth (Nat.lt_of_not_le hlevels)
  exact nomatch hread.symm.trans hrefused

/-- A text accepted under both limits, whose canonical text takes eleven levels. -/
theorem parseWithin_render_iff_levels_eleven :
    ∃ f : Formula, parseWithin 10 "forall x. P(f(x)) -> O(Q & R) U !S" = .ok f ∧
      parseWithin 11 "forall x. P(f(x)) -> O(Q & R) U !S" = .ok f ∧
      parseWithin 11 f.render = .ok f ∧
      ∃ offset, parseWithin 10 f.render = .error (.tooDeep 10 offset) := by
  let f : Formula := .all "x" (.implies (.permitted (.pred "f" [.var "x"]))
    (.until (.obligatory (.and (.atom "Q") (.atom "R"))) (.not (.atom "S"))))
  have hten : parseWithin 10 "forall x. P(f(x)) -> O(Q & R) U !S" = .ok f := by decide +kernel
  have heleven : parseWithin 11 "forall x. P(f(x)) -> O(Q & R) U !S" = .ok f := by decide +kernel
  exact ⟨f, hten, heleven, (parseWithin_render_iff_levels heleven).1.mpr (by decide +kernel),
    (parseWithin_render_iff_levels hten).2 (by decide +kernel)⟩

/-- Two letters joined by a conjunction are accepted under a limit of two, and with the parentheses
of the canonical text they are not. -/
theorem conjunction_render_tooDeep :
    parseWithin 2 "P & Q" = .ok (.and (.atom "P") (.atom "Q")) ∧
      parseWithin 2 (Formula.and (.atom "P") (.atom "Q")).render = .error (.tooDeep 2 1) := by
  decide +kernel

end Canonical

end Deontica.Formula
