import Deontica.Proofs.Formula.Canonical

/-!
# The grammar of formulas

The language of formulas as a grammar over tokens.  Formulas stand on seven tiers:

    iff      :=  implies  |  iff `↔` implies
    implies  :=  or       |  or `→` implies
    or       :=  xor      |  or `∨` xor
    xor      :=  and      |  xor `⊕` and
    and      :=  span     |  and `∧` span
    span     :=  unary    |  unary (until | since | `U` | `S`) span
    unary    :=  (not | always | eventually | next) unary
               |  quantifier name [`.` | `:`] iff
               |  `(` iff `)`  |  (`O` | `P` | `F` | `X`) `(` iff `)`
               |  name  |  name `(` arguments `)`

So the connectives group to the left, but implication and the spans to the right.  The last form has
a name other than `O`, `P`, `F` and `X`.  A term is a name, or a name with arguments in parentheses.

Taken by itself the grammar is ambiguous where a quantified formula is an operand: nothing says
where its body stops.  A derivation therefore knows the token that follows it, and a quantified
formula may be followed by a closing parenthesis only, or by nothing (`Derives.quant`).
-/

namespace Deontica.Grammar

/-! ### Terms -/

mutual

/-- The tokens derive a term, where the names in `bound` are variables. -/
inductive DerivesTerm (bound : List String) : List Token → Term → Prop
  | var {x : String} : x ∈ bound → DerivesTerm bound [.name x] (.var x)
  | const {x : String} : x ∉ bound → DerivesTerm bound [.name x] (.const x)
  | app {f : String} {w : List Token} {ts : List Term} : DerivesArgs bound w ts →
    DerivesTerm bound (.name f :: .open :: (w ++ [.close])) (.app f ts)

/-- The tokens derive terms with commas between them. -/
inductive DerivesArgs (bound : List String) : List Token → List Term → Prop
  | nil : DerivesArgs bound [] []
  | cons {u v : List Token} {t : Term} {ts : List Term} : DerivesTerm bound u t →
    DerivesMore bound v ts → DerivesArgs bound (u ++ v) (t :: ts)

/-- The tokens derive terms, each led by a comma. -/
inductive DerivesMore (bound : List String) : List Token → List Term → Prop
  | nil : DerivesMore bound [] []
  | cons {u v : List Token} {t : Term} {ts : List Term} : DerivesTerm bound u t →
    DerivesMore bound v ts → DerivesMore bound (.comma :: (u ++ v)) (t :: ts)

end

/-! ### Formulas -/

/-- The tiers of the grammar, from the loosest to the tightest. -/
inductive Tier where
  | iff
  | implies
  | or
  | xor
  | and
  | span
  | unary
  deriving Repr, DecidableEq

/-- The next tighter tier. -/
def Tier.tighter : Tier → Option Tier
  | .iff => some .implies
  | .implies => some .or
  | .or => some .xor
  | .xor => some .and
  | .and => some .span
  | .span => some .unary
  | .unary => none

/-- The connective that groups to the left on a tier, and the tier of its right operand. -/
def Tier.join : Tier → Option (Connective × Tier)
  | .iff => some (.iff, .implies)
  | .or => some (.or, .xor)
  | .xor => some (.xor, .and)
  | .and => some (.and, .span)
  | _ => none

/-- The tokens that stand for a span between its operands. -/
def spanTokens : Span → List Token
  | .until => [.until, .name "U"]
  | .since => [.since, .name "S"]

/-- The tokens that stand before an operand, with the operators they stand for. -/
def operators : List (Token × (Formula → Formula)) :=
  [(.not, .not), (.always, .always), (.eventually, .eventually), (.next, .next)]

/-- The letters that stand before a formula in parentheses, with the operators they stand for. -/
def letters : List (String × (Formula → Formula)) :=
  [("O", .obligatory), ("P", .permitted), ("F", .forbidden), ("X", .next)]

/-- What may stand between the variable of a quantifier and the body. -/
def marks : List (List Token) :=
  [[], [.point], [.colon]]

/-- The tokens derive a formula on a tier, where the names in `bound` are variables and `follow` is
the token that follows, if there is one. -/
inductive Derives : Tier → List String → List Token → (follow : Option Token) → Formula → Prop
  | tighter {tier operand : Tier} {bound : List String} {w : List Token} {follow : Option Token}
    {f : Formula} : tier.tighter = some operand → Derives operand bound w follow f →
    Derives tier bound w follow f
  | join {tier operand : Tier} {op : Connective} {bound : List String} {u v : List Token}
    {follow : Option Token} {f g : Formula} : tier.join = some (op, operand) →
    Derives tier bound u (some op.token) f → Derives operand bound v follow g →
    Derives tier bound (u ++ op.token :: v) follow (.binary op f g)
  | implies {bound : List String} {u v : List Token} {follow : Option Token} {f g : Formula} :
    Derives .or bound u (some .implies) f → Derives .implies bound v follow g →
    Derives .implies bound (u ++ .implies :: v) follow (.implies f g)
  | span {token : Token} {op : Span} {bound : List String} {u v : List Token}
    {follow : Option Token} {f g : Formula} : token ∈ spanTokens op →
    Derives .unary bound u (some token) f → Derives .span bound v follow g →
    Derives .span bound (u ++ token :: v) follow (.span op f g)
  | operator {token : Token} {build : Formula → Formula} {bound : List String} {w : List Token}
    {follow : Option Token} {f : Formula} : (token, build) ∈ operators →
    Derives .unary bound w follow f → Derives .unary bound (token :: w) follow (build f)
  | quant {q : Quantifier} {x : String} {mark : List Token} {bound : List String} {w : List Token}
    {follow : Option Token} {f : Formula} : mark ∈ marks → follow = none ∨ follow = some .close →
    Derives .iff (x :: bound) w follow f →
    Derives .unary bound (q.token :: .name x :: (mark ++ w)) follow (.quant q x f)
  | parentheses {bound : List String} {w : List Token} {follow : Option Token} {f : Formula} :
    Derives .iff bound w (some .close) f →
    Derives .unary bound (.open :: (w ++ [.close])) follow f
  | letter {x : String} {build : Formula → Formula} {bound : List String} {w : List Token}
    {follow : Option Token} {f : Formula} : (x, build) ∈ letters →
    Derives .iff bound w (some .close) f →
    Derives .unary bound (.name x :: .open :: (w ++ [.close])) follow (build f)
  | name {x : String} {bound : List String} {follow : Option Token} :
    Derives .unary bound [.name x] follow (.pred x [])
  | pred {x : String} {bound : List String} {w : List Token} {follow : Option Token}
    {ts : List Term} : x ∉ Formula.operatorNames → DerivesArgs bound w ts →
    Derives .unary bound (.name x :: .open :: (w ++ [.close])) follow (.pred x ts)

theorem depth_of_mem_operators {token : Token} {build : Formula → Formula}
    (h : (token, build) ∈ operators) (f : Formula) : (build f).depth = f.depth + 1 := by
  simp only [operators, List.mem_cons, Prod.mk.injEq, List.not_mem_nil, or_false] at h
  obtain ⟨-, rfl⟩ | ⟨-, rfl⟩ | ⟨-, rfl⟩ | ⟨-, rfl⟩ := h <;> rfl

theorem depth_of_mem_letters {x : String} {build : Formula → Formula}
    (h : (x, build) ∈ letters) (f : Formula) : (build f).depth = f.depth + 1 := by
  simp only [letters, List.mem_cons, Prod.mk.injEq, List.not_mem_nil, or_false] at h
  obtain ⟨-, rfl⟩ | ⟨-, rfl⟩ | ⟨-, rfl⟩ | ⟨-, rfl⟩ := h <;> rfl

/-- Every node of a formula takes a token, so a formula is no deeper than its text is long. -/
theorem Derives.depth_le {tier : Tier} {bound : List String} {w : List Token}
    {follow : Option Token} {f : Formula} (h : Derives tier bound w follow f) :
    f.depth ≤ w.length := by
  induction h with
  | tighter _ _ ih => exact ih
  | join _ _ _ ihf ihg | implies _ _ ihf ihg | span _ _ _ ihf ihg =>
    simp only [Formula.depth, List.length_append, List.length_cons]
    omega
  | operator hbuild _ ih =>
    rw [depth_of_mem_operators hbuild, List.length_cons]
    omega
  | quant _ _ _ ih =>
    simp only [Formula.depth, List.length_append, List.length_cons]
    omega
  | parentheses _ ih =>
    simp only [List.length_append, List.length_cons]
    omega
  | letter hbuild _ ih =>
    rw [depth_of_mem_letters hbuild]
    simp only [List.length_append, List.length_cons]
    omega
  | name => exact Nat.le_refl 1
  | pred _ _ =>
    simp only [Formula.depth, List.length_cons]
    omega

end Deontica.Grammar
