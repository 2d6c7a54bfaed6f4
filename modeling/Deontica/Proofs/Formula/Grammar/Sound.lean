import Deontica.Proofs.Formula.Accepted
import Deontica.Proofs.Formula.Grammar
import Deontica.Proofs.Formula.Levels

/-!
# What is read is derived

With room for two levels at each token, reading never stops for nesting: it refuses the tokens as
malformed, or it takes tokens off the front that derive what it gives (`soundTier`).

Readers are greedy: what is left after a tier starts with no operator of that tier or of a tighter
one (`Looser`).  So the body of a quantifier, which is read on the loosest tier, stops before no
operator at all, and a quantified formula that is followed as formulas are is followed by a closing
parenthesis or by nothing.
-/

namespace Deontica

namespace Grammar

/-! ### Operators and their tiers -/

/-- The place of a tier, from the loosest. -/
def Tier.rank : Tier → Nat
  | .iff => 0
  | .implies => 1
  | .or => 2
  | .xor => 3
  | .and => 4
  | .span => 5
  | .unary => 6

/-- The place of the tier to which a token belongs as an operator between two formulas. -/
def rank : Token → Option Nat
  | .iff => some 0
  | .implies => some 1
  | .or => some 2
  | .xor => some 3
  | .and => some 4
  | t => (Source.spanOp t).map fun _ => 5

/-- The tier of a connective. -/
def opTier : Connective → Tier
  | .iff => .iff
  | .implies => .implies
  | .or => .or
  | .xor => .xor
  | .and => .and

variable {tier operand : Tier} {op : Connective} {t : Token} {n : Nat} {rest : List Located}

theorem opTier_of_join (h : tier.join = some (op, operand)) : opTier op = tier := by
  cases tier <;> cases h <;> rfl

theorem rank_operand (h : tier.join = some (op, operand)) : operand.rank = tier.rank + 1 := by
  cases tier <;> cases h <;> rfl

theorem rank_token (op : Connective) : rank op.token = some (opTier op).rank := by
  cases op <;> rfl

theorem rank_of_spanOp {op : Span} (h : Source.spanOp t = some op) : rank t = some 5 := by
  unfold rank
  split
  case h_6 => rw [h, Option.map_some]
  all_goals cases h

/-- An operator between two formulas is a connective or a span. -/
theorem rank_cases (h : rank t = some n) :
    (∃ op : Connective, t = op.token ∧ n = (opTier op).rank) ∨
      n = 5 ∧ ∃ op, Source.spanOp t = some op := by
  unfold rank at h
  split at h
  case h_6 =>
    obtain ⟨op, hop, rfl⟩ := Option.map_eq_some_iff.mp h
    exact .inr ⟨rfl, op, hop⟩
  all_goals obtain rfl := Option.some.inj h
  · exact .inl ⟨.iff, rfl, rfl⟩
  · exact .inl ⟨.implies, rfl, rfl⟩
  · exact .inl ⟨.or, rfl, rfl⟩
  · exact .inl ⟨.xor, rfl, rfl⟩
  · exact .inl ⟨.and, rfl, rfl⟩

theorem opTier_rank_lt (op : Connective) : (opTier op).rank < 5 := by
  cases op <;> decide

theorem opTier_rank_inj {op op' : Connective} (h : (opTier op).rank = (opTier op').rank) :
    op = op' := by
  cases op <;> cases op' <;> first | rfl | cases h

theorem rank_lt (h : rank t = some n) : n < 6 := by
  obtain ⟨op, -, rfl⟩ | ⟨rfl, -⟩ := rank_cases h
  · exact Nat.lt_succ_of_lt (opTier_rank_lt op)
  · decide

theorem rank_lt_of_spanOp (h : Source.spanOp t = none) (hn : rank t = some n) : n < 5 := by
  obtain ⟨op, -, rfl⟩ | ⟨rfl, op, hop⟩ := rank_cases hn
  · exact opTier_rank_lt op
  · exact nomatch h.symm.trans hop

/-- Each tier of a connective has no other operator. -/
theorem eq_token_of_rank (h : rank t = some (opTier op).rank) : t = op.token := by
  obtain ⟨op', rfl, hop⟩ | ⟨hspan, -⟩ := rank_cases h
  · rw [opTier_rank_inj hop]
  · exact absurd hspan (Nat.ne_of_lt (opTier_rank_lt op))

theorem mem_spanTokens {op : Span} (h : Source.spanOp t = some op) : t ∈ spanTokens op := by
  unfold Source.spanOp at h
  split at h
  case h_5 => cases h
  all_goals
    obtain rfl := Option.some.inj h
    simp [spanTokens]

/-- No operator of the tier or of a tighter one comes next. -/
def Looser (tier : Tier) (rest : List Located) : Prop :=
  ∀ t n, Located.next rest = some t → rank t = some n → n < tier.rank

theorem looser_unary : Looser .unary rest :=
  fun _ _ _ hn => rank_lt hn

/-- Nothing comes next, or a closing parenthesis or an operator. -/
def Follows (rest : List Located) : Prop :=
  ∀ t, Located.next rest = some t → t = .close ∨ ∃ n, rank t = some n

theorem Follows.nil : Follows [] := by
  rintro _ ⟨⟩

theorem Follows.of_rank {offset : Nat} (h : rank t = some n) : Follows (⟨t, offset⟩ :: rest) := by
  rintro _ ⟨⟩
  exact .inr ⟨n, h⟩

theorem Follows.close {offset : Nat} : Follows (⟨.close, offset⟩ :: rest) := by
  rintro _ ⟨⟩
  exact .inl rfl

/-- After the loosest tier comes a closing parenthesis or nothing. -/
theorem Follows.ends (h : Follows rest) (hl : Looser .iff rest) :
    Located.next rest = none ∨ Located.next rest = some .close := by
  cases hnext : Located.next rest with
  | none => exact .inl rfl
  | some t =>
    obtain rfl | ⟨n, hn⟩ := h t hnext
    · exact .inr rfl
    · exact absurd (hl t n hnext hn) (Nat.not_lt_zero n)

/-- The tokens that were taken off to leave `rest` derive a term. -/
def DerivedTerm (bound : List String) (tokens : List Located) (t : Term) (rest : List Located) :
    Prop :=
  ∃ w, tokens = w ++ rest ∧ DerivesTerm bound (w.map (·.token)) t

/-- The tokens that were taken off to leave `rest` are no fewer than `f` is deep, and derive it. -/
def Derived (tier : Tier) (bound : List String) (tokens : List Located) (f : Formula)
    (rest : List Located) : Prop :=
  ∃ w, tokens = w ++ rest ∧ f.depth ≤ w.length ∧
    (Follows rest → Derives tier bound (w.map (·.token)) (Located.next rest) f)

namespace Derived

variable {tier' : Tier} {bound : List String} {tokens more : List Located} {f g h : Formula}
  {offset : Nat}

theorem length_le (hf : Derived tier bound tokens f rest) : rest.length ≤ tokens.length := by
  obtain ⟨w, rfl, -⟩ := hf
  rw [List.length_append]
  omega

theorem tighter (htier : tier.tighter = some operand) (hf : Derived operand bound tokens f rest) :
    Derived tier bound tokens f rest := by
  obtain ⟨w, rfl, hdepth, hw⟩ := hf
  exact ⟨w, rfl, hdepth, fun hrest => .tighter htier (hw hrest)⟩

/-- Two operands and the operator between them derive what a rule joins them to. -/
theorem pair
    (hrule : ∀ {u v : List Token} {follow : Option Token}, Derives tier' bound u (some t) f →
      Derives operand bound v follow g → Derives tier bound (u ++ t :: v) follow h)
    (hdepth : h.depth = max f.depth g.depth + 1) (ht : rank t = some n)
    (hf : Derived tier' bound tokens f (⟨t, offset⟩ :: more))
    (hg : Derived operand bound more g rest) : Derived tier bound tokens h rest := by
  obtain ⟨u, rfl, hfu, hu⟩ := hf
  obtain ⟨v, rfl, hgv, hv⟩ := hg
  refine ⟨u ++ ⟨t, offset⟩ :: v, by simp, ?_, fun hrest => ?_⟩
  · rw [List.length_append, List.length_cons]
    omega
  · rw [List.map_append, List.map_cons]
    exact hrule (hu (.of_rank ht)) (hv hrest)

end Derived

/-- What was taken off stands in parentheses, and between them are tokens with the property `D`. -/
def Enclosed (tokens rest : List Located) (D : List Token → Prop) : Prop :=
  ∃ w v, tokens = w ++ rest ∧ w.map (·.token) = .open :: (v ++ [.close]) ∧ D v

section Enclosed

variable {bound : List String} {tokens : List Located} {f : Formula}
  (h : Enclosed tokens rest fun v => f.depth ≤ v.length ∧ Derives .iff bound v (some .close) f)
include h

/-- A formula in parentheses is derived on the tightest tier, with at least one token to spare. -/
theorem Enclosed.exists_parentheses : ∃ w v, tokens = w ++ rest ∧ f.depth < w.length ∧
    w.map (·.token) = .open :: (v ++ [.close]) ∧ Derives .iff bound v (some .close) f := by
  obtain ⟨w, v, rfl, hw, hdepth, hv⟩ := h
  have hlength : w.length = v.length + 2 := by
    rw [← List.length_map (·.token), hw]
    simp
  exact ⟨w, v, rfl, by omega, hw, hv⟩

theorem Enclosed.derived : Derived .unary bound tokens f rest := by
  obtain ⟨w, v, rfl, hdepth, hw, hv⟩ := h.exists_parentheses
  refine ⟨w, rfl, Nat.le_of_lt hdepth, fun _ => ?_⟩
  rw [hw]
  exact .parentheses hv

/-- A letter before parentheses derives what it builds from what they enclose. -/
theorem Enclosed.letter {x : String} {build : Formula → Formula} (hbuild : (x, build) ∈ letters)
    {offset : Nat} :
    Derived .unary bound (⟨.name x, offset⟩ :: tokens) (build f) rest := by
  obtain ⟨w, v, rfl, hdepth, hw, hv⟩ := h.exists_parentheses
  refine ⟨⟨.name x, offset⟩ :: w, rfl, ?_, fun _ => ?_⟩
  · rw [depth_of_mem_letters hbuild, List.length_cons]
    omega
  · rw [List.map_cons, hw]
    exact .letter hbuild hv

end Enclosed

end Grammar

namespace Source

open Grammar

/-! ### Outcomes -/

/-- What `x` gives has the property `P`, and it fails only on malformed tokens. -/
def Yields {α : Type} (x : Except ParseError (α × List Located)) (P : α → List Located → Prop) :
    Prop :=
  (∃ a rest, x = .ok (a, rest) ∧ P a rest) ∨
    ∃ offset complaint, x = .error (.malformed offset complaint)

namespace Yields

variable {α β : Type} {x : Except ParseError (α × List Located)} {P : α → List Located → Prop}
  {Q : β → List Located → Prop} {s : Source} {tokens : List Located}

theorem ok {a : α} (h : P a tokens) : Yields (.ok (a, tokens)) P :=
  .inl ⟨a, tokens, rfl, h⟩

theorem refuse {complaint : Option Token → Complaint} : Yields (s.refuse tokens complaint) P :=
  .inr ⟨_, _, rfl⟩

theorem bind {f : α × List Located → Except ParseError (β × List Located)} (hx : Yields x P)
    (hf : ∀ a rest, P a rest → Yields (f (a, rest)) Q) : Yields (x >>= f) Q := by
  obtain ⟨a, rest, rfl, ha⟩ | ⟨offset, complaint, rfl⟩ := hx
  · exact hf a rest ha
  · exact .inr ⟨offset, complaint, rfl⟩

theorem mono {P' : α → List Located → Prop} (hx : Yields x P)
    (h : ∀ a rest, P a rest → P' a rest) : Yields x P' :=
  hx.imp_left fun ⟨a, rest, hok, ha⟩ => ⟨a, rest, hok, h a rest ha⟩

theorem expect {wanted : Token} {f : List Located → Except ParseError (β × List Located)}
    (hf : ∀ offset rest, tokens = ⟨wanted, offset⟩ :: rest → Yields (f rest) Q) :
    Yields (s.expect wanted tokens >>= f) Q := by
  cases tokens with
  | nil => exact refuse
  | cons t rest =>
    rw [Source.expect]
    split
    · rename_i ht
      exact hf t.offset rest (ht ▸ rfl)
    · exact refuse

end Yields

variable {s : Source} {bound : List String} {tokens : List Located} {n : Nat}

/-! ### Terms -/

section Terms

variable {read : Reader Term}
  (hread : ∀ {tokens}, tokens.length < n → Yields (read tokens) (DerivedTerm bound tokens))
include hread

theorem yields_moreArgs {count : Nat} (hlen : tokens.length ≤ n) :
    Yields (s.moreArgs read count tokens) fun ts rest =>
      ∃ w v, tokens = w ++ rest ∧ w.map (·.token) = v ++ [.close] ∧ DerivesMore bound v ts := by
  induction count generalizing tokens with
  | zero => exact .refuse
  | succ count ih =>
    cases tokens with
    | nil => exact .refuse
    | cons t rest =>
      obtain ⟨token, offset⟩ := t
      rw [List.length_cons] at hlen
      rw [moreArgs]
      dsimp only
      split
      · exact .ok ⟨[⟨.close, offset⟩], [], rfl, rfl, .nil⟩
      · refine (hread hlen).bind ?_
        rintro arg _ ⟨u, rfl, hu⟩
        rw [List.length_append] at hlen
        dsimp only
        refine (ih (by omega)).bind ?_
        rintro args rest ⟨w, v, rfl, hw, hv⟩
        refine .ok ⟨⟨.comma, offset⟩ :: (u ++ w), .comma :: (u.map (·.token) ++ v), by simp, ?_,
          .cons hu hv⟩
        simp [hw]
      · exact .refuse

theorem yields_args (hlen : tokens.length ≤ n) :
    Yields (s.args read tokens) fun ts rest => Enclosed tokens rest (DerivesArgs bound · ts) := by
  refine .expect ?_
  rintro offset tokens rfl
  rw [List.length_cons] at hlen
  split
  · rename_i offset' rest
    exact .ok ⟨[⟨.open, offset⟩, ⟨.close, offset'⟩], [], rfl, rfl, .nil⟩
  · refine (hread hlen).bind ?_
    rintro arg _ ⟨u, rfl, hu⟩
    rw [List.length_append] at hlen
    dsimp only
    refine (yields_moreArgs hread (by omega)).bind ?_
    rintro args rest ⟨w, v, rfl, hw, hv⟩
    refine .ok ⟨⟨.open, offset⟩ :: (u ++ w), u.map (·.token) ++ v, by simp, ?_, .cons hu hv⟩
    simp [hw]

end Terms

/-- Terms nest no deeper than there are tokens. -/
theorem yields_term {room : Nat} (hlen : tokens.length < room) :
    Yields (s.term bound room tokens) (DerivedTerm bound tokens) := by
  induction room generalizing tokens with
  | zero => exact absurd hlen (Nat.not_lt_zero _)
  | succ room ih =>
    rw [term.eq_def]
    dsimp only
    split
    · rename_i x offset rest
      rw [List.length_cons] at hlen
      split
      · refine (yields_args ih (by omega)).bind ?_
        rintro args rest' ⟨w, v, hrest, hw, hv⟩
        refine .ok ⟨⟨.name x, offset⟩ :: w, by rw [hrest, List.cons_append], ?_⟩
        rw [List.map_cons, hw]
        exact .app hv
      · refine .ok ⟨[⟨.name x, offset⟩], rfl, ?_⟩
        split
        · exact .var ‹_›
        · exact .const ‹_›
    · exact .refuse

/-! ### Left-grouping connectives -/

/-- The reader of a tier.  The loosest tier opens a level of its own. -/
def readTier (s : Source) (room : Nat) : Tier → List String → Reader Formula
  | .iff => s.read (room + 1) .formula
  | .implies => s.read room .implication
  | .or => s.disjunction room
  | .xor => s.parity room
  | .and => s.conjunction room
  | .span => s.read room .span
  | .unary => s.read room .unary

variable {room : Nat} {tier operand : Tier} {op : Connective}

theorem readTier_join (h : tier.join = some (op, operand)) :
    s.readTier room tier bound tokens =
      s.leftGrouped op op.token (s.readTier room operand bound) tokens := by
  cases tier <;> cases h
  case iff => exact s.read_formula (room + 1) bound tokens
  all_goals rfl

/-- What a tier yields: the formula is derived on it, and what is left goes on with no operator of
the tier. -/
def YieldsTier (s : Source) (room : Nat) (tier : Tier) (bound : List String)
    (tokens : List Located) : Prop :=
  Yields (s.readTier room tier bound tokens) fun f rest =>
    Derived tier bound tokens f rest ∧ Looser tier rest

/-- With a count for each token left, a chain goes on as long as its connective follows, and joins
no more than has tokens: it never gets deeper than the text is long. -/
theorem yields_chain (hjoin : tier.join = some (op, operand)) {all : List Located}
    (hall : all.length ≤ s.limit)
    (hoperand : ∀ {tokens}, tokens.length < all.length → s.YieldsTier room operand bound tokens)
    {count : Nat} {left : Formula} (hcount : tokens.length ≤ count)
    (hleft : Derived tier bound all left tokens) (hlooser : Looser operand tokens) :
    Yields (s.chain op op.token (s.readTier room operand bound) count left left.depth tokens)
      fun f rest => Derived tier bound all f rest ∧ Looser tier rest := by
  induction count generalizing left tokens with
  | zero =>
    obtain rfl := List.length_eq_zero_iff.mp (Nat.le_zero.mp hcount)
    exact .ok ⟨hleft, nofun⟩
  | succ count ih =>
    cases tokens with
    | nil => exact .ok ⟨hleft, nofun⟩
    | cons t more =>
      have hlength := hleft.length_le
      rw [List.length_cons] at hcount hlength
      rw [chain]
      split
      · rename_i ht
        obtain ⟨token, offset⟩ := t
        obtain rfl : token = op.token := ht
        refine (hoperand (by omega)).bind ?_
        rintro right rest ⟨hright, hlooser⟩
        have hpair : Derived tier bound all (.binary op left right) rest :=
          hleft.pair (.join hjoin) rfl (rank_token op) hright
        -- The limit holds for a formula that is no deeper than the whole text is long.
        have hdepth : max left.depth right.depth + 1 ≤ s.limit := by
          obtain ⟨w, rfl, hw, -⟩ := hpair
          rw [Formula.depth] at hw
          rw [List.length_append] at hall
          omega
        dsimp only
        rw [if_neg (Nat.not_lt.mpr hdepth)]
        have hrest := hright.length_le
        exact ih (by omega) hpair hlooser
      · rename_i ht
        refine .ok ⟨hleft, ?_⟩
        rintro token n ⟨⟩ hn
        -- Only the connective of the tier is left between the two tiers.
        have hlt := hlooser _ n rfl hn
        rw [rank_operand hjoin] at hlt
        have hne : n ≠ tier.rank := by
          rintro rfl
          rw [← opTier_of_join hjoin] at hn
          exact ht (eq_token_of_rank hn)
        omega

/-! ### Formulas that their first token decides -/

/-- With room for two levels at each token, the reader of a tier yields what the tier derives. -/
def SoundTier (s : Source) (room : Nat) (tier : Tier) : Prop :=
  ∀ (bound : List String) (tokens : List Located), tokens.length ≤ s.limit →
    2 * tokens.length < room → s.YieldsTier room tier bound tokens

theorem soundTier_join (hjoin : tier.join = some (op, operand))
    (htighter : tier.tighter = some operand) (hoperand : s.SoundTier room operand) :
    s.SoundTier room tier := by
  intro bound tokens hlimit hroom
  rw [YieldsTier, readTier_join hjoin]
  refine (hoperand bound tokens hlimit hroom).bind ?_
  rintro left rest ⟨hleft, hlooser⟩
  refine yields_chain hjoin hlimit (fun hmore => ?_) (Nat.le_refl _) (hleft.tighter htighter)
    hlooser
  exact hoperand bound _ (by omega) (by omega)

/-- The tokens after the mark that may stand behind the variable of a quantifier. -/
def pastMark : List Located → List Located
  | ⟨.point, _⟩ :: more | ⟨.colon, _⟩ :: more => more
  | rest => rest

theorem exists_mark (rest : List Located) :
    ∃ mark, rest = mark ++ pastMark rest ∧ mark.map (·.token) ∈ marks := by
  unfold pastMark
  split
  · rename_i offset more
    exact ⟨[⟨.point, offset⟩], rfl, by simp [marks]⟩
  · rename_i offset more
    exact ⟨[⟨.colon, offset⟩], rfl, by simp [marks]⟩
  · exact ⟨[], rfl, by simp [marks]⟩

theorem quantified_name (below : Level) (q : Quantifier) (x : String) (offset : Nat)
    (rest : List Located) :
    s.quantified below bound q (⟨.name x, offset⟩ :: rest) = (do
      let (body, rest) ← below.formula .formula (x :: bound) (pastMark rest)
      return (.quant q x body, rest)) := by
  unfold pastMark
  split
  · rfl
  · rfl
  · rw [quantified] <;> assumption

theorem mem_letters_of_normOp {x : String} {op : Norm} (h : normOp x = some op) :
    (x, Formula.deontic op) ∈ letters := by
  unfold normOp at h
  split at h
  case h_4 => cases h
  all_goals
    obtain rfl := Option.some.inj h
    simp [letters]

section Unary

variable (hbody : ∀ {bound : List String} {more : List Located}, more.length < tokens.length →
  s.YieldsTier room .iff bound more)
include hbody

theorem yields_parenthesized :
    Yields (s.parenthesized (s.level (room + 1)) bound tokens) fun f rest =>
      Enclosed tokens rest fun v => f.depth ≤ v.length ∧ Derives .iff bound v (some .close) f := by
  refine .expect ?_
  rintro offset more rfl
  refine (hbody (Nat.lt_succ_self _)).bind ?_
  rintro body rest ⟨⟨w, rfl, hdepth, hw⟩, -⟩
  refine .expect ?_
  rintro offset' rest rfl
  refine .ok ⟨⟨.open, offset⟩ :: (w ++ [⟨.close, offset'⟩]), w.map (·.token), by simp, by simp, ?_⟩
  exact ⟨by rwa [List.length_map], hw .close⟩

/-- The body of a quantifier takes every operator, so it ends where formulas end. -/
theorem yields_quantified {q : Quantifier} {offset : Nat} :
    Yields (s.quantified (s.level (room + 1)) bound q tokens)
      (Derived .unary bound (⟨q.token, offset⟩ :: tokens)) := by
  cases tokens with
  | nil => exact .refuse
  | cons t rest =>
    obtain ⟨token, offset'⟩ := t
    cases token with
    | name x =>
      obtain ⟨mark, hrest, hmark⟩ := exists_mark rest
      have hlength := congrArg List.length hrest
      rw [List.length_append] at hlength
      rw [quantified_name]
      refine (hbody (Nat.lt_succ_of_le (by omega))).bind ?_
      rintro f rest' ⟨⟨w, hbody, hdepth, hw⟩, hlooser⟩
      refine .ok ⟨⟨q.token, offset⟩ :: ⟨.name x, offset'⟩ :: (mark ++ w), ?_, ?_, ?_⟩
      · rw [hrest, hbody]
        simp
      · rw [Formula.depth, List.length_cons, List.length_cons, List.length_append]
        omega
      · intro hfollows
        rw [List.map_cons, List.map_cons, List.map_append]
        exact .quant hmark (hfollows.ends hlooser) (hw hfollows)
    | _ => exact .refuse

theorem yields_named {x : String} {offset : Nat}
    (hterm : ∀ {more}, more.length < tokens.length →
      Yields (s.term bound (room + 1) more) (DerivedTerm bound more)) :
    Yields (s.named (s.level (room + 1)) bound x tokens)
      (Derived .unary bound (⟨.name x, offset⟩ :: tokens)) := by
  have hletter {build : Formula → Formula} (hbuild : (x, build) ∈ letters) :
      Yields (do
        let (body, rest) ← s.parenthesized (s.level (room + 1)) bound tokens
        return (build body, rest)) (Derived .unary bound (⟨.name x, offset⟩ :: tokens)) :=
    (yields_parenthesized hbody).bind fun f rest hf => .ok (hf.letter hbuild)
  rw [named.eq_def]
  split
  · split
    · rename_i op hop
      exact hletter (mem_letters_of_normOp hop)
    · rename_i hnorm
      split
      · rename_i hnext
        exact hletter (by rw [hnext]; simp [letters])
      · rename_i hnext
        have hx := not_mem_operatorNames hnorm hnext
        refine (yields_args hterm (Nat.le_refl _)).bind ?_
        rintro ts rest ⟨w, v, htokens, hw, hv⟩
        refine .ok ⟨⟨.name x, offset⟩ :: w, congrArg _ htokens, Nat.le_add_left 1 _,
          fun _ => ?_⟩
        rw [List.map_cons, hw]
        exact .pred hx hv
  · exact .ok ⟨[⟨.name x, offset⟩], rfl, Nat.le_refl 1, fun _ => .name⟩

theorem yields_unary
    (hoperand : ∀ {more}, more.length < tokens.length →
      s.YieldsTier (room + 1) .unary bound more)
    (hterm : ∀ {more}, more.length < tokens.length →
      Yields (s.term bound (room + 1) more) (DerivedTerm bound more)) :
    Yields (s.unary (s.level (room + 1)) bound tokens) (Derived .unary bound tokens) := by
  cases tokens with
  | nil => exact .refuse
  | cons t more =>
    have hoperator {build : Formula → Formula} (hbuild : (t.token, build) ∈ operators) :
        Yields (do
          let (body, rest) ← s.read (room + 1) .unary bound more
          return (build body, rest)) (Derived .unary bound (t :: more)) := by
      refine (hoperand (Nat.lt_succ_self _)).bind ?_
      rintro f rest ⟨⟨w, rfl, hdepth, hw⟩, -⟩
      refine .ok ⟨t :: w, rfl, ?_, fun hfollows => .operator hbuild (hw hfollows)⟩
      rw [depth_of_mem_operators hbuild, List.length_cons]
      omega
    have hbodyMore {bound : List String} {rest : List Located} (hrest : rest.length < more.length) :
        s.YieldsTier room .iff bound rest :=
      hbody (Nat.lt_succ_of_lt hrest)
    obtain ⟨token, offset⟩ := t
    cases token with
    | not => exact hoperator (by simp [operators])
    | always => exact hoperator (by simp [operators])
    | eventually => exact hoperator (by simp [operators])
    | next => exact hoperator (by simp [operators])
    | all => exact yields_quantified hbodyMore
    | «exists» => exact yields_quantified hbodyMore
    | «open» => exact (yields_parenthesized hbody).mono fun f rest hf => hf.derived
    | name x => exact yields_named hbodyMore fun hrest => hterm (Nat.lt_succ_of_lt hrest)
    | _ => exact .refuse

end Unary

/-! ### All tiers -/

section Tiers

variable (ih : ∀ {room'}, room' < room → ∀ {tier}, s.SoundTier room' tier)
include ih

theorem soundTier_unary : s.SoundTier room .unary := by
  intro bound tokens hlimit hroom
  cases room with
  | zero => exact absurd hroom (Nat.not_lt_zero _)
  | succ room =>
    cases room with
    | zero =>
      obtain rfl := List.length_eq_zero_iff.mp (by omega : tokens.length = 0)
      exact .refuse
    | succ room =>
      -- Whatever is read next has a token less, and at most two levels more are open.
      refine Yields.mono (yields_unary ?_ ?_ ?_) fun f rest hf => ⟨hf, looser_unary⟩
      · exact fun hmore => ih (by omega) _ _ (by omega) (by omega)
      · exact fun hmore => ih (by omega) _ _ (by omega) (by omega)
      · exact fun hmore => yields_term (by omega)

/-- The right operand of a right-grouping operator is read with a level less. -/
theorem yields_enter (tier : Tier) {rung : Rung}
    (hrung : ∀ {room}, s.readTier room tier bound = s.read room rung bound)
    (hlimit : tokens.length < s.limit) (hroom : 2 * (tokens.length + 1) < room) :
    Yields (s.enter rung room bound tokens) fun f rest =>
      Derived tier bound tokens f rest ∧ Looser tier rest := by
  cases room with
  | zero => exact absurd hroom (Nat.not_lt_zero _)
  | succ room =>
    have hread : s.YieldsTier room tier bound tokens :=
      ih (Nat.lt_succ_self room) bound tokens (by omega) (by omega)
    rw [YieldsTier, hrung] at hread
    exact hread

theorem soundTier_span (hunary : s.SoundTier room .unary) : s.SoundTier room .span := by
  intro bound tokens hlimit hroom
  rw [YieldsTier, readTier, read_span]
  refine (hunary bound tokens hlimit hroom).bind ?_
  rintro left rest ⟨hleft, -⟩
  cases rest with
  | nil => exact .ok ⟨hleft.tighter rfl, nofun⟩
  | cons t more =>
    have hlength := hleft.length_le
    rw [List.length_cons] at hlength
    dsimp only [spanTail]
    split
    · rename_i hop
      refine .ok ⟨hleft.tighter rfl, ?_⟩
      rintro _ n ⟨⟩ hn
      exact rank_lt_of_spanOp hop hn
    · rename_i op hop
      refine (yields_enter ih .span rfl (by omega) (by omega)).bind ?_
      rintro right rest ⟨hright, hlooser⟩
      refine .ok ⟨?_, hlooser⟩
      exact hleft.pair (.span (mem_spanTokens hop)) rfl (rank_of_spanOp hop) hright

theorem soundTier_implies (hor : s.SoundTier room .or) : s.SoundTier room .implies := by
  intro bound tokens hlimit hroom
  rw [YieldsTier, readTier, read_implication]
  refine (hor bound tokens hlimit hroom).bind ?_
  rintro left rest ⟨hleft, hlooser⟩
  have hlength := hleft.length_le
  dsimp only [impliesTail]
  split
  · rename_i offset more
    rw [List.length_cons] at hlength
    refine (yields_enter ih .implies rfl (by omega) (by omega)).bind ?_
    rintro right rest ⟨hright, hlooser⟩
    exact .ok ⟨hleft.pair .implies rfl (rank_token .implies) hright, hlooser⟩
  · rename_i hnext
    refine .ok ⟨hleft.tighter rfl, ?_⟩
    intro t n ht hn
    have hlt : n < 2 := hlooser t n ht hn
    -- What comes next is looser than disjunction and no implication.
    have hne : n ≠ 1 := by
      rintro rfl
      have himplies : t = Connective.implies.token := eq_token_of_rank hn
      cases rest with
      | nil => cases ht
      | cons u more =>
        obtain ⟨token, offset⟩ := u
        obtain rfl : token = t := Option.some.inj ht
        exact hnext offset more (himplies ▸ rfl)
    change n < 1
    omega

end Tiers

/-- **What is read is derived.**  With room for two levels at each token, the reader of a tier
refuses the tokens as malformed or gives what those it takes off derive. -/
theorem soundTier (s : Source) (room : Nat) (tier : Tier) : s.SoundTier room tier := by
  induction room using Nat.strongRecOn generalizing tier with
  | ind room ih =>
    have hlower : ∀ {room'}, room' < room → ∀ {tier}, s.SoundTier room' tier :=
      fun hroom tier => ih _ hroom tier
    -- From the tightest tier up, each is sound if the next tighter one is.
    have hunary : s.SoundTier room .unary := soundTier_unary hlower
    have hspan : s.SoundTier room .span := soundTier_span hlower hunary
    have hand : s.SoundTier room .and := soundTier_join rfl rfl hspan
    have hxor : s.SoundTier room .xor := soundTier_join rfl rfl hand
    have hor : s.SoundTier room .or := soundTier_join rfl rfl hxor
    have himplies : s.SoundTier room .implies := soundTier_implies hlower hor
    cases tier with
    | iff => exact soundTier_join rfl rfl himplies
    | implies => exact himplies
    | or => exact hor
    | xor => exact hxor
    | and => exact hand
    | span => exact hspan
    | unary => exact hunary

end Source

end Deontica
