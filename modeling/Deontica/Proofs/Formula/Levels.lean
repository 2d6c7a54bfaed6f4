import Deontica.Proofs.Formula.Canonical
import Deontica.Proofs.Formula.Ladder

/-!
# Levels of canonical texts

How many levels reading opens is a matter of the text.  For canonical texts it is a matter of the
formula: reading the text of a formula takes exactly `Formula.levels` levels, neither more nor fewer
(`takes_tokens`).  With less room the text is refused for its nesting, with enough room it is read
back to the formula.

The statements are put together from `Takes`: a reader takes so many levels to come to a value.
-/

namespace Deontica

/-! ### Counting levels -/

mutual

/-- The greatest number of nested terms; a variable or constant counts one. -/
def Term.nesting : Term → Nat
  | .var _ => 1
  | .const _ => 1
  | .app _ args => Term.nestingArgs args + 1

/-- The greatest number of nested terms in a list, zero if there is no term. -/
def Term.nestingArgs : List Term → Nat
  | [] => 0
  | t :: ts => max t.nesting (Term.nestingArgs ts)

end

namespace Formula

/-- The greatest number of nested terms, zero if no predicate has arguments. -/
def termNesting : Formula → Nat
  | .pred _ args => Term.nestingArgs args
  | .not a | .quant _ _ a | .deontic _ a | .tense _ a => a.termNesting
  | .binary _ a b | .span _ a b => max a.termNesting b.termNesting

/-- The levels that reading `f` as an operand opens, given those for its text without
parentheses. -/
def encloseLevels (f : Formula) (levels : Nat) : Nat :=
  match f with
  | .binary _ _ _ | .quant _ _ _ | .span _ _ _ => levels + 2
  | _ => levels

/-- The levels that reading the text of a formula without its parentheses opens, besides the one for
the formula as a whole. -/
def bareLevels : Formula → Nat
  | .pred _ args => Term.nestingArgs args + 1
  | .not a | .tense .always a | .tense .eventually a => a.encloseLevels a.bareLevels + 1
  | .binary .implies a b | .span _ a b =>
    max (a.encloseLevels a.bareLevels) (b.encloseLevels b.bareLevels + 1)
  | .binary _ a b => max (a.encloseLevels a.bareLevels) (b.encloseLevels b.bareLevels)
  | .quant _ _ a | .deontic _ a | .tense .next a => a.bareLevels + 2

/-- The levels that reading the canonical text of a formula opens. -/
def levels (f : Formula) : Nat :=
  f.encloseLevels f.bareLevels + 1

end Formula

/-! ### Taking levels -/

namespace Located

/-- The token that comes next, if there is one. -/
def next (tokens : List Located) : Option Token :=
  tokens.head?.map (·.token)

/-- Nothing is left, or a parenthesis closes. -/
def Ends (tokens : List Located) : Prop :=
  ∀ t, next tokens = some t → t = .close

theorem Ends.next_ne {tokens : List Located} (h : Ends tokens) {t : Token} (ht : t ≠ .close) :
    next tokens ≠ some t :=
  fun hnext => ht (h t hnext)

theorem next_cons_ne {t t' : Token} (offset : Nat) (more : List Located) (h : t ≠ t') :
    next (⟨t, offset⟩ :: more) ≠ some t' :=
  fun hnext => h (Option.some.inj hnext)

theorem eq_cons_of_map {located : List Located} {t : Token} {tokens : List Token}
    (h : located.map (·.token) = t :: tokens) :
    ∃ offset more, located = ⟨t, offset⟩ :: more ∧ more.map (·.token) = tokens := by
  obtain ⟨⟨t', offset⟩, more, rfl, rfl, hmore⟩ := List.map_eq_cons_iff.mp h
  exact ⟨offset, more, rfl, hmore⟩

end Located

namespace Source

/-- Reading `x` takes `need` levels to come to `v`: with that room or more it gives `v`, and with
less it is refused for nesting. -/
structure Takes {α : Type} (s : Source) (need : Nat) (x : Nat → Except ParseError α) (v : α) :
    Prop where
  read : ∀ room, need ≤ room → x room = .ok v
  refused : ∀ room, room < need → ∃ offset, x room = .error (.tooDeep s.limit offset)

namespace Takes

variable {s : Source} {m n : Nat} {α β : Type} {x y : Nat → Except ParseError α} {a : α} {b : β}

theorem ok : s.Takes 0 (fun _ => .ok a) a :=
  ⟨fun _ _ => rfl, nofun⟩

theorem congr (h : ∀ room, x room = y room) (hy : s.Takes n y a) : s.Takes n x a :=
  funext h ▸ hy

theorem bind {f : Nat → α → Except ParseError β} (hx : s.Takes m x a)
    (hf : s.Takes n (fun room => f room a) b) :
    s.Takes (max m n) (fun room => x room >>= f room) b := by
  constructor
  · intro room h
    rw [hx.read room (by omega)]
    exact hf.read room (by omega)
  · intro room h
    by_cases hm : m ≤ room
    · rw [hx.read room hm]
      exact hf.refused room (by omega)
    · obtain ⟨offset, he⟩ := hx.refused room (by omega)
      exact ⟨offset, by rw [he]; rfl⟩

/-- What is done with a value without reading on takes no level. -/
theorem andThen {f : Nat → α → Except ParseError β} (hx : s.Takes n x a)
    (hf : ∀ room, f room a = .ok b) : s.Takes n (fun room => x room >>= f room) b := by
  have h := hx.bind (.congr hf .ok)
  rwa [Nat.max_zero] at h

/-- Opening a level takes one level more than what is read in it. -/
theorem opened (hzero : ∃ offset, x 0 = .error (.tooDeep s.limit offset))
    (h : s.Takes n (fun room => x (room + 1)) a) : s.Takes (n + 1) x a := by
  constructor
  · intro room hroom
    obtain ⟨room, rfl⟩ := Nat.exists_eq_succ_of_ne_zero (n := room) (by omega)
    exact h.read room (by omega)
  · intro room hroom
    cases room with
    | zero => exact hzero
    | succ room => exact h.refused room (by omega)

end Takes

/-! ### Terms -/

section Terms

variable (s : Source) {bound : List String}

theorem term_name {x : String} {offset room : Nat} {rest : List Located}
    (h : Located.next rest ≠ some .open) :
    s.term bound (room + 1) (⟨.name x, offset⟩ :: rest) =
      .ok (if x ∈ bound then .var x else .const x, rest) := by
  rw [term]
  rintro offset more rfl
  exact h rfl

theorem term_app {f : String} {offset offset' room : Nat} {more : List Located} :
    s.term bound (room + 1) (⟨.name f, offset⟩ :: ⟨.open, offset'⟩ :: more) = (do
      let (args, rest) ← s.args (s.term bound room) (⟨.open, offset'⟩ :: more)
      return (.app f args, rest)) := rfl

theorem args_nil {read : Reader Term} {offset offset' : Nat} {rest : List Located} :
    s.args read (⟨.open, offset⟩ :: ⟨.close, offset'⟩ :: rest) = .ok ([], rest) := rfl

theorem args_cons {read : Reader Term} {x : String} {offset offset' : Nat} {more : List Located} :
    s.args read (⟨.open, offset⟩ :: ⟨.name x, offset'⟩ :: more) = (do
      let (arg, rest) ← read (⟨.name x, offset'⟩ :: more)
      let (args, rest) ← s.moreArgs read rest.length rest
      return (arg :: args, rest)) := rfl

theorem moreArgs_comma {read : Reader Term} {count offset : Nat} {more : List Located} :
    s.moreArgs read (count + 1) (⟨.comma, offset⟩ :: more) = (do
      let (arg, rest) ← read more
      let (args, rest) ← s.moreArgs read count rest
      return (arg :: args, rest)) := rfl

/-- The tokens of a term start with a name, so arguments are not taken for an empty list. -/
theorem tokens_eq_name_cons (t : Term) : ∃ x more, t.tokens = .name x :: more := by
  cases t with
  | var x => exact ⟨x, [], rfl⟩
  | const c => exact ⟨c, [], rfl⟩
  | app f args => exact ⟨f, _, rfl⟩

/-- No argument is followed by an opening parenthesis. -/
theorem next_tokensMore {ts : List Term} {located rest : List Located}
    (h : located.map (·.token) = Term.tokensMore ts ++ [.close]) :
    Located.next (located ++ rest) ≠ some .open := by
  cases ts
  all_goals
    obtain ⟨offset, more, rfl, -⟩ := Located.eq_cons_of_map h
    nofun

/-- The count that bounds the tokens suffices for the arguments. -/
theorem length_lt_tokensMore (ts : List Term) :
    ts.length < (Term.tokensMore ts ++ [Token.close]).length := by
  induction ts with
  | nil => exact Nat.zero_lt_one
  | cons t ts ih =>
    simp only [Term.tokensMore, List.length_cons, List.length_append] at ih ⊢
    omega

mutual

/-- The tokens of a term are read back to it. -/
theorem takes_term : ∀ (t : Term) (rest : List Located) {located : List Located},
    t.isWellFormedOver bound = true → located.map (·.token) = t.tokens →
    Located.next rest ≠ some .open →
    s.Takes t.nesting (fun room => s.term bound room (located ++ rest)) (t, rest)
  | .var x, rest, located, h, hl, hrest => by
    obtain ⟨offset, more, rfl, hmore⟩ := Located.eq_cons_of_map hl
    obtain rfl := List.map_eq_nil_iff.mp hmore
    rw [Term.isWellFormedOver, Bool.and_eq_true, List.contains_iff_mem] at h
    refine .opened ⟨_, rfl⟩ (.congr (fun room => ?_) .ok)
    rw [List.cons_append, List.nil_append, term_name s hrest, if_pos h.2]
  | .const c, rest, located, h, hl, hrest => by
    obtain ⟨offset, more, rfl, hmore⟩ := Located.eq_cons_of_map hl
    obtain rfl := List.map_eq_nil_iff.mp hmore
    rw [Term.isWellFormedOver, Bool.and_eq_true, Bool.not_eq_true', ← Bool.not_eq_true,
      List.contains_iff_mem] at h
    refine .opened ⟨_, rfl⟩ (.congr (fun room => ?_) .ok)
    rw [List.cons_append, List.nil_append, term_name s hrest, if_neg h.2]
  | .app f args, rest, located, h, hl, hrest => by
    obtain ⟨offset, more, rfl, hargs⟩ := Located.eq_cons_of_map hl
    rw [Term.isWellFormedOver, Bool.and_eq_true] at h
    have hread := takes_args args rest h.2 hargs
    obtain ⟨offset', more, rfl, -⟩ := Located.eq_cons_of_map hargs
    exact .opened ⟨_, rfl⟩ (.congr (fun room => term_app s) (hread.andThen fun _ => rfl))

/-- The tokens of arguments in parentheses are read back to them. -/
theorem takes_args : ∀ (ts : List Term) (rest : List Located) {located : List Located},
    Term.allWellFormedOver bound ts = true →
    located.map (·.token) = .open :: (Term.tokensArgs ts ++ [.close]) →
    s.Takes (Term.nestingArgs ts) (fun room => s.args (s.term bound room) (located ++ rest))
      (ts, rest)
  | [], rest, located, h, hl => by
    obtain ⟨offset, more, rfl, hmore⟩ := Located.eq_cons_of_map hl
    obtain ⟨offset', more, rfl, hnil⟩ := Located.eq_cons_of_map hmore
    obtain rfl := List.map_eq_nil_iff.mp hnil
    exact .congr (fun room => args_nil s) .ok
  | t :: ts, rest, located, h, hl => by
    rw [Term.allWellFormedOver, Bool.and_eq_true] at h
    obtain ⟨offset, more, rfl, hmore⟩ := Located.eq_cons_of_map hl
    rw [Term.tokensArgs, List.append_assoc] at hmore
    obtain ⟨first, others, rfl, hfirst, hothers⟩ := List.map_eq_append_iff.mp hmore
    have hread := takes_term t (others ++ rest) h.1 hfirst (next_tokensMore hothers)
    -- What is left after the first argument has a token for each other one, and closes.
    have hcount : ts.length < (others ++ rest).length := by
      have := length_lt_tokensMore ts
      rw [← hothers, List.length_map] at this
      rw [List.length_append]
      omega
    have hreadMore := takes_moreArgs ts rest h.2 hothers hcount
    obtain ⟨x, _, hx⟩ := tokens_eq_name_cons t
    obtain ⟨offset', _, rfl, -⟩ := Located.eq_cons_of_map (hfirst.trans hx)
    rw [List.cons_append, List.append_assoc]
    exact .congr (fun room => args_cons s) (hread.bind (hreadMore.andThen fun _ => rfl))

/-- The tokens of the arguments after the first are read back to them. -/
theorem takes_moreArgs : ∀ (ts : List Term) (rest : List Located) {located : List Located}
    {count : Nat},
    Term.allWellFormedOver bound ts = true →
    located.map (·.token) = Term.tokensMore ts ++ [.close] → ts.length < count →
    s.Takes (Term.nestingArgs ts)
      (fun room => s.moreArgs (s.term bound room) count (located ++ rest)) (ts, rest)
  | [], rest, located, count, h, hl, hcount => by
    obtain ⟨offset, more, rfl, hnil⟩ := Located.eq_cons_of_map hl
    obtain rfl := List.map_eq_nil_iff.mp hnil
    obtain ⟨count, rfl⟩ := Nat.exists_eq_succ_of_ne_zero (Nat.ne_of_gt hcount)
    exact .congr (fun room => rfl) .ok
  | t :: ts, rest, located, count, h, hl, hcount => by
    rw [Term.allWellFormedOver, Bool.and_eq_true] at h
    rw [Term.tokensMore, List.cons_append, List.append_assoc] at hl
    obtain ⟨offset, more, rfl, hmore⟩ := Located.eq_cons_of_map hl
    obtain ⟨first, others, rfl, hfirst, hothers⟩ := List.map_eq_append_iff.mp hmore
    obtain ⟨count, rfl⟩ := Nat.exists_eq_succ_of_ne_zero (Nat.ne_of_gt (Nat.zero_lt_of_lt hcount))
    have hread := takes_term t (others ++ rest) h.1 hfirst (next_tokensMore hothers)
    have hreadMore := takes_moreArgs ts rest h.2 hothers (Nat.lt_of_succ_lt_succ hcount)
    rw [List.cons_append, List.append_assoc]
    exact .congr (fun room => moreArgs_comma s) (hread.bind (hreadMore.andThen fun _ => rfl))

end

end Terms

/-! ### Climbing the ladder -/

section Rungs

variable {s : Source} {m n : Nat} {bound : List String} {tokens more rest : List Located}
  {offset : Nat} {f a b : Formula}

/-- A chain ends where its operator does not follow. -/
theorem chain_eq {op : Connective} {token : Token} {operand : Reader Formula} {count depth : Nat}
    (h : Located.next rest ≠ some token) :
    s.chain op token operand count f depth rest = .ok (f, rest) := by
  cases count with
  | zero => rfl
  | succ count =>
    cases rest with
    | nil => rfl
    | cons t more => rw [chain, if_neg fun ht => h (congrArg some ht)]

theorem chain_cons {op : Connective} {token : Token} {operand : Reader Formula}
    {count depth : Nat} :
    s.chain op token operand (count + 1) f depth (⟨token, offset⟩ :: more) = (do
      let (right, rest) ← operand more
      if max depth right.depth + 1 > s.limit then s.tooDeep rest
      else s.chain op token operand count (.binary op f right) (max depth right.depth + 1) rest) :=
  if_pos rfl

namespace Takes

theorem enter {rung : Rung} (h : s.Takes n (fun room => s.read room rung bound tokens) (f, rest)) :
    s.Takes (n + 1) (fun room => s.enter rung room bound tokens) (f, rest) :=
  .opened ⟨_, rfl⟩ h

/-- An operand without its operator is read alone. -/
theorem single {op : Connective} {token : Token} {operand : Nat → Reader Formula}
    (h : s.Takes n (fun room => operand room tokens) (f, rest))
    (hnext : Located.next rest ≠ some token) :
    s.Takes n (fun room => s.leftGrouped op token (operand room) tokens) (f, rest) :=
  h.andThen fun _ => chain_eq hnext

/-- Two operands are joined by the operator between them. -/
theorem pair {op : Connective} {token : Token} {operand : Nat → Reader Formula}
    (ha : s.Takes m (fun room => operand room tokens) (a, ⟨token, offset⟩ :: more))
    (hb : s.Takes n (fun room => operand room more) (b, rest))
    (hdepth : (Formula.binary op a b).depth ≤ s.limit) (hnext : Located.next rest ≠ some token) :
    s.Takes (max m n) (fun room => s.leftGrouped op token (operand room) tokens)
      (.binary op a b, rest) := by
  refine ha.bind (.congr (fun room => chain_cons) (hb.andThen fun room => ?_))
  exact (if_neg (Nat.not_lt.mpr hdepth)).trans (chain_eq hnext)

theorem span (h : s.Takes n (fun room => s.read room .unary bound tokens) (f, rest))
    (hnext : (Located.next rest).bind spanOp = none) :
    s.Takes n (fun room => s.read room .span bound tokens) (f, rest) := by
  refine .congr (fun room => s.read_span room bound tokens) (h.andThen fun room => ?_)
  cases rest with
  | nil => rfl
  | cons t more =>
    dsimp only [spanTail]
    rw [show spanOp t.token = none from hnext]

theorem spanPair {op : Span}
    (ha : s.Takes m (fun room => s.read room .unary bound tokens)
      (a, ⟨.name op.letter, offset⟩ :: more))
    (hb : s.Takes n (fun room => s.read room .span bound more) (b, rest)) :
    s.Takes (max m (n + 1)) (fun room => s.read room .span bound tokens) (.span op a b, rest) := by
  refine .congr (fun room => s.read_span room bound tokens) (ha.bind ?_)
  cases op <;> exact hb.enter.andThen fun _ => rfl

theorem conjunction (h : s.Takes n (fun room => s.read room .span bound tokens) (f, rest))
    (hnext : Located.next rest ≠ some .and) :
    s.Takes n (fun room => s.conjunction room bound tokens) (f, rest) :=
  h.single hnext

theorem parity (h : s.Takes n (fun room => s.conjunction room bound tokens) (f, rest))
    (hnext : Located.next rest ≠ some .xor) :
    s.Takes n (fun room => s.parity room bound tokens) (f, rest) :=
  h.single hnext

theorem disjunction (h : s.Takes n (fun room => s.parity room bound tokens) (f, rest))
    (hnext : Located.next rest ≠ some .or) :
    s.Takes n (fun room => s.disjunction room bound tokens) (f, rest) :=
  h.single hnext

theorem implication (h : s.Takes n (fun room => s.disjunction room bound tokens) (f, rest))
    (hnext : Located.next rest ≠ some .implies) :
    s.Takes n (fun room => s.read room .implication bound tokens) (f, rest) := by
  refine .congr (fun room => s.read_implication room bound tokens) (h.andThen fun room => ?_)
  dsimp only [impliesTail]
  split
  · exact absurd rfl hnext
  · rfl

theorem impliesPair
    (ha : s.Takes m (fun room => s.disjunction room bound tokens) (a, ⟨.implies, offset⟩ :: more))
    (hb : s.Takes n (fun room => s.read room .implication bound more) (b, rest)) :
    s.Takes (max m (n + 1)) (fun room => s.read room .implication bound tokens)
      (.implies a b, rest) :=
  .congr (fun room => s.read_implication room bound tokens)
    (ha.bind (hb.enter.andThen fun _ => rfl))

theorem formula (h : s.Takes n (fun room => s.read room .implication bound tokens) (f, rest))
    (hnext : Located.next rest ≠ some .iff) :
    s.Takes (n + 1) (fun room => s.read room .formula bound tokens) (f, rest) :=
  .congr (fun room => s.read_formula room bound tokens) (h.enter.single hnext)

end Takes

theorem spanOp_of_ends (h : Located.Ends rest) : (Located.next rest).bind spanOp = none := by
  cases hnext : Located.next rest with
  | none => rfl
  | some t =>
    rw [h t hnext]
    rfl

end Rungs

/-! ### Formulas -/

/-- The tokens of a formula are read back to it, as an operand and where it stands alone.  No
opening parenthesis may follow an operand, since it would turn the operand's last name into an
application. -/
structure ReadsBack (s : Source) (f : Formula) : Prop where
  operand : ∀ {bound : List String} {located : List Located} (rest : List Located),
    f.isWellFormedOver bound = true → located.map (·.token) = f.encloseTokens f.bareTokens →
    Located.next rest ≠ some .open →
    s.Takes (f.encloseLevels f.bareLevels)
      (fun room => s.read room .unary bound (located ++ rest)) (f, rest)
  bare : ∀ {bound : List String} {located : List Located} (rest : List Located),
    f.isWellFormedOver bound = true → located.map (·.token) = f.bareTokens →
    Located.Ends rest →
    s.Takes (f.bareLevels + 1) (fun room => s.read room .formula bound (located ++ rest)) (f, rest)

section Formulas

variable {s : Source} {n : Nat} {bound : List String} {located rest : List Located}
  {f a b : Formula}

/-! What is read at a rung is read at the highest, one level deeper, where nothing goes on. -/

theorem Takes.formula_of_disjunction
    (h : s.Takes n (fun room => s.disjunction room bound located) (f, rest))
    (hrest : Located.Ends rest) :
    s.Takes (n + 1) (fun room => s.read room .formula bound located) (f, rest) :=
  (h.implication (hrest.next_ne (by decide))).formula (hrest.next_ne (by decide))

theorem Takes.formula_of_parity
    (h : s.Takes n (fun room => s.parity room bound located) (f, rest))
    (hrest : Located.Ends rest) :
    s.Takes (n + 1) (fun room => s.read room .formula bound located) (f, rest) :=
  (h.disjunction (hrest.next_ne (by decide))).formula_of_disjunction hrest

theorem Takes.formula_of_conjunction
    (h : s.Takes n (fun room => s.conjunction room bound located) (f, rest))
    (hrest : Located.Ends rest) :
    s.Takes (n + 1) (fun room => s.read room .formula bound located) (f, rest) :=
  (h.parity (hrest.next_ne (by decide))).formula_of_parity hrest

theorem Takes.formula_of_span
    (h : s.Takes n (fun room => s.read room .span bound located) (f, rest))
    (hrest : Located.Ends rest) :
    s.Takes (n + 1) (fun room => s.read room .formula bound located) (f, rest) :=
  (h.conjunction (hrest.next_ne (by decide))).formula_of_conjunction hrest

/-- A formula read where it stands alone is read in parentheses. -/
theorem Takes.parentheses {tokens : List Token} (rest : List Located)
    (h : ∀ {located : List Located} (rest : List Located), located.map (·.token) = tokens →
      Located.Ends rest →
      s.Takes n (fun room => s.read room .formula bound (located ++ rest)) (f, rest))
    (hl : located.map (·.token) = .open :: (tokens ++ [.close])) :
    s.Takes n (fun room => s.parenthesized (s.level room) bound (located ++ rest)) (f, rest) := by
  obtain ⟨offset, more, rfl, hmore⟩ := Located.eq_cons_of_map hl
  obtain ⟨body, close, rfl, hbody, hclose⟩ := List.map_eq_append_iff.mp hmore
  obtain ⟨offset', none, rfl, hnone⟩ := Located.eq_cons_of_map hclose
  obtain rfl := List.map_eq_nil_iff.mp hnone
  have hread := h (⟨.close, offset'⟩ :: rest) hbody fun t ht => (Option.some.inj ht).symm
  rw [List.cons_append, List.append_assoc]
  exact hread.andThen fun _ => rfl

/-- A formula without parentheses as an operand is read back if it is read at the lowest rung. -/
theorem ReadsBack.of_unary (htokens : f.encloseTokens f.bareTokens = f.bareTokens)
    (hlevels : f.encloseLevels f.bareLevels = f.bareLevels)
    (h : ∀ {bound : List String} {located : List Located} (rest : List Located),
      f.isWellFormedOver bound = true → located.map (·.token) = f.bareTokens →
      Located.next rest ≠ some .open →
      s.Takes f.bareLevels (fun room => s.read room .unary bound (located ++ rest)) (f, rest)) :
    s.ReadsBack f where
  operand rest hf hl hrest := by
    rw [htokens] at hl
    rw [hlevels]
    exact h rest hf hl hrest
  bare rest hf hl hrest :=
    ((h rest hf hl (hrest.next_ne (by decide))).span (spanOp_of_ends hrest)).formula_of_span hrest

/-- A formula with parentheses as an operand is read back if it is read where it stands alone. -/
theorem ReadsBack.of_bare
    (htokens : f.encloseTokens f.bareTokens = .open :: (f.bareTokens ++ [.close]))
    (hlevels : f.encloseLevels f.bareLevels = f.bareLevels + 2)
    (h : ∀ {bound : List String} {located : List Located} (rest : List Located),
      f.isWellFormedOver bound = true → located.map (·.token) = f.bareTokens →
      Located.Ends rest →
      s.Takes (f.bareLevels + 1) (fun room => s.read room .formula bound (located ++ rest))
        (f, rest)) :
    s.ReadsBack f where
  operand rest hf hl hrest := by
    rw [htokens] at hl
    rw [hlevels]
    -- The operand opens a level, and the formula in the parentheses another.
    have hread := Takes.parentheses rest (fun rest => h rest hf) hl
    obtain ⟨offset, more, rfl, -⟩ := Located.eq_cons_of_map hl
    exact .opened ⟨_, rfl⟩ hread
  bare := h

/-- A prefix operator takes a level and then its operand. -/
theorem Takes.prefixed {token : Token} {build : Formula → Formula}
    (hunary : ∀ room offset more, s.unary (s.level room) bound (⟨token, offset⟩ :: more) = (do
      let (body, rest) ← s.read room .unary bound more
      return (build body, rest)))
    (ha : s.ReadsBack a) (hf : a.isWellFormedOver bound = true)
    (hl : located.map (·.token) = token :: a.encloseTokens a.bareTokens)
    (hrest : Located.next rest ≠ some .open) :
    s.Takes (a.encloseLevels a.bareLevels + 1)
      (fun room => s.read room .unary bound (located ++ rest)) (build a, rest) := by
  obtain ⟨offset, more, rfl, hmore⟩ := Located.eq_cons_of_map hl
  have hread := ha.operand rest hf hmore hrest
  exact .opened ⟨_, rfl⟩ (.congr (fun room => hunary room offset _) (hread.andThen fun _ => rfl))

/-- A letter before parentheses takes a level and then what they enclose. -/
theorem Takes.lettered {letter : String} {build : Formula → Formula}
    (hunary : ∀ room offset offset' more,
      s.unary (s.level room) bound (⟨.name letter, offset⟩ :: ⟨.open, offset'⟩ :: more) = (do
        let (body, rest) ← s.parenthesized (s.level room) bound (⟨.open, offset'⟩ :: more)
        return (build body, rest)))
    (ha : s.ReadsBack a) (hf : a.isWellFormedOver bound = true)
    (hl : located.map (·.token) = .name letter :: .open :: (a.bareTokens ++ [.close])) :
    s.Takes (a.bareLevels + 2)
      (fun room => s.read room .unary bound (located ++ rest)) (build a, rest) := by
  obtain ⟨offset, more, rfl, hmore⟩ := Located.eq_cons_of_map hl
  have hread := Takes.parentheses rest (fun rest => ha.bare rest hf) hmore
  obtain ⟨offset', more, rfl, -⟩ := Located.eq_cons_of_map hmore
  exact .opened ⟨_, rfl⟩
    (.congr (fun room => hunary room offset offset' _) (hread.andThen fun _ => rfl))

theorem unary_letter (below : Level) (p : String) (offset : Nat)
    (hrest : Located.next rest ≠ some .open) :
    s.unary below bound (⟨.name p, offset⟩ :: rest) = .ok (.pred p [], rest) := by
  dsimp only [unary]
  rw [named]
  rintro offset' more rfl
  exact hrest rfl

theorem unary_pred {p : String} (room offset offset' : Nat) (more : List Located)
    (hp : p ∉ Formula.operatorNames) :
    s.unary (s.level room) bound (⟨.name p, offset⟩ :: ⟨.open, offset'⟩ :: more) = (do
      let (args, rest) ← s.args (s.term bound room) (⟨.open, offset'⟩ :: more)
      return (.pred p args, rest)) := by
  simp only [Formula.operatorNames, List.mem_cons, List.not_mem_nil, or_false, not_or] at hp
  have hnorm : normOp p = none := by
    rw [normOp] <;> tauto
  dsimp only [unary, named]
  rw [hnorm, if_neg hp.2.2.2]
  rfl

theorem readsBack_pred (p : String) (args : List Term) : s.ReadsBack (.pred p args) := by
  refine .of_unary rfl rfl fun {bound located} rest hf hl hrest => ?_
  rw [Formula.isWellFormedOver, Bool.and_eq_true, Bool.and_eq_true] at hf
  cases args with
  | nil =>
    obtain ⟨offset, more, rfl, hmore⟩ := Located.eq_cons_of_map hl
    obtain rfl := List.map_eq_nil_iff.mp hmore
    exact .opened ⟨_, rfl⟩ (.congr (fun room => unary_letter _ p offset hrest) .ok)
  | cons t ts =>
    obtain ⟨offset, more, rfl, hmore⟩ := Located.eq_cons_of_map hl
    have hread := takes_args s (t :: ts) rest hf.2 hmore
    obtain ⟨offset', more, rfl, -⟩ := Located.eq_cons_of_map hmore
    have hp : p ∉ Formula.operatorNames := by
      simpa using hf.1.2
    exact .opened ⟨_, rfl⟩
      (.congr (fun room => unary_pred room offset offset' _ hp) (hread.andThen fun _ => rfl))

theorem readsBack_quant {q : Quantifier} {x : String} (ha : s.ReadsBack a) :
    s.ReadsBack (.quant q x a) := by
  refine .of_bare rfl rfl fun {bound located} rest hf hl hrest => ?_
  rw [Formula.isWellFormedOver, Bool.and_eq_true] at hf
  obtain ⟨offset, more, rfl, hmore⟩ := Located.eq_cons_of_map hl
  obtain ⟨offset', more, rfl, hpoint⟩ := Located.eq_cons_of_map hmore
  obtain ⟨offset'', body, rfl, hbody⟩ := Located.eq_cons_of_map hpoint
  -- The body reaches to where the quantified formula ends, so nothing is left to climb over.
  have hread := ha.bare rest hf.2 hbody hrest
  refine Takes.formula_of_span (.span (.opened ⟨_, rfl⟩ ?_) (spanOp_of_ends hrest)) hrest
  cases q <;> exact hread.andThen fun _ => rfl

theorem readsBack_binary {op : Connective} (ha : s.ReadsBack a) (hb : s.ReadsBack b)
    (hdepth : (Formula.binary op a b).depth ≤ s.limit) : s.ReadsBack (.binary op a b) := by
  refine .of_bare rfl rfl fun {bound located} rest hf hl hrest => ?_
  rw [Formula.isWellFormedOver, Bool.and_eq_true] at hf
  obtain ⟨left, more, rfl, hleft, hmore⟩ := List.map_eq_append_iff.mp hl
  obtain ⟨offset, right, rfl, hright⟩ := Located.eq_cons_of_map hmore
  have hopen : op.token ≠ .open := by cases op <;> decide
  have hreadLeft := ha.operand (⟨op.token, offset⟩ :: (right ++ rest)) hf.1 hleft
    (Located.next_cons_ne offset _ hopen)
  have hreadRight := hb.operand rest hf.2 hright (hrest.next_ne (by decide))
  rw [List.append_assoc]
  -- The operands climb to the rung below their operator, and the whole climbs on from its own.
  have hspanLeft := hreadLeft.span (by cases op <;> rfl)
  have hspanRight := hreadRight.span (spanOp_of_ends hrest)
  have handRight := hspanRight.conjunction (hrest.next_ne (by decide))
  have hxorRight := handRight.parity (hrest.next_ne (by decide))
  have horRight := hxorRight.disjunction (hrest.next_ne (by decide))
  have himpliesRight := horRight.implication (hrest.next_ne (by decide))
  cases op with
  | and =>
    have hpair := hspanLeft.pair hspanRight hdepth (hrest.next_ne (by decide))
    exact hpair.formula_of_conjunction hrest
  | xor =>
    have handLeft := hspanLeft.conjunction (Located.next_cons_ne offset _ (by decide))
    have hpair := handLeft.pair handRight hdepth (hrest.next_ne (by decide))
    exact hpair.formula_of_parity hrest
  | or =>
    have handLeft := hspanLeft.conjunction (Located.next_cons_ne offset _ (by decide))
    have hxorLeft := handLeft.parity (Located.next_cons_ne offset _ (by decide))
    have hpair := hxorLeft.pair hxorRight hdepth (hrest.next_ne (by decide))
    exact hpair.formula_of_disjunction hrest
  | implies =>
    have handLeft := hspanLeft.conjunction (Located.next_cons_ne offset _ (by decide))
    have hxorLeft := handLeft.parity (Located.next_cons_ne offset _ (by decide))
    have horLeft := hxorLeft.disjunction (Located.next_cons_ne offset _ (by decide))
    exact (horLeft.impliesPair himpliesRight).formula (hrest.next_ne (by decide))
  | iff =>
    have handLeft := hspanLeft.conjunction (Located.next_cons_ne offset _ (by decide))
    have hxorLeft := handLeft.parity (Located.next_cons_ne offset _ (by decide))
    have horLeft := hxorLeft.disjunction (Located.next_cons_ne offset _ (by decide))
    have himpliesLeft := horLeft.implication (Located.next_cons_ne offset _ (by decide))
    -- Both operands open a level of their own, so the two are counted as one.
    have hpair := himpliesLeft.enter.pair himpliesRight.enter hdepth (hrest.next_ne (by decide))
    rw [Nat.add_max_add_right] at hpair
    exact .congr (fun room => s.read_formula room bound _) hpair

theorem readsBack_span {op : Span} (ha : s.ReadsBack a) (hb : s.ReadsBack b) :
    s.ReadsBack (.span op a b) := by
  refine .of_bare rfl rfl fun {bound located} rest hf hl hrest => ?_
  rw [Formula.isWellFormedOver, Bool.and_eq_true] at hf
  obtain ⟨left, more, rfl, hleft, hmore⟩ := List.map_eq_append_iff.mp hl
  obtain ⟨offset, right, rfl, hright⟩ := Located.eq_cons_of_map hmore
  have hreadLeft := ha.operand (⟨.name op.letter, offset⟩ :: (right ++ rest)) hf.1 hleft
    (Located.next_cons_ne offset _ (by simp))
  have hreadRight := hb.operand rest hf.2 hright (hrest.next_ne (by decide))
  rw [List.append_assoc]
  exact hreadLeft.spanPair (hreadRight.span (spanOp_of_ends hrest))
    |>.formula_of_span hrest

/-- Every formula within the depth limit is read back from its tokens. -/
theorem readsBack (h : f.depth ≤ s.limit) : s.ReadsBack f := by
  induction f with
  | pred p args => exact readsBack_pred p args
  | not a ih =>
    have ha := ih (Nat.le_of_succ_le h)
    exact .of_unary rfl rfl fun rest hf hl hrest => .prefixed (fun _ _ _ => rfl) ha hf hl hrest
  | binary op a b iha ihb =>
    have hmax : max a.depth b.depth ≤ s.limit := Nat.le_of_succ_le h
    exact readsBack_binary (iha (by omega)) (ihb (by omega)) h
  | quant q x a ih => exact readsBack_quant (ih (Nat.le_of_succ_le h))
  | deontic op a ih =>
    have ha := ih (Nat.le_of_succ_le h)
    exact .of_unary rfl rfl fun rest hf hl hrest =>
      .lettered (fun _ _ _ _ => by cases op <;> rfl) ha hf hl
  | tense op a ih =>
    have ha := ih (Nat.le_of_succ_le h)
    cases op with
    | always =>
      exact .of_unary rfl rfl fun rest hf hl hrest => .prefixed (fun _ _ _ => rfl) ha hf hl hrest
    | eventually =>
      exact .of_unary rfl rfl fun rest hf hl hrest => .prefixed (fun _ _ _ => rfl) ha hf hl hrest
    | next =>
      exact .of_unary rfl rfl fun rest hf hl hrest => .lettered (fun _ _ _ _ => rfl) ha hf hl
  | span op a b iha ihb =>
    have hmax : max a.depth b.depth ≤ s.limit := Nat.le_of_succ_le h
    exact readsBack_span (iha (by omega)) (ihb (by omega))

/-- **Reading the tokens of a formula takes exactly its levels.** -/
theorem takes_tokens (hf : f.isWellFormed = true) (hdepth : f.depth ≤ s.limit)
    (hl : located.map (·.token) = f.tokens) :
    s.Takes f.levels (fun room => s.read room .formula [] located) (f, []) := by
  have hread := (readsBack hdepth).operand [] hf hl nofun
  rw [List.append_nil] at hread
  exact (hread.span rfl).formula_of_span nofun

end Formulas

end Source

end Deontica
