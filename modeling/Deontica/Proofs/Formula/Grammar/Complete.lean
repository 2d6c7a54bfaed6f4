import Deontica.Proofs.Formula.Grammar.Sound
import Deontica.Proofs.Formula.RoundTrip

/-!
# What is derived is read

Reading accepts exactly what the grammar derives (`parseWithin_iff_derives`), so the grammar is not
ambiguous.

The reader of a tier on which a connective groups to the left is a loop, whereas the grammar recurs
on the left operand.  The two meet in `Arrives`: having read the tokens of a derivation, the reader
is at the head of its loop with what they derive.
-/

namespace Deontica

namespace Grammar

/-! ### What follows a formula -/

/-- The place of the tightest operator that may follow a formula of a tier: its own where it groups
to the left, otherwise a looser one. -/
def Tier.reach : Tier → Nat
  | .iff => 0
  | .implies => 0
  | .or => 2
  | .xor => 3
  | .and => 4
  | .span => 4
  | .unary => 5

/-- Nothing follows, or a closing parenthesis or an operator that the tier leaves alone. -/
def Admits (tier : Tier) (follow : Option Token) : Prop :=
  ∀ t, follow = some t → t = .close ∨ ∃ n, rank t = some n ∧ n ≤ tier.reach

namespace Admits

variable {tier operand right : Tier} {op : Connective} {follow : Option Token} {t : Token} {n : Nat}

theorem of_ends (h : follow = none ∨ follow = some .close) : Admits tier follow := by
  intro t ht
  obtain rfl | rfl := h
  · cases ht
  · exact .inl (Option.some.inj ht).symm

theorem of_rank (h : rank t = some n) (hn : n ≤ tier.reach) : Admits tier (some t) := by
  rintro _ ⟨⟩
  exact .inr ⟨n, h, hn⟩

theorem tighter (htier : tier.tighter = some operand) (h : Admits tier follow) :
    Admits operand follow := by
  have hreach : tier.reach ≤ operand.reach := by cases tier <;> cases htier <;> decide
  intro t ht
  exact (h t ht).imp_right fun ⟨n, hn, hle⟩ => ⟨n, hn, Nat.le_trans hle hreach⟩

/-- An operator beyond the reach of the tier does not follow. -/
theorem ne_of_rank (h : Admits tier follow) (ht : rank t = some n) (hn : tier.reach < n) :
    follow ≠ some t := by
  intro hfollow
  obtain rfl | ⟨m, hm, hle⟩ := h t hfollow
  · cases ht
  · rw [ht] at hm
    obtain rfl := Option.some.inj hm
    omega

theorem ne_open (h : Admits tier follow) : follow ≠ some .open := by
  intro hfollow
  obtain hclose | ⟨n, hn, -⟩ := h _ hfollow
  · cases hclose
  · cases hn

/-- The connective of the next tighter tier does not follow. -/
theorem ne_token (htier : tier.tighter = some operand) (hjoin : operand.join = some (op, right))
    (h : Admits tier follow) : follow ≠ some op.token := by
  refine h.ne_of_rank (rank_token op) ?_
  rw [opTier_of_join hjoin]
  cases tier <;> cases htier <;> decide

end Admits

/-- No formula is empty, and none starts with a mark. -/
theorem Derives.start {tier : Tier} {bound : List String} {w : List Token} {follow : Option Token}
    {f : Formula} (h : Derives tier bound w follow f) :
    ∃ t more, w = t :: more ∧ t ≠ .point ∧ t ≠ .colon := by
  induction h with
  | tighter _ _ ih => exact ih
  | join _ _ _ ihf _ | implies _ _ ihf _ | span _ _ _ ihf _ =>
    obtain ⟨t, more, rfl, ht⟩ := ihf
    exact ⟨t, _, rfl, ht⟩
  | operator hbuild _ _ =>
    refine ⟨_, _, rfl, ?_⟩
    simp only [operators, List.mem_cons, Prod.mk.injEq, List.not_mem_nil, or_false] at hbuild
    obtain ⟨rfl, -⟩ | ⟨rfl, -⟩ | ⟨rfl, -⟩ | ⟨rfl, -⟩ := hbuild <;> decide
  | @quant q _ _ _ _ _ _ _ _ _ _ => exact ⟨_, _, rfl, by cases q <;> decide⟩
  | parentheses _ _ => exact ⟨_, _, rfl, by decide⟩
  | letter _ _ _ => exact ⟨_, _, rfl, by simp⟩
  | name => exact ⟨_, _, rfl, by simp⟩
  | pred _ _ => exact ⟨_, _, rfl, by simp⟩

theorem tighter_of_join {tier operand : Tier} {op : Connective}
    (h : tier.join = some (op, operand)) : tier.tighter = some operand := by
  cases tier <;> cases h <;> rfl

end Grammar

namespace Source

open Grammar

/-! ### Terms -/

section Terms

variable {bound : List String} {located : List Located}

theorem next_more {v : List Token} {ts : List Term} (h : DerivesMore bound v ts)
    (hl : located.map (·.token) = v ++ [.close]) (rest : List Located) :
    Located.next (located ++ rest) ≠ some .open := by
  cases h
  all_goals
    obtain ⟨offset, more, rfl, -⟩ := Located.eq_cons_of_map hl
    nofun

theorem eq_name_cons {u : List Token} {t : Term} (h : DerivesTerm bound u t) :
    ∃ x more, u = .name x :: more := by
  cases h with
  | var _ => exact ⟨_, _, rfl⟩
  | const _ => exact ⟨_, _, rfl⟩
  | app _ => exact ⟨_, _, rfl⟩

variable (s : Source)

mutual

/-- The tokens that derive a term are read to it. -/
theorem term_eq_ok : ∀ (t : Term) {w : List Token} {located : List Located} (rest : List Located)
    (room : Nat), DerivesTerm bound w t → located.map (·.token) = w →
    Located.next rest ≠ some .open → w.length ≤ room →
    s.term bound room (located ++ rest) = .ok (t, rest)
  | .var x, w, located, rest, room, h, hl, hrest, hroom => by
    cases h with
    | var hx =>
      obtain ⟨offset, more, rfl, hmore⟩ := Located.eq_cons_of_map hl
      obtain rfl := List.map_eq_nil_iff.mp hmore
      obtain ⟨room, rfl⟩ := Nat.exists_eq_add_of_le' hroom
      rw [List.cons_append, List.nil_append]
      exact (term_name s hrest).trans (by rw [if_pos hx])
  | .const x, w, located, rest, room, h, hl, hrest, hroom => by
    cases h with
    | const hx =>
      obtain ⟨offset, more, rfl, hmore⟩ := Located.eq_cons_of_map hl
      obtain rfl := List.map_eq_nil_iff.mp hmore
      obtain ⟨room, rfl⟩ := Nat.exists_eq_add_of_le' hroom
      rw [List.cons_append, List.nil_append]
      exact (term_name s hrest).trans (by rw [if_neg hx])
  | .app f ts, w, located, rest, room, h, hl, hrest, hroom => by
    cases h with
    | app hargs =>
      obtain ⟨offset, more, rfl, hmore⟩ := Located.eq_cons_of_map hl
      simp only [List.length_cons, List.length_append] at hroom
      obtain ⟨room, rfl⟩ := Nat.exists_eq_add_of_le' (Nat.lt_of_lt_of_le (Nat.succ_pos _) hroom)
      have hread := args_eq_ok ts rest room hargs hmore (by omega)
      obtain ⟨offset', more, rfl, -⟩ := Located.eq_cons_of_map hmore
      rw [List.cons_append, List.cons_append, term_app, ← List.cons_append, hread]
      rfl

/-- The tokens that derive arguments are read to them, in parentheses. -/
theorem args_eq_ok : ∀ (ts : List Term) {w : List Token} {located : List Located}
    (rest : List Located) (room : Nat), DerivesArgs bound w ts →
    located.map (·.token) = .open :: (w ++ [.close]) → w.length ≤ room →
    s.args (s.term bound room) (located ++ rest) = .ok (ts, rest)
  | [], w, located, rest, room, h, hl, hroom => by
    cases h with
    | nil =>
      obtain ⟨offset, more, rfl, hmore⟩ := Located.eq_cons_of_map hl
      obtain ⟨offset', more, rfl, hnil⟩ := Located.eq_cons_of_map hmore
      obtain rfl := List.map_eq_nil_iff.mp hnil
      exact args_nil s
  | t :: ts, w, located, rest, room, h, hl, hroom => by
    cases h with
    | @cons u v _ _ hu hv =>
      obtain ⟨offset, more, rfl, hmore⟩ := Located.eq_cons_of_map hl
      rw [List.append_assoc] at hmore
      obtain ⟨first, others, rfl, hfirst, hothers⟩ := List.map_eq_append_iff.mp hmore
      rw [List.length_append] at hroom
      have hread := term_eq_ok t (others ++ rest) room hu hfirst (next_more hv hothers rest)
        (by omega)
      -- What is left after the first argument has more tokens than the others, since it closes.
      have hcount : v.length < (others ++ rest).length := by
        have hlength := congrArg List.length hothers
        simp only [List.length_map, List.length_append, List.length_cons] at hlength ⊢
        omega
      have hreadMore := moreArgs_eq_ok ts rest room hv hothers hcount (by omega)
      obtain ⟨x, _, hx⟩ := eq_name_cons hu
      obtain ⟨offset', _, rfl, -⟩ := Located.eq_cons_of_map (hfirst.trans hx)
      rw [List.cons_append] at hread
      rw [List.cons_append, List.append_assoc, List.cons_append, args_cons, hread]
      dsimp only [bind, Except.bind]
      rw [hreadMore]
      rfl

/-- The tokens that derive the arguments after the first are read to them. -/
theorem moreArgs_eq_ok : ∀ (ts : List Term) {v : List Token} {located : List Located}
    (rest : List Located) (room : Nat) {count : Nat}, DerivesMore bound v ts →
    located.map (·.token) = v ++ [.close] → v.length < count → v.length ≤ room →
    s.moreArgs (s.term bound room) count (located ++ rest) = .ok (ts, rest)
  | [], v, located, rest, room, count, h, hl, hcount, hroom => by
    cases h with
    | nil =>
      obtain ⟨offset, more, rfl, hnil⟩ := Located.eq_cons_of_map hl
      obtain rfl := List.map_eq_nil_iff.mp hnil
      obtain ⟨count, rfl⟩ := Nat.exists_eq_add_of_le' hcount
      rfl
  | t :: ts, v, located, rest, room, count, h, hl, hcount, hroom => by
    cases h with
    | @cons u v _ _ hu hv =>
      rw [List.cons_append, List.append_assoc] at hl
      obtain ⟨offset, more, rfl, hmore⟩ := Located.eq_cons_of_map hl
      obtain ⟨first, others, rfl, hfirst, hothers⟩ := List.map_eq_append_iff.mp hmore
      rw [List.length_cons, List.length_append] at hcount hroom
      obtain ⟨count, rfl⟩ := Nat.exists_eq_add_of_le' (Nat.lt_of_le_of_lt (Nat.zero_le _) hcount)
      have hread := term_eq_ok t (others ++ rest) room hu hfirst (next_more hv hothers rest)
        (by omega)
      have hcount : v.length < count := by omega
      have hreadMore := moreArgs_eq_ok ts rest room hv hothers hcount (by omega)
      rw [List.cons_append, List.append_assoc, moreArgs_comma, hread]
      dsimp only [bind, Except.bind]
      rw [hreadMore]
      rfl

end

end Terms

/-! ### The tiers -/

/-- Reading comes to `f` on a tier: it gives `f`, or where a connective groups to the left, it goes
on with `f` as the left operand. -/
structure Arrives (s : Source) (room : Nat) (tier : Tier) (bound : List String) (f : Formula)
    (rest : List Located) (x : Except ParseError (Formula × List Located)) : Prop where
  alone : tier.join = none → x = .ok (f, rest)
  joined : ∀ {op operand}, tier.join = some (op, operand) → ∃ count, rest.length ≤ count ∧
    x = s.chain op op.token (s.readTier room operand bound) count f f.depth rest

/-- What derives `f` on a tier is read to it, whatever comes after. -/
def Completes (s : Source) (tier : Tier) (bound : List String) (w : List Token)
    (follow : Option Token) (f : Formula) : Prop :=
  ∀ (room : Nat) (located rest : List Located), located.map (·.token) = w →
    Located.next rest = follow → Admits tier follow → w.length ≤ s.limit → 2 * w.length < room →
    s.Arrives room tier bound f rest (s.readTier room tier bound (located ++ rest))

variable {s : Source} {room : Nat} {tier operand : Tier} {op : Connective} {bound : List String}
  {u v w : List Token} {t : Token} {follow : Option Token} {f g : Formula}
  {located rest : List Located}

/-- Reading stops where the connective of the tier does not follow. -/
theorem Arrives.eq_ok {x : Except ParseError (Formula × List Located)}
    (h : s.Arrives room tier bound f rest x)
    (hnext : ∀ op operand, tier.join = some (op, operand) → Located.next rest ≠ some op.token) :
    x = .ok (f, rest) := by
  cases hjoin : tier.join with
  | none => exact h.alone hjoin
  | some p =>
    obtain ⟨count, -, rfl⟩ := h.joined hjoin
    exact chain_eq (hnext p.1 p.2 hjoin)

/-- An operand of the next tighter tier is read to its end. -/
theorem Completes.eq_ok (h : s.Completes operand bound w follow f)
    (htier : tier.tighter = some operand) (hl : located.map (·.token) = w)
    (hnext : Located.next rest = follow) (hadmits : Admits tier follow)
    (hlimit : w.length ≤ s.limit) (hroom : 2 * w.length < room) :
    s.readTier room operand bound (located ++ rest) = .ok (f, rest) := by
  refine (h room located rest hl hnext (hadmits.tighter htier) hlimit hroom).eq_ok ?_
  intro op right hjoin
  rw [hnext]
  exact hadmits.ne_token htier hjoin

theorem impliesTail_eq (h : Located.next rest ≠ some .implies) :
    s.impliesTail room bound f rest = .ok (f, rest) := by
  dsimp only [impliesTail]
  split
  · exact absurd rfl h
  · rfl

theorem spanTail_eq (h : ∀ t, Located.next rest = some t → spanOp t = none) :
    s.spanTail room bound f rest = .ok (f, rest) := by
  cases rest with
  | nil => rfl
  | cons t more =>
    dsimp only [spanTail]
    rw [h t.token rfl]

theorem completes_tighter (htier : tier.tighter = some operand)
    (h : s.Completes operand bound w follow f) : s.Completes tier bound w follow f := by
  intro room located rest hl hnext hadmits hlimit hroom
  have hread := h.eq_ok htier hl hnext hadmits hlimit hroom
  constructor
  · intro hjoin
    cases tier with
    | implies =>
      cases htier
      rw [readTier] at hread
      rw [readTier, read_implication, hread]
      refine impliesTail_eq ?_
      rw [hnext]
      exact hadmits.ne_of_rank rfl (by decide)
    | span =>
      cases htier
      rw [readTier] at hread
      rw [readTier, read_span, hread]
      refine spanTail_eq fun t ht => ?_
      -- A span that follows would be out of reach.
      cases hop : spanOp t with
      | none => rfl
      | some op =>
        exact absurd (hnext.symm.trans ht) (hadmits.ne_of_rank (rank_of_spanOp hop) (by decide))
    | unary => cases htier
    | _ => cases hjoin
  · intro op operand' hjoin
    obtain rfl := Option.some.inj (htier.symm.trans (tighter_of_join hjoin))
    refine ⟨rest.length, Nat.le_refl _, ?_⟩
    rw [readTier_join hjoin, leftGrouped, hread]
    rfl

theorem completes_join (hjoin : tier.join = some (op, operand))
    (hf : s.Completes tier bound u (some op.token) f) (hg : s.Completes operand bound v follow g)
    (hdepth : (Formula.binary op f g).depth ≤ (u ++ op.token :: v).length) :
    s.Completes tier bound (u ++ op.token :: v) follow (.binary op f g) := by
  intro room located rest hl hnext hadmits hlimit hroom
  refine ⟨fun hnone => (nomatch hnone.symm.trans hjoin), fun hjoin' => ?_⟩
  obtain ⟨rfl, rfl⟩ := Prod.mk.inj (Option.some.inj (hjoin.symm.trans hjoin'))
  obtain ⟨left, more, rfl, hleft, hmore⟩ := List.map_eq_append_iff.mp hl
  obtain ⟨offset, right, rfl, hright⟩ := Located.eq_cons_of_map hmore
  rw [List.length_append, List.length_cons] at hdepth hlimit hroom
  -- The loop is at its head with the left operand, and its connective follows.
  have hadmitsLeft : Admits tier (some op.token) := by
    refine .of_rank (rank_token op) ?_
    rw [opTier_of_join hjoin]
    cases tier <;> cases hjoin <;> decide
  obtain ⟨count, hcount, hread⟩ :=
    (hf room left (⟨op.token, offset⟩ :: (right ++ rest)) hleft rfl hadmitsLeft (by omega)
      (by omega)).joined hjoin
  have hreadRight := hg.eq_ok (tighter_of_join hjoin) hright hnext hadmits (by omega)
    (by omega : 2 * v.length < room)
  rw [List.length_cons, List.length_append] at hcount
  obtain ⟨count, rfl⟩ := Nat.exists_eq_add_of_le' (Nat.lt_of_lt_of_le (Nat.succ_pos _) hcount)
  refine ⟨count, by omega, ?_⟩
  rw [List.append_assoc, List.cons_append, hread]
  refine chain_cons.trans ?_
  rw [hreadRight]
  exact if_neg (Nat.not_lt.mpr (Nat.le_trans hdepth hlimit))

/-- The right operand of an operator that groups to the right is read with a level less. -/
theorem Completes.enter {rung : Rung} (h : s.Completes tier bound v follow g)
    (hrung : ∀ {room}, s.readTier room tier bound = s.read room rung bound)
    (hjoin : tier.join = none) (hl : located.map (·.token) = v)
    (hnext : Located.next rest = follow) (hadmits : Admits tier follow)
    (hlimit : v.length ≤ s.limit) (hroom : 2 * v.length + 1 < room) :
    s.enter rung room bound (located ++ rest) = .ok (g, rest) := by
  obtain ⟨room, rfl⟩ := Nat.exists_eq_add_of_le' (Nat.lt_of_le_of_lt (Nat.zero_le _) hroom)
  have hread := (h room located rest hl hnext hadmits hlimit (by omega)).alone hjoin
  rw [hrung] at hread
  exact hread

theorem completes_implies (hf : s.Completes .or bound u (some .implies) f)
    (hg : s.Completes .implies bound v follow g) :
    s.Completes .implies bound (u ++ .implies :: v) follow (.implies f g) := by
  intro room located rest hl hnext hadmits hlimit hroom
  refine ⟨fun _ => ?_, nofun⟩
  obtain ⟨left, more, rfl, hleft, hmore⟩ := List.map_eq_append_iff.mp hl
  obtain ⟨offset, right, rfl, hright⟩ := Located.eq_cons_of_map hmore
  rw [List.length_append, List.length_cons] at hlimit hroom
  have hadmitsLeft : Admits .or (some .implies) := .of_rank (rank_token .implies) (by decide)
  have hreadLeft : s.disjunction room bound (left ++ ⟨.implies, offset⟩ :: (right ++ rest)) =
      .ok (f, ⟨.implies, offset⟩ :: (right ++ rest)) := by
    refine (hf room left _ hleft rfl hadmitsLeft (by omega) (by omega)).eq_ok ?_
    rintro op operand ⟨⟩
    nofun
  have hreadRight : s.enter .implication room bound (right ++ rest) = .ok (g, rest) :=
    hg.enter rfl rfl hright hnext hadmits (by omega) (by omega)
  rw [List.append_assoc, List.cons_append, readTier, read_implication, hreadLeft]
  dsimp only [bind, Except.bind, impliesTail]
  rw [hreadRight]
  rfl

theorem spanOp_of_mem {op : Span} (h : t ∈ spanTokens op) : spanOp t = some op := by
  cases op <;> simp only [spanTokens, List.mem_cons, List.not_mem_nil, or_false] at h <;>
    obtain rfl | rfl := h <;> rfl

theorem completes_span {op : Span} (ht : t ∈ spanTokens op)
    (hf : s.Completes .unary bound u (some t) f) (hg : s.Completes .span bound v follow g) :
    s.Completes .span bound (u ++ t :: v) follow (.span op f g) := by
  intro room located rest hl hnext hadmits hlimit hroom
  refine ⟨fun _ => ?_, nofun⟩
  obtain ⟨left, more, rfl, hleft, hmore⟩ := List.map_eq_append_iff.mp hl
  obtain ⟨offset, right, rfl, hright⟩ := Located.eq_cons_of_map hmore
  rw [List.length_append, List.length_cons] at hlimit hroom
  have hop := spanOp_of_mem ht
  have hadmitsLeft : Admits .unary (some t) := .of_rank (rank_of_spanOp hop) (by decide)
  have hreadLeft : s.read room .unary bound (left ++ ⟨t, offset⟩ :: (right ++ rest)) =
      .ok (f, ⟨t, offset⟩ :: (right ++ rest)) :=
    (hf room left _ hleft rfl hadmitsLeft (by omega) (by omega)).alone rfl
  have hreadRight : s.enter .span room bound (right ++ rest) = .ok (g, rest) :=
    hg.enter rfl rfl hright hnext hadmits (by omega) (by omega)
  rw [List.append_assoc, List.cons_append, readTier, read_span, hreadLeft]
  dsimp only [bind, Except.bind, spanTail]
  rw [hop, hreadRight]
  rfl

/-! ### Formulas that their first token decides -/

/-- On the tightest tier it is enough to look at the first token, with a level less. -/
theorem completes_unary
    (h : ∀ {room : Nat} {located rest : List Located}, located.map (·.token) = w →
      Located.next rest = follow → Admits .unary follow → w.length ≤ s.limit →
      2 * w.length ≤ room → s.unary (s.level room) bound (located ++ rest) = .ok (f, rest)) :
    s.Completes .unary bound w follow f := by
  intro room located rest hl hnext hadmits hlimit hroom
  obtain ⟨room, rfl⟩ := Nat.exists_eq_add_of_le' (Nat.lt_of_le_of_lt (Nat.zero_le _) hroom)
  exact ⟨fun _ => h hl hnext hadmits hlimit (by omega), nofun⟩

theorem unary_operator {build : Formula → Formula} (h : (t, build) ∈ operators) (below : Level)
    (offset : Nat) (more : List Located) :
    s.unary below bound (⟨t, offset⟩ :: more) = (do
      let (body, rest) ← below.formula .unary bound more
      return (build body, rest)) := by
  simp only [operators, List.mem_cons, Prod.mk.injEq, List.not_mem_nil, or_false] at h
  obtain ⟨rfl, rfl⟩ | ⟨rfl, rfl⟩ | ⟨rfl, rfl⟩ | ⟨rfl, rfl⟩ := h <;> rfl

theorem completes_operator {build : Formula → Formula} (hbuild : (t, build) ∈ operators)
    (h : s.Completes .unary bound w follow f) :
    s.Completes .unary bound (t :: w) follow (build f) := by
  refine completes_unary fun {room located rest} hl hnext hadmits hlimit hroom => ?_
  obtain ⟨offset, more, rfl, hmore⟩ := Located.eq_cons_of_map hl
  rw [List.length_cons] at hlimit hroom
  have hread : s.read room .unary bound (more ++ rest) = .ok (f, rest) :=
    (h room more rest hmore hnext hadmits (by omega) (by omega)).alone rfl
  rw [List.cons_append, unary_operator hbuild]
  dsimp only [level, bind, Except.bind]
  rw [hread]
  rfl

/-- A formula that ends is read to its end on the loosest tier. -/
theorem Completes.formula (h : s.Completes .iff bound w follow f)
    (hends : follow = none ∨ follow = some .close) (hl : located.map (·.token) = w)
    (hnext : Located.next rest = follow) (hlimit : w.length ≤ s.limit)
    (hroom : 2 * w.length + 1 < room) :
    s.read room .formula bound (located ++ rest) = .ok (f, rest) := by
  obtain ⟨room, rfl⟩ := Nat.exists_eq_add_of_le' (Nat.lt_of_le_of_lt (Nat.zero_le _) hroom)
  refine (h room located rest hl hnext (.of_ends hends) hlimit (by omega)).eq_ok ?_
  rintro op operand ⟨⟩
  rw [hnext]
  obtain rfl | rfl := hends <;> nofun

theorem pastMark_append {mark tokens : List Located} (hmark : mark.map (·.token) ∈ marks)
    (htokens : ∀ t, Located.next tokens = some t → t ≠ .point ∧ t ≠ .colon) :
    pastMark (mark ++ tokens) = tokens := by
  simp only [marks, List.mem_cons, List.not_mem_nil, or_false] at hmark
  obtain hmark | hmark | hmark := hmark
  · obtain rfl := List.map_eq_nil_iff.mp hmark
    rw [List.nil_append]
    unfold pastMark
    split
    · exact absurd rfl (htokens _ rfl).1
    · exact absurd rfl (htokens _ rfl).2
    · rfl
  all_goals
    obtain ⟨offset, more, rfl, hmore⟩ := Located.eq_cons_of_map hmark
    obtain rfl := List.map_eq_nil_iff.mp hmore
    rfl

theorem completes_quant {q : Quantifier} {x : String} {mark : List Token} (hmark : mark ∈ marks)
    (hends : follow = none ∨ follow = some .close)
    (hstart : ∃ t more, w = t :: more ∧ t ≠ .point ∧ t ≠ .colon)
    (h : s.Completes .iff (x :: bound) w follow f) :
    s.Completes .unary bound (q.token :: .name x :: (mark ++ w)) follow (.quant q x f) := by
  refine completes_unary fun {room located rest} hl hnext hadmits hlimit hroom => ?_
  obtain ⟨offset, more, rfl, hname⟩ := Located.eq_cons_of_map hl
  obtain ⟨offset', more, rfl, hmore⟩ := Located.eq_cons_of_map hname
  obtain ⟨mark, body, rfl, rfl, hbody⟩ := List.map_eq_append_iff.mp hmore
  simp only [List.length_cons, List.length_append] at hlimit hroom
  have hread : s.read room .formula (x :: bound) (body ++ rest) = .ok (f, rest) :=
    h.formula hends hbody hnext (by omega) (by omega)
  -- The body does not start with what could be taken for a mark.
  have hskip : pastMark (mark ++ (body ++ rest)) = body ++ rest := by
    obtain ⟨t, more, rfl, hpoint, hcolon⟩ := hstart
    obtain ⟨offset, more, rfl, -⟩ := Located.eq_cons_of_map hbody
    refine pastMark_append hmark ?_
    rintro _ ⟨⟩
    exact ⟨hpoint, hcolon⟩
  have hunary : s.unary (s.level room) bound
      (⟨q.token, offset⟩ :: ⟨.name x, offset'⟩ :: (mark ++ (body ++ rest))) =
      s.quantified (s.level room) bound q (⟨.name x, offset'⟩ :: (mark ++ (body ++ rest))) := by
    cases q <;> rfl
  rw [List.cons_append, List.cons_append, List.append_assoc, hunary, quantified_name, hskip]
  dsimp only [level, bind, Except.bind]
  rw [hread]
  rfl

theorem parenthesized_open (below : Level) (offset : Nat) (tokens : List Located) :
    s.parenthesized below bound (⟨.open, offset⟩ :: tokens) = (do
      let (body, rest) ← below.formula .formula bound tokens
      let rest ← s.expect .close rest
      return (body, rest)) := rfl

/-- A formula is read in parentheses. -/
theorem Completes.parenthesized (h : s.Completes .iff bound w (some .close) f)
    (hl : located.map (·.token) = .open :: (w ++ [.close])) (hlimit : w.length ≤ s.limit)
    (hroom : 2 * w.length + 1 < room) :
    s.parenthesized (s.level room) bound (located ++ rest) = .ok (f, rest) := by
  obtain ⟨offset, more, rfl, hmore⟩ := Located.eq_cons_of_map hl
  obtain ⟨body, close, rfl, hbody, hclose⟩ := List.map_eq_append_iff.mp hmore
  obtain ⟨offset', none, rfl, hnone⟩ := Located.eq_cons_of_map hclose
  obtain rfl := List.map_eq_nil_iff.mp hnone
  have hread : s.read room .formula bound (body ++ ([⟨.close, offset'⟩] ++ rest)) =
      .ok (f, [⟨.close, offset'⟩] ++ rest) :=
    h.formula (.inr rfl) hbody rfl hlimit hroom
  rw [List.cons_append, List.append_assoc, parenthesized_open]
  dsimp only [level]
  rw [hread]
  rfl

theorem completes_parentheses (h : s.Completes .iff bound w (some .close) f) :
    s.Completes .unary bound (.open :: (w ++ [.close])) follow f := by
  refine completes_unary fun {room located rest} hl hnext hadmits hlimit hroom => ?_
  simp only [List.length_cons, List.length_append] at hlimit hroom
  have hread : s.parenthesized (s.level room) bound (located ++ rest) = .ok (f, rest) :=
    h.parenthesized hl (by omega) (by omega)
  obtain ⟨offset, more, rfl, -⟩ := Located.eq_cons_of_map hl
  exact hread

theorem unary_letters {x : String} {build : Formula → Formula} (h : (x, build) ∈ letters)
    (below : Level) (offset offset' : Nat) (more : List Located) :
    s.unary below bound (⟨.name x, offset⟩ :: ⟨.open, offset'⟩ :: more) = (do
      let (body, rest) ← s.parenthesized below bound (⟨.open, offset'⟩ :: more)
      return (build body, rest)) := by
  simp only [letters, List.mem_cons, Prod.mk.injEq, List.not_mem_nil, or_false] at h
  obtain ⟨rfl, rfl⟩ | ⟨rfl, rfl⟩ | ⟨rfl, rfl⟩ | ⟨rfl, rfl⟩ := h <;> rfl

theorem completes_letter {x : String} {build : Formula → Formula} (hbuild : (x, build) ∈ letters)
    (h : s.Completes .iff bound w (some .close) f) :
    s.Completes .unary bound (.name x :: .open :: (w ++ [.close])) follow (build f) := by
  refine completes_unary fun {room located rest} hl hnext hadmits hlimit hroom => ?_
  obtain ⟨offset, more, rfl, hmore⟩ := Located.eq_cons_of_map hl
  simp only [List.length_cons, List.length_append] at hlimit hroom
  have hread : s.parenthesized (s.level room) bound (more ++ rest) = .ok (f, rest) :=
    h.parenthesized hmore (by omega) (by omega)
  obtain ⟨offset', more, rfl, -⟩ := Located.eq_cons_of_map hmore
  rw [List.cons_append, List.cons_append, unary_letters hbuild, ← List.cons_append, hread]
  rfl

theorem completes_name {x : String} : s.Completes .unary bound [.name x] follow (.pred x []) := by
  refine completes_unary fun {room located rest} hl hnext hadmits hlimit hroom => ?_
  obtain ⟨offset, more, rfl, hmore⟩ := Located.eq_cons_of_map hl
  obtain rfl := List.map_eq_nil_iff.mp hmore
  exact unary_letter _ x offset (hnext ▸ hadmits.ne_open)

theorem completes_pred {x : String} {ts : List Term} (hx : x ∉ Formula.operatorNames)
    (hargs : DerivesArgs bound w ts) :
    s.Completes .unary bound (.name x :: .open :: (w ++ [.close])) follow (.pred x ts) := by
  refine completes_unary fun {room located rest} hl hnext hadmits hlimit hroom => ?_
  obtain ⟨offset, more, rfl, hmore⟩ := Located.eq_cons_of_map hl
  simp only [List.length_cons, List.length_append] at hroom
  have hread := args_eq_ok s ts rest room hargs hmore (by omega)
  obtain ⟨offset', more, rfl, -⟩ := Located.eq_cons_of_map hmore
  rw [List.cons_append, List.cons_append, unary_pred room offset offset' _ hx, ← List.cons_append,
    hread]
  rfl

/-- **What is derived is read.** -/
theorem completes_of_derives (h : Derives tier bound w follow f) :
    s.Completes tier bound w follow f := by
  induction h with
  | tighter htier _ ih => exact completes_tighter htier ih
  | join hjoin hf hg ihf ihg =>
    exact completes_join hjoin ihf ihg (Derives.join hjoin hf hg).depth_le
  | implies _ _ ihf ihg => exact completes_implies ihf ihg
  | span ht _ _ ihf ihg => exact completes_span ht ihf ihg
  | operator hbuild _ ih => exact completes_operator hbuild ih
  | quant hmark hends h ih => exact completes_quant hmark hends h.start ih
  | parentheses _ ih => exact completes_parentheses ih
  | letter hbuild _ ih => exact completes_letter hbuild ih
  | name => exact completes_name
  | pred hx hargs => exact completes_pred hx hargs

end Source

namespace Formula

open Grammar

section Exact

variable {limit : Nat} {text : String} {tokens : List Located} {f : Formula}
  (htokens : Token.tokenize text = .ok tokens) (hlimit : 2 * tokens.length + 2 ≤ limit)
include htokens hlimit

theorem parseWithin_of_derives (h : Derives .iff [] (tokens.map (·.token)) none f) :
    parseWithin limit text = .ok f := by
  have hdepth : f.depth ≤ limit := by
    have hle := h.depth_le
    rw [List.length_map] at hle
    omega
  have hne : tokens ≠ [] := by
    rintro rfl
    obtain ⟨t, more, hnil, -⟩ := h.start
    cases hnil
  let s : Source := ⟨limit, text.utf8ByteSize⟩
  have hread : s.read limit .formula [] (tokens ++ []) = .ok (f, []) := by
    refine (Source.completes_of_derives h).formula (.inl rfl) rfl rfl ?_ ?_ <;>
      rw [List.length_map]
    · change tokens.length ≤ limit
      omega
    · omega
  rw [List.append_nil] at hread
  rw [parseWithin_eq htokens hne]
  dsimp only
  rw [hread]
  exact if_neg (Nat.not_lt.mpr hdepth)

/-- A text is refused as malformed, or read to what its tokens derive. -/
theorem derives_of_parseWithin :
    (∃ f, parseWithin limit text = .ok f ∧ Derives .iff [] (tokens.map (·.token)) none f) ∨
      ∃ offset complaint, parseWithin limit text = .error (.malformed offset complaint) := by
  by_cases hne : tokens = []
  · subst hne
    refine .inr ⟨0, .empty, ?_⟩
    rw [parseWithin, htokens]
    rfl
  rw [parseWithin_eq htokens hne]
  let s : Source := ⟨limit, text.utf8ByteSize⟩
  have hsound : Source.Yields (s.read limit .formula [] tokens) fun f rest =>
      Derived .iff [] tokens f rest ∧ Looser .iff rest := by
    obtain ⟨room, hroom⟩ := Nat.exists_eq_add_of_le' (Nat.lt_of_le_of_lt (Nat.zero_le _) hlimit)
    rw [hroom]
    exact s.soundTier room .iff [] tokens (by change _ ≤ limit; omega) (by omega)
  dsimp only
  obtain ⟨f, rest, hread, ⟨w, rfl, hdepth, hw⟩, -⟩ | ⟨offset, complaint, hread⟩ := hsound
  · -- The depth is within the limit, so the text is refused only if tokens are left over.
    rw [hread]
    cases rest with
    | nil =>
      rw [List.append_nil] at hlimit ⊢
      refine .inl ⟨f, if_neg (Nat.not_lt.mpr ?_), hw .nil⟩
      dsimp only
      omega
    | cons t more => exact .inr ⟨_, _, rfl⟩
  · rw [hread]
    exact .inr ⟨offset, complaint, rfl⟩

end Exact

/-- **Reading accepts exactly the grammar.**  Under a limit of two levels at each token and two
more, a text is read to the formula that its tokens derive, and refused as malformed if they derive
none; so they derive no more than one. -/
theorem parseWithin_iff_derives {limit : Nat} {text : String} {tokens : List Located}
    (htokens : Token.tokenize text = .ok tokens) (hlimit : 2 * tokens.length + 2 ≤ limit) :
    (∀ f, parseWithin limit text = .ok f ↔ Derives .iff [] (tokens.map (·.token)) none f) ∧
      ((¬∃ f, Derives .iff [] (tokens.map (·.token)) none f) →
        ∃ offset complaint, parseWithin limit text = .error (.malformed offset complaint)) ∧
      ∀ f g, Derives .iff [] (tokens.map (·.token)) none f →
        Derives .iff [] (tokens.map (·.token)) none g → f = g := by
  have hcomplete := fun f => parseWithin_of_derives (f := f) htokens hlimit
  refine ⟨fun f => ⟨fun hf => ?_, hcomplete f⟩, fun hnone => ?_, fun f g hf hg => ?_⟩
  · obtain ⟨g, hg, hderives⟩ | ⟨offset, complaint, herror⟩ := derives_of_parseWithin htokens hlimit
    · obtain rfl := Except.ok.inj (hf.symm.trans hg)
      exact hderives
    · exact nomatch hf.symm.trans herror
  · obtain ⟨f, -, hf⟩ | herror := derives_of_parseWithin htokens hlimit
    · exact absurd ⟨f, hf⟩ hnone
    · exact herror
  · exact Except.ok.inj ((hcomplete f hf).symm.trans (hcomplete g hg))

/-- A quantified right operand whose body takes the span after it, with a letter for the span and
another that is none. -/
theorem parseWithin_iff_derives_until :
    ∃ tokens f, Token.tokenize "Q ∧ ∀x R(x) U S" = .ok tokens ∧ 2 * tokens.length + 2 ≤ 22 ∧
      f = .and (.atom "Q") (.all "x" (.until (.pred "R" [.var "x"]) (.atom "S"))) ∧
      parseWithin 22 "Q ∧ ∀x R(x) U S" = .ok f ∧
      Derives .iff [] (tokens.map (·.token)) none f := by
  let tokens : List Located := [⟨.name "Q", 0⟩, ⟨.and, 2⟩, ⟨.all, 6⟩, ⟨.name "x", 9⟩,
    ⟨.name "R", 11⟩, ⟨.open, 12⟩, ⟨.name "x", 13⟩, ⟨.close, 14⟩, ⟨.name "U", 16⟩, ⟨.name "S", 18⟩]
  have htokens : Token.tokenize "Q ∧ ∀x R(x) U S" = .ok tokens := by decide +kernel
  have hread : parseWithin 22 "Q ∧ ∀x R(x) U S" =
      .ok (.and (.atom "Q") (.all "x" (.until (.pred "R" [.var "x"]) (.atom "S")))) := by
    decide +kernel
  exact ⟨tokens, _, htokens, by decide, rfl, hread,
    ((parseWithin_iff_derives htokens (by decide)).1 _).mp hread⟩

end Formula

end Deontica
