import Deontica.Proofs.Pattern

/-!
# Matches are most general

A match only puts bindings in front of those it is given, and only for holes of the pattern that
were not bound (`exists_added_of_matchWith`).  So the names that are bound afterwards are those that
were bound and the holes of the pattern, each once if that was so before.  Among the bindings that
extend the given ones and turn the pattern into the formula they are the least
(`matchWith_mostGeneral`).

Matching in place goes through the pattern in the same order and may have bound some holes when it
meets a mismatch.  What it leaves is the match if it succeeds, and is not used otherwise
(`matchWith_eq_matchInPlace`).
-/

namespace Deontica.Pattern

open Bindings

/-! ### What a match adds -/

/-- Bindings for different names may be put in front of others that bind none of these names. -/
theorem nodup_append_of_unbound {added bs : Bindings} (hadded : (added.map (·.1)).Nodup)
    (hbs : (bs.map (·.1)).Nodup) (hunbound : ∀ b ∈ added, bs.lookup b.1 = none) :
    ((added ++ bs).map (·.1)).Nodup := by
  rw [List.map_append, List.nodup_append]
  refine ⟨hadded, hbs, fun x hx y hy hxy => ?_⟩
  obtain ⟨b, hb, rfl⟩ := List.mem_map.mp hx
  obtain ⟨b', hb', rfl⟩ := List.mem_map.mp hy
  have hne := List.lookup_eq_none_iff.mp (hunbound b hb) b' hb'
  simp [hxy] at hne

/-- The bindings `added` are for different names out of `holes`, none of which `bs` binds. -/
structure Adds (holes : List String) (bs added : Bindings) : Prop where
  nodup : (added.map (·.1)).Nodup
  hole : ∀ b ∈ added, b.1 ∈ holes
  unbound : ∀ b ∈ added, bs.lookup b.1 = none

namespace Adds

variable {holes holes' : List String} {bs added added' : Bindings}

theorem nil (holes : List String) (bs : Bindings) : Adds holes bs [] where
  nodup := List.Pairwise.nil
  hole _ h := absurd h List.not_mem_nil
  unbound _ h := absurd h List.not_mem_nil

theorem singleton {x : String} (f : Formula) (h : bs.lookup x = none) : Adds [x] bs [(x, f)] where
  nodup := List.pairwise_singleton _ _
  hole := List.forall_mem_singleton.mpr (List.mem_singleton.mpr rfl)
  unbound := List.forall_mem_singleton.mpr h

theorem unbound_append (h : Adds holes (added ++ bs) added') {b : String × Formula}
    (hb : b ∈ added') : added.lookup b.1 = none ∧ bs.lookup b.1 = none := by
  have hunbound := h.unbound b hb
  rwa [List.lookup_append, Option.or_eq_none_iff] at hunbound

/-- What is added to some bindings and then to the result is added to those bindings: the second
time no name is bound that was bound the first time. -/
theorem append (h : Adds holes bs added) (h' : Adds holes' (added ++ bs) added') :
    Adds (holes ++ holes') bs (added' ++ added) where
  nodup := nodup_append_of_unbound h'.nodup h.nodup fun _ hb => (h'.unbound_append hb).1
  hole b hb := by
    rw [List.mem_append] at hb ⊢
    exact hb.symm.imp (h.hole b) (h'.hole b)
  unbound b hb := by
    rcases List.mem_append.mp hb with hb | hb
    · exact (h'.unbound_append hb).2
    · exact h.unbound b hb

end Adds

/-- **A match puts bindings in front**, for holes of the pattern that were not bound. -/
theorem exists_added_of_matchWith : ∀ {p : Pattern} {f : Formula} {bs bs' : Bindings},
    p.matchWith f bs = some bs' → ∃ added, bs' = added ++ bs ∧ Adds p.holes bs added
  | .hole x, f, bs, bs', h => by
    simp only [matchWith] at h
    cases hx : bs.lookup x with
    | some g =>
      simp only [hx, Option.ite_none_right_eq_some, Option.some.injEq] at h
      exact ⟨[], h.2.symm, .nil _ _⟩
    | none =>
      simp only [hx, Option.some.injEq] at h
      exact ⟨[(x, f)], h.symm, .singleton f hx⟩
  | .not p, .not a, bs, bs', h => exists_added_of_matchWith (p := p) h
  | .deontic op p, .deontic op' a, bs, bs', h => by
    simp only [matchWith, Option.ite_none_right_eq_some] at h
    exact exists_added_of_matchWith (p := p) h.2
  | .tense op p, .tense op' a, bs, bs', h => by
    simp only [matchWith, Option.ite_none_right_eq_some] at h
    exact exists_added_of_matchWith (p := p) h.2
  | .binary op p q, .binary op' a b, bs, bs', h | .span op p q, .span op' a b, bs, bs', h => by
    simp only [matchWith, Option.ite_none_right_eq_some, Option.bind_eq_some_iff] at h
    obtain ⟨_, mid, hp, hq⟩ := h
    obtain ⟨added, rfl, hadds⟩ := exists_added_of_matchWith hp
    obtain ⟨added', rfl, hadds'⟩ := exists_added_of_matchWith hq
    exact ⟨added' ++ added, (List.append_assoc ..).symm, hadds.append hadds'⟩

variable {p : Pattern} {f : Formula} {bs bs' : Bindings}

/-- The names bound after a match are those bound before and the holes of the pattern. -/
theorem isSome_lookup_matchWith (h : p.matchWith f bs = some bs') (x : String) :
    (bs'.lookup x).isSome ↔ (bs.lookup x).isSome ∨ x ∈ p.holes := by
  obtain ⟨hle, hf⟩ := matchWith_spec h
  constructor
  · obtain ⟨added, rfl, hadds⟩ := exists_added_of_matchWith h
    rw [List.lookup_append, Option.isSome_or, Bool.or_eq_true, List.lookup_isSome_iff]
    rintro (⟨b, hb, hx⟩ | hx)
    · exact Or.inr (eq_of_beq hx ▸ hadds.hole b hb)
    · exact Or.inl hx
  · rintro (hx | hx)
    · obtain ⟨g, hg⟩ := Option.isSome_iff_exists.mp hx
      exact Option.isSome_of_eq_some (hle x g hg)
    · exact (isSome_instantiate_iff p).mp (Option.isSome_of_eq_some hf) x hx

/-- Where no name is bound twice, none is after a match. -/
theorem nodup_matchWith (h : p.matchWith f bs = some bs') (hbs : (bs.map (·.1)).Nodup) :
    (bs'.map (·.1)).Nodup := by
  obtain ⟨added, rfl, hadds⟩ := exists_added_of_matchWith h
  exact nodup_append_of_unbound hadds.nodup hbs hadds.unbound

/-! ### Matching in place -/

/-- **A match is what matching in place leaves if it succeeds.**  Whatever it leaves otherwise is
thrown away. -/
theorem matchWith_eq_matchInPlace (p : Pattern) (f : Formula) (bs : Bindings) :
    p.matchWith f bs =
      if (p.matchInPlace f bs).1 then some (p.matchInPlace f bs).2 else none := by
  fun_induction matchInPlace p f bs with
  | case1 x f bs g hx => simp [matchWith, hx]
  | case2 x f bs hx => simp [matchWith, hx]
  | case3 p a bs ih => exact ih
  | case4 p q op a b bs left hleft ihp ihq | case11 p q op a b bs left hleft ihp ihq =>
    -- the second part starts from what the first has left
    rw [if_pos hleft] at ihp
    rw [matchWith, if_pos rfl, ihp]
    exact ihq
  | case5 p q op a b bs left hleft ih | case12 p q op a b bs left hleft ih =>
    rw [if_neg hleft] at ih
    rw [matchWith, if_pos rfl, ih, if_neg hleft]
    rfl
  | case7 p op a bs ih | case9 p op a bs ih => rw [matchWith, if_pos rfl, ih]
  | case6 op p q op' a b bs hop | case13 op p q op' a b bs hop => simp [matchWith, hop]
  | case8 op p op' a bs hop | case10 op p op' a bs hop => simp [matchWith, hop]
  | case14 p f bs =>
    -- the pattern is not a hole and its operator is of another kind than the formula's
    have hnone : p.matchWith f bs = none := by rw [matchWith] <;> assumption
    exact hnone

/-! ### The least extension -/

/-- **Matches are sound, complete and most general.**  A match extends the bindings, binds the holes
of the pattern and nothing else besides, turns the pattern into the formula, and leaves every filled
pattern as it was.  If any extension of the bindings turns the pattern into the formula, there is a
match, and its bindings are among those of the extension. -/
theorem matchWith_mostGeneral (p : Pattern) (f : Formula) (bs : Bindings) :
    (∀ bs', p.matchWith f bs = some bs' →
      Le bs bs' ∧ (∀ x, (bs'.lookup x).isSome ↔ (bs.lookup x).isSome ∨ x ∈ p.holes) ∧
        ((bs.map (·.1)).Nodup → (bs'.map (·.1)).Nodup) ∧ p.instantiate bs' = some f ∧
        ∀ (q : Pattern) (g : Formula), q.instantiate bs = some g → q.instantiate bs' = some g) ∧
      (∀ bs'', Le bs bs'' → p.instantiate bs'' = some f →
        ∃ bs', p.matchWith f bs = some bs' ∧ Le bs' bs'') ∧
      p.matchWith f bs =
        if (p.matchInPlace f bs).1 then some (p.matchInPlace f bs).2 else none := by
  refine ⟨fun bs' h => ?_, fun bs'' hle hf => exists_matchWith hle hf,
    matchWith_eq_matchInPlace p f bs⟩
  obtain ⟨hle, hf⟩ := matchWith_spec h
  exact ⟨hle, isSome_lookup_matchWith h, nodup_matchWith h, hf, fun _ _ => instantiate_mono hle⟩

/-- The pattern `A ∧ (A → B)` where `C` is bound already: the first `A` binds, the second one has to
agree with it. -/
theorem matchWith_mostGeneral_repeated :
    let P := Formula.atom "P"
    let Q := Formula.atom "Q"
    let p : Pattern := .and (.hole "A") (.implies (.hole "A") (.hole "B"))
    let bs : Bindings := [("C", Q)]
    let bs' : Bindings := [("B", Q), ("A", P), ("C", Q)]
    p.matchWith (P.and (P.implies Q)) bs = some bs' ∧
      (∀ x, (bs'.lookup x).isSome ↔ (bs.lookup x).isSome ∨ x ∈ ["A", "A", "B"]) ∧
      p.instantiate bs' = some (P.and (P.implies Q)) ∧
      (∃ least, p.matchWith (P.and (P.implies Q)) bs = some least ∧ Le least (("D", P) :: bs')) ∧
      p.matchInPlace (P.and (Q.implies P)) bs = (false, [("A", P), ("C", Q)]) := by
  intro P Q p bs bs'
  have hmatch : p.matchWith (P.and (P.implies Q)) bs = some bs' := by decide
  obtain ⟨hle, hnames, _, hinstance, _⟩ :=
    (matchWith_mostGeneral p (P.and (P.implies Q)) bs).1 bs' hmatch
  have hle' : Le bs (("D", P) :: bs') := hle.trans (le_cons P (by decide))
  exact ⟨hmatch, hnames, hinstance,
    (matchWith_mostGeneral p (P.and (P.implies Q)) bs).2.1 _ hle' (by decide), by decide⟩

end Deontica.Pattern
