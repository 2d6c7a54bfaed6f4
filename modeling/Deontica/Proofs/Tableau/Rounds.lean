import Deontica.Proofs.Tableau.Branch
import Mathlib.Data.Finset.Card
import Mathlib.Data.Finset.Prod
import Mathlib.Data.List.Perm.Basic

/-!
# Closing a relation in rounds

The usual way to keep a relation transitive when an edge is added is to go on until nothing changes:
in every round the pairs of the relation are taken down, and for any two of them that meet, the way
over both is added (`Edge.rounds`).  It comes to an end because the ends of edges stay the same, so
that every round leaves fewer pairs to be added (`Edge.missing_round_lt`).

For edges that were closed before, the rounds add the same edges as linking does in one go
(`Edge.mem_closeInRounds_iff`): linked edges are closed, so no round leads beyond them, and what the
rounds end with is closed and has the new edge, so it has all that linking adds.  The edges of a
branch are closed, so a branch that closes them in rounds has the same edges and the same successors
of worlds at every step (`Branch.WellFormed.closeInRounds_iff`).
-/

namespace Deontica

namespace SortedSet

theorem pairwise_insert (x : Nat) {l : List Nat} (h : l.Pairwise (· < ·)) :
    (insert x l).Pairwise (· < ·) := by
  induction l with
  | nil => exact List.pairwise_singleton _ _
  | cons y l ih =>
    obtain ⟨hy, hl⟩ := List.pairwise_cons.mp h
    unfold insert
    split
    · rename_i hlt
      have hxy : x < y := Nat.compare_eq_lt.mp hlt
      exact List.pairwise_cons.mpr
        ⟨List.forall_mem_cons.mpr ⟨hxy, fun z hz => Nat.lt_trans hxy (hy z hz)⟩, h⟩
    · exact h
    · rename_i hgt
      have hyx : y < x := Nat.compare_eq_gt.mp hgt
      refine List.pairwise_cons.mpr ⟨fun z hz => ?_, ih hl⟩
      rcases (mem_insert z x l).mp hz with rfl | hz
      · exact hyx
      · exact hy z hz

theorem pairwise_ofList (l : List Nat) : (ofList l).Pairwise (· < ·) :=
  List.foldlRecOn l _ .nil fun _ h x _ => pairwise_insert x h

/-- A set of numbers is determined by its members. -/
theorem ofList_congr {l m : List Nat} (h : ∀ x, x ∈ l ↔ x ∈ m) : ofList l = ofList m := by
  have hnodup : ∀ l : List Nat, (ofList l).Nodup := fun l =>
    (pairwise_ofList l).imp Nat.ne_of_lt
  have hperm : (ofList l).Perm (ofList m) := by
    refine (List.perm_ext_iff_of_nodup (hnodup l) (hnodup m)).mpr fun x => ?_
    rw [mem_ofList, mem_ofList, h]
  exact hperm.eq_of_pairwise (fun _ _ _ _ hlt hgt => absurd hgt (Nat.lt_asymm hlt))
    (pairwise_ofList l) (pairwise_ofList m)

end SortedSet

namespace Edge

/-! ### The rounds -/

/-- The pairs of worlds between which there is an edge of the relation. -/
def pairs (r : Relation) (edges : List Edge) : List (World × World) :=
  edges.filterMap fun e => if e.relation = r then some (e.source, e.target) else none

/-- The ways over two pairs that meet. -/
def ways (r : Relation) (edges : List Edge) : List Edge :=
  (pairs r edges).flatMap fun p =>
    ((pairs r edges).filter fun q => p.2 = q.1).map fun q => ⟨r, p.1, q.2⟩

/-- Adds an edge, and notes if it was not there. -/
def insertNew (s : List Edge × Bool) (e : Edge) : List Edge × Bool :=
  if e ∈ s.1 then s else (e :: s.1, true)

/-- One round: adds the ways over the pairs that were there when it began, and says whether that
changed anything. -/
def round (r : Relation) (edges : List Edge) : List Edge × Bool :=
  (ways r edges).foldl insertNew (edges, false)

variable {r : Relation} {edges : List Edge}

theorem mem_pairs {p : World × World} : p ∈ pairs r edges ↔ ⟨r, p.1, p.2⟩ ∈ edges := by
  rw [pairs, List.mem_filterMap]
  constructor
  · rintro ⟨⟨r', s, t⟩, he, h⟩
    simp only [Option.ite_none_right_eq_some, Option.some.injEq] at h
    obtain ⟨rfl, rfl⟩ := h
    exact he
  · intro he
    exact ⟨_, he, if_pos rfl⟩

theorem mem_ways {e : Edge} : e ∈ ways r edges ↔
    e.relation = r ∧ ∃ v, ⟨r, e.source, v⟩ ∈ edges ∧ ⟨r, v, e.target⟩ ∈ edges := by
  simp only [ways, List.mem_flatMap, List.mem_map, List.mem_filter, mem_pairs, decide_eq_true_eq]
  constructor
  · rintro ⟨p, hp, q, ⟨hq, hmeet⟩, rfl⟩
    exact ⟨rfl, p.2, hp, hmeet ▸ hq⟩
  · rintro ⟨rfl, v, hp, hq⟩
    exact ⟨(e.source, v), hp, (v, e.target), ⟨hq, rfl⟩, rfl⟩

theorem mem_foldl_insertNew {e : Edge} (l : List Edge) (s : List Edge × Bool) :
    e ∈ (l.foldl insertNew s).1 ↔ e ∈ s.1 ∨ e ∈ l := by
  induction l generalizing s with
  | nil => simp
  | cons e' l ih =>
    have hfirst : e ∈ (insertNew s e').1 ↔ e ∈ s.1 ∨ e = e' := by
      unfold insertNew
      split_ifs with hmem
      · exact ⟨Or.inl, fun h => h.elim id fun heq => heq ▸ hmem⟩
      · rw [List.mem_cons, or_comm]
    rw [List.foldl_cons, ih, hfirst, List.mem_cons, or_assoc]

/-- The note says whether something new was among the edges. -/
theorem snd_foldl_insertNew (l : List Edge) (s : List Edge × Bool) :
    (l.foldl insertNew s).2 = true ↔ s.2 = true ∨ ∃ e ∈ l, e ∉ s.1 := by
  induction l generalizing s with
  | nil => simp
  | cons e l ih =>
    rw [List.foldl_cons, ih]
    unfold insertNew
    split_ifs with hmem
    · simp [hmem]
    · simp [hmem]

theorem mem_round {e : Edge} : e ∈ (round r edges).1 ↔ e ∈ edges ∨ e ∈ ways r edges :=
  mem_foldl_insertNew _ _

theorem snd_round : (round r edges).2 = true ↔ ∃ e ∈ ways r edges, e ∉ edges :=
  (snd_foldl_insertNew _ _).trans (or_iff_right Bool.false_ne_true)

/-! ### An end to the rounds -/

/-- The pairs of a beginning and an end of edges that have no edge of the relation yet. -/
def missing (r : Relation) (edges : List Edge) : Finset (World × World) :=
  (((pairs r edges).map Prod.fst).toFinset ×ˢ ((pairs r edges).map Prod.snd).toFinset).filter
    fun p => ⟨r, p.1, p.2⟩ ∉ edges

theorem mem_missing {p : World × World} : p ∈ missing r edges ↔
    ((∃ t, ⟨r, p.1, t⟩ ∈ edges) ∧ ∃ s, ⟨r, s, p.2⟩ ∈ edges) ∧ ⟨r, p.1, p.2⟩ ∉ edges := by
  simp [missing, mem_pairs]

/-- **A round that changes something leaves fewer pairs to be added.** -/
theorem missing_round_lt (h : (round r edges).2 = true) :
    (missing r (round r edges).1).card < (missing r edges).card := by
  refine Finset.card_lt_card (Finset.ssubset_iff_subset_ne.mpr ⟨?_, ?_⟩)
  · -- a way begins where an edge begins, and ends where one ends
    intro p hp
    obtain ⟨⟨⟨t, ht⟩, s, hs⟩, hnew⟩ := mem_missing.mp hp
    refine mem_missing.mpr ⟨⟨?_, ?_⟩, fun hold => hnew (mem_round.mpr (Or.inl hold))⟩
    · rcases mem_round.mp ht with ht | hway
      · exact ⟨t, ht⟩
      · obtain ⟨_, v, hv, _⟩ := mem_ways.mp hway
        exact ⟨v, hv⟩
    · rcases mem_round.mp hs with hs | hway
      · exact ⟨s, hs⟩
      · obtain ⟨_, v, _, hv⟩ := mem_ways.mp hway
        exact ⟨v, hv⟩
  · obtain ⟨⟨r', s, t⟩, hway, hnew⟩ := snd_round.mp h
    obtain ⟨rfl, v, hv, hv'⟩ := mem_ways.mp hway
    intro heq
    have hmissing : (s, t) ∈ missing r' edges := mem_missing.mpr ⟨⟨⟨v, hv⟩, v, hv'⟩, hnew⟩
    rw [← heq] at hmissing
    exact (mem_missing.mp hmissing).2 (mem_round.mpr (Or.inr hway))

/-- Rounds until one changes nothing. -/
def rounds (r : Relation) (edges : List Edge) : List Edge :=
  if _h : (round r edges).2 = true then rounds r (round r edges).1 else (round r edges).1
termination_by (missing r edges).card
decreasing_by exact missing_round_lt _h

/-- The edges with a new one, and with its reverse if the logic is symmetric. -/
def joined (logic : Logic) (r : Relation) (a b : World) (edges : List Edge) : List Edge :=
  if logic.isSymmetric then add ⟨r, b, a⟩ (add ⟨r, a, b⟩ edges) else add ⟨r, a, b⟩ edges

/-- Lets `a` see `b`, and then goes on in rounds if the logic is transitive. -/
def closeInRounds (logic : Logic) (r : Relation) (a b : World) (edges : List Edge) : List Edge :=
  if logic.isTransitive then rounds r (joined logic r a b edges) else joined logic r a b edges

/-! ### What the rounds lead to -/

theorem subset_rounds (r : Relation) (edges : List Edge) : edges ⊆ rounds r edges := by
  induction edges using rounds.induct r with
  | case1 edges h ih =>
    rw [rounds, dif_pos h]
    exact fun e he => ih (mem_round.mpr (Or.inl he))
  | case2 edges h =>
    rw [rounds, dif_neg h]
    exact fun e he => mem_round.mpr (Or.inl he)

/-- When the rounds are over, the relation is transitive. -/
theorem transitive_rounds (r : Relation) (edges : List Edge) {u v w : World}
    (huv : ⟨r, u, v⟩ ∈ rounds r edges) (hvw : ⟨r, v, w⟩ ∈ rounds r edges) :
    ⟨r, u, w⟩ ∈ rounds r edges := by
  induction edges using rounds.induct r with
  | case1 edges h ih =>
    rw [rounds, dif_pos h] at huv hvw ⊢
    exact ih huv hvw
  | case2 edges h =>
    -- the last round has added nothing, so every way was there when it began
    have hdone : ∀ e ∈ (round r edges).1, e ∈ edges := fun e he =>
      (mem_round.mp he).elim id fun hway => by
        by_contra hnew
        exact h (snd_round.mpr ⟨e, hway, hnew⟩)
    rw [rounds, dif_neg h] at huv hvw ⊢
    exact mem_round.mpr (Or.inr (mem_ways.mpr ⟨rfl, v, hdone _ huv, hdone _ hvw⟩))

/-- A round stays within what is transitive. -/
theorem round_le {S : Edge → Prop}
    (htrans : ∀ u v w, S ⟨r, u, v⟩ → S ⟨r, v, w⟩ → S ⟨r, u, w⟩) (hS : ∀ e ∈ edges, S e) :
    ∀ e ∈ (round r edges).1, S e := by
  rintro ⟨r', s, t⟩ he
  rcases mem_round.mp he with he | hway
  · exact hS _ he
  · obtain ⟨rfl, v, hsv, hvt⟩ := mem_ways.mp hway
    exact htrans s v t (hS _ hsv) (hS _ hvt)

/-- So do all rounds together. -/
theorem rounds_le {S : Edge → Prop}
    (htrans : ∀ u v w, S ⟨r, u, v⟩ → S ⟨r, v, w⟩ → S ⟨r, u, w⟩) (hS : ∀ e ∈ edges, S e) :
    ∀ e ∈ rounds r edges, S e := by
  induction edges using rounds.induct r with
  | case1 edges h ih =>
    rw [rounds, dif_pos h]
    exact ih (round_le htrans hS)
  | case2 edges h =>
    rw [rounds, dif_neg h]
    exact round_le htrans hS

/-- The rounds keep a relation symmetric. -/
theorem symmetric_rounds (hsymm : ∀ {r v w}, ⟨r, v, w⟩ ∈ edges → ⟨r, w, v⟩ ∈ edges)
    {r' : Relation} {v w : World} (hvw : ⟨r', v, w⟩ ∈ rounds r edges) :
    ⟨r', w, v⟩ ∈ rounds r edges := by
  refine rounds_le (S := fun e => ⟨e.relation, e.target, e.source⟩ ∈ rounds r edges) ?_ ?_ _ hvw
  · exact fun u v w huv hvw => transitive_rounds r edges hvw huv
  · exact fun e he => subset_rounds r edges (hsymm he)

/-- The rounds leave the other relation alone. -/
theorem mem_rounds_of_ne {e : Edge} (hne : e.relation ≠ r) :
    e ∈ rounds r edges ↔ e ∈ edges := by
  refine ⟨fun he => ?_, fun he => subset_rounds r edges he⟩
  exact rounds_le (S := fun e => e.relation ≠ r → e ∈ edges)
    (fun _ _ _ _ _ hne => absurd rfl hne) (fun _ he _ => he) e he hne

/-! ### Closing and linking -/

variable {logic : Logic} {a b : World}

theorem mem_joined {e : Edge} : e ∈ joined logic r a b edges ↔
    e ∈ edges ∨ e = ⟨r, a, b⟩ ∨ logic.isSymmetric = true ∧ e = ⟨r, b, a⟩ := by
  unfold joined
  split_ifs with h
  · simp only [mem_add, h, true_and]
    tauto
  · simp only [mem_add, h]
    tauto

theorem joined_subset_closeInRounds (logic : Logic) (r : Relation) (a b : World)
    (edges : List Edge) : joined logic r a b edges ⊆ closeInRounds logic r a b edges := by
  unfold closeInRounds
  split_ifs
  · exact subset_rounds _ _
  · exact List.Subset.refl _

/-- What is transitive, if the logic is, and has the edges to start with has all edges. -/
theorem closeInRounds_le {S : Edge → Prop}
    (htrans : logic.isTransitive = true → ∀ u v w, S ⟨r, u, v⟩ → S ⟨r, v, w⟩ → S ⟨r, u, w⟩)
    (hS : ∀ e ∈ joined logic r a b edges, S e) : ∀ e ∈ closeInRounds logic r a b edges, S e := by
  unfold closeInRounds
  split_ifs with ht
  · exact rounds_le (htrans ht) hS
  · exact hS

theorem symmetric_joined (h : Closed logic edges) (hs : logic.isSymmetric = true) {r' : Relation}
    {v w : World} (hvw : ⟨r', v, w⟩ ∈ joined logic r a b edges) :
    ⟨r', w, v⟩ ∈ joined logic r a b edges := by
  rw [mem_joined] at hvw ⊢
  rcases hvw with hvw | heq | ⟨_, heq⟩
  · exact Or.inl (h.symmetric hs hvw)
  · cases heq
    exact Or.inr (Or.inr ⟨hs, rfl⟩)
  · cases heq
    exact Or.inr (Or.inl rfl)

/-- The edges of the other relation are the old ones. -/
theorem mem_of_mem_joined {e : Edge} (hne : e.relation ≠ r) (he : e ∈ joined logic r a b edges) :
    e ∈ edges := by
  rcases mem_joined.mp he with he | rfl | ⟨_, rfl⟩
  · exact he
  · exact absurd rfl hne
  · exact absurd rfl hne

/-- **The rounds keep the edges closed** under what the logic asks for. -/
theorem closed_closeInRounds (r : Relation) (a b : World) (h : Closed logic edges) :
    Closed logic (closeInRounds logic r a b edges) where
  transitive ht := by
    intro r' u v w huv hvw
    rw [closeInRounds, if_pos ht] at huv hvw ⊢
    by_cases hr : r' = r
    · subst hr
      exact transitive_rounds _ _ huv hvw
    · rw [mem_rounds_of_ne hr] at huv hvw ⊢
      exact mem_joined.mpr
        (Or.inl (h.transitive ht (mem_of_mem_joined hr huv) (mem_of_mem_joined hr hvw)))
  symmetric hs := by
    intro r' v w hvw
    rw [closeInRounds, if_pos (Logic.isTransitive_of_isSymmetric hs)] at hvw ⊢
    exact symmetric_rounds (symmetric_joined h hs) hvw

theorem Closed.congr {edges' : List Edge} (h : Closed logic edges)
    (hsame : ∀ e, e ∈ edges' ↔ e ∈ edges) : Closed logic edges' where
  transitive ht := by
    intro r u v w huv hvw
    rw [hsame] at huv hvw ⊢
    exact h.transitive ht huv hvw
  symmetric hs := by
    intro r v w hvw
    rw [hsame] at hvw ⊢
    exact h.symmetric hs hvw

/-- **Linking adds what the rounds add**, if the edges were closed before, in whatever order they
are. -/
theorem mem_closeInRounds_iff {edges' : List Edge} (h : Closed logic edges)
    (hsame : ∀ e, e ∈ edges' ↔ e ∈ edges) {e : Edge} :
    e ∈ closeInRounds logic r a b edges' ↔ e ∈ link logic r a b edges := by
  constructor
  · intro he
    have hlink := closed_link r a b h
    refine closeInRounds_le (S := (· ∈ link logic r a b edges))
      (fun ht u v w huv hvw => hlink.transitive ht huv hvw) (fun e he => ?_) e he
    rcases mem_joined.mp he with he | rfl | ⟨hs, rfl⟩
    · exact subset_link r a b ((hsame e).mp he)
    · exact mem_link_self r a b
    · exact hlink.symmetric hs (mem_link_self r a b)
  · intro he
    have hrounds := closed_closeInRounds r a b (h.congr hsame)
    have hjoined := joined_subset_closeInRounds logic r a b edges'
    exact link_le (R := fun r' s t => ⟨r', s, t⟩ ∈ closeInRounds logic r a b edges')
      (fun ht _ _ _ _ huv hvw => hrounds.transitive ht huv hvw)
      (fun hs _ _ _ hvw => hrounds.symmetric hs hvw)
      (fun e he => hjoined (mem_joined.mpr (Or.inl ((hsame e).mpr he))))
      (hjoined (mem_joined.mpr (Or.inr (Or.inl rfl)))) e he

end Edge

/-- **A branch may as well close its edges in rounds.**  Let a list have the edges of the branch, in
whatever order.  Then worlds have the same successors by it, and after a new world, or after a link
that was closed in rounds, it has the edges of the branch again. -/
theorem Branch.WellFormed.closeInRounds_iff {Q : Formula → Prop} {b : Branch}
    (h : WellFormed Q b) {edges : List Edge} (hsame : ∀ e, e ∈ edges ↔ e ∈ b.edges) :
    (∀ r w, Edge.successors edges r w = b.successors r w) ∧
      (∀ e, e ∈ Edge.reflect b.logic b.worlds edges ↔ e ∈ b.withWorld.edges) ∧
      ∀ r v w e, e ∈ Edge.closeInRounds b.logic r v w edges ↔ e ∈ (b.linked r v w).edges := by
  refine ⟨fun r w => SortedSet.ofList_congr fun v => ?_, fun e => ?_, fun r v w e => ?_⟩
  · simp only [List.mem_filterMap, hsame]
  · rw [Branch.withWorld, Edge.mem_reflect, Edge.mem_reflect, hsame]
  · exact Edge.mem_closeInRounds_iff h.closed hsame

end Deontica
