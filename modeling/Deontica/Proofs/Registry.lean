import Deontica.Registry
import Mathlib.Data.List.Basic
import Mathlib.Data.List.Nodup
import Mathlib.Data.List.Perm.Basic

/-!
# Registered provers and candidates

A registry is what comes of registering provers one after the other (`Registry.ofProvers`).  In such
a registry no two seats have the same name or the same number (`Registry.Distinct`).

Whatever is recommended, the candidates are the registered provers, each of them once
(`ranked_perm`), and a strategy only puts them in another order (`ordered_perm`).
-/

namespace Deontica

namespace Registry

/-- The registry in which the provers were registered in this order. -/
def ofProvers (provers : List Prover) : Registry :=
  provers.foldl register {}

/-! ### Seats -/

theorem mem_place {seat s : Seat} {seats : List Seat} (h : s ∈ place seat seats) :
    s = seat ∨ s ∈ seats := by
  induction seats with
  | nil => exact Or.inl (List.mem_singleton.mp h)
  | cons t seats ih =>
    unfold place at h
    split_ifs at h
    · rcases List.mem_cons.mp h with rfl | h
      · exact Or.inl rfl
      · exact Or.inr (List.mem_cons_of_mem _ h)
    · rcases List.mem_cons.mp h with rfl | h
      · exact Or.inr List.mem_cons_self
      · exact (ih h).imp id (List.mem_cons_of_mem _)

/-- A seat gets the place of the one of its name, or the last. -/
theorem names_place (seat : Seat) (seats : List Seat) :
    (place seat seats).map (·.name) =
      if seat.name ∈ seats.map (·.name) then seats.map (·.name)
      else seats.map (·.name) ++ [seat.name] := by
  induction seats with
  | nil => rfl
  | cons s seats ih =>
    unfold place
    by_cases hname : s.name = seat.name
    · simp [hname]
    · have hmem : seat.name ∈ (s :: seats).map (·.name) ↔ seat.name ∈ seats.map (·.name) := by
        rw [List.map_cons, List.mem_cons]
        exact or_iff_right (Ne.symm hname)
      rw [if_neg hname, List.map_cons, ih, apply_ite (List.cons s.name)]
      exact if_congr hmem.symm rfl rfl

theorem place_ne_nil (seat : Seat) (seats : List Seat) : place seat seats ≠ [] := by
  cases seats with
  | nil => exact List.cons_ne_nil _ _
  | cons s seats =>
    unfold place
    split_ifs
    · exact List.cons_ne_nil _ _
    · exact List.cons_ne_nil _ _

/-- Seats are told apart by their names, and by their numbers. -/
structure Distinct (r : Registry) : Prop where
  names : r.names.Nodup
  ids : (r.seats.map (·.id)).Nodup
  /-- Numbers are given one after the other. -/
  next : ∀ s ∈ r.seats, s.id < r.next

theorem nodup_ids_place {seat : Seat} {seats : List Seat} (h : (seats.map (·.id)).Nodup)
    (hnew : ∀ s ∈ seats, s.id < seat.id) : ((place seat seats).map (·.id)).Nodup := by
  induction seats with
  | nil => exact List.nodup_singleton _
  | cons s seats ih =>
    rw [List.map_cons, List.nodup_cons] at h
    rw [List.forall_mem_cons] at hnew
    unfold place
    split_ifs
    · rw [List.map_cons, List.nodup_cons]
      refine ⟨fun hmem => ?_, h.2⟩
      obtain ⟨t, ht, heq⟩ := List.mem_map.mp hmem
      exact Nat.ne_of_lt (hnew.2 t ht) heq
    · rw [List.map_cons, List.nodup_cons]
      refine ⟨fun hmem => ?_, ih h.2 hnew.2⟩
      obtain ⟨t, ht, heq⟩ := List.mem_map.mp hmem
      rcases mem_place ht with rfl | ht
      · exact Nat.ne_of_gt hnew.1 heq
      · exact h.1 (List.mem_map.mpr ⟨t, ht, heq⟩)

namespace Distinct

variable {r : Registry}

theorem eq_of_name_eq (h : r.Distinct) {s t : Seat} (hs : s ∈ r.seats) (ht : t ∈ r.seats)
    (heq : s.name = t.name) : s = t :=
  List.inj_on_of_nodup_map h.names hs ht heq

theorem eq_of_id_eq (h : r.Distinct) {s t : Seat} (hs : s ∈ r.seats) (ht : t ∈ r.seats)
    (heq : s.id = t.id) : s = t :=
  List.inj_on_of_nodup_map h.ids hs ht heq

/-- Names and numbers tell seats apart alike. -/
theorem id_eq_iff (h : r.Distinct) {s t : Seat} (hs : s ∈ r.seats) (ht : t ∈ r.seats) :
    s.id = t.id ↔ s.name = t.name := by
  constructor
  · intro heq
    rw [h.eq_of_id_eq hs ht heq]
  · intro heq
    rw [h.eq_of_name_eq hs ht heq]

theorem nodup (h : r.Distinct) : r.seats.Nodup :=
  h.names.of_map _

theorem register (h : r.Distinct) (p : Prover) : (r.register p).Distinct where
  names := by
    show ((place ⟨r.next, p⟩ r.seats).map (·.name)).Nodup
    have hnames : (r.seats.map (·.name)).Nodup := h.names
    rw [names_place]
    split_ifs with hmem
    · exact hnames
    · exact List.concat_eq_append ▸ hnames.concat hmem
  ids := nodup_ids_place h.ids h.next
  next s hs := by
    rcases mem_place hs with rfl | hs
    · exact Nat.lt_succ_self _
    · exact Nat.lt_succ_of_lt (h.next s hs)

end Distinct

theorem distinct_foldl_register (provers : List Prover) {r : Registry} (h : r.Distinct) :
    (provers.foldl register r).Distinct := by
  induction provers generalizing r with
  | nil => exact h
  | cons p provers ih => exact ih (h.register p)

/-- **Registering provers keeps seats apart.** -/
theorem distinct_ofProvers (provers : List Prover) : (ofProvers provers).Distinct :=
  distinct_foldl_register provers ⟨.nil, .nil, fun _ h => absurd h List.not_mem_nil⟩

/-- Only without a prover there is no seat. -/
theorem seats_ofProvers_ne_nil {provers : List Prover} (h : provers ≠ []) :
    (ofProvers provers).seats ≠ [] := by
  obtain ⟨before, p, rfl⟩ := (List.eq_nil_or_concat provers).resolve_left h
  rw [ofProvers, List.concat_eq_append, List.foldl_append]
  exact place_ne_nil _ _

/-! ### Candidates -/

theorem mem_of_find? {r : Registry} {name : String} {seat : Seat} (h : r.find? name = some seat) :
    seat ∈ r.seats :=
  List.mem_of_find?_eq_some h

theorem mem_foldl_addCandidate {seat : Seat} (candidates seats : List Seat)
    (h : seat ∈ candidates.foldl addCandidate seats) : seat ∈ seats ∨ seat ∈ candidates := by
  induction candidates generalizing seats with
  | nil => exact Or.inl h
  | cons c candidates ih =>
    rcases ih _ h with h | h
    · unfold addCandidate at h
      split_ifs at h
      · exact Or.inl h
      · rcases List.mem_append.mp h with h | h
        · exact Or.inl h
        · rw [List.mem_singleton.mp h]
          exact Or.inr List.mem_cons_self
    · exact Or.inr (List.mem_cons_of_mem _ h)

/-- Candidates are registered. -/
theorem mem_of_mem_ranked {r : Registry} {recommended : List String} {seat : Seat}
    (h : seat ∈ r.ranked recommended) : seat ∈ r.seats := by
  rcases mem_foldl_addCandidate _ _ h with h | h
  · cases h
  · rcases List.mem_append.mp h with h | h
    · obtain ⟨name, _, hfind⟩ := List.mem_filterMap.mp h
      exact mem_of_find? hfind
    · exact h

theorem mem_of_mem_ordered {r : Registry} {strategy : Strategy} {recommended : List String}
    {seat : Seat} (h : seat ∈ r.ordered strategy recommended) : seat ∈ r.seats := by
  cases strategy with
  | fastest | mostCapable => exact mem_of_mem_ranked (List.mem_mergeSort.mp h)
  | auto | sequential | parallel => exact mem_of_mem_ranked h

theorem addCandidate_eq (seats : List Seat) (seat : Seat) :
    addCandidate seats seat =
      if seat.name ∈ seats.map (·.name) then seats else seats ++ [seat] := by
  have hany : seats.any (·.name == seat.name) = true ↔ seat.name ∈ seats.map (·.name) := by
    simp [List.any_eq_true, List.mem_map]
  exact if_congr hany rfl rfl

/-- A name is added where it is missing. -/
theorem names_addCandidate (seats : List Seat) (seat : Seat) :
    (addCandidate seats seat).map (·.name) =
      if seat.name ∈ seats.map (·.name) then seats.map (·.name)
      else seats.map (·.name) ++ [seat.name] := by
  rw [addCandidate_eq, apply_ite (List.map Seat.name), List.map_append]
  rfl

theorem nodup_names_foldl_addCandidate (candidates seats : List Seat)
    (h : (seats.map (·.name)).Nodup) :
    ((candidates.foldl addCandidate seats).map (·.name)).Nodup := by
  induction candidates generalizing seats with
  | nil => exact h
  | cons c candidates ih =>
    refine ih _ ?_
    rw [names_addCandidate]
    split_ifs with hmem
    · exact h
    · exact List.concat_eq_append ▸ h.concat hmem

theorem name_mem_foldl_addCandidate {name : String} (candidates seats : List Seat)
    (h : name ∈ seats.map (·.name) ∨ name ∈ candidates.map (·.name)) :
    name ∈ (candidates.foldl addCandidate seats).map (·.name) := by
  induction candidates generalizing seats with
  | nil => exact h.resolve_right List.not_mem_nil
  | cons c candidates ih =>
    refine ih _ ?_
    rw [names_addCandidate]
    rw [List.map_cons, List.mem_cons] at h
    split_ifs with hmem
    · rcases h with h | rfl | h
      · exact Or.inl h
      · exact Or.inl hmem
      · exact Or.inr h
    · rcases h with h | rfl | h
      · exact Or.inl (List.mem_append_left _ h)
      · exact Or.inl (List.mem_append_right _ (List.mem_singleton.mpr rfl))
      · exact Or.inr h

/-- **The candidates are the registered provers**, each of them once. -/
theorem ranked_perm {r : Registry} (h : r.Distinct) (recommended : List String) :
    (r.ranked recommended).Perm r.seats := by
  have hnodup : ((r.ranked recommended).map (·.name)).Nodup :=
    nodup_names_foldl_addCandidate _ [] .nil
  refine (List.perm_ext_iff_of_nodup (hnodup.of_map _) h.nodup).mpr fun seat =>
    ⟨mem_of_mem_ranked, fun hseat => ?_⟩
  have hname : seat.name ∈ (r.ranked recommended).map (·.name) := by
    refine name_mem_foldl_addCandidate _ _ (Or.inr ?_)
    rw [List.map_append]
    exact List.mem_append_right _ (List.mem_map_of_mem hseat)
  -- the candidate of this name is registered, so it is this seat
  obtain ⟨s, hs, heq⟩ := List.mem_map.mp hname
  rw [← h.eq_of_name_eq (mem_of_mem_ranked hs) hseat heq]
  exact hs

/-- **A strategy takes every registered prover once.** -/
theorem ordered_perm {r : Registry} (h : r.Distinct) (strategy : Strategy)
    (recommended : List String) : (r.ordered strategy recommended).Perm r.seats := by
  have hranked := ranked_perm h recommended
  cases strategy with
  | fastest | mostCapable => exact (List.mergeSort_perm _ _).trans hranked
  | auto | sequential | parallel => exact hranked

end Registry

end Deontica
