import Deontica.Proofs.Registry
import Mathlib.Data.List.Induction

/-!
# The order of candidates

What a registry holds follows from the history of registrations: the names in the order in which
they first came up (`names_ofProvers`), each with the prover that was registered last under it
(`find?_ofProvers`).

The ranking puts the recommended provers first, each where it is recommended first, and then the
others (`ranked_eq`).  A strategy that sorts the candidates by what they can do breaks ties by their
places, so there is only one sorted list of all seats (`SortedBy.eq_of_perm`), and it does not
matter which order was sorted.
-/

namespace Deontica

theorem eraseDups_concat {α : Type} [DecidableEq α] (l : List α) (a : α) :
    (l ++ [a]).eraseDups = if a ∈ l then l.eraseDups else l.eraseDups ++ [a] := by
  rw [List.eraseDups_append]
  by_cases h : a ∈ l <;> simp [List.removeAll, List.eraseDups_cons, h]

theorem Capabilities.featureCount_le (c : Capabilities) : c.featureCount ≤ 5 :=
  List.count_le_length

namespace Registry

/-! ### Histories of registrations -/

theorem ofProvers_concat (provers : List Prover) (p : Prover) :
    ofProvers (provers ++ [p]) = (ofProvers provers).register p :=
  List.foldl_append

theorem names_register (r : Registry) (p : Prover) :
    (r.register p).names = if p.name ∈ r.names then r.names else r.names ++ [p.name] :=
  names_place ⟨r.next, p⟩ r.seats

/-- A seat is found under its name, and nothing changes for other names. -/
theorem find?_place (seat : Seat) (seats : List Seat) (name : String) :
    (place seat seats).find? (·.name == name) =
      if seat.name = name then some seat else seats.find? (·.name == name) := by
  induction seats with
  | nil => by_cases hname : seat.name = name <;> simp [place, hname]
  | cons s seats ih =>
    unfold place
    by_cases hsame : s.name = seat.name
    · -- the seat that makes room had the same name
      by_cases hname : seat.name = name <;> simp [hsame, hname]
    · by_cases hname : s.name = name
      · have hne : seat.name ≠ name := fun h => hsame (hname.trans h.symm)
        rw [if_neg hsame, if_neg hne, List.find?_cons, List.find?_cons, beq_iff_eq.mpr hname]
      · simp [hsame, hname, ih]

theorem find?_register (r : Registry) (p : Prover) (name : String) :
    (r.register p).find? name = if p.name = name then some ⟨r.next, p⟩ else r.find? name :=
  find?_place ⟨r.next, p⟩ r.seats name

theorem position?_eq (r : Registry) (name : String) :
    r.position? name = r.names.findIdx? (· == name) := by
  rw [names, List.findIdx?_map]
  rfl

theorem isSome_position? {r : Registry} {name : String} (h : name ∈ r.names) :
    (r.position? name).isSome = true := by
  rw [position?_eq, List.findIdx?_isSome]
  exact List.any_eq_true.mpr ⟨name, h, beq_self_eq_true _⟩

/-- **Registering moves nobody**: a name keeps its place, and a new one gets the last. -/
theorem position?_register (r : Registry) (p : Prover) (name : String) :
    (r.register p).position? name =
      (r.position? name).or (if p.name = name then some r.size else none) := by
  rw [position?_eq (r.register p), names_register]
  split_ifs with hmem hname hname
  · rw [Option.or_of_isSome (isSome_position? (hname ▸ hmem)), position?_eq]
  · rw [Option.or_none, position?_eq]
  · have hlength : r.names.length = r.size := List.length_map _
    simp [position?_eq, List.findIdx?_append, hname, hlength]
  · simp [position?_eq, List.findIdx?_append, hname]

/-- **Names are registered in the order in which they first came up.** -/
theorem names_ofProvers (provers : List Prover) :
    (ofProvers provers).names = (provers.map (·.name)).eraseDups := by
  induction provers using List.reverseRecOn with
  | nil => rfl
  | append_singleton provers p ih =>
    rw [ofProvers_concat, names_register, ih, List.map_append, List.map_singleton,
      eraseDups_concat]
    exact if_congr List.mem_eraseDups rfl rfl

/-- **The prover of a name is the one that was registered last under it.** -/
theorem find?_ofProvers (provers : List Prover) (name : String) :
    ((ofProvers provers).find? name).map (·.prover) =
      provers.reverse.find? (·.name == name) := by
  induction provers using List.reverseRecOn with
  | nil => rfl
  | append_singleton provers p ih =>
    rw [ofProvers_concat, find?_register, List.reverse_concat, List.find?_cons]
    by_cases hname : p.name = name
    · rw [if_pos hname, beq_iff_eq.mpr hname]
      rfl
    · rw [if_neg hname, beq_false_of_ne hname, ih]

/-! ### The ranking -/

theorem name_of_find? {r : Registry} {name : String} {seat : Seat} (h : r.find? name = some seat) :
    seat.name = name := by
  simpa using List.find?_some h

theorem exists_find?_name {r : Registry} {seat : Seat} (h : seat ∈ r.seats) :
    ∃ s, r.find? seat.name = some s :=
  Option.isSome_iff_exists.mp (List.find?_isSome.mpr ⟨seat, h, beq_self_eq_true _⟩)

/-- A registered name is among those of the recommended seats if it is recommended. -/
theorem name_mem_filterMap_find? {r : Registry} {name : String} {seat : Seat}
    (h : r.find? name = some seat) (recommended : List String) :
    name ∈ (recommended.eraseDups.filterMap r.find?).map (·.name) ↔ name ∈ recommended := by
  rw [List.mem_map]
  constructor
  · rintro ⟨s, hs, rfl⟩
    obtain ⟨name', hmem, hfind⟩ := List.mem_filterMap.mp hs
    rw [name_of_find? hfind]
    exact List.mem_eraseDups.mp hmem
  · intro hmem
    exact ⟨seat, List.mem_filterMap.mpr ⟨name, List.mem_eraseDups.mpr hmem, h⟩, name_of_find? h⟩

/-- What is recommended again is not added again. -/
theorem foldl_addCandidate_recommended (r : Registry) (recommended : List String) :
    (recommended.filterMap r.find?).foldl addCandidate [] =
      recommended.eraseDups.filterMap r.find? := by
  induction recommended using List.reverseRecOn with
  | nil => rfl
  | append_singleton recommended name ih =>
    rw [List.filterMap_append, List.foldl_append, ih, eraseDups_concat]
    cases hfind : r.find? name with
    | none => split_ifs <;> simp [hfind]
    | some seat =>
      have hmem := name_mem_filterMap_find? hfind recommended
      have hadd : [name].filterMap r.find? = [seat] := by simp [hfind]
      rw [hadd, List.foldl_cons, List.foldl_nil, addCandidate_eq, name_of_find? hfind]
      by_cases hname : name ∈ recommended
      · rw [if_pos (hmem.mpr hname), if_pos hname]
      · rw [if_neg fun h => hname (hmem.mp h), if_neg hname, List.filterMap_append, hadd]

/-- Seats with different names are added where their names are missing. -/
theorem foldl_addCandidate_of_nodup {seats : List Seat} (h : (seats.map (·.name)).Nodup)
    (candidates : List Seat) :
    seats.foldl addCandidate candidates =
      candidates ++ seats.filter (·.name ∉ candidates.map (·.name)) := by
  induction seats generalizing candidates with
  | nil => rw [List.foldl_nil, List.filter_nil, List.append_nil]
  | cons s seats ih =>
    rw [List.map_cons, List.nodup_cons] at h
    rw [List.foldl_cons, ih h.2, addCandidate_eq]
    by_cases hname : s.name ∈ candidates.map (·.name)
    · rw [if_pos hname, List.filter_cons_of_neg (by simpa using hname)]
    · rw [if_neg hname, List.filter_cons_of_pos (by simpa using hname), List.append_assoc,
        List.singleton_append]
      -- the seats that follow have other names
      have hrest : ∀ t ∈ seats, t.name ≠ s.name := fun t ht heq =>
        h.1 (List.mem_map.mpr ⟨t, ht, heq⟩)
      congr 2
      refine List.filter_congr fun t ht => ?_
      simp [List.mem_append, hrest t ht]

/-- **The recommended provers come first, each where it is recommended first, and then the others**
in the order of registration. -/
theorem ranked_eq {r : Registry} (h : r.Distinct) (recommended : List String) :
    r.ranked recommended =
      recommended.eraseDups.filterMap r.find? ++ r.seats.filter (·.name ∉ recommended) := by
  rw [ranked, List.foldl_append, foldl_addCandidate_recommended,
    foldl_addCandidate_of_nodup h.names]
  congr 1
  refine List.filter_congr fun seat hseat => ?_
  obtain ⟨s, hs⟩ := exists_find?_name hseat
  rw [decide_eq_decide, name_mem_filterMap_find? hs]

/-! ### Sorted seats -/

/-- The place of a seat, counted from 0. -/
def placeOf (r : Registry) (s : Seat) : Nat :=
  (r.position? s.name).getD r.size

/-- Whether seats are sorted by a key, with one number ahead of another, and by their places where
keys agree. -/
def SortedBy (r : Registry) (key : Seat → Nat) (ahead : Nat → Nat → Prop) (seats : List Seat) :
    Prop :=
  seats.Pairwise fun s t => ahead (key s) (key t) ∨ key s = key t ∧ r.placeOf s < r.placeOf t

theorem position?_name {r : Registry} {s : Seat} (h : s ∈ r.seats) :
    r.position? s.name = some (r.placeOf s) := by
  obtain ⟨i, hi⟩ := Option.isSome_iff_exists.mp (isSome_position? (List.mem_map_of_mem h))
  rw [placeOf, hi, Option.getD_some]

/-- No two seats have one place. -/
theorem Distinct.eq_of_placeOf_eq {r : Registry} (h : r.Distinct) {s t : Seat} (hs : s ∈ r.seats)
    (ht : t ∈ r.seats) (heq : r.placeOf s = r.placeOf t) : s = t := by
  have hs' := position?_name hs
  rw [heq] at hs'
  obtain ⟨hlt, hname, -⟩ := List.findIdx?_eq_some_iff_getElem.mp hs'
  obtain ⟨hlt', hname', -⟩ := List.findIdx?_eq_some_iff_getElem.mp (position?_name ht)
  exact h.eq_of_name_eq hs ht ((eq_of_beq hname).symm.trans (eq_of_beq hname'))

/-- **There is one sorted order only.** -/
theorem SortedBy.eq_of_perm {r : Registry} {key : Seat → Nat} {ahead : Nat → Nat → Prop}
    (hahead : ∀ m n, ahead m n → ¬ ahead n m) {seats seats' : List Seat}
    (h : r.SortedBy key ahead seats) (h' : r.SortedBy key ahead seats')
    (hperm : seats.Perm seats') : seats = seats' := by
  refine hperm.eq_of_pairwise (fun s t _ _ hst hts => ?_) h h'
  rcases hst with hst | ⟨hkey, hst⟩
  · rcases hts with hts | ⟨hkey, -⟩
    · exact absurd hts (hahead _ _ hst)
    · rw [hkey] at hst
      exact absurd hst (hahead _ _ hst)
  · rcases hts with hts | ⟨-, hts⟩
    · rw [hkey] at hts
      exact absurd hts (hahead _ _ hts)
    · exact absurd hts (Nat.lt_asymm hst)

/-- Sorting sorts. -/
theorem sortedBy_sorted {r : Registry} (h : r.Distinct) (key : Seat → Nat) {seats : List Seat}
    (hperm : seats.Perm r.seats) : r.SortedBy key (· < ·) (sortedBy key r seats) := by
  have hsort : (sortedBy key r seats).Perm seats := List.mergeSort_perm _ _
  have hmem : ∀ s ∈ sortedBy key r seats, s ∈ r.seats := fun s hs =>
    hperm.mem_iff.mp (hsort.mem_iff.mp hs)
  have hnodup : (sortedBy key r seats).Nodup := (hsort.trans hperm).nodup_iff.mpr h.nodup
  have hle : (sortedBy key r seats).Pairwise fun s t =>
      key s < key t ∨ key s = key t ∧ r.placeOf s ≤ r.placeOf t := by
    unfold sortedBy
    refine (List.pairwise_mergeSort ?_ ?_ seats).imp fun hst => ?_
    · intro a b c hab hbc
      simp only [Bool.or_eq_true, Bool.and_eq_true, decide_eq_true_eq, beq_iff_eq] at hab hbc ⊢
      omega
    · intro a b
      simp only [Bool.or_eq_true, Bool.and_eq_true, decide_eq_true_eq, beq_iff_eq]
      omega
    · simpa [placeOf] using hst
  refine (hle.and hnodup).imp_of_mem fun {s t} hs ht hst => ?_
  obtain ⟨hst, hne⟩ := hst
  rcases hst with hst | ⟨hkey, hplace⟩
  · exact Or.inl hst
  · refine Or.inr ⟨hkey, Nat.lt_of_le_of_ne hplace fun heq => hne ?_⟩
    exact h.eq_of_placeOf_eq (hmem s hs) (hmem t ht) heq

/-- A list is the sorted one if it has all seats and is sorted. -/
theorem eq_sortedBy_iff {r : Registry} (h : r.Distinct) (key : Seat → Nat) {seats : List Seat}
    (hperm : seats.Perm r.seats) (l : List Seat) :
    l = sortedBy key r seats ↔ l.Perm r.seats ∧ r.SortedBy key (· < ·) l := by
  have hsort : (sortedBy key r seats).Perm seats := List.mergeSort_perm _ _
  constructor
  · rintro rfl
    exact ⟨hsort.trans hperm, sortedBy_sorted h key hperm⟩
  · rintro ⟨hl, hsorted⟩
    exact hsorted.eq_of_perm (fun m n => Nat.lt_asymm) (sortedBy_sorted h key hperm)
      (hl.trans (hsort.trans hperm).symm)

/-- The most features first is the fewest missing first. -/
theorem sortedBy_featureCount_iff (r : Registry) (seats : List Seat) :
    r.SortedBy (5 - ·.prover.capabilities.featureCount) (· < ·) seats ↔
      r.SortedBy (·.prover.capabilities.featureCount) (· > ·) seats := by
  refine List.Pairwise.iff fun {s t} => ?_
  have hs := s.prover.capabilities.featureCount_le
  have ht := t.prover.capabilities.featureCount_le
  dsimp only
  omega

/-- **The order of candidates.**  Whatever provers are registered and whatever is recommended: names
are registered once, in the order in which they first came up, each with the prover registered last
under it; registering again under a name puts the new prover in the place of the old one.  The
ranking has every seat once, the recommended ones first.  The other orders are the only ones that
are sorted, by latency or by the number of features, and by place where these agree; so they do not
depend on what is recommended.  The candidates are the available provers as they are ranked. -/
theorem candidate_order (provers : List Prover) (recommended : List String) :
    let r := ofProvers provers
    (r.names.Nodup ∧ r.names = (provers.map (·.name)).eraseDups ∧
        ∀ name, (r.find? name).map (·.prover) = provers.reverse.find? (·.name == name)) ∧
      (∀ (p : Prover) (name : String),
        (r.register p).position? name =
            (r.position? name).or (if p.name = name then some r.size else none) ∧
          (r.register p).find? name =
            if p.name = name then some ⟨r.next, p⟩ else r.find? name) ∧
      ((r.ranked recommended).Perm r.seats ∧
        r.ranked recommended =
          recommended.eraseDups.filterMap r.find? ++ r.seats.filter (·.name ∉ recommended)) ∧
      (∀ seats, seats = r.ordered .fastest recommended ↔
        seats.Perm r.seats ∧ r.SortedBy (·.prover.capabilities.latency) (· < ·) seats) ∧
      (∀ seats, seats = r.ordered .mostCapable recommended ↔
        seats.Perm r.seats ∧ r.SortedBy (·.prover.capabilities.featureCount) (· > ·) seats) ∧
      (r.candidates recommended).Sublist (r.ranked recommended) ∧
        ∀ seat, seat ∈ r.candidates recommended ↔
          seat ∈ r.seats ∧ seat.prover.available = true := by
  intro r
  have h : r.Distinct := distinct_ofProvers provers
  have hranked := ranked_perm h recommended
  refine ⟨⟨h.names, names_ofProvers provers, find?_ofProvers provers⟩, fun p name =>
    ⟨position?_register r p name, find?_register r p name⟩, ⟨hranked, ranked_eq h recommended⟩,
    eq_sortedBy_iff h _ hranked, fun seats => ?_, List.filter_sublist, fun seat => ?_⟩
  · rw [← sortedBy_featureCount_iff]
    exact eq_sortedBy_iff h _ hranked seats
  · rw [candidates, List.mem_filter, hranked.mem_iff]

end Registry

end Deontica
