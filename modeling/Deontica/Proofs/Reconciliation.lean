import Deontica.Reconciliation
import Mathlib.Data.List.Perm.Basic

/-!
# The order of results does not matter

The first decisive result sets the verdict with which the others agree or disagree.  With the
results in another order it may be the opposite verdict, which exchanges the two sides.  Nothing
else changes, for what comes of comparing results depends only on how many of them have either
verdict (`ofResults_eq`).
-/

namespace Deontica

namespace Status

/-- The other verdict. -/
def opposite : Status → Status
  | .proved => .disproved
  | .disproved => .proved
  | s => s

theorem isDecisive_iff {s : Status} : s.isDecisive = true ↔ s = .proved ∨ s = .disproved := by
  cases s <;> decide

/-- Having a verdict is having it and being decisive. -/
theorem beq_and_isDecisive {v : Status} (hv : v.isDecisive = true) (s : Status) :
    (s == v && s.isDecisive) = (s == v) := by
  rcases isDecisive_iff.mp hv with rfl | rfl <;> cases s <;> rfl

/-- A decisive status that is not a verdict is the opposite one. -/
theorem bne_and_isDecisive {v : Status} (hv : v.isDecisive = true) (s : Status) :
    (s != v && s.isDecisive) = (s == v.opposite) := by
  rcases isDecisive_iff.mp hv with rfl | rfl <;> cases s <;> rfl

end Status

namespace Reconciliation

/-! ### Who has which verdict -/

/-- How many results have the status. -/
def tally (status : Status) (results : List Result) : Nat :=
  results.countP (·.status == status)

/-- The provers whose results have the status, in the order of the results. -/
def named (status : Status) (results : List Result) : List String :=
  (results.filter (·.status == status)).map (·.prover)

/-- The provers whose results are decisive, in the order of the results. -/
def deciders (results : List Result) : List String :=
  (results.filter (·.status.isDecisive)).map (·.prover)

variable {results results' : List Result} {v : Status}

theorem length_named (v : Status) (results : List Result) :
    (named v results).length = tally v results := by
  rw [named, List.length_map, tally, List.countP_eq_length_filter]

theorem tally_pos_iff : 0 < tally v results ↔ ∃ r ∈ results, r.status = v := by
  simp [tally, List.countP_pos_iff]

theorem tally_perm (h : results.Perm results') (v : Status) : tally v results = tally v results' :=
  h.countP_eq _

theorem named_perm (h : results.Perm results') (v : Status) :
    (named v results).Perm (named v results') :=
  (h.filter _).map _

/-- Those who have a verdict are a part of the decisive results, and the others have the opposite
one. -/
theorem filter_decisive (hv : v.isDecisive = true) (results : List Result) :
    (results.filter (·.status.isDecisive)).filter (·.status == v) =
        results.filter (·.status == v) ∧
      (results.filter (·.status.isDecisive)).filter (·.status != v) =
        results.filter (·.status == v.opposite) := by
  rw [List.filter_filter, List.filter_filter]
  exact ⟨List.filter_congr fun r _ => Status.beq_and_isDecisive hv r.status,
    List.filter_congr fun r _ => Status.bne_and_isDecisive hv r.status⟩

/-- **The two sides together are the provers with a verdict.** -/
theorem named_append_perm (hv : v.isDecisive = true) (results : List Result) :
    (named v results ++ named v.opposite results).Perm (deciders results) := by
  obtain ⟨hsame, hother⟩ := filter_decisive hv results
  rw [named, named, ← List.map_append, ← hsame, ← hother]
  exact (List.filter_append_perm _ _).map _

/-- Every decisive result counts for one of the two verdicts. -/
theorem length_deciders (results : List Result) :
    (deciders results).length = tally .proved results + tally .disproved results := by
  have hperm := named_append_perm (v := .proved) rfl results
  rw [← hperm.length_eq, List.length_append, length_named, length_named]
  rfl

/-! ### What comes of comparing results -/

/-- How far verdicts agree if so many are in favour and so many against. -/
def assess (proved disproved : Nat) : Agreement :=
  if 0 < proved ∧ 0 < disproved then .conflicting
  else if proved + disproved = 0 then .undecided
  else if proved + disproved = 1 then .singleProver
  else .crossChecked

/-- The verdict if so many are in favour and so many against. -/
def common (proved disproved : Nat) : Option Status :=
  if 0 < proved ∧ disproved = 0 then some .proved
  else if proved = 0 ∧ 0 < disproved then some .disproved
  else none

theorem assess_comm (m n : Nat) : assess m n = assess n m := by
  unfold assess
  rw [Nat.add_comm]
  exact if_congr and_comm rfl rfl

/-- If somebody has a verdict, the others either oppose it or bear it out. -/
theorem assess_of_pos {m : Nat} (h : 0 < m) (n : Nat) :
    assess m n =
      if 0 < n then .conflicting else if 2 ≤ m then .crossChecked else .singleProver := by
  unfold assess
  grind

/-- If somebody has a verdict, it is the common one unless somebody has the opposite. -/
theorem conclusion_of_tally_pos (hv : v.isDecisive = true) (h : 0 < tally v results) :
    common (tally .proved results) (tally .disproved results) =
        (if 0 < tally v.opposite results then none else some v) ∧
      assess (tally .proved results) (tally .disproved results) =
        if 0 < tally v.opposite results then .conflicting
        else if 2 ≤ tally v results then .crossChecked else .singleProver := by
  rcases Status.isDecisive_iff.mp hv with rfl | rfl
  · refine ⟨?_, assess_of_pos h _⟩
    unfold common Status.opposite
    grind
  · refine ⟨?_, (assess_comm _ _).trans (assess_of_pos h _)⟩
    unfold common Status.opposite
    grind

/-- The first decisive result sets the sides. -/
theorem ofResults_of_first {first : Result}
    (h : (results.filter (·.status.isDecisive)).head? = some first) :
    ofResults results =
      ⟨if 0 < tally first.status.opposite results then none else some first.status,
        if 0 < tally first.status.opposite results then .conflicting
        else if 2 ≤ tally first.status results then .crossChecked else .singleProver,
        named first.status results, named first.status.opposite results, results⟩ := by
  have hdecisive := (List.mem_filter.mp (List.mem_of_head? h)).2
  obtain ⟨hsame, hother⟩ := filter_decisive hdecisive results
  have hempty : (named first.status.opposite results).isEmpty =
      !decide (0 < tally first.status.opposite results) := by
    rw [← length_named]
    cases named first.status.opposite results <;> rfl
  unfold ofResults
  simp only [h, hsame, hother]
  rw [← named, ← named, hempty, length_named, Bool.not_not]
  simp only [decide_eq_true_eq]
  split_ifs <;> rfl

/-- **Comparing results is counting verdicts**, but for who is on which side. -/
theorem ofResults_eq (results : List Result) :
    ∃ v, v.isDecisive = true ∧ ofResults results =
      ⟨common (tally .proved results) (tally .disproved results),
        assess (tally .proved results) (tally .disproved results), named v results,
        named v.opposite results, results⟩ := by
  cases hfirst : (results.filter (·.status.isDecisive)).head? with
  | none =>
    -- nobody is on either side
    have hnone : (deciders results).length = 0 := by
      rw [deciders, List.head?_eq_none_iff.mp hfirst]
      rfl
    rw [length_deciders] at hnone
    obtain ⟨hproved, hdisproved⟩ := Nat.add_eq_zero_iff.mp hnone
    have hside : ∀ v, tally v results = 0 → named v results = [] := fun v h =>
      List.eq_nil_of_length_eq_zero ((length_named v results).trans h)
    refine ⟨.proved, rfl, ?_⟩
    rw [hproved, hdisproved, hside .proved hproved, Status.opposite, hside .disproved hdisproved,
      ofResults, hfirst]
    rfl
  | some first =>
    have hmem := List.mem_filter.mp (List.mem_of_head? hfirst)
    have hpos : 0 < tally first.status results := tally_pos_iff.mpr ⟨first, hmem.1, rfl⟩
    obtain ⟨hcommon, hassess⟩ := conclusion_of_tally_pos hmem.2 hpos
    refine ⟨first.status, hmem.2, ?_⟩
    rw [ofResults_of_first hfirst, hcommon, hassess]

/-! ### In other words -/

/-- All decisive results have the verdict if nobody has another. -/
theorem forall_decisive_iff :
    (∀ s ∈ results, s.status.isDecisive = true → s.status = v) ↔
      (0 < tally .proved results → v = .proved) ∧
        (0 < tally .disproved results → v = .disproved) := by
  constructor
  · intro h
    refine ⟨fun hpos => ?_, fun hpos => ?_⟩
    · obtain ⟨s, hs, hstatus⟩ := tally_pos_iff.mp hpos
      rw [← h s hs (Status.isDecisive_iff.mpr (Or.inl hstatus)), hstatus]
    · obtain ⟨s, hs, hstatus⟩ := tally_pos_iff.mp hpos
      rw [← h s hs (Status.isDecisive_iff.mpr (Or.inr hstatus)), hstatus]
  · rintro ⟨hproved, hdisproved⟩ s hs hdecisive
    rcases Status.isDecisive_iff.mp hdecisive with hstatus | hstatus
    · rw [hstatus, hproved (tally_pos_iff.mpr ⟨s, hs, hstatus⟩)]
    · rw [hstatus, hdisproved (tally_pos_iff.mpr ⟨s, hs, hstatus⟩)]

/-- All decisive results agree if one of the verdicts does not occur. -/
theorem forall_decisive_eq_iff :
    (∀ s ∈ results, ∀ t ∈ results, s.status.isDecisive = true → t.status.isDecisive = true →
        s.status = t.status) ↔
      ¬ (0 < tally .proved results ∧ 0 < tally .disproved results) := by
  constructor
  · rintro h ⟨hproved, hdisproved⟩
    obtain ⟨s, hs, hs'⟩ := tally_pos_iff.mp hproved
    obtain ⟨t, ht, ht'⟩ := tally_pos_iff.mp hdisproved
    have heq := h s hs t ht (Status.isDecisive_iff.mpr (Or.inl hs'))
      (Status.isDecisive_iff.mpr (Or.inr ht'))
    rw [hs', ht'] at heq
    cases heq
  · intro h s hs t ht hs' ht'
    rcases Status.isDecisive_iff.mp hs' with hs' | hs' <;>
      rcases Status.isDecisive_iff.mp ht' with ht' | ht'
    · rw [hs', ht']
    · exact absurd ⟨tally_pos_iff.mpr ⟨s, hs, hs'⟩, tally_pos_iff.mpr ⟨t, ht, ht'⟩⟩ h
    · exact absurd ⟨tally_pos_iff.mpr ⟨t, ht, ht'⟩, tally_pos_iff.mpr ⟨s, hs, hs'⟩⟩ h
    · rw [hs', ht']

theorem forall_undecided_iff :
    (∀ s ∈ results, s.status.isDecisive = false) ↔ (deciders results).length = 0 := by
  simp [deciders, List.filter_eq_nil_iff]

/-- What a comparison says is what the results are. -/
structure Reflects (results : List Result) (r : Reconciliation) : Prop where
  /-- One side has a verdict and the other the opposite one, each in the order of the results. -/
  sides : ∃ v, v.isDecisive = true ∧ r.agreeing = named v results ∧
    r.disagreeing = named v.opposite results
  together : (r.agreeing ++ r.disagreeing).Perm (deciders results)
  undecided : r.agreement = .undecided ↔ ∀ s ∈ results, s.status.isDecisive = false
  conflicting : r.agreement = .conflicting ↔
    (∃ s ∈ results, s.status = .proved) ∧ ∃ s ∈ results, s.status = .disproved
  single : r.agreement = .singleProver ↔ (deciders results).length = 1
  crossChecked : r.agreement = .crossChecked ↔ 2 ≤ (deciders results).length ∧
    ∀ s ∈ results, ∀ t ∈ results, s.status.isDecisive = true → t.status.isDecisive = true →
      s.status = t.status
  /-- The verdict is the one that all decisive results have. -/
  status : ∀ v, r.status = some v ↔
    (r.agreement = .singleProver ∨ r.agreement = .crossChecked) ∧
      ∀ s ∈ results, s.status.isDecisive = true → s.status = v

theorem reflects_ofResults (results : List Result) : Reflects results (ofResults results) := by
  obtain ⟨v, hv, heq⟩ := ofResults_eq results
  rw [heq]
  refine ⟨⟨v, hv, rfl, rfl⟩, named_append_perm hv results, ?_, ?_, ?_, ?_, fun w => ?_⟩
  · rw [forall_undecided_iff, length_deciders]
    grind [assess]
  · rw [← tally_pos_iff, ← tally_pos_iff]
    grind [assess]
  · rw [length_deciders]
    grind [assess]
  · rw [length_deciders, forall_decisive_eq_iff]
    grind [assess]
  · rw [forall_decisive_iff]
    grind [assess, common]

/-- **The order of results does not matter.**  A comparison reflects the results, and if they come
in another order, then it says the same, but for the two sides, which may be exchanged. -/
theorem ofResults_perm {results results' : List Result} (h : results.Perm results') :
    Reflects results (ofResults results) ∧
      (ofResults results').status = (ofResults results).status ∧
      (ofResults results').agreement = (ofResults results).agreement ∧
      (ofResults results').needsReview = (ofResults results).needsReview ∧
      ((ofResults results').agreeing.Perm (ofResults results).agreeing ∧
          (ofResults results').disagreeing.Perm (ofResults results).disagreeing ∨
        (ofResults results').agreeing.Perm (ofResults results).disagreeing ∧
          (ofResults results').disagreeing.Perm (ofResults results).agreeing) := by
  refine ⟨reflects_ofResults results, ?_⟩
  obtain ⟨v, hv, heq⟩ := ofResults_eq results
  obtain ⟨w, hw, heq'⟩ := ofResults_eq results'
  rw [← tally_perm h, ← tally_perm h] at heq'
  rw [heq, heq']
  refine ⟨rfl, rfl, rfl, ?_⟩
  have hnamed := fun status => (named_perm h status).symm
  -- the first verdict is the same in both orders, or it is the opposite one
  rcases Status.isDecisive_iff.mp hv with rfl | rfl <;>
    rcases Status.isDecisive_iff.mp hw with rfl | rfl
  · exact Or.inl ⟨hnamed _, hnamed _⟩
  · exact Or.inr ⟨hnamed _, hnamed _⟩
  · exact Or.inr ⟨hnamed _, hnamed _⟩
  · exact Or.inl ⟨hnamed _, hnamed _⟩

/-- Two results of one prover are against that of another, and one does not count: from the other
end the sides are exchanged. -/
theorem ofResults_perm_exchanged :
    let results : List Result :=
      [.plain .proved "a", .plain .unknown "b", .plain .proved "a", .plain .disproved "c"]
    results.Perm results.reverse ∧ Reflects results (ofResults results) ∧
      (ofResults results.reverse).agreement = (ofResults results).agreement ∧
      (ofResults results).agreement = .conflicting ∧
      (ofResults results).agreeing = ["a", "a"] ∧ (ofResults results).disagreeing = ["c"] ∧
      (ofResults results.reverse).agreeing = ["c"] ∧
      (ofResults results.reverse).disagreeing = ["a", "a"] := by
  intro results
  have h : results.Perm results.reverse := results.reverse_perm.symm
  obtain ⟨hreflects, -, hagreement, -⟩ := ofResults_perm h
  exact ⟨h, hreflects, hagreement, rfl, rfl, rfl, rfl, rfl⟩

end Reconciliation

end Deontica
