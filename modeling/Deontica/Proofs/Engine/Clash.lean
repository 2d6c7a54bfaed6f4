import Deontica.Proofs.Engine.Trace

/-!
# Which contradictions are reported

A search compares each new fact with its own negation, and the negation of `¬a` is `a`.  So the pair
of `a` and `¬a` is found when `¬a` comes second, or when `a` comes second and is not a negation
itself.  What can be missed is a pair of `¬a` and `¬¬a` that are told in the other order
(`Noticed`).

Told are the axioms, with their repetitions, and then the conclusions of the steps
(`Reachable.notes`).  At a fixpoint nothing is missed: where `¬¬a` is a fact, `a` is one too, and so
below `¬a` and `¬¬a` there is a pair with fewer negations.
-/

open scoped List

namespace Deontica

namespace Formula

/-- Whether the formula is a negation. -/
def isNegation : Formula → Bool
  | .not _ => true
  | _ => false

theorem negation_eq_not {f : Formula} (h : f.isNegation = false) : f.negation = f.not := by
  cases f with
  | not a => cases h
  | _ => rfl

theorem ne_not (f : Formula) : f ≠ f.not := by
  intro h
  have hsize := congrArg sizeOf h
  rw [not.sizeOf_spec] at hsize
  omega

end Formula

/-! ### Contradictions -/

/-- A formula and its negation are in the list. -/
def Contradictory (told : List Formula) : Prop :=
  ∃ f, f ∈ told ∧ f.not ∈ told

/-- A formula that is not a negation and its negation are in the list, or any formula and after it
its negation. -/
def Noticed (told : List Formula) : Prop :=
  ∃ f, f ∈ told ∧ f.not ∈ told ∧ (f.isNegation = false ∨ [f, f.not] <+ told)

theorem Noticed.contradictory {told : List Formula} (h : Noticed told) : Contradictory told := by
  obtain ⟨f, hf, hnot, _⟩ := h
  exact ⟨f, hf, hnot⟩

/-- Of two members of a list, one comes before the other. -/
theorem pair_sublist_or {told : List Formula} {f g : Formula} (hne : f ≠ g) (hf : f ∈ told)
    (hg : g ∈ told) : [f, g] <+ told ∨ [g, f] <+ told := by
  obtain ⟨before, after, rfl⟩ := List.mem_iff_append.mp hf
  rcases List.mem_append.mp hg with hg | hg
  · exact Or.inr ((List.singleton_sublist.mpr hg).append (List.singleton_sublist.mpr
      List.mem_cons_self))
  · have hg : g ∈ after := (List.mem_cons.mp hg).resolve_left (Ne.symm hne)
    exact Or.inl (((List.singleton_sublist.mpr hg).cons_cons f).trans
      (List.sublist_append_right before _))

/-- A pair in a list to which one was added is a pair of the list or ends with the added one. -/
theorem pair_sublist_snoc {told : List Formula} {f g h : Formula} :
    [f, g] <+ told ++ [h] ↔ [f, g] <+ told ∨ f ∈ told ∧ g = h := by
  have hsnoc : [f, g] <+ told ++ [h] ↔ [g, f] <+ h :: told.reverse := by
    rw [← List.reverse_sublist, List.reverse_append]
    rfl
  have hpair : [g, f] <+ told.reverse ↔ [f, g] <+ told := by
    rw [← List.reverse_sublist, List.reverse_reverse]
    rfl
  rw [hsnoc, List.cons_sublist_cons', List.singleton_sublist, List.mem_reverse, hpair, and_comm]

/-- **A contradiction is noticed** exactly if some member comes after its own negation, which has one
`¬` less if it can. -/
theorem noticed_iff {told : List Formula} :
    Noticed told ↔ ∃ f : Formula, [f.negation, f] <+ told := by
  constructor
  · rintro ⟨f, hf, hnot, hplain | hbefore⟩
    · rcases pair_sublist_or f.ne_not hf hnot with hbefore | hafter
      · exact ⟨f.not, hbefore⟩
      · refine ⟨f, ?_⟩
        rw [Formula.negation_eq_not hplain]
        exact hafter
    · exact ⟨f.not, hbefore⟩
  · rintro ⟨f, h⟩
    have hneg : f.negation ∈ told := h.subset List.mem_cons_self
    have hf : f ∈ told := h.subset (List.mem_cons_of_mem _ List.mem_cons_self)
    cases hplain : f.isNegation with
    | false =>
      rw [Formula.negation_eq_not hplain] at hneg
      exact ⟨f, hf, hneg, Or.inl hplain⟩
    | true =>
      match f, hplain with
      | .not a, _ => exact ⟨a, hneg, hf, Or.inr h⟩

/-- Where `¬¬f` comes with `f`, every contradiction is noticed. -/
theorem Contradictory.noticed {told : List Formula}
    (hclosed : ∀ f : Formula, f.not.not ∈ told → f ∈ told) (h : Contradictory told) :
    Noticed told := by
  obtain ⟨f, hf, hnot⟩ := h
  -- strip two negations from the longer formula until the shorter one has none
  induction f with
  | not a ih => exact ih (hclosed a hnot) hf
  | _ => exact ⟨_, hf, hnot, Or.inl rfl⟩

/-! ### Searches -/

namespace Search

open Engine

/-- The search has noted what it was told. -/
structure Notes (s : Search) (told : List Formula) : Prop where
  facts : ∀ f, f ∈ s.facts ↔ f ∈ told
  clash : s.clash.isSome ↔ ∃ f : Formula, [f.negation, f] <+ told
  pair : ∀ c, s.clash = some c →
    c.negation = c.formula.not ∧ c.formula ∈ told ∧ c.negation ∈ told

/-- The pair that is reported consists of the fact and its negation, the longer one last. -/
theorem clashOf_cases (f : Formula) :
    clashOf f = ⟨f, f.negation⟩ ∧ f.negation = f.not ∨
      clashOf f = ⟨f.negation, f⟩ ∧ f = f.negation.not := by
  cases f with
  | not a => exact Or.inr ⟨rfl, rfl⟩
  | _ => exact Or.inl ⟨rfl, rfl⟩

/-- The first clash stays. -/
theorem clash_addFact_of_some {s : Search} {c : Clash} (h : s.clash = some c) (f : Formula) :
    (s.addFact f).clash = some c := by
  simp only [addFact, h]

theorem clash_addFact_of_none {s : Search} (h : s.clash = none) (f : Formula) :
    (s.addFact f).clash = if f.negation ∈ s.facts then some (clashOf f) else none := by
  simp only [addFact, h]

/-- **Adding a fact keeps the notes.** -/
theorem Notes.addFact {s : Search} {told : List Formula} (h : Notes s told) (f : Formula) :
    Notes (s.addFact f) (told ++ [f]) := by
  have hfacts : ∀ g, g ∈ (s.addFact f).facts ↔ g ∈ told ++ [f] := by
    intro g
    rw [mem_addFact, h.facts, List.mem_append, List.mem_singleton]
  have hpairs : (∃ g : Formula, [g.negation, g] <+ told ++ [f]) ↔
      s.clash.isSome ∨ f.negation ∈ s.facts := by
    simp only [pair_sublist_snoc, exists_or, h.clash, h.facts, exists_eq_right]
  cases hs : s.clash with
  | some c =>
    have hclash := clash_addFact_of_some hs f
    refine ⟨hfacts, ?_, fun c' hc' => ?_⟩
    · rw [hpairs, hclash, hs]
      simp
    · obtain ⟨heq, hformula, hnegation⟩ := h.pair c' (hs.trans (hclash.symm.trans hc'))
      exact ⟨heq, List.mem_append_left _ hformula, List.mem_append_left _ hnegation⟩
  | none =>
    have hclash := clash_addFact_of_none hs f
    refine ⟨hfacts, ?_, fun c hc => ?_⟩
    · rw [hpairs, hclash, hs]
      by_cases hneg : f.negation ∈ s.facts <;> simp [hneg]
    · rw [hclash] at hc
      split_ifs at hc with hneg
      have hf : f ∈ told ++ [f] := List.mem_append_right _ List.mem_cons_self
      have hneg : f.negation ∈ told ++ [f] := List.mem_append_left _ ((h.facts _).mp hneg)
      rw [← Option.some.inj hc]
      rcases clashOf_cases f with ⟨heq, hnot⟩ | ⟨heq, hnot⟩
      · rw [heq]
        exact ⟨hnot, hf, hneg⟩
      · rw [heq]
        exact ⟨hnot, hneg, hf⟩

theorem Notes.foldl_addFact (fs : List Formula) {s : Search} {told : List Formula}
    (h : Notes s told) : Notes (fs.foldl Search.addFact s) (told ++ fs) := by
  induction fs generalizing s told with
  | nil => rwa [List.append_nil]
  | cons f fs ih =>
    rw [List.foldl_cons, List.append_cons]
    exact ih (h.addFact f)

theorem notes_blank (goal : Formula) (axioms : List Formula) : Notes (blank goal axioms) [] := by
  constructor
  · intro f
    rfl
  · simp [blank]
  · intro c hc
    cases hc

/-- **What a search has been told** are the axioms and the conclusions of its steps. -/
theorem Reachable.notes {logic : Option Logic} {goal : Formula} {axioms : List Formula}
    {s : Search} (hs : Reachable (activeRules logic) (Search.start goal axioms) s) :
    Notes s (axioms ++ s.steps.map (·.conclusion)) := by
  induction hs with
  | start =>
    rw [start_steps, List.map_nil, List.append_nil, start_eq]
    exact (notes_blank goal axioms).foldl_addFact axioms
  | @record s r d _ _ _ ih =>
    have hadd := ih.addFact d.conclusion
    rw [List.append_assoc] at hadd
    show Notes (s.record d) (axioms ++ (s.steps ++ [d]).map (·.conclusion))
    rw [List.map_append]
    exact ⟨hadd.facts, hadd.clash, hadd.pair⟩

end Search

/-! ### Results -/

namespace Engine

open Search

/-- Elimination of double negation is active in every logic. -/
theorem doubleNegation_mem_activeRules (logic : Option Logic) :
    Rule.forward "double_negation_elimination" .propositional [Rule.holeA.not.not] Rule.holeA
      "from ¬¬A infer A" none ∈ activeRules logic := by
  refine List.mem_filter.mpr ⟨?_, rfl⟩
  simp [Rule.catalogue, Rule.propositional]

/-- What is closed under the active rules has `f` if it has `¬¬f`. -/
theorem Closed.of_not_not {logic : Option Logic} {goal : Formula} {axioms : List Formula}
    {X : Set Formula} (hX : Closed logic goal axioms X) {f : Formula} (hf : f.not.not ∈ X) :
    f ∈ X := by
  refine hX.rules _ (doubleNegation_mem_activeRules logic) [f.not.not] f ?_ ?_
  · refine @Rule.Instance.schema _ _ _ [("A", f)] _ _ ⟨rfl, rfl⟩ ?_
    intro h
    cases h
  · exact List.forall_mem_singleton.mpr hf

/-- **Contradictions within a search.**  A search that ends with every rule exhausted has noticed
every contradiction. -/
theorem noticed_of_derive {logic : Option Logic} {goal : Formula} {axioms : List Formula}
    {s : Search} (hs : Reachable (activeRules logic) (start goal axioms) s)
    (hnone : derive (activeRules logic) s = none)
    (h : Contradictory (axioms ++ s.steps.map (·.conclusion))) :
    Noticed (axioms ++ s.steps.map (·.conclusion)) := by
  apply h.noticed
  intro f
  rw [← hs.notes.facts, ← hs.notes.facts]
  exact (closed_of_derive hs hnone).of_not_not

/-- What a result tells comes from one search, and without the goal and a limit the rules were
exhausted in it. -/
theorem exists_search (config : EngineConfig) (goal : Formula) (axioms : List Formula)
    (budget : Budget) (watch : Watch)
    (hdeep : ∀ f ∈ goal :: axioms, f.depth ≤ config.maxFormulaDepth) :
    ∃ s, Reachable (activeRules (logicFor config goal axioms)) (start goal axioms) s ∧
      (prove config goal axioms budget watch).clash = s.clash ∧
      derived (prove config goal axioms budget watch) = s.steps.map (·.conclusion) ∧
      (goal ∉ axioms ++ s.steps.map (·.conclusion) →
        (prove config goal axioms budget watch).status.isResourceLimit = false →
        derive (activeRules (logicFor config goal axioms)) s = none) := by
  obtain ⟨s, hs, _, _, hclash, hcases⟩ :=
    prove_trace config goal axioms budget watch (find?_eq_none_iff.mpr hdeep)
  refine ⟨s, hs, hclash, ?_⟩
  rcases hcases with ⟨heq, _, hend⟩ | ⟨heq, _, hgoal⟩ | ⟨d, heq, _, hd, _, hend⟩
  · refine ⟨derived_eq hs (Or.inl heq), fun _ hlimit => hend.resolve_left ?_⟩
    rw [hlimit]
    exact Bool.false_ne_true
  · refine ⟨derived_eq hs (Or.inl heq), fun hmissing _ => absurd ?_ hmissing⟩
    rcases hgoal with ⟨hgoal, _⟩ | ⟨before, d, hsteps, rfl⟩
    · exact List.mem_append_left _ hgoal
    · rw [hsteps]
      simp
  · exact ⟨derived_eq hs (Or.inr ⟨d, heq, hd.rule⟩), fun _ _ => hend⟩

/-- **Which contradictions are reported.**  A result reports a contradiction exactly if one is
noticed among the axioms and the conclusions of the rules, in this order, and the pair that it
reports is a contradiction among them.  If a run ended without a limit and without the goal among
its facts, then no contradiction goes unreported. -/
theorem clash_iff_noticed (config : EngineConfig) (goal : Formula) (axioms : List Formula)
    (budget : Budget) (watch : Watch)
    (hdeep : ∀ f ∈ goal :: axioms, f.depth ≤ config.maxFormulaDepth) :
    let r := prove config goal axioms budget watch
    let told := axioms ++ derived r
    (r.clash.isSome ↔ Noticed told) ∧
      (∀ c, r.clash = some c →
        c.negation = c.formula.not ∧ c.formula ∈ told ∧ c.negation ∈ told) ∧
      (goal ∉ told → r.status.isResourceLimit = false →
        (r.clash.isSome ↔ Contradictory told)) := by
  obtain ⟨s, hs, hclash, hderived, hend⟩ := exists_search config goal axioms budget watch hdeep
  have hnoticed : s.clash.isSome ↔ Noticed (axioms ++ s.steps.map (·.conclusion)) :=
    hs.notes.clash.trans noticed_iff.symm
  dsimp only
  rw [hclash, hderived]
  refine ⟨hnoticed, hs.notes.pair, fun hgoal hlimit => ?_⟩
  rw [hnoticed]
  exact ⟨Noticed.contradictory, noticed_of_derive hs (hend hgoal hlimit)⟩

/-- Among the axioms `¬¬P` and `¬P` no contradiction is noticed while `¬P` is the goal, for then
nothing is concluded from them.  With another goal the rules are exhausted, and the contradiction is
reported. -/
theorem clash_iff_noticed_order :
    let p : Formula := .pred "P" []
    let goal : Formula := .pred "Q" []
    let r := prove {} p.not [p.not.not, p.not] ⟨100, 1⟩ .still
    let r' := prove {} goal [p.not.not, p.not] ⟨100, 1⟩ .still
    r.clash = none ∧ ¬ Noticed ([p.not.not, p.not] ++ derived r) ∧
      goal ∉ [p.not.not, p.not] ++ derived r' ∧ r'.status.isResourceLimit = false ∧
      r'.clash.isSome := by
  intro p goal r r'
  have hclash : r.clash = none := by decide
  have hgoal : goal ∉ [p.not.not, p.not] ++ derived r' := by decide
  have hlimit : r'.status.isResourceLimit = false := by decide
  have hdeep : ∀ f ∈ p.not :: [p.not.not, p.not], f.depth ≤ 256 := by decide
  have hdeep' : ∀ f ∈ goal :: [p.not.not, p.not], f.depth ≤ 256 := by decide
  obtain ⟨hnoticed, _⟩ := clash_iff_noticed {} p.not [p.not.not, p.not] ⟨100, 1⟩ .still hdeep
  obtain ⟨_, _, hall⟩ := clash_iff_noticed {} goal [p.not.not, p.not] ⟨100, 1⟩ .still hdeep'
  refine ⟨hclash, ?_, hgoal, hlimit, (hall hgoal hlimit).mpr ⟨p.not, ?_, ?_⟩⟩
  · rw [← hnoticed]
    show ¬ r.clash.isSome = true
    rw [hclash]
    exact Bool.false_ne_true
  · simp
  · simp

/-- **A contradiction that goes unreported.**  The goal `¬P` is an axiom and follows `¬¬P`; it is
compared with `P` only.  In the other order the same two axioms are reported. -/
theorem clash_unreported :
    let p : Formula := .pred "P" []
    let r := prove {} p.not [p.not.not, p.not] ⟨100, 1⟩ .still
    let r' := prove {} p.not [p.not, p.not.not] ⟨100, 1⟩ .still
    (r.status = .proved ∧ r.steps = [] ∧ r.clash = none ∧
        Contradictory ([p.not.not, p.not] ++ derived r)) ∧
      r'.status = .proved ∧ r'.steps = [] ∧ r'.clash = some ⟨p.not, p.not.not⟩ := by
  intro p r r'
  have hfirst : r.status = .proved ∧ r.steps = [] ∧ r.clash = none := by decide
  have hsecond : r'.status = .proved ∧ r'.steps = [] ∧ r'.clash = some ⟨p.not, p.not.not⟩ := by
    decide
  refine ⟨⟨hfirst.1, hfirst.2.1, hfirst.2.2, p.not, ?_, ?_⟩, hsecond⟩
  · simp
  · simp

end Engine

end Deontica
