import Deontica.Proofs.Office
import Deontica.Proofs.Race.Runner

/-!
# The router at work

What a router does with its desk is one of the things that can happen in an office: every call, race
and strategy is a run of dispatches (`Router.exists_run_serve`).  In a race the dispatches that come
to an end are carried on from where they wait, in the order in which they end, and the others are
broken off.
-/

namespace Deontica

namespace Office

variable {κ : Type} [DecidableEq κ] {keyOf : Inquiry → κ} {o o' o'' : Office κ}

theorem Run.append {events more : List Event} (h : Run keyOf o events o')
    (h' : Run keyOf o' more o'') : Run keyOf o (events ++ more) o'' := by
  induction h' with
  | nil =>
    rw [List.append_nil]
    exact h
  | snoc _ hstep ih =>
    rw [← List.append_assoc]
    exact ih.snoc hstep

/-- The one office can become the other. -/
def Leads (keyOf : Inquiry → κ) (o o' : Office κ) : Prop :=
  ∃ events, Run keyOf o events o'

namespace Leads

theorem refl (o : Office κ) : Leads keyOf o o :=
  ⟨[], .nil⟩

theorem trans (h : Leads keyOf o o') (h' : Leads keyOf o' o'') : Leads keyOf o o'' := by
  obtain ⟨events, h⟩ := h
  obtain ⟨more, h'⟩ := h'
  exact ⟨events ++ more, h.append h'⟩

theorem of_step {event : Event} (h : Step keyOf o event o') : Leads keyOf o o' :=
  ⟨[] ++ [event], .snoc .nil h⟩

/-- A dispatch takes a step and goes on. -/
theorem next {before after : List Task} {i : Nat} {d : Dispatch} {stage stage' : Stage} {act : Act}
    {desk : Desk κ} (htasks : o.tasks = before ++ ⟨i, d, stage⟩ :: after)
    (h : Moves keyOf d stage o.desk act (some stage') desk) :
    Leads keyOf o { o with desk := desk, tasks := before ++ ⟨i, d, stage'⟩ :: after } := by
  have hstep := of_step (Step.move htasks h)
  rw [List.append_assoc] at hstep
  exact hstep

/-- A dispatch takes its last step. -/
theorem last {before after : List Task} {i : Nat} {d : Dispatch} {stage : Stage} {act : Act}
    {desk : Desk κ} (htasks : o.tasks = before ++ ⟨i, d, stage⟩ :: after)
    (h : Moves keyOf d stage o.desk act none desk) :
    Leads keyOf o { o with desk := desk, tasks := before ++ after } := by
  have hstep := of_step (Step.move htasks h)
  rw [List.append_assoc] at hstep
  exact hstep

end Leads

/-! ### Calls -/

/-- A call that has begun can end in every way. -/
theorem leads_finish {before after : List Task} {i : Nat} {d : Dispatch}
    (htasks : o.tasks = before ++ ⟨i, d, .working⟩ :: after) (ending : Ending) (now : Nat) :
    Leads keyOf o
      { o with
        desk := (o.desk.finish d.seat (keyOf d.inquiry) ending now).2
        tasks := before ++ after } := by
  cases ending with
  | tooLate timeout => exact (Leads.next htasks (.giveUp timeout)).trans (Leads.last rfl .account)
  | cameBack run =>
    refine (Leads.next htasks (.comeBack run)).trans ?_
    cases run with
    | answered answer => exact (Leads.next rfl (.store now)).trans (Leads.last rfl .account)
    | failed causes => exact (Leads.next rfl .fail).trans (Leads.last rfl .account)
    | crashed => exact Leads.last rfl .crash

/-- The office with one more dispatch on its way. -/
def carrying (o : Office κ) (d : Dispatch) (stage : Stage) (desk : Desk κ) : Office κ :=
  { o with desk := desk, tasks := o.tasks ++ [⟨o.next, d, stage⟩], next := o.next + 1 }

/-- The office after one more dispatch. -/
def passed (o : Office κ) (desk : Desk κ) : Office κ :=
  { o with desk := desk, next := o.next + 1 }

theorem leads_passed {d : Dispatch} {stage : Stage} {act : Act} {desk desk' : Desk κ}
    (h : Moves keyOf d stage desk act none desk') :
    Leads keyOf (o.carrying d stage desk) (o.passed desk') := by
  have hlast : Leads keyOf (o.carrying d stage desk) _ := Leads.last rfl h
  rw [List.append_nil] at hlast
  exact hlast

theorem leads_passed_finish {d : Dispatch} {desk : Desk κ} (ending : Ending) (now : Nat) :
    Leads keyOf (o.carrying d .working desk)
      (o.passed (desk.finish d.seat (keyOf d.inquiry) ending now).2) := by
  have hfinish : Leads keyOf (o.carrying d .working desk) _ := leads_finish rfl ending now
  rw [List.append_nil] at hfinish
  exact hfinish

/-- **A call begins**: it is over at once, or the prover has been called. -/
theorem leads_start {d : Dispatch} (hd : d.seat ∈ o.registry.seats) {now : Nat}
    {beginning : Beginning} {desk : Desk κ}
    (h : o.desk.start d.seat (keyOf d.inquiry) now = (beginning, desk)) :
    beginning ≠ .called ∧ Leads keyOf o (o.passed desk) ∨
      beginning = .called ∧ Leads keyOf o (o.carrying d .working desk) := by
  have hbegin : Leads keyOf o (o.carrying d .begun o.desk) := Leads.of_step (.begin o hd)
  unfold Desk.start at h
  split_ifs at h with havailable
  · rw [Bool.not_eq_true'] at havailable
    cases h
    exact Or.inl ⟨nofun, hbegin.trans (leads_passed (.refuse havailable))⟩
  · rw [Bool.not_eq_true', Bool.not_eq_false] at havailable
    have hclear : Leads keyOf (o.carrying d .begun o.desk) (o.carrying d .cleared o.desk) :=
      Leads.next rfl (.clear havailable)
    have hcleared := hbegin.trans hclear
    cases beginning with
    | unavailable => exact absurd h Desk.lookup_ne_unavailable
    | cached result => exact Or.inl ⟨nofun, hcleared.trans (leads_passed (.hit now h))⟩
    | called => exact Or.inr ⟨rfl, hcleared.trans (Leads.next rfl (.miss now h))⟩

/-- A whole call of a registered prover. -/
theorem leads_call {d : Dispatch} (hd : d.seat ∈ o.registry.seats) (timeout now : Nat) :
    Leads keyOf o
      (o.passed (o.desk.call d.seat d.goal d.axioms (keyOf d.inquiry) timeout now).desk) := by
  unfold Desk.call
  cases hstart : o.desk.start d.seat (keyOf d.inquiry) now with
  | mk beginning desk =>
    rcases leads_start hd hstart with ⟨hne, hleads⟩ | ⟨rfl, hleads⟩
    · cases beginning with
      | unavailable => exact hleads
      | cached result => exact hleads
      | called => exact absurd rfl hne
    · exact hleads.trans (leads_passed_finish _ _)

/-! ### Races -/

/-- A candidate enters a race: it is done, or it is on its way. -/
theorem leads_enter {d : Dispatch} (hd : d.seat ∈ o.registry.seats) {timeout now : Nat}
    {work : Work} {desk : Desk κ}
    (h : o.desk.enter d.seat d.goal d.axioms (keyOf d.inquiry) timeout now = (work, desk)) :
    (∀ run, work ≠ .running run) ∧ Leads keyOf o (o.passed desk) ∨
      Leads keyOf o (o.carrying d .working desk) := by
  unfold Desk.enter at h
  cases hstart : o.desk.start d.seat (keyOf d.inquiry) now with
  | mk beginning desk' =>
    rw [hstart] at h
    rcases leads_start hd hstart with ⟨hne, hleads⟩ | ⟨rfl, hleads⟩
    · cases beginning with
      | unavailable =>
        cases h
        exact Or.inl ⟨nofun, hleads⟩
      | cached result =>
        cases h
        exact Or.inl ⟨nofun, hleads⟩
      | called => exact absurd rfl hne
    · dsimp only at h
      split_ifs at h
      · cases h
        refine Or.inl ⟨fun run => ?_, hleads.trans (leads_passed_finish _ _)⟩
        cases d.seat.prover.run d.goal d.axioms timeout <;> exact nofun
      · cases h
        exact Or.inr hleads

/-- A runner that is not done waits in the office.  Runners have the numbers of their dispatches,
counted from the first candidate's on. -/
def Waits (keyOf : Inquiry → κ) (goal : Formula) (axioms : List Formula) (first : Nat)
    (o : Office κ) (r : Runner κ) : Prop :=
  ∀ run, r.work = .running run → r.key = keyOf (Dispatch.mk r.seat goal axioms).inquiry ∧
    ⟨first + r.index, ⟨r.seat, goal, axioms⟩, .working⟩ ∈ o.tasks

section Race

variable {goal : Formula} {axioms : List Formula} {timeout now first : Nat}

/-- **Candidates enter a race one after the other**, and those that are not done wait. -/
theorem exists_leads_line (seats : List Seat) :
    ∀ (index : Nat) (o : Office κ), (∀ seat ∈ seats, seat ∈ o.registry.seats) →
      o.next = first + index → ∀ {runners desk},
      Desk.line goal axioms (fun seat => keyOf (Dispatch.mk seat goal axioms).inquiry) timeout now
        index seats o.desk = (runners, desk) →
      ∃ o', Leads keyOf o o' ∧ o'.desk = desk ∧ o'.registry = o.registry ∧
        (∀ t ∈ o.tasks, t ∈ o'.tasks) ∧ (∀ r ∈ runners, index ≤ r.index) ∧
        (runners.map (·.index)).Nodup ∧ ∀ r ∈ runners, Waits keyOf goal axioms first o' r := by
  induction seats with
  | nil =>
    intro index o _ _ runners desk h
    cases h
    exact ⟨o, .refl o, rfl, rfl, fun _ ht => ht, by simp, by simp, by simp⟩
  | cons seat seats ih =>
    intro index o hseats hnext runners desk h
    rw [List.forall_mem_cons] at hseats
    unfold Desk.line at h
    cases henter : o.desk.enter seat goal axioms
        (keyOf (Dispatch.mk seat goal axioms).inquiry) timeout now with
    | mk work desk₁ =>
      -- the first candidate is done or waits, and the others come after it
      obtain ⟨o₁, hleads₁, hdesk₁, hregistry₁, hnext₁, hkeep₁, hwait₁⟩ : ∃ o₁, Leads keyOf o o₁ ∧
          o₁.desk = desk₁ ∧ o₁.registry = o.registry ∧ o₁.next = o.next + 1 ∧
          (∀ t ∈ o.tasks, t ∈ o₁.tasks) ∧
          ∀ run, work = .running run → ⟨o.next, ⟨seat, goal, axioms⟩, .working⟩ ∈ o₁.tasks := by
        rcases leads_enter (d := ⟨seat, goal, axioms⟩) hseats.1 henter with ⟨hdone, hleads⟩ | hleads
        · exact ⟨_, hleads, rfl, rfl, rfl, fun _ ht => ht, fun run hrun => absurd hrun (hdone run)⟩
        · exact ⟨_, hleads, rfl, rfl, rfl, fun _ ht => List.mem_append_left _ ht,
            fun _ _ => List.mem_append_right _ (List.mem_singleton.mpr rfl)⟩
      cases hline : Desk.line goal axioms
          (fun seat => keyOf (Dispatch.mk seat goal axioms).inquiry) timeout now (index + 1) seats
          o₁.desk with
      | mk runners' desk' =>
        obtain ⟨o', hleads, hdesk, hregistry, hkeep, hindex, hnodup, hwait⟩ :=
          ih (index + 1) o₁ (hregistry₁ ▸ hseats.2) (by omega) hline
        rw [hdesk₁] at hline
        dsimp only at h
        rw [henter] at h
        dsimp only at h
        rw [hline] at h
        cases h
        refine ⟨o', hleads₁.trans hleads, hdesk, hregistry.trans hregistry₁,
          fun t ht => hkeep t (hkeep₁ t ht), ?_, ?_, ?_⟩
        · rw [List.forall_mem_cons]
          exact ⟨Nat.le_refl _, fun r hr => Nat.le_of_succ_le (hindex r hr)⟩
        · rw [List.map_cons, List.nodup_cons]
          refine ⟨fun hmem => ?_, hnodup⟩
          obtain ⟨r, hr, heq⟩ := List.mem_map.mp hmem
          exact absurd heq (Nat.ne_of_gt (hindex r hr))
        · rw [List.forall_mem_cons]
          refine ⟨fun run hrun => ⟨rfl, ?_⟩, hwait⟩
          rw [← hnext]
          exact hkeep _ (hwait₁ run hrun)

/-- **Runners come to an end in any order.** -/
theorem exists_leads_settle (done : List (Runner κ)) :
    ∀ o : Office κ, (done.map (·.index)).Nodup →
      (∀ r ∈ done, Waits keyOf goal axioms first o r) →
      ∃ o', Leads keyOf o o' ∧ o'.desk = done.foldl (Runner.settle now) o.desk ∧
        o'.registry = o.registry := by
  induction done with
  | nil => exact fun o _ _ => ⟨o, .refl o, rfl, rfl⟩
  | cons r done ih =>
    intro o hnodup hwait
    rw [List.map_cons, List.nodup_cons] at hnodup
    rw [List.forall_mem_cons] at hwait
    rw [List.foldl_cons]
    cases hwork : r.work with
    | ready _ | broken =>
      have hsettle : Runner.settle now o.desk r = o.desk := by rw [Runner.settle, hwork]
      rw [hsettle]
      exact ih o hnodup.2 hwait.2
    | running run =>
      obtain ⟨hkey, hmem⟩ := hwait.1 run hwork
      obtain ⟨before, after, htasks⟩ := List.mem_iff_append.mp hmem
      -- the other runners have other numbers, so they still wait
      have hothers : ∀ r' ∈ done, ∀ desk,
          Waits keyOf goal axioms first { o with desk := desk, tasks := before ++ after } r' := by
        intro r' hr' desk run' hrun'
        obtain ⟨hkey', hmem'⟩ := hwait.2 r' hr' run' hrun'
        refine ⟨hkey', ?_⟩
        rw [htasks, List.mem_append, List.mem_cons] at hmem'
        rcases hmem' with hmem' | heq | hmem'
        · exact List.mem_append_left _ hmem'
        · have hid : first + r'.index = first + r.index := congrArg Task.id heq
          exact absurd (List.mem_map.mpr ⟨r', hr', Nat.add_left_cancel hid⟩) hnodup.1
        · exact List.mem_append_right _ hmem'
      have hfinish : Leads keyOf o _ :=
        leads_finish htasks (.cameBack run) (now + r.pace.time)
      have hsettle : Runner.settle now o.desk r =
          (o.desk.finish r.seat r.key (.cameBack run) (now + r.pace.time)).2 := by
        rw [Runner.settle, hwork]
      rw [hsettle, hkey]
      obtain ⟨o', hleads, hdesk, hregistry⟩ := ih _ hnodup.2 fun r' hr' => hothers r' hr' _
      exact ⟨o', hfinish.trans hleads, hdesk, hregistry⟩

omit [DecidableEq κ] in
/-- Those who have ended their calls when a race is over are some of the runners. -/
theorem nodup_done {runners : List (Runner κ)} (h : (runners.map (·.index)).Nodup)
    (mode : Race.Mode) (timeout : Nat) :
    ((Runner.done mode timeout runners).map (·.index)).Nodup ∧
      ∀ r ∈ Runner.done mode timeout runners, r ∈ runners := by
  have hdone := Runner.done_subperm mode timeout runners
  obtain ⟨ended, hperm, hsublist⟩ := hdone
  refine ⟨(hperm.map _).nodup_iff.mp (h.sublist (hsublist.map _)), fun r hr => ?_⟩
  exact hsublist.subset (hperm.mem_iff.mpr hr)

/-- All dispatches can be broken off. -/
theorem leads_idle (o : Office κ) : Leads keyOf o { o with tasks := [] } := by
  obtain ⟨registry, desk, tasks, next⟩ := o
  induction tasks with
  | nil => exact .refl _
  | cons t tasks ih =>
    have htasks : t :: tasks = [] ++ ⟨t.id, t.dispatch, t.stage⟩ :: tasks := rfl
    have habort : Leads keyOf ⟨registry, desk, t :: tasks, next⟩ _ := Leads.last htasks .abort
    exact habort.trans ih

/-- **A race is run**, and at its end nobody is on the way. -/
theorem exists_leads_race {seats : List Seat} (hseats : ∀ seat ∈ seats, seat ∈ o.registry.seats)
    (mode : Race.Mode) (goal : Formula) (axioms : List Formula) (timeout now : Nat) :
    ∃ n, Leads keyOf o
      { o with
        desk := (o.desk.race mode seats goal axioms
          (fun seat => keyOf (Dispatch.mk seat goal axioms).inquiry) timeout now).desk
        tasks := []
        next := n } := by
  unfold Desk.race
  have hentered : ∀ seat ∈ (if timeout = 0 then [] else seats), seat ∈ o.registry.seats := by
    split_ifs
    · exact nofun
    · exact hseats
  cases hline : Desk.line goal axioms (fun seat => keyOf (Dispatch.mk seat goal axioms).inquiry)
      timeout now 0 (if timeout = 0 then [] else seats) o.desk with
  | mk runners desk =>
    obtain ⟨o₁, hleads₁, rfl, hregistry₁, _, _, hnodup, hwait⟩ :=
      exists_leads_line _ 0 o hentered rfl hline
    obtain ⟨hnodup', hmem⟩ := nodup_done hnodup mode timeout
    obtain ⟨o₂, hleads₂, hdesk₂, hregistry₂⟩ : ∃ o₂, Leads keyOf o₁ o₂ ∧
        o₂.desk = (Runner.done mode timeout runners).foldl (Runner.settle now) o₁.desk ∧
        o₂.registry = o₁.registry :=
      exists_leads_settle _ o₁ hnodup' fun r hr => hwait r (hmem r hr)
    have hidle : Leads keyOf o ⟨o₂.registry, o₂.desk, [], o₂.next⟩ :=
      hleads₁.trans (hleads₂.trans (leads_idle o₂))
    refine ⟨o₂.next, ?_⟩
    rw [hdesk₂, hregistry₂, hregistry₁] at hidle
    exact hidle

end Race

end Office

/-! ### The router -/

namespace Router

open Office

variable {κ : Type} [DecidableEq κ] {r r' r'' : Router κ} {goal : Formula} {axioms : List Formula}

/-- The one router becomes the other by dispatches alone. -/
structure Reaches (r r' : Router κ) : Prop where
  registry : r'.registry = r.registry
  keyOf : r'.keyOf = r.keyOf
  leads : ∀ m, ∃ n, Leads r.keyOf { r.office with next := m } { r'.office with next := n }

namespace Reaches

theorem refl (r : Router κ) : r.Reaches r :=
  ⟨rfl, rfl, fun m => ⟨m, .refl _⟩⟩

theorem trans (h : r.Reaches r') (h' : r'.Reaches r'') : r.Reaches r'' := by
  refine ⟨h'.registry.trans h.registry, h'.keyOf.trans h.keyOf, fun m => ?_⟩
  obtain ⟨n, hleads⟩ := h.leads m
  obtain ⟨n', hleads'⟩ := h'.leads n
  rw [h.keyOf] at hleads'
  exact ⟨n', hleads.trans hleads'⟩

end Reaches

theorem reaches_call {seat : Seat} (hseat : seat ∈ r.registry.seats) (goal : Formula)
    (axioms : List Formula) (timeout now : Nat) :
    r.Reaches (r.call seat goal axioms timeout now).2.2 where
  registry := rfl
  keyOf := rfl
  leads m := ⟨m + 1, leads_call (o := { r.office with next := m })
    (d := ⟨seat, goal, axioms⟩) hseat timeout now⟩

theorem reaches_race {seats : List Seat} (hseats : ∀ seat ∈ seats, seat ∈ r.registry.seats)
    (mode : Race.Mode) (goal : Formula) (axioms : List Formula) (timeout now : Nat) :
    r.Reaches (r.race mode seats goal axioms timeout now).2.2 where
  registry := rfl
  keyOf := rfl
  leads m :=
    exists_leads_race (o := { r.office with next := m }) hseats mode goal axioms timeout now

theorem reaches_proveSequential {deadline : Nat} (seats : List Seat) (last : Result) (now : Nat)
    (r : Router κ) (hseats : ∀ seat ∈ seats, seat ∈ r.registry.seats) :
    r.Reaches (proveSequential goal axioms deadline seats last now r).2 := by
  induction seats generalizing last now r with
  | nil => exact .refl r
  | cons seat seats ih =>
    rw [List.forall_mem_cons] at hseats
    unfold proveSequential
    split_ifs
    · exact .refl r
    · have hcall := reaches_call hseats.1 goal axioms (deadline - now) now
      dsimp only
      split_ifs
      · exact hcall
      · exact hcall.trans (ih _ _ _ (hcall.registry ▸ hseats.2))

/-- Whatever the strategy, a router proves a goal by dispatches alone. -/
theorem reaches_prove (r : Router κ) (goal : Formula) (axioms : List Formula) (strategy : Strategy)
    (timeout now : Nat) : r.Reaches (r.prove goal axioms strategy timeout now).2 := by
  have hordered : ∀ seat ∈ r.registry.ordered strategy (r.recommended goal axioms),
      seat ∈ r.registry.seats := fun _ => Registry.mem_of_mem_ordered
  unfold prove
  cases hseats : r.registry.ordered strategy (r.recommended goal axioms) with
  | nil => exact .refl r
  | cons top others =>
    rw [hseats] at hordered
    cases strategy with
    | auto =>
      have hseat : ((top :: others).find? (·.prover.available)).getD top ∈ r.registry.seats := by
        cases hfind : (top :: others).find? (·.prover.available) with
        | none => exact hordered top List.mem_cons_self
        | some seat => exact hordered seat (List.mem_of_find?_eq_some hfind)
      have hcall := reaches_call hseat goal axioms timeout now
      dsimp only
      unfold proveAuto
      cases hattempt : r.call _ goal axioms timeout now with
      | mk attempt rest =>
        rw [hattempt] at hcall
        cases attempt with
        | answered result => exact hcall
        | failed prover reason => exact hcall
    | sequential | fastest | mostCapable => exact reaches_proveSequential _ _ _ r hordered
    | parallel =>
      have hrace := reaches_race hordered .firstDecisive goal axioms timeout now
      dsimp only
      unfold proveParallel
      dsimp only
      split
      · exact hrace
      · exact hrace

theorem reaches_crossCheck (r : Router κ) (goal : Formula) (axioms : List Formula)
    (timeout now : Nat) : r.Reaches (r.crossCheck goal axioms timeout now).2 := by
  have hranked : ∀ seat ∈ r.registry.ranked (r.recommended goal axioms),
      seat ∈ r.registry.seats := fun _ => Registry.mem_of_mem_ranked
  unfold crossCheck
  split
  · exact .refl r
  · exact reaches_race hranked .all goal axioms timeout now

/-- Something asked of a router about a problem. -/
inductive Call where
  | prove (goal : Formula) (axioms : List Formula) (strategy : Strategy) (timeout now : Nat)
  | proveDefault (goal : Formula) (axioms : List Formula) (now : Nat)
  | proveText (goal : String) (axioms : List String) (strategy : Strategy) (timeout now : Nat)
  | crossCheck (goal : Formula) (axioms : List Formula) (timeout now : Nat)

/-- The router after a call. -/
def after (r : Router κ) : Call → Router κ
  | .prove goal axioms strategy timeout now => (r.prove goal axioms strategy timeout now).2
  | .proveDefault goal axioms now => (r.proveDefault goal axioms now).2
  | .proveText goal axioms strategy timeout now =>
    (r.proveText goal axioms strategy timeout now).2
  | .crossCheck goal axioms timeout now => (r.crossCheck goal axioms timeout now).2

/-- A problem that is given as a text, if it can be read. -/
def problem? (r : Router κ) (goal : String) (axioms : List String) :
    Option (Formula × List Formula) :=
  match Formula.parseWithin r.parser.maxDepth goal,
    Formula.parseAllWithin r.parser.maxDepth axioms with
  | .ok goal, .ok axioms => some (goal, axioms)
  | _, _ => none

theorem proveText_snd (r : Router κ) (goal : String) (axioms : List String) (strategy : Strategy)
    (timeout now : Nat) :
    (r.proveText goal axioms strategy timeout now).2 =
      (r.problem? goal axioms).elim r fun p => (r.prove p.1 p.2 strategy timeout now).2 := by
  unfold proveText problem?
  cases Formula.parseWithin r.parser.maxDepth goal with
  | error e => rfl
  | ok goal =>
    cases Formula.parseAllWithin r.parser.maxDepth axioms with
    | error e => rfl
    | ok axioms => rfl

theorem reaches_after (r : Router κ) (call : Call) : r.Reaches (r.after call) := by
  cases call with
  | prove goal axioms strategy timeout now => exact r.reaches_prove goal axioms strategy timeout now
  | proveDefault goal axioms now => exact r.reaches_prove goal axioms _ _ now
  | proveText goal axioms strategy timeout now =>
    show r.Reaches (r.proveText goal axioms strategy timeout now).2
    rw [proveText_snd]
    cases r.problem? goal axioms with
    | none => exact .refl r
    | some p => exact r.reaches_prove p.1 p.2 strategy timeout now
  | crossCheck goal axioms timeout now => exact r.reaches_crossCheck goal axioms timeout now

/-- Something asked of a router: to take up a prover, or to deal with a problem. -/
inductive Request where
  | register (p : Prover)
  | call (call : Call)

/-- The router after a request. -/
def serve (r : Router κ) : Request → Router κ
  | .register p => r.register p
  | .call call => r.after call

theorem exists_leads_serve (r : Router κ) (requests : List Request) (m : Nat) :
    ∃ n, Leads r.keyOf { r.office with next := m }
      { (requests.foldl serve r).office with next := n } := by
  induction requests generalizing r m with
  | nil => exact ⟨m, .refl _⟩
  | cons request requests ih =>
    have hserve : (r.serve request).keyOf = r.keyOf ∧
        ∃ n, Leads r.keyOf { r.office with next := m }
          { (r.serve request).office with next := n } := by
      cases request with
      | register p => exact ⟨rfl, m, .of_step (.register _ p)⟩
      | call call => exact ⟨(r.reaches_after call).keyOf, (r.reaches_after call).leads m⟩
    obtain ⟨hkeyOf, n, hleads⟩ := hserve
    obtain ⟨n', hleads'⟩ := ih (r.serve request) n
    rw [hkeyOf] at hleads'
    exact ⟨n', hleads.trans hleads'⟩

/-- **What a router does can happen in its office.** -/
theorem exists_run_serve (r : Router κ) (requests : List Request) :
    ∃ events o, Office.Run r.keyOf r.office events o ∧
      o.registry = (requests.foldl serve r).registry ∧
      o.desk = (requests.foldl serve r).desk := by
  obtain ⟨n, events, hrun⟩ := r.exists_leads_serve requests 0
  exact ⟨events, _, hrun, rfl, rfl⟩

end Router

end Deontica
