import Deontica.Proofs.Dispatch
import Deontica.Proofs.Registry
import Deontica.Router

/-!
# Dispatches side by side

Any number of problems are put to provers at once.  A dispatch looks whether the prover is
available, looks into the cache, waits for the prover, keeps what may be kept and closes the
account; in between anything may happen, and it may be broken off at any point.  An *office* is the
registry, the desk and the dispatches that are on their way (`Office`).  What happens in it, step by
step and in whatever order, is a list of events (`Run`).

All that is ever in the cache was kept there by a dispatch that had begun, had come back with an
answer and had not been broken off (`Run.traced`).
-/

namespace Deontica

/-! ### Dispatches -/

/-- A problem put to a registered prover. -/
structure Dispatch where
  seat : Seat
  goal : Formula
  axioms : List Formula

/-- What is asked of the prover, with its name and settings. -/
def Dispatch.inquiry (d : Dispatch) : Inquiry :=
  ⟨d.goal, d.axioms, d.seat.name, d.seat.prover.fingerprint⟩

/-- How far a dispatch has come. -/
inductive Stage where
  | begun
  /-- The prover is available. -/
  | cleared
  /-- The cache had no answer, and the prover was called. -/
  | working
  | returned (run : Deontica.Run)
  /-- What may be kept has been kept, and the account is still open. -/
  | settled (attempt : Attempt)

/-- What a dispatch does. -/
inductive Act where
  | cleared
  | called
  | returned (run : Deontica.Run)
  /-- The prover did not come back within so many milliseconds. -/
  | gaveUp (timeout : Nat)
  /-- It was decided whether to keep the answer, and an answer that may be kept was. -/
  | settled
  /-- The caller was told something. -/
  | answered (attempt : Attempt)
  | aborted

section Moves

variable {κ : Type} [DecidableEq κ] (keyOf : Inquiry → κ)

/-- The steps that a dispatch can take: from a stage and a desk, by an act, to the next stage, if
there is one, and another desk. -/
inductive Moves (d : Dispatch) : Stage → Desk κ → Act → Option Stage → Desk κ → Prop
  | refuse {desk : Desk κ} : d.seat.prover.available = false →
      Moves d .begun desk (.answered (.unavailable d.seat.name)) none desk
  | clear {desk : Desk κ} : d.seat.prover.available = true →
      Moves d .begun desk .cleared (some .cleared) desk
  | hit {desk desk' : Desk κ} {result : Result} (now : Nat) :
      desk.lookup d.seat (keyOf d.inquiry) now = (.cached result, desk') →
      Moves d .cleared desk (.answered (.answered result)) none desk'
  | miss {desk desk' : Desk κ} (now : Nat) :
      desk.lookup d.seat (keyOf d.inquiry) now = (.called, desk') →
      Moves d .cleared desk .called (some .working) desk'
  /-- The prover may come back with anything. -/
  | comeBack {desk : Desk κ} (run : Deontica.Run) :
      Moves d .working desk (.returned run) (some (.returned run)) desk
  | giveUp {desk : Desk κ} (timeout : Nat) :
      Moves d .working desk (.gaveUp timeout)
        (some (.settled (Desk.attemptOf d.seat.name (.tooLate timeout)))) desk
  | crash {desk : Desk κ} :
      Moves d (.returned .crashed) desk
        (.answered (Desk.attemptOf d.seat.name (.cameBack .crashed))) none desk
  | fail {desk : Desk κ} {causes : List String} :
      Moves d (.returned (.failed causes)) desk .settled
        (some (.settled (Desk.attemptOf d.seat.name (.cameBack (.failed causes))))) desk
  | store {desk : Desk κ} {answer : Result} (now : Nat) :
      Moves d (.returned (.answered answer)) desk .settled
        (some (.settled (Desk.attemptOf d.seat.name (.cameBack (.answered answer)))))
        (desk.keep (keyOf d.inquiry) { answer with prover := d.seat.name, fromCache := false } now)
  | account {desk : Desk κ} {attempt : Attempt} :
      Moves d (.settled attempt) desk (.answered attempt) none
        (desk.record d.seat.name attempt.isDecisive)
  | abort {desk : Desk κ} {stage : Stage} : Moves d stage desk .aborted none desk

namespace Moves

variable {keyOf} {d : Dispatch} {stage : Stage} {desk desk' : Desk κ} {act : Act}
  {stage' : Option Stage}

/-- **What a step brings into the cache**: nothing, or an answer that may be kept, with the name of
the prover. -/
theorem mem_entries (h : Moves keyOf d stage desk act stage' desk') {p : κ × Entry}
    (hp : p ∈ desk'.cache.entries) :
    (∃ e, (p.1, e) ∈ desk.cache.entries ∧ e.result = p.2.result) ∨
      ∃ answer, stage = .returned (.answered answer) ∧ act = .settled ∧
        p.1 = keyOf d.inquiry ∧ answer.status.isCacheable = true ∧
        p.2.result = { answer with prover := d.seat.name, fromCache := false } := by
  cases h with
  | hit now hlookup | miss now hlookup =>
    have hcache := congrArg (·.2.cache) hlookup
    rw [← show _ = desk'.cache from hcache, Desk.cache_lookup] at hp
    exact Or.inl (Cache.mem_entries_get hp)
  | @store _ answer now =>
    unfold Desk.keep at hp
    split_ifs at hp with hcacheable
    · rcases Cache.mem_entries_put hp with hp | ⟨hkey, hresult⟩
      · exact Or.inl ⟨p.2, hp, rfl⟩
      · exact Or.inr ⟨answer, rfl, rfl, hkey, hcacheable, hresult⟩
    · exact Or.inl ⟨p.2, hp, rfl⟩
  | refuse _ | clear _ | comeBack _ | giveUp _ | crash | fail | account | abort =>
    exact Or.inl ⟨p.2, hp, rfl⟩

/-- A dispatch that goes on was not broken off.  It has come back if the prover did just now, and
what the caller is to be told is what a call ends with. -/
theorem next {s : Stage} (h : Moves keyOf d stage desk act (some s) desk') :
    act ≠ .aborted ∧ (∀ run, s = .returned run → act = .returned run) ∧
      ∀ attempt, s = .settled attempt → ∃ ending, attempt = Desk.attemptOf d.seat.name ending := by
  generalize hnext : some s = stage' at h
  cases h with
  | refuse _ | hit _ _ | crash | account | abort => cases hnext
  | clear _ | miss _ _ | comeBack _ | giveUp _ | fail | store _ =>
    cases hnext
    simp

/-- **Where an answer from the cache comes from**: the dispatch has just found it there. -/
theorem answered {result : Result}
    (h : Moves keyOf d stage desk (.answered (.answered result)) stage' desk')
    (hsettled : ∀ attempt, stage = .settled attempt →
      ∃ ending, attempt = Desk.attemptOf d.seat.name ending) (hcached : result.fromCache = true) :
    ∃ e, desk.cache.find? (keyOf d.inquiry) = some e ∧
      result = { e.result with fromCache := true, elapsed := result.elapsed } := by
  generalize hact : Act.answered (.answered result) = act at h
  cases h with
  | hit now hlookup =>
    cases hact
    obtain ⟨e, hfind, rfl⟩ := Desk.lookup_eq_cached hlookup
    exact ⟨e, hfind, rfl⟩
  | @account _ attempt =>
    -- what is told at the end of a call is not from the cache
    cases hact
    obtain ⟨ending, hending⟩ := hsettled _ rfl
    rw [Desk.fromCache_attemptOf hending.symm] at hcached
    cases hcached
  | refuse _ | crash | clear _ | miss _ _ | comeBack _ | giveUp _ | fail | store _ | abort =>
    cases hact

end Moves

end Moves

/-! ### The office -/

/-- A dispatch on its way, with a number of its own. -/
structure Task where
  id : Nat
  dispatch : Dispatch
  stage : Stage

/-- What happens in an office. -/
inductive Event where
  | registered (seat : Seat)
  | began (id : Nat) (dispatch : Dispatch)
  | did (id : Nat) (act : Act)

/-- The registered provers, what dispatches share, and those that are on their way. -/
structure Office (κ : Type) where
  registry : Registry
  desk : Desk κ
  tasks : List Task := []
  /-- The number of the next dispatch. -/
  next : Nat := 0

/-- The office of a router that has nothing to do. -/
def Router.office {κ : Type} (r : Router κ) : Office κ where
  registry := r.registry
  desk := r.desk

namespace Office

variable {κ : Type} [DecidableEq κ] (keyOf : Inquiry → κ)

/-- What can happen next. -/
inductive Step : Office κ → Event → Office κ → Prop
  | register (o : Office κ) (p : Prover) :
      Step o (.registered ⟨o.registry.next, p⟩) { o with registry := o.registry.register p }
  | begin (o : Office κ) {d : Dispatch} : d.seat ∈ o.registry.seats →
      Step o (.began o.next d)
        { o with tasks := o.tasks ++ [⟨o.next, d, .begun⟩], next := o.next + 1 }
  | move {o : Office κ} {before after : List Task} {i : Nat} {d : Dispatch} {stage : Stage}
      {act : Act} {stage' : Option Stage} {desk : Desk κ} :
      o.tasks = before ++ ⟨i, d, stage⟩ :: after → Moves keyOf d stage o.desk act stage' desk →
      Step o (.did i act)
        { o with desk := desk, tasks := before ++ (stage'.map (Task.mk i d)).toList ++ after }

/-- What has happened between two states of an office. -/
inductive Run (o₀ : Office κ) : List Event → Office κ → Prop
  | nil : Run o₀ [] o₀
  | snoc {events : List Event} {event : Event} {o o' : Office κ} : Run o₀ events o →
      Step keyOf o event o' → Run o₀ (events ++ [event]) o'

/-- Dispatches that are on their way have different numbers, given one after the other. -/
structure Numbered (o : Office κ) : Prop where
  ids : (o.tasks.map (·.id)).Nodup
  next : ∀ t ∈ o.tasks, t.id < o.next

namespace Numbered

variable {keyOf} {o : Office κ} {before after : List Task} {i : Nat} {d : Dispatch} {stage : Stage}

omit [DecidableEq κ] in
/-- The other dispatches have other numbers. -/
theorem others (h : o.Numbered) (htasks : o.tasks = before ++ ⟨i, d, stage⟩ :: after) {t : Task}
    (ht : t ∈ before ∨ t ∈ after) : t ∈ o.tasks ∧ t.id ≠ i := by
  have hids := h.ids
  rw [htasks, List.map_append, List.map_cons, List.nodup_append, List.nodup_cons] at hids
  obtain ⟨_, ⟨hafter, _⟩, hbefore⟩ := hids
  rcases ht with ht | ht
  · refine ⟨htasks ▸ List.mem_append_left _ ht, ?_⟩
    exact hbefore _ (List.mem_map_of_mem ht) i List.mem_cons_self
  · refine ⟨htasks ▸ List.mem_append_right _ (List.mem_cons_of_mem _ ht), ?_⟩
    intro heq
    exact hafter (List.mem_map.mpr ⟨t, ht, heq⟩)

omit [DecidableEq κ] in
/-- When a dispatch has taken a step, the dispatches on their way are the others, and itself if it
goes on. -/
theorem mem_cases (h : o.Numbered) (htasks : o.tasks = before ++ ⟨i, d, stage⟩ :: after)
    {stage' : Option Stage} {t : Task}
    (ht : t ∈ before ++ (stage'.map (Task.mk i d)).toList ++ after) :
    (t ∈ o.tasks ∧ t.id ≠ i) ∨ ∃ s, stage' = some s ∧ t = ⟨i, d, s⟩ := by
  rw [List.append_assoc, List.mem_append, List.mem_append] at ht
  rcases ht with ht | ht | ht
  · exact Or.inl (h.others htasks (Or.inl ht))
  · cases stage' with
    | none => cases ht
    | some s => exact Or.inr ⟨s, rfl, List.mem_singleton.mp ht⟩
  · exact Or.inl (h.others htasks (Or.inr ht))

theorem step {event : Event} {o' : Office κ} (h : o.Numbered) (hstep : Step keyOf o event o') :
    o'.Numbered := by
  cases hstep with
  | register p => exact ⟨h.ids, h.next⟩
  | begin hd =>
    constructor
    · rw [List.map_append, List.nodup_append]
      refine ⟨h.ids, List.nodup_singleton _, fun i hi j hj => ?_⟩
      obtain ⟨t, ht, rfl⟩ := List.mem_map.mp hi
      rw [List.mem_singleton.mp hj]
      exact Nat.ne_of_lt (h.next t ht)
    · intro t ht
      rcases List.mem_append.mp ht with ht | ht
      · exact Nat.lt_succ_of_lt (h.next t ht)
      · rw [List.mem_singleton.mp ht]
        exact Nat.lt_succ_self _
  | @move before after i d stage act stage' desk htasks hmove =>
    constructor
    · refine h.ids.sublist ?_
      rw [htasks, List.append_assoc, List.map_append, List.map_append, List.map_append]
      refine (List.Sublist.refl _).append ?_
      cases stage' with
      | none => exact List.sublist_cons_self _ _
      | some s => exact List.Sublist.refl _
    · intro t ht
      rcases h.mem_cases htasks ht with ⟨ht, _⟩ | ⟨s, _, rfl⟩
      · exact h.next t ht
      · refine h.next ⟨i, d, stage⟩ ?_
        rw [htasks]
        exact List.mem_append_right _ List.mem_cons_self

end Numbered

end Office

/-! ### Where results come from -/

/-- The result was kept for the inquiry: a dispatch of it to a registered prover came back with an
answer of a status that may be kept, and had not been broken off when the answer was kept. -/
def KeptFor (events : List Event) (q : Inquiry) (result : Result) : Prop :=
  ∃ before after i d answer, events = before ++ .did i .settled :: after ∧ d.inquiry = q ∧
    .registered d.seat ∈ before ∧ .began i d ∈ before ∧
    .did i (.returned (.answered answer)) ∈ before ∧ .did i .aborted ∉ before ∧
    answer.status ∈ [.proved, .disproved, .unknown] ∧
    result = { answer with prover := q.prover, fromCache := false }

theorem KeptFor.append {events : List Event} {q : Inquiry} {result : Result}
    (h : KeptFor events q result) (more : List Event) : KeptFor (events ++ more) q result := by
  obtain ⟨before, after, i, d, answer, heq, hrest⟩ := h
  refine ⟨before, after ++ more, i, d, answer, ?_, hrest⟩
  rw [heq, List.append_assoc, List.cons_append]

namespace Task

/-- What has happened to a dispatch that is on its way. -/
structure Traced (events : List Event) (t : Task) : Prop where
  began : .began t.id t.dispatch ∈ events
  registered : .registered t.dispatch.seat ∈ events
  aborted : .did t.id .aborted ∉ events
  returned : ∀ run, t.stage = .returned run → .did t.id (.returned run) ∈ events
  settled : ∀ attempt, t.stage = .settled attempt →
    ∃ ending, attempt = Desk.attemptOf t.dispatch.seat.name ending

theorem Traced.snoc {events : List Event} {t : Task} (h : t.Traced events) {event : Event}
    (hevent : event ≠ .did t.id .aborted) : t.Traced (events ++ [event]) where
  began := List.mem_append_left _ h.began
  registered := List.mem_append_left _ h.registered
  aborted hmem := by
    rcases List.mem_append.mp hmem with hmem | hmem
    · exact h.aborted hmem
    · exact hevent (List.mem_singleton.mp hmem).symm
  returned run hrun := List.mem_append_left _ (h.returned run hrun)
  settled := h.settled

end Task

namespace Office

variable {κ : Type} [DecidableEq κ] (keyOf : Inquiry → κ)

/-- What is known of an office from what has happened in it. -/
structure Traced (events : List Event) (o : Office κ) : Prop extends Numbered o where
  seats : ∀ seat ∈ o.registry.seats, .registered seat ∈ events
  /-- Only dispatches that have been given a number have done something. -/
  below : ∀ i act, .did i act ∈ events → i < o.next
  tasks : ∀ t ∈ o.tasks, t.Traced events
  /-- Every result in the cache was kept for an inquiry with its key. -/
  entries : ∀ p ∈ o.desk.cache.entries, ∃ q, keyOf q = p.1 ∧ KeptFor events q p.2.result

variable {keyOf}

namespace Traced

variable {events : List Event} {o o' : Office κ}

theorem register (h : Traced keyOf events o) (p : Prover) :
    Traced keyOf (events ++ [.registered ⟨o.registry.next, p⟩])
      { o with registry := o.registry.register p } where
  toNumbered := h.toNumbered.step (show Step keyOf o _ _ from .register o p)
  seats seat hseat := by
    rcases Registry.mem_place hseat with rfl | hseat
    · exact List.mem_append_right _ (List.mem_singleton.mpr rfl)
    · exact List.mem_append_left _ (h.seats seat hseat)
  below i act hmem := by
    rcases List.mem_append.mp hmem with hmem | hmem
    · exact h.below i act hmem
    · cases List.mem_singleton.mp hmem
  tasks t ht := (h.tasks t ht).snoc (by simp)
  entries p hp := by
    obtain ⟨q, hq, hkept⟩ := h.entries p hp
    exact ⟨q, hq, hkept.append _⟩

theorem begin (h : Traced keyOf events o) {d : Dispatch} (hd : d.seat ∈ o.registry.seats) :
    Traced keyOf (events ++ [.began o.next d])
      { o with tasks := o.tasks ++ [⟨o.next, d, .begun⟩], next := o.next + 1 } where
  toNumbered := h.toNumbered.step (show Step keyOf o _ _ from .begin o hd)
  seats seat hseat := List.mem_append_left _ (h.seats seat hseat)
  below i act hmem := by
    rcases List.mem_append.mp hmem with hmem | hmem
    · exact Nat.lt_succ_of_lt (h.below i act hmem)
    · cases List.mem_singleton.mp hmem
  tasks t ht := by
    rcases List.mem_append.mp ht with ht | ht
    · exact (h.tasks t ht).snoc (by simp)
    · -- a number that was never given has no past
      rw [List.mem_singleton.mp ht]
      refine ⟨List.mem_append_right _ (List.mem_singleton.mpr rfl),
        List.mem_append_left _ (h.seats _ hd), fun hmem => ?_, by simp, by simp⟩
      rcases List.mem_append.mp hmem with hmem | hmem
      · exact Nat.lt_irrefl _ (h.below _ _ hmem)
      · cases List.mem_singleton.mp hmem
  entries p hp := by
    obtain ⟨q, hq, hkept⟩ := h.entries p hp
    exact ⟨q, hq, hkept.append _⟩

theorem move (h : Traced keyOf events o) {before after : List Task} {i : Nat} {d : Dispatch}
    {stage : Stage} {act : Act} {stage' : Option Stage} {desk : Desk κ}
    (htasks : o.tasks = before ++ ⟨i, d, stage⟩ :: after)
    (hmove : Moves keyOf d stage o.desk act stage' desk) :
    Traced keyOf (events ++ [.did i act])
      { o with desk := desk, tasks := before ++ (stage'.map (Task.mk i d)).toList ++ after } := by
  have hmem : ⟨i, d, stage⟩ ∈ o.tasks := by
    rw [htasks]
    exact List.mem_append_right _ List.mem_cons_self
  have htask := h.tasks _ hmem
  constructor
  · exact h.toNumbered.step (.move htasks hmove)
  · exact fun seat hseat => List.mem_append_left _ (h.seats seat hseat)
  · intro j act' hact
    rcases List.mem_append.mp hact with hact | hact
    · exact h.below j act' hact
    · cases List.mem_singleton.mp hact
      exact h.next _ hmem
  · intro t ht
    rcases h.mem_cases htasks ht with ⟨ht, hne⟩ | ⟨s, rfl, rfl⟩
    · refine (h.tasks t ht).snoc fun heq => ?_
      cases heq
      exact hne rfl
    · obtain ⟨hact, hreturned, hsettled⟩ := hmove.next
      have hlast : Event.did i act ∈ events ++ [.did i act] :=
        List.mem_append_right _ (List.mem_singleton.mpr rfl)
      have hne : Event.did i act ≠ .did i .aborted := fun heq => hact (Event.did.inj heq).2
      have hkeep := htask.snoc hne
      exact ⟨hkeep.began, hkeep.registered, hkeep.aborted,
        fun run hrun => hreturned run hrun ▸ hlast, hsettled⟩
  · intro p hp
    rcases hmove.mem_entries hp with
      ⟨e, he, hresult⟩ | ⟨answer, rfl, rfl, hkey, hcacheable, hresult⟩
    · obtain ⟨q, hq, hkept⟩ := h.entries _ he
      exact ⟨q, hq, (hresult ▸ hkept).append _⟩
    · refine ⟨d.inquiry, hkey.symm, events, [], i, d, answer, rfl, rfl, htask.registered,
        htask.began, htask.returned _ rfl, htask.aborted, Status.isCacheable_iff.mp hcacheable,
        hresult⟩

end Traced

/-- **Nothing else can happen**: what is known of an office is kept up by every step. -/
theorem Traced.step {events : List Event} {o o' : Office κ} {event : Event}
    (h : Traced keyOf events o) (hstep : Step keyOf o event o') :
    Traced keyOf (events ++ [event]) o' := by
  cases hstep with
  | register p => exact h.register p
  | begin hd => exact h.begin hd
  | move htasks hmove => exact h.move htasks hmove

/-- An office in which nothing has happened. -/
structure IsNew (o : Office κ) : Prop where
  registry : o.registry.seats = []
  tasks : o.tasks = []
  entries : o.desk.cache.entries = []

namespace Run

variable {o₀ o : Office κ} {events : List Event}

/-- **All that is in the cache of an office was kept there for an inquiry**, in whatever order
dispatches went on and were broken off. -/
theorem traced (h : Run keyOf o₀ events o) (h₀ : o₀.IsNew) : Traced keyOf events o := by
  induction h with
  | nil =>
    refine ⟨⟨?_, ?_⟩, ?_, ?_, ?_, ?_⟩
    · simp [h₀.tasks]
    · simp [h₀.tasks]
    · simp [h₀.registry]
    · simp
    · simp [h₀.tasks]
    · simp [h₀.entries]
  | snoc _ hstep ih => exact ih.step hstep

/-- What happened was possible when it happened. -/
theorem exists_step (h : Run keyOf o₀ events o) {before after : List Event} {event : Event}
    (heq : events = before ++ event :: after) :
    ∃ o₁ o₂, Run keyOf o₀ before o₁ ∧ Step keyOf o₁ event o₂ := by
  induction h generalizing after with
  | nil => simp at heq
  | @snoc events last o₁ o₂ hrun hstep ih =>
    rcases List.eq_nil_or_concat after with rfl | ⟨after', last', rfl⟩
    · obtain ⟨rfl, hlast⟩ := List.append_inj' heq rfl
      cases hlast
      exact ⟨o₁, o₂, hrun, hstep⟩
    · rw [List.concat_eq_append, ← List.cons_append, ← List.append_assoc] at heq
      exact ih (List.append_inj' heq rfl).1

/-- **An answer from the cache is the result of an entry** that was there when it was looked for. -/
theorem answered (h : Run keyOf o₀ events o) (h₀ : o₀.IsNew) {before after : List Event} {i : Nat}
    {result : Result} (heq : events = before ++ .did i (.answered (.answered result)) :: after)
    (hcached : result.fromCache = true) :
    ∃ d o₁ entry, .began i d ∈ before ∧ Run keyOf o₀ before o₁ ∧
      o₁.desk.cache.find? (keyOf d.inquiry) = some entry ∧
      result = { entry.result with fromCache := true, elapsed := result.elapsed } := by
  obtain ⟨o₁, o₂, hrun, hstep⟩ := h.exists_step heq
  cases hstep with
  | @move _ tasks tasks' d stage _ _ _ htasks hmove =>
    have htask := (hrun.traced h₀).tasks ⟨i, d, stage⟩
      (by rw [htasks]; exact List.mem_append_right _ List.mem_cons_self)
    obtain ⟨entry, hfind, hresult⟩ := hmove.answered htask.settled hcached
    exact ⟨d, o₁, entry, htask.began, hrun, hfind, hresult⟩

end Run

end Office

end Deontica
