import Deontica.Proofs.Dispatch.Accounts
import Deontica.Proofs.Office

/-!
# The accounts of an office

What has happened in an office says of every dispatch whether the prover was called, whether the
call was cut short, and whether the prover settled the question (`History.past`).  A call is cut
short if the dispatch is broken off or the prover crashes.

The note of calls has every dispatch that called the prover.  The account of the prover has those of
them that are over and were not cut short, however dispatches took turns (`Office.Run.balanced`).
-/

namespace Deontica

/-! ### What is known of a dispatch -/

namespace Act

def isCall : Act → Bool
  | .called => true
  | _ => false

/-- The dispatch is broken off, or the prover crashes. -/
def isCut : Act → Bool
  | .aborted | .returned .crashed => true
  | _ => false

/-- The prover comes back with an answer that settles the question. -/
def isDecision : Act → Bool
  | .returned (.answered answer) => answer.status.isDecisive
  | _ => false

end Act

/-- What is known of a dispatch. -/
structure Past where
  /-- The prover was called. -/
  reached : Bool := false
  /-- The call was cut short. -/
  cutShort : Bool := false
  /-- The prover settled the question. -/
  decided : Bool := false

namespace Past

/-- What is known when the dispatch has done something more. -/
def after (p : Past) (act : Act) : Past where
  reached := p.reached || act.isCall
  cutShort := p.cutShort || act.isCut
  decided := p.decided || act.isDecision

/-- The prover was called, and the call was not cut short. -/
def isWhole (p : Past) : Bool :=
  p.reached && !p.cutShort

end Past

/-- What is known of a dispatch that has come so far. -/
def Stage.past : Stage → Past
  | .begun | .cleared => {}
  | .working => { reached := true }
  | .returned run => Past.after { reached := true } (.returned run)
  | .settled attempt => { reached := true, decided := attempt.isDecisive }

namespace Moves

variable {κ : Type} [DecidableEq κ] {keyOf : Inquiry → κ} {d : Dispatch} {stage : Stage}
  {desk desk' : Desk κ} {act : Act} {stage' : Option Stage}

/-- What is known of a dispatch that goes on. -/
theorem past_next {s : Stage} (h : Moves keyOf d stage desk act (some s) desk') :
    s.past = stage.past.after act := by
  generalize hnext : some s = stage' at h
  cases h with
  | refuse _ | hit _ _ | crash | account | abort => cases hnext
  | clear _ | miss _ _ | comeBack _ | giveUp _ | fail =>
    cases hnext
    rfl
  | @store _ answer now =>
    -- what the caller is to be told settles the question if the answer does
    cases hnext
    show Past.mk true false answer.status.isDecisive = _
    simp [Stage.past, Past.after, Act.isCall, Act.isCut, Act.isDecision]

/-- **A step calls the prover** exactly if the dispatch had not called it and now has. -/
theorem calls_eq (h : Moves keyOf d stage desk act stage' desk') :
    desk'.calls = desk.calls ++
      if (stage.past.after act).reached && !stage.past.reached then [d.seat.id] else [] := by
  cases h with
  | refuse _ | clear _ | comeBack _ | giveUp _ | crash | fail | account =>
    exact (List.append_nil _).symm
  | hit now hlookup =>
    rw [Desk.eq_of_lookup_cached hlookup]
    exact (List.append_nil _).symm
  | miss now hlookup =>
    rw [Desk.eq_of_lookup_called hlookup]
    rfl
  | store now => exact (Desk.calls_keep _ _ _ _).trans (List.append_nil _).symm
  | abort =>
    -- a dispatch can be broken off at any stage, and has called the prover or not
    show desk.calls = desk.calls ++
      if (stage.past.reached || false) && !stage.past.reached then _ else _
    simp

/-- **A step accounts for the call** exactly if it is the last one of a call not cut short. -/
theorem stats_eq (h : Moves keyOf d stage desk act stage' desk') :
    desk'.stats =
      if stage'.isNone && (stage.past.after act).isWhole then
        Desk.recordIn d.seat.name (stage.past.after act).decided desk.stats
      else desk.stats := by
  cases h with
  | refuse _ | clear _ | comeBack _ | giveUp _ | crash | fail => rfl
  | hit now hlookup =>
    rw [Desk.eq_of_lookup_cached hlookup]
    rfl
  | miss now hlookup =>
    rw [Desk.eq_of_lookup_called hlookup]
    rfl
  | store now => exact Desk.stats_keep _ _ _ _
  | account =>
    simp [Stage.past, Past.after, Past.isWhole, Act.isCall, Act.isCut, Act.isDecision, Desk.record]
  | abort => simp [Past.after, Past.isWhole, Act.isCut]

theorem callsOf_eq (h : Moves keyOf d stage desk act stage' desk') (id : Nat) :
    desk'.callsOf id = desk.callsOf id +
      if decide (d.seat.id = id) && ((stage.past.after act).reached && !stage.past.reached) then 1
      else 0 := by
  unfold Desk.callsOf
  rw [h.calls_eq, List.count_append]
  cases (stage.past.after act).reached && !stage.past.reached with
  | true =>
    rw [if_pos rfl, Bool.and_true, List.count_singleton]
    simp
  | false =>
    rw [Bool.and_false]
    rfl

theorem statsOf_eq (h : Moves keyOf d stage desk act stage' desk') (name : String) :
    desk'.statsOf name =
      if decide (d.seat.name = name) && (stage'.isNone && (stage.past.after act).isWhole) then
        (desk.statsOf name).record (stage.past.after act).decided
      else desk.statsOf name := by
  have hstats := h.stats_eq
  cases hlast : stage'.isNone && (stage.past.after act).isWhole with
  | true =>
    rw [hlast, if_pos rfl] at hstats
    rw [Desk.statsOf_of_recordIn hstats, Bool.and_true]
    exact if_congr (eq_comm.trans decide_eq_true_iff.symm) rfl rfl
  | false =>
    rw [hlast] at hstats
    rw [Bool.and_false, Desk.statsOf, hstats]
    rfl

end Moves

/-! ### What has happened -/

/-- The dispatch with this number did something of this kind. -/
def Event.isBy (i : Nat) (kind : Act → Bool) : Event → Bool
  | .did j act => decide (j = i) && kind act
  | _ => false

/-- The dispatch that began. -/
def Event.begun? : Event → Option (Nat × Dispatch)
  | .began i d => some (i, d)
  | _ => none

namespace History

/-- The dispatches that have begun, with their numbers. -/
def begun (events : List Event) : List (Nat × Dispatch) :=
  events.filterMap Event.begun?

/-- What is known of the dispatch with this number. -/
def past (events : List Event) (i : Nat) : Past where
  reached := events.any (Event.isBy i Act.isCall)
  cutShort := events.any (Event.isBy i Act.isCut)
  decided := events.any (Event.isBy i Act.isDecision)

/-- How many dispatches to certain seats are of a certain kind. -/
def count (events : List Event) (mine : Seat → Bool) (kind : Nat → Bool) : Nat :=
  (begun events).countP fun p => mine p.2.seat && kind p.1

variable {events : List Event} {i j : Nat} {d : Dispatch} {act : Act}

theorem begun_snoc (event : Event) :
    begun (events ++ [event]) = begun events ++ event.begun?.toList := by
  rw [begun, List.filterMap_append, begun]
  cases event <;> rfl

theorem past_snoc_did_self : past (events ++ [.did i act]) i = (past events i).after act := by
  simp [past, Past.after, Event.isBy]

/-- What one dispatch does says nothing about the others. -/
theorem past_snoc_of_ne {event : Event} (h : ∀ kind, event.isBy j kind = false) :
    past (events ++ [event]) j = past events j := by
  simp [past, h]

theorem isBy_did_of_ne (h : j ≠ i) (kind : Act → Bool) :
    Event.isBy j kind (.did i act) = false := by
  simp [Event.isBy, Ne.symm h]

theorem count_congr {mine mine' : Seat → Bool} {kind kind' : Nat → Bool}
    (hmine : ∀ p ∈ begun events, mine p.2.seat = mine' p.2.seat) (hkind : ∀ i, kind i = kind' i) :
    count events mine kind = count events mine' kind' := by
  refine List.countP_congr fun p hp => ?_
  rw [hmine p hp, hkind]

/-- Dispatches of a kind are counted in two parts. -/
theorem count_split (events : List Event) (mine : Seat → Bool) (kind part : Nat → Bool) :
    count events mine kind =
      (count events mine fun i => kind i && part i) +
        count events mine fun i => kind i && !part i := by
  unfold count
  rw [List.countP_eq_countP_filter_add _ _ (fun p => part p.1), List.countP_filter,
    List.countP_filter]
  simp only [Bool.and_assoc]

/-- **One more dispatch** that is not of the kind. -/
theorem count_began {n : Nat} {mine : Seat → Bool} {kind kind' : Nat → Bool}
    (hothers : ∀ p ∈ begun events, kind' p.1 = kind p.1) (hnew : kind' n = false) :
    count (events ++ [.began n d]) mine kind' = count events mine kind := by
  unfold count
  rw [begun_snoc, List.countP_append]
  have hlast : List.countP (fun p => mine p.2.seat && kind' p.1)
      (Event.begun? (.began n d)).toList = 0 := by
    simp [Event.begun?, hnew]
  rw [hlast, Nat.add_zero]
  refine List.countP_congr fun p hp => ?_
  rw [hothers p hp]

/-- **One dispatch becomes of the kind**, or stays what it is. -/
theorem count_did {mine : Seat → Bool} {kind kind' : Nat → Bool}
    (hnodup : ((begun events).map Prod.fst).Nodup) (hbegun : (i, d) ∈ begun events)
    (hothers : ∀ j, j ≠ i → kind' j = kind j) (hkeep : kind i = true → kind' i = true) :
    count (events ++ [.did i act]) mine kind' =
      count events mine kind + if mine d.seat && (kind' i && !kind i) then 1 else 0 := by
  unfold count
  rw [begun_snoc]
  show List.countP _ (begun events ++ []) = _
  rw [List.append_nil]
  obtain ⟨before, after, hsplit⟩ := List.mem_iff_append.mp hbegun
  rw [hsplit, List.map_append, List.map_cons, List.nodup_append, List.nodup_cons] at hnodup
  obtain ⟨_, ⟨hafter, _⟩, hbefore⟩ := hnodup
  -- the other dispatches have other numbers, so nothing changes for them
  have hcongr : ∀ l : List (Nat × Dispatch), (∀ p ∈ l, p.1 ≠ i) →
      l.countP (fun p => mine p.2.seat && kind' p.1) =
        l.countP (fun p => mine p.2.seat && kind p.1) := by
    intro l hl
    refine List.countP_congr fun p hp => ?_
    rw [hothers p.1 (hl p hp)]
  have hb := hcongr before fun p hp => hbefore _ (List.mem_map_of_mem hp) i List.mem_cons_self
  have ha := hcongr after fun p hp heq => hafter (List.mem_map.mpr ⟨p, hp, heq⟩)
  rw [hsplit, List.countP_append, List.countP_append, List.countP_cons, List.countP_cons, hb, ha]
  cases hmine : mine d.seat with
  | false => simp
  | true =>
    cases hkind : kind i with
    | false => simp; omega
    | true => simp [hkeep hkind]

end History

/-! ### The accounts -/

namespace Office

open History

variable {κ : Type}

/-- The dispatch with this number is not on its way. -/
def isOver (o : Office κ) (i : Nat) : Bool :=
  decide (i ∉ o.tasks.map (·.id))

/-- The dispatch has to be accounted for in this way: it is over, and it called the prover, was not
cut short, and settled the question or did not. -/
def isDue (events : List Event) (o : Office κ) (success : Bool) (i : Nat) : Bool :=
  o.isOver i && (past events i).isWhole && (past events i).decided == success

/-- **The accounts are in order**: all calls are noted, and of those that are over every one that
was not cut short is accounted for. -/
structure Balanced (events : List Event) (o : Office κ) : Prop extends Numbered o where
  begun : ((begun events).map Prod.fst).Nodup
  below : ∀ p ∈ History.begun events, p.1 < o.next
  /-- Nothing is known of a dispatch that has not begun. -/
  fresh : ∀ i, o.next ≤ i → past events i = {}
  tasks : ∀ t ∈ o.tasks, (t.id, t.dispatch) ∈ History.begun events ∧
    past events t.id = t.stage.past
  adds : ∀ name, (o.desk.statsOf name).Adds
  calls : ∀ id, o.desk.callsOf id =
    count events (fun s => decide (s.id = id)) fun i => (past events i).reached
  shares : ∀ name success, (o.desk.statsOf name).share success =
    count events (fun s => decide (s.name = name)) (isDue events o success)

/-- When a dispatch has taken a step, it is over or goes on, and so it is with the others as
before. -/
theorem Numbered.isOver_move {o : Office κ} (h : o.Numbered) {before after : List Task} {i : Nat}
    {d : Dispatch} {stage : Stage} (htasks : o.tasks = before ++ ⟨i, d, stage⟩ :: after)
    (stage' : Option Stage) (desk : Desk κ) (j : Nat) :
    isOver { o with desk := desk, tasks := before ++ (stage'.map (Task.mk i d)).toList ++ after }
      j = if j = i then stage'.isNone else o.isOver j := by
  unfold isOver
  by_cases hj : j = i
  · have hothers : ∀ t, t ∈ before ∨ t ∈ after → t.id ≠ i := fun t ht => (h.others htasks ht).2
    rw [if_pos hj, hj]
    cases stage' with
    | none =>
      refine decide_eq_true fun hi => ?_
      obtain ⟨t, ht, heq⟩ := List.mem_map.mp hi
      rw [List.append_assoc, List.mem_append] at ht
      exact hothers t ht heq
    | some s => simp
  · rw [if_neg hj, htasks]
    cases stage' with
    | none => simp [hj]
    | some s => simp

/-- **What has to be accounted for after a step**: nothing new, unless it was the last step of the
dispatch. -/
theorem count_isDue {events : List Event} {i : Nat} {d : Dispatch} {mine : Seat → Bool}
    {last : Bool} {o o' : Office κ} (act : Act) (success : Bool)
    (hnodup : ((History.begun events).map Prod.fst).Nodup) (hbegun : (i, d) ∈ History.begun events)
    (hbusy : o.isOver i = false)
    (hover : ∀ j, o'.isOver j = if j = i then last else o.isOver j) :
    count (events ++ [.did i act]) mine (isDue (events ++ [.did i act]) o' success) =
      count events mine (isDue events o success) +
        if mine d.seat && (last && ((past events i).after act).isWhole &&
          ((past events i).after act).decided == success) then 1 else 0 := by
  have hbefore : isDue events o success i = false := by
    rw [isDue, hbusy]
    rfl
  have hafter : isDue (events ++ [.did i act]) o' success i =
      (last && ((past events i).after act).isWhole &&
        ((past events i).after act).decided == success) := by
    rw [isDue, past_snoc_did_self, hover, if_pos rfl]
  have hothers : ∀ j, j ≠ i →
      isDue (events ++ [.did i act]) o' success j = isDue events o success j := by
    intro j hj
    rw [isDue, isDue, past_snoc_of_ne (isBy_did_of_ne hj), hover, if_neg hj]
  have hkeep : isDue events o success i = true →
      isDue (events ++ [.did i act]) o' success i = true := fun hdue =>
    absurd (hbefore.symm.trans hdue) Bool.false_ne_true
  rw [count_did hnodup hbegun hothers hkeep, hbefore, hafter, Bool.not_false, Bool.and_true]

namespace Balanced

variable {events : List Event} {o : Office κ}

theorem register (h : Balanced events o) (p : Prover) :
    Balanced (events ++ [.registered ⟨o.registry.next, p⟩])
      { o with registry := o.registry.register p } := by
  have hbegun : History.begun (events ++ [.registered ⟨o.registry.next, p⟩]) =
      History.begun events := (begun_snoc _).trans (List.append_nil _)
  have hpast : past (events ++ [.registered ⟨o.registry.next, p⟩]) = past events :=
    funext fun _ => past_snoc_of_ne fun _ => rfl
  refine ⟨⟨h.ids, h.next⟩, ?_, ?_, ?_, ?_, h.adds, ?_, ?_⟩
  · rw [hbegun]
    exact h.begun
  · rw [hbegun]
    exact h.below
  · rw [hpast]
    exact h.fresh
  · rw [hbegun, hpast]
    exact h.tasks
  · intro id
    rw [count, hbegun, hpast]
    exact h.calls id
  · intro name success
    have hdue : isDue (events ++ [.registered ⟨o.registry.next, p⟩])
        { o with registry := o.registry.register p } success = isDue events o success := by
      funext i
      rw [isDue, hpast]
      rfl
    rw [count, hbegun, hdue]
    exact h.shares name success

theorem begin (h : Balanced events o) (d : Dispatch)
    (hnumbered : Numbered
      { o with tasks := o.tasks ++ [⟨o.next, d, .begun⟩], next := o.next + 1 }) :
    Balanced (events ++ [.began o.next d])
      { o with tasks := o.tasks ++ [⟨o.next, d, .begun⟩], next := o.next + 1 } := by
  have hpast : past (events ++ [.began o.next d]) = past events :=
    funext fun _ => past_snoc_of_ne fun _ => rfl
  have hnew : past events o.next = {} := h.fresh o.next (Nat.le_refl _)
  have hbegun : History.begun (events ++ [.began o.next d]) =
      History.begun events ++ [(o.next, d)] := begun_snoc _
  refine ⟨hnumbered, ?_, ?_, ?_, ?_, h.adds, ?_, ?_⟩
  · rw [hbegun, List.map_append, List.nodup_append]
    refine ⟨h.begun, List.nodup_singleton _, fun i hi j hj => ?_⟩
    obtain ⟨p, hp, rfl⟩ := List.mem_map.mp hi
    rw [List.mem_singleton.mp hj]
    exact Nat.ne_of_lt (h.below p hp)
  · intro p hp
    rw [hbegun] at hp
    rcases List.mem_append.mp hp with hp | hp
    · exact Nat.lt_succ_of_lt (h.below p hp)
    · rw [List.mem_singleton.mp hp]
      exact Nat.lt_succ_self _
  · intro i hi
    rw [hpast]
    exact h.fresh i (Nat.le_of_succ_le hi)
  · intro t ht
    rw [hbegun, hpast]
    rcases List.mem_append.mp ht with ht | ht
    · exact ⟨List.mem_append_left _ (h.tasks t ht).1, (h.tasks t ht).2⟩
    · rw [List.mem_singleton.mp ht]
      exact ⟨List.mem_append_right _ (List.mem_singleton.mpr rfl), hnew⟩
  · intro id
    rw [hpast]
    refine (h.calls id).trans (count_began (fun _ _ => rfl) ?_).symm
    rw [hnew]
  · intro name success
    refine (h.shares name success).trans (count_began (fun p hp => ?_) ?_).symm
    · -- the new dispatch is none of those that had begun
      have hne : p.1 ≠ o.next := Nat.ne_of_lt (h.below p hp)
      simp [isDue, isOver, hpast, hne]
    · rw [isDue, hpast, hnew]
      simp [Past.isWhole]

variable [DecidableEq κ] {keyOf : Inquiry → κ}

theorem move (h : Balanced events o) {before after : List Task} {i : Nat} {d : Dispatch}
    {stage : Stage} {act : Act} {stage' : Option Stage} {desk : Desk κ}
    (htasks : o.tasks = before ++ ⟨i, d, stage⟩ :: after)
    (hmove : Moves keyOf d stage o.desk act stage' desk) :
    Balanced (events ++ [.did i act])
      { o with desk := desk, tasks := before ++ (stage'.map (Task.mk i d)).toList ++ after } := by
  have hmem : ⟨i, d, stage⟩ ∈ o.tasks := by
    rw [htasks]
    exact List.mem_append_right _ List.mem_cons_self
  obtain ⟨hbegan, hstage⟩ := h.tasks _ hmem
  have hbegun : History.begun (events ++ [.did i act]) = History.begun events :=
    (begun_snoc _).trans (List.append_nil _)
  have hpast : past (events ++ [.did i act]) i = stage.past.after act := by
    rw [past_snoc_did_self, hstage]
  have hothers : ∀ j, j ≠ i → past (events ++ [.did i act]) j = past events j := fun j hj =>
    past_snoc_of_ne (isBy_did_of_ne hj)
  refine ⟨h.toNumbered.step (.move htasks hmove), ?_, ?_, ?_, ?_, ?_, ?_, ?_⟩
  · rw [hbegun]
    exact h.begun
  · rw [hbegun]
    exact h.below
  · -- a number that has not been given is not that of the dispatch
    intro j hj
    have hne : j ≠ i := Nat.ne_of_gt (Nat.lt_of_lt_of_le (h.next _ hmem) hj)
    rw [hothers j hne]
    exact h.fresh j hj
  · intro t ht
    rw [hbegun]
    rcases h.mem_cases htasks ht with ⟨ht, hne⟩ | ⟨s, rfl, rfl⟩
    · rw [hothers t.id hne]
      exact h.tasks t ht
    · exact ⟨hbegan, hpast.trans hmove.past_next.symm⟩
  · intro name
    rw [hmove.statsOf_eq]
    split_ifs
    · exact (h.adds name).record _
    · exact h.adds name
  · -- a call is noted when the dispatch reaches the prover, and not again
    intro id
    rw [hmove.callsOf_eq, h.calls id]
    refine (congrArg _ ?_).trans (count_did h.begun hbegan
      (fun j hj => congrArg Past.reached (hothers j hj)) ?_).symm
    · rw [hpast, hstage]
    · rw [hpast, hstage]
      intro hreached
      simp [Past.after, hreached]
  · -- the dispatch was on its way, so it becomes due with its last step or never
    intro name success
    have hbusy : o.isOver i = false := decide_eq_false fun hi =>
      hi (List.mem_map.mpr ⟨_, hmem, rfl⟩)
    rw [count_isDue act success h.begun hbegan hbusy (h.isOver_move htasks stage' desk), hstage,
      hmove.statsOf_eq, apply_ite (ProverStats.share · success), ProverStats.share_record,
      h.shares name success]
    cases decide (d.seat.name = name) <;>
      cases stage'.isNone && (stage.past.after act).isWhole <;> simp

end Balanced

variable [DecidableEq κ] {keyOf : Inquiry → κ}

/-- **Every step keeps the accounts in order.** -/
theorem Balanced.step {events : List Event} {event : Event} {o o' : Office κ}
    (h : Balanced events o) (hstep : Step keyOf o event o') : Balanced (events ++ [event]) o' := by
  have hnumbered := h.toNumbered.step hstep
  cases hstep with
  | register p => exact h.register p
  | begin hd => exact h.begin _ hnumbered
  | move htasks hmove => exact h.move htasks hmove

/-- Nobody is on the way, and nobody was ever called. -/
structure IsIdle (o : Office κ) : Prop where
  tasks : o.tasks = []
  stats : o.desk.stats = []
  calls : o.desk.calls = []

namespace Run

variable {o₀ o : Office κ} {events : List Event}

/-- **The accounts of an office are in order**, in whatever order dispatches went on and were broken
off. -/
theorem balanced (h : Run keyOf o₀ events o) (h₀ : o₀.IsIdle) : Balanced events o := by
  induction h with
  | nil =>
    refine ⟨⟨?_, ?_⟩, ?_, ?_, ?_, ?_, ?_, ?_, ?_⟩
    · simp [h₀.tasks]
    · simp [h₀.tasks]
    · exact List.nodup_nil
    · simp [History.begun]
    · exact fun _ _ => rfl
    · simp [h₀.tasks]
    · intro name
      simp [Desk.statsOf, h₀.stats, ProverStats.Adds]
    · intro id
      simp [Desk.callsOf, h₀.calls, count, History.begun]
    · intro name success
      simp [Desk.statsOf, h₀.stats, count, History.begun, ProverStats.share]
  | snoc _ hstep ih => exact ih.step hstep

/-- As long as no prover is registered, dispatches are to those that were registered before. -/
theorem seats_begun (h : Run keyOf o₀ events o) (hfixed : ∀ seat, .registered seat ∉ events) :
    o.registry = o₀.registry ∧ ∀ p ∈ History.begun events, p.2.seat ∈ o₀.registry.seats := by
  induction h with
  | nil => exact ⟨rfl, by simp [History.begun]⟩
  | snoc _ hstep ih =>
    obtain ⟨hregistry, hseats⟩ := ih fun seat hmem => hfixed seat (List.mem_append_left _ hmem)
    rw [begun_snoc]
    cases hstep with
    | register p => exact absurd (List.mem_append_right _ (List.mem_singleton.mpr rfl)) (hfixed _)
    | begin hd =>
      refine ⟨hregistry, fun p hp => ?_⟩
      rcases List.mem_append.mp hp with hp | hp
      · exact hseats p hp
      · rw [List.mem_singleton.mp hp]
        exact hregistry ▸ hd
    | move htasks hmove =>
      refine ⟨hregistry, fun p hp => hseats p ?_⟩
      rcases List.mem_append.mp hp with hp | hp
      · exact hp
      · cases hp

/-- If the registry has not changed, no prover was registered. -/
theorem registered_notMem (h : Run keyOf o₀ events o) (hnext : o.registry.next = o₀.registry.next) :
    ∀ seat, .registered seat ∉ events := by
  suffices hlt : o₀.registry.next < o.registry.next ∨
      o.registry.next = o₀.registry.next ∧ ∀ seat, .registered seat ∉ events by
    rcases hlt with hlt | ⟨_, hnone⟩
    · exact absurd hnext (Nat.ne_of_gt hlt)
    · exact hnone
  clear hnext
  induction h with
  | nil => exact Or.inr ⟨rfl, by simp⟩
  | @snoc events event o o' _ hstep ih =>
    cases hstep with
    | register p =>
      have hle : o₀.registry.next ≤ o.registry.next := by
        rcases ih with hlt | ⟨heq, _⟩
        · exact Nat.le_of_lt hlt
        · exact Nat.le_of_eq heq.symm
      exact Or.inl (Nat.lt_succ_of_le hle)
    | begin hd => simpa using ih
    | move htasks hmove => simpa using ih

end Run

/-- **The account of a registered prover** when nobody is on the way.  All its calls are noted.  The
account has those that were not cut short, and all of them exactly if none was.  No count exceeds
the number of calls, so up to 2³² - 1 calls the account would be the same in 32 bits. -/
structure Accounts (events : List Event) (seat : Seat) (d : Desk κ) : Prop where
  calls : d.callsOf seat.id =
    count events (fun s => decide (s.id = seat.id)) fun i => (past events i).reached
  attempts : (d.statsOf seat.name).attempts =
    count events (fun s => decide (s.id = seat.id)) fun i => (past events i).isWhole
  successes : (d.statsOf seat.name).successes =
    count events (fun s => decide (s.id = seat.id)) fun i =>
      (past events i).isWhole && (past events i).decided
  failures : (d.statsOf seat.name).attempts =
    (d.statsOf seat.name).successes + (d.statsOf seat.name).failures
  complete : (d.statsOf seat.name).attempts = d.callsOf seat.id ↔
    ∀ p ∈ History.begun events, p.2.seat.id = seat.id → (past events p.1).reached = true →
      (past events p.1).cutShort = false
  fits : d.callsOf seat.id < UInt32.size → (d.statsOf seat.name).Fits

theorem Run.accounts {o₀ o : Office κ} {events : List Event} (h : Run keyOf o₀ events o)
    (h₀ : o₀.IsIdle) (hdistinct : o₀.registry.Distinct)
    (hfixed : ∀ seat, .registered seat ∉ events) (hrest : o.tasks = []) {seat : Seat}
    (hseat : seat ∈ o₀.registry.seats) : Accounts events seat o.desk := by
  have hbalanced := h.balanced h₀
  have hcalls := hbalanced.calls seat.id
  -- nobody is on the way, and a name stands for one seat only
  have hshare : ∀ success, (o.desk.statsOf seat.name).share success =
      count events (fun s => decide (s.id = seat.id)) fun i =>
        (past events i).isWhole && (past events i).decided == success := by
    intro success
    rw [hbalanced.shares]
    refine count_congr (fun p hp => ?_) fun i => ?_
    · have hp := (h.seats_begun hfixed).2 p hp
      exact decide_eq_decide.mpr (hdistinct.id_eq_iff hp hseat).symm
    · simp [isDue, isOver, hrest]
  have hsuccesses : (o.desk.statsOf seat.name).successes = _ := hshare true
  have hfailures : (o.desk.statsOf seat.name).failures = _ := hshare false
  have hadds : (o.desk.statsOf seat.name).attempts = _ := hbalanced.adds seat.name
  have hattempts : (o.desk.statsOf seat.name).attempts =
      count events (fun s => decide (s.id = seat.id)) fun i => (past events i).isWhole := by
    rw [hadds, hsuccesses, hfailures, count_split events _ (fun i => (past events i).isWhole)
      fun i => (past events i).decided]
    simp only [beq_true, beq_false]
  -- the calls are those that were cut short and those that were not
  have hsplit : o.desk.callsOf seat.id = (count events (fun s => decide (s.id = seat.id)) fun i =>
      (past events i).reached && (past events i).cutShort) +
        (o.desk.statsOf seat.name).attempts := by
    rw [hcalls, hattempts]
    exact count_split events _ (fun i => (past events i).reached) fun i => (past events i).cutShort
  refine ⟨hcalls, hattempts, ?_, hadds, ?_, fun hfew => ?_⟩
  · rw [hsuccesses]
    simp only [beq_true]
  · have hzero : (count events (fun s => decide (s.id = seat.id)) fun i =>
        (past events i).reached && (past events i).cutShort) = 0 ↔
        ∀ p ∈ History.begun events, p.2.seat.id = seat.id → (past events p.1).reached = true →
          (past events p.1).cutShort = false := by
      rw [count, List.countP_eq_zero]
      simp
    rw [← hzero]
    omega
  · exact ProverStats.Adds.fits hadds (Nat.lt_of_le_of_lt (hsplit ▸ Nat.le_add_left _ _) hfew)

end Office

end Deontica
