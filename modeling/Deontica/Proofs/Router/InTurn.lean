import Deontica.Proofs.Router.Reports

/-!
# Candidates in turn

Three strategies try the candidates one after the other.  Every candidate has its turn, at a time
and with a router that follow from the turns before (`turnsFrom`).  What comes of a turn is said
here without reference to how a call is carried out: a prover that is not available fails, a good
entry of the cache answers for the prover, and otherwise the prover is called and takes its time,
but not more than is left (`Desk.dispatch`, `Desk.invokes`).

As long as turns are in time and decide nothing, the next one is tried
(`proveSequential_of_passed`).  So the first turn that decides or comes too late ends the attempt,
and if there is none, then the last one does (`FallsThrough`).
-/

namespace Deontica

/-- A call takes as long as the prover needs, but not more than it may. -/
theorem Prover.takes_eq_min (p : Prover) (timeout : Nat) :
    p.takes timeout = min p.pace.time timeout := by
  unfold takes
  cases hwithin : p.pace.isWithin timeout with
  | true =>
    have hle : p.pace.halves ≤ 2 * timeout := of_decide_eq_true hwithin
    rw [if_pos rfl, Nat.min_eq_left]
    cases hpace : p.pace with
    | millis n =>
      rw [hpace, Pace.halves] at hle
      exact Nat.le_of_mul_le_mul_left hle Nat.two_pos
    | computing => exact Nat.zero_le timeout
  | false =>
    have hlt : 2 * timeout < p.pace.halves := Nat.lt_of_not_le (of_decide_eq_false hwithin)
    rw [if_neg Bool.false_ne_true, Nat.min_eq_right]
    cases hpace : p.pace with
    | millis n =>
      rw [hpace, Pace.halves] at hlt
      exact Nat.le_of_lt (Nat.lt_of_mul_lt_mul_left hlt)
    | computing =>
      -- only without any time is a computing prover too late
      rw [hpace, Pace.halves] at hlt
      omega

variable {κ : Type} [DecidableEq κ]

/-! ### What a call comes to -/

namespace Cache

/-- The entry of a key, if it is good at the time. -/
def valid? (c : Cache κ) (key : κ) (now : Nat) : Option Entry :=
  if c.config.enabled then (c.find? key).filter (!·.isExpired now) else none

theorem get_fst (c : Cache κ) (key : κ) (now : Nat) :
    (c.get key now).1 = (c.valid? key now).map fun e => { e.result with fromCache := true } := by
  unfold get valid?
  cases c.config.enabled with
  | false => rfl
  | true =>
    cases c.find? key with
    | none => rfl
    | some e => cases hexpired : e.isExpired now <;> simp [Option.filter_some, hexpired]

end Cache

namespace Desk

/-- Whether a call of the prover would reach it. -/
def invokes (d : Desk κ) (seat : Seat) (key : κ) (now : Nat) : Bool :=
  seat.prover.available && (d.cache.valid? key now).isNone

/-- The result of a call that may take so many milliseconds. -/
def dispatch (d : Desk κ) (seat : Seat) (goal : Formula) (axioms : List Formula) (key : κ)
    (timeout now : Nat) : Result :=
  if seat.prover.available then
    match d.cache.valid? key now with
    | some e => { e.result with fromCache := true, elapsed := ⟨0, 0⟩ }
    | none => (attemptOf seat.name (seat.prover.ending goal axioms timeout)).toResult
  else .failure seat.name "prover reports unavailable"

variable (d : Desk κ) (seat : Seat) (goal : Formula) (axioms : List Formula) (key : κ)
  (timeout now : Nat)

/-- **What a call comes to.**  The prover is called only if it is available and the cache has no
good entry, and only then time passes. -/
theorem call_eq_dispatch :
    (d.call seat goal axioms key timeout now).attempt.toResult =
        d.dispatch seat goal axioms key timeout now ∧
      (d.call seat goal axioms key timeout now).took =
        (if d.invokes seat key now then min seat.prover.pace.time timeout else 0) ∧
      (d.call seat goal axioms key timeout now).desk.calls =
        d.calls ++ if d.invokes seat key now then [seat.id] else [] := by
  have hfound := Cache.get_fst d.cache key now
  unfold dispatch invokes
  rcases d.call_cases seat goal axioms key timeout now with
    ⟨havailable, hcall⟩ | ⟨havailable, ⟨result, cache, hget, hcall⟩ | ⟨cache, hget, hcall⟩⟩
  · rw [hcall, havailable]
    exact ⟨rfl, rfl, (List.append_nil _).symm⟩
  · rw [hget] at hfound
    obtain ⟨e, hvalid, rfl⟩ := Option.map_eq_some_iff.mp hfound.symm
    rw [hcall, havailable, hvalid]
    exact ⟨rfl, rfl, (List.append_nil _).symm⟩
  · rw [hget] at hfound
    rw [hcall, havailable, Option.map_eq_none_iff.mp hfound.symm, ← Prover.takes_eq_min]
    exact ⟨rfl, rfl, calls_finish _ _ _ _ _⟩

end Desk

/-! ### Turns -/

namespace Router

/-- A candidate's turn: the time at which it comes and the router as it is then. -/
structure Turn (κ : Type) where
  seat : Seat
  now : Nat
  router : Router κ

namespace Turn

variable (goal : Formula) (axioms : List Formula) (deadline : Nat)

/-- The good entry that the cache has for the prover. -/
def entry? (t : Turn κ) : Option Entry :=
  t.router.desk.cache.valid? (t.router.seatKey goal axioms t.seat) t.now

/-- An entry that answers for the prover is in its name. -/
def IsAttributed (t : Turn κ) : Prop :=
  ∀ e, t.entry? goal axioms = some e → e.result.prover = t.seat.name

/-- Whether the prover is called. -/
def isInvoked (t : Turn κ) : Bool :=
  t.router.desk.invokes t.seat (t.router.seatKey goal axioms t.seat) t.now

/-- The result of calling the prover with the time that is left. -/
def result (t : Turn κ) : Result :=
  t.router.desk.dispatch t.seat goal axioms (t.router.seatKey goal axioms t.seat) (deadline - t.now)
    t.now

/-- The time that passes. -/
def took (t : Turn κ) : Nat :=
  if t.isInvoked goal axioms then min t.seat.prover.pace.time (deadline - t.now) else 0

/-- The router afterwards. -/
def next (t : Turn κ) : Router κ :=
  (t.router.call t.seat goal axioms (deadline - t.now) t.now).2.2

/-- Whether the turn is in time and decides nothing. -/
def passes (t : Turn κ) : Bool :=
  decide (t.now < deadline) && !(t.result goal axioms deadline).status.isDecisive

/-- The registrations that are called in the turns, in their order. -/
def invoked (turns : List (Turn κ)) : List Nat :=
  (turns.filter (·.isInvoked goal axioms)).map (·.seat.id)

variable {goal axioms deadline}

theorem passes_iff {t : Turn κ} : t.passes goal axioms deadline = true ↔
    t.now < deadline ∧ (t.result goal axioms deadline).status.isDecisive = false := by
  rw [passes, Bool.and_eq_true, decide_eq_true_eq, Bool.not_eq_true']

theorem isInvoked_iff {t : Turn κ} : t.isInvoked goal axioms = true ↔
    t.seat.prover.available = true ∧ t.entry? goal axioms = none := by
  rw [isInvoked, Desk.invokes, Bool.and_eq_true, Option.isNone_iff_eq_none, entry?]

theorem available_of_isDecisive {t : Turn κ}
    (h : (t.result goal axioms deadline).status.isDecisive = true) :
    t.seat.prover.available = true := by
  by_contra hunavailable
  rw [result, Desk.dispatch, if_neg hunavailable] at h
  cases h

/-- What comes of the turn of an available prover is in its name exactly if no entry has another
name. -/
theorem prover_result_iff {t : Turn κ} (h : t.seat.prover.available = true) :
    (t.result goal axioms deadline).prover = t.seat.name ↔ t.IsAttributed goal axioms := by
  rw [result, Desk.dispatch, if_pos h, IsAttributed, entry?]
  cases t.router.desk.cache.valid? (t.router.seatKey goal axioms t.seat) t.now with
  | none => exact iff_of_true (Desk.prover_attemptOf _ _) fun e he => by cases he
  | some e =>
    constructor
    · rintro hname e' he
      cases he
      exact hname
    · intro hentry
      exact hentry e rfl

theorem invoked_nil : invoked goal axioms ([] : List (Turn κ)) = [] := rfl

theorem invoked_append (turns turns' : List (Turn κ)) :
    invoked goal axioms (turns ++ turns') =
      invoked goal axioms turns ++ invoked goal axioms turns' := by
  rw [invoked, List.filter_append, List.map_append]
  rfl

theorem invoked_cons (t : Turn κ) (turns : List (Turn κ)) :
    invoked goal axioms (t :: turns) =
      (if t.isInvoked goal axioms then [t.seat.id] else []) ++ invoked goal axioms turns := by
  rw [invoked, List.filter_cons]
  cases t.isInvoked goal axioms <;> rfl

/-- All turns pass, or one is the first that does not. -/
theorem passes_or_first (goal : Formula) (axioms : List Formula) (deadline : Nat)
    (turns : List (Turn κ)) :
    (∀ t ∈ turns, t.passes goal axioms deadline = true) ∨
      ∃ (before : List (Turn κ)) (t : Turn κ) (later : List (Turn κ)),
        turns = before ++ t :: later ∧ (∀ s ∈ before, s.passes goal axioms deadline = true) ∧
        t.passes goal axioms deadline = false := by
  cases hfind : turns.find? (!·.passes goal axioms deadline) with
  | none => exact Or.inl (by simpa using hfind)
  | some t =>
    obtain ⟨ht, before, later, heq, hbefore⟩ := List.find?_eq_some_iff_append.mp hfind
    exact Or.inr ⟨before, t, later, heq, by simpa using hbefore, by simpa using ht⟩

end Turn

/-- The turns of candidates from a time on, each with the router that the turn before has left. -/
def turnsFrom (goal : Formula) (axioms : List Formula) (deadline : Nat) :
    List Seat → Nat → Router κ → List (Turn κ)
  | [], _, _ => []
  | seat :: seats, now, r =>
    let t : Turn κ := ⟨seat, now, r⟩
    t :: turnsFrom goal axioms deadline seats (now + t.took goal axioms deadline)
      (t.next goal axioms deadline)

/-- The turns that a strategy has in store for the candidates. -/
def turns (r : Router κ) (strategy : Strategy) (goal : Formula) (axioms : List Formula)
    (timeout now : Nat) : List (Turn κ) :=
  turnsFrom goal axioms (now + timeout) (r.lineup strategy goal axioms) now r

variable {goal : Formula} {axioms : List Formula} {deadline : Nat}

theorem seats_turnsFrom (goal : Formula) (axioms : List Formula) (deadline : Nat)
    (seats : List Seat) (now : Nat) (r : Router κ) :
    (turnsFrom goal axioms deadline seats now r).map (·.seat) = seats := by
  induction seats generalizing now r with
  | nil => rfl
  | cons seat seats ih => rw [turnsFrom, List.map_cons, ih]

/-- The first of the turns is that of the first candidate. -/
theorem turnsFrom_eq_cons {seats : List Seat} {now : Nat} {r : Router κ} {t : Turn κ}
    {later : List (Turn κ)} (h : turnsFrom goal axioms deadline seats now r = t :: later) :
    ∃ others, seats = t.seat :: others ∧ now = t.now ∧ r = t.router ∧
      turnsFrom goal axioms deadline others (t.now + t.took goal axioms deadline)
        (t.next goal axioms deadline) = later := by
  cases seats with
  | nil => cases h
  | cons seat others =>
    obtain ⟨rfl, rfl⟩ := List.cons.inj h
    exact ⟨others, rfl, rfl, rfl, rfl⟩

theorem calls_next (t : Turn κ) :
    (t.next goal axioms deadline).desk.calls =
      t.router.desk.calls ++ if t.isInvoked goal axioms then [t.seat.id] else [] :=
  (t.router.desk.call_eq_dispatch t.seat goal axioms (t.router.seatKey goal axioms t.seat)
    (deadline - t.now) t.now).2.2

/-- One turn: it is too late, or it decides, or the next one is tried. -/
theorem proveSequential_turn (t : Turn κ) (others : List Seat) (last : Result) :
    proveSequential goal axioms deadline (t.seat :: others) last t.now t.router =
      if deadline ≤ t.now then
        (.noted .timeout t.seat.name "deadline passed before the prover was tried", t.router)
      else if (t.result goal axioms deadline).status.isDecisive then
        (t.result goal axioms deadline, t.next goal axioms deadline)
      else
        proveSequential goal axioms deadline others (t.result goal axioms deadline)
          (t.now + t.took goal axioms deadline) (t.next goal axioms deadline) := by
  obtain ⟨hresult, htook, -⟩ := t.router.desk.call_eq_dispatch t.seat goal axioms
    (t.router.seatKey goal axioms t.seat) (deadline - t.now) t.now
  rw [proveSequential, call_eq]
  dsimp only
  rw [hresult, htook]
  rfl

/-! ### From turn to turn -/

/-- **Turns that decide nothing are passed over**: what follows is an attempt with the candidates
that are left, whose turns are the remaining ones, and the calls so far are those of the turns. -/
theorem proveSequential_of_passed {before rest : List (Turn κ)}
    (hpasses : ∀ t ∈ before, t.passes goal axioms deadline = true) {seats : List Seat} {now : Nat}
    {r : Router κ} (h : turnsFrom goal axioms deadline seats now r = before ++ rest)
    (last : Result) :
    ∃ seats' now' r',
      turnsFrom goal axioms deadline seats' now' r' = rest ∧
      r'.desk.calls = r.desk.calls ++ Turn.invoked goal axioms before ∧
      proveSequential goal axioms deadline seats last now r =
        proveSequential goal axioms deadline seats'
          ((before.getLast?.map (·.result goal axioms deadline)).getD last) now' r' := by
  induction before generalizing seats now r last with
  | nil => exact ⟨seats, now, r, h, (List.append_nil _).symm, rfl⟩
  | cons t before ih =>
    rw [List.forall_mem_cons, Turn.passes_iff] at hpasses
    obtain ⟨⟨hnow, hundecided⟩, hpasses⟩ := hpasses
    obtain ⟨others, rfl, rfl, rfl, hrest⟩ := turnsFrom_eq_cons h
    obtain ⟨seats', now', r', hturns, hcalls, heq⟩ :=
      ih hpasses hrest (t.result goal axioms deadline)
    refine ⟨seats', now', r', hturns, ?_, ?_⟩
    · rw [hcalls, calls_next, List.append_assoc, Turn.invoked_cons]
    · rw [proveSequential_turn, if_neg (Nat.not_le.mpr hnow), hundecided,
        if_neg Bool.false_ne_true, heq]
      cases before with
      | nil => rfl
      | cons s before =>
        rw [List.getLast?_cons_cons]
        rfl

section Ends

variable {seats : List Seat} {now : Nat} {r : Router κ} {before later : List (Turn κ)} {t : Turn κ}

/-- The first to decide is the last to be tried. -/
theorem proveSequential_of_decided
    (h : turnsFrom goal axioms deadline seats now r = before ++ t :: later)
    (hpasses : ∀ s ∈ before, s.passes goal axioms deadline = true) (hnow : t.now < deadline)
    (hdecisive : (t.result goal axioms deadline).status.isDecisive = true) (last : Result) :
    (proveSequential goal axioms deadline seats last now r).1 = t.result goal axioms deadline ∧
      (proveSequential goal axioms deadline seats last now r).2.desk.calls =
        r.desk.calls ++ Turn.invoked goal axioms (before ++ [t]) := by
  obtain ⟨seats', now', r', hturns, hcalls, heq⟩ := proveSequential_of_passed hpasses h last
  obtain ⟨others, rfl, rfl, rfl, -⟩ := turnsFrom_eq_cons hturns
  rw [heq, proveSequential_turn, if_neg (Nat.not_le.mpr hnow), if_pos hdecisive]
  refine ⟨rfl, ?_⟩
  rw [calls_next, hcalls, List.append_assoc, Turn.invoked_append, Turn.invoked_cons,
    Turn.invoked_nil, List.append_nil]

/-- The first who is too late is not tried any more. -/
theorem proveSequential_of_late
    (h : turnsFrom goal axioms deadline seats now r = before ++ t :: later)
    (hpasses : ∀ s ∈ before, s.passes goal axioms deadline = true) (hnow : deadline ≤ t.now)
    (last : Result) :
    (proveSequential goal axioms deadline seats last now r).1 =
        .noted .timeout t.seat.name "deadline passed before the prover was tried" ∧
      (proveSequential goal axioms deadline seats last now r).2.desk.calls =
        r.desk.calls ++ Turn.invoked goal axioms before := by
  obtain ⟨seats', now', r', hturns, hcalls, heq⟩ := proveSequential_of_passed hpasses h last
  obtain ⟨others, rfl, rfl, rfl, -⟩ := turnsFrom_eq_cons hturns
  rw [heq, proveSequential_turn, if_pos hnow]
  exact ⟨rfl, hcalls⟩

/-- If nobody decides and nobody is too late, all are tried. -/
theorem proveSequential_of_all_passed
    (hpasses : ∀ s ∈ turnsFrom goal axioms deadline seats now r,
      s.passes goal axioms deadline = true) (last : Result) :
    (proveSequential goal axioms deadline seats last now r).1 =
        ((turnsFrom goal axioms deadline seats now r).getLast?.map
          (·.result goal axioms deadline)).getD last ∧
      (proveSequential goal axioms deadline seats last now r).2.desk.calls =
        r.desk.calls ++
          Turn.invoked goal axioms (turnsFrom goal axioms deadline seats now r) := by
  obtain ⟨seats', now', r', hturns, hcalls, heq⟩ :=
    proveSequential_of_passed hpasses (List.append_nil _).symm last
  have hseats := seats_turnsFrom goal axioms deadline seats' now' r'
  rw [hturns] at hseats
  subst hseats
  rw [heq]
  exact ⟨rfl, hcalls⟩

/-- Those who are called are some of the first in the order of turns. -/
theorem exists_tried (goal : Formula) (axioms : List Formula) (deadline : Nat)
    (seats : List Seat) (last : Result) (now : Nat) (r : Router κ) :
    ∃ tried, tried <+: turnsFrom goal axioms deadline seats now r ∧
      (proveSequential goal axioms deadline seats last now r).2.desk.calls =
        r.desk.calls ++ Turn.invoked goal axioms tried := by
  rcases Turn.passes_or_first goal axioms deadline
      (turnsFrom goal axioms deadline seats now r) with
    hpasses | ⟨before, t, later, heq, hpasses, ht⟩
  · exact ⟨_, List.prefix_rfl, (proveSequential_of_all_passed hpasses last).2⟩
  · rcases Nat.lt_or_ge t.now deadline with hnow | hnow
    · have hdecisive : (t.result goal axioms deadline).status.isDecisive = true := by
        by_contra hundecided
        rw [Turn.passes_iff.mpr ⟨hnow, Bool.eq_false_iff.mpr hundecided⟩] at ht
        cases ht
      refine ⟨before ++ [t], ⟨later, ?_⟩,
        (proveSequential_of_decided heq hpasses hnow hdecisive last).2⟩
      rw [heq, List.append_assoc, List.singleton_append]
    · exact ⟨before, ⟨t :: later, heq.symm⟩, (proveSequential_of_late heq hpasses hnow last).2⟩

end Ends

/-- What comes of turns up to a deadline: the result, and the router in the end. -/
structure FallsThrough (goal : Formula) (axioms : List Formula) (deadline : Nat) (r : Router κ)
    (turns : List (Turn κ)) (result : Result) (r' : Router κ) : Prop where
  /-- The first to decide gives the result, in its own name unless an entry of the cache has decided
  that is in another, and nobody later is called. -/
  decided : ∀ (before : List (Turn κ)) (t : Turn κ) (later : List (Turn κ)),
    turns = before ++ t :: later →
    (∀ s ∈ before, s.passes goal axioms deadline = true) → t.now < deadline →
    (t.result goal axioms deadline).status.isDecisive = true →
    result = t.result goal axioms deadline ∧
      (result.prover = t.seat.name ↔ t.IsAttributed goal axioms) ∧
      r'.desk.calls = r.desk.calls ++ Turn.invoked goal axioms (before ++ [t])
  /-- The first who is too late is named, and is not called. -/
  late : ∀ (before : List (Turn κ)) (t : Turn κ) (later : List (Turn κ)),
    turns = before ++ t :: later →
    (∀ s ∈ before, s.passes goal axioms deadline = true) → deadline ≤ t.now →
    result = .noted .timeout t.seat.name "deadline passed before the prover was tried" ∧
      r'.desk.calls = r.desk.calls ++ Turn.invoked goal axioms before
  /-- If nobody decides and nobody is too late, the last one gives the result. -/
  undecided : ∀ (before : List (Turn κ)) (t : Turn κ), turns = before ++ [t] →
    (∀ s ∈ turns, s.passes goal axioms deadline = true) →
    result = t.result goal axioms deadline ∧ result.status.isDecisive = false ∧
      r'.desk.calls = r.desk.calls ++ Turn.invoked goal axioms turns
  /-- Who is not available or has a good entry in the cache when the turn comes is not called. -/
  spared : ∀ id, (∀ t ∈ turns, t.seat.id = id →
      t.seat.prover.available = false ∨ ∃ e, t.entry? goal axioms = some e) →
    r'.desk.callsOf id = r.desk.callsOf id

/-- **Taking turns falls through** to the first who decides, to the first who is too late or to the
last one. -/
theorem fallsThrough_proveSequential (seats : List Seat) (last : Result) (now : Nat)
    (r : Router κ) :
    FallsThrough goal axioms deadline r (turnsFrom goal axioms deadline seats now r)
      (proveSequential goal axioms deadline seats last now r).1
      (proveSequential goal axioms deadline seats last now r).2 where
  decided before t later heq hpasses hnow hdecisive := by
    obtain ⟨hresult, hcalls⟩ := proveSequential_of_decided heq hpasses hnow hdecisive last
    refine ⟨hresult, ?_, hcalls⟩
    rw [hresult]
    exact Turn.prover_result_iff (Turn.available_of_isDecisive hdecisive)
  late before t later heq hpasses hnow := proveSequential_of_late heq hpasses hnow last
  undecided before t heq hpasses := by
    obtain ⟨hresult, hcalls⟩ := proveSequential_of_all_passed hpasses last
    rw [heq, List.getLast?_concat, Option.map_some, Option.getD_some] at hresult
    have ht := (Turn.passes_iff.mp (hpasses t (heq ▸ List.mem_concat_self))).2
    exact ⟨hresult, hresult ▸ ht, hcalls⟩
  spared id hid := by
    obtain ⟨tried, hfirst, hcalls⟩ := exists_tried goal axioms deadline seats last now r
    rw [Desk.callsOf, hcalls, List.count_append, Desk.callsOf, Nat.add_eq_left,
      List.count_eq_zero, Turn.invoked, List.mem_map]
    rintro ⟨t, ht, rfl⟩
    obtain ⟨ht, hinvoked⟩ := List.mem_filter.mp ht
    obtain ⟨havailable, hentry⟩ := Turn.isInvoked_iff.mp hinvoked
    rcases hid t (hfirst.subset ht) rfl with hunavailable | ⟨e, he⟩
    · rw [havailable] at hunavailable
      cases hunavailable
    · rw [hentry] at he
      cases he

/-! ### In whose name -/

theorem Attributes.isAttributed {t : Turn κ} (h : t.router.Attributes goal axioms)
    (hseat : t.seat ∈ t.router.registry.seats) : t.IsAttributed goal axioms := by
  intro e he
  unfold Turn.entry? Cache.valid? at he
  split_ifs at he with henabled
  obtain ⟨hfind, -⟩ := Option.filter_eq_some_iff.mp he
  exact h.results henabled _ (Cache.mem_of_find? hfind) t.seat hseat rfl

theorem Attributes.next {t : Turn κ} (h : t.router.Attributes goal axioms)
    (hseat : t.seat ∈ t.router.registry.seats) (deadline : Nat) :
    (t.next goal axioms deadline).Attributes goal axioms := by
  refine Desk.Trusts.call h hseat fun _ result hkept => ?_
  have hprover := Desk.prover_attemptOf t.seat.name
    (t.seat.prover.ending goal axioms (deadline - t.now))
  rw [Ending.attemptOf_of_kept hkept] at hprover
  exact hprover

/-- **The cache goes on to attribute its entries** in all turns and in the end. -/
theorem Attributes.turnsFrom {r : Router κ} (h : r.Attributes goal axioms) {seats : List Seat}
    (hseats : ∀ s ∈ seats, s ∈ r.registry.seats) (deadline : Nat) (last : Result) (now : Nat) :
    (∀ t ∈ turnsFrom goal axioms deadline seats now r, t.IsAttributed goal axioms) ∧
      (proveSequential goal axioms deadline seats last now r).2.Attributes goal axioms := by
  induction seats generalizing r last now with
  | nil => exact ⟨fun t ht => absurd ht List.not_mem_nil, h⟩
  | cons seat seats ih =>
    rw [List.forall_mem_cons] at hseats
    let t : Turn κ := ⟨seat, now, r⟩
    have hturn : t.IsAttributed goal axioms := h.isAttributed hseats.1
    have hnext : (t.next goal axioms deadline).Attributes goal axioms := h.next hseats.1 deadline
    obtain ⟨hlater, hend⟩ := ih hnext hseats.2 (t.result goal axioms deadline)
      (now + t.took goal axioms deadline)
    refine ⟨List.forall_mem_cons.mpr ⟨hturn, hlater⟩, ?_⟩
    rw [proveSequential_turn t]
    split_ifs
    · exact h
    · exact hnext
    · exact hend

/-! ### The strategies -/

/-- **Candidates are tried in turn until one decides.**  The turns are those of the candidates in
the order of the strategy.  If there is a candidate at all, there is a result, whoever fails: that
of the first who decides, or a timeout in the name of the first for whom no time was left, or what
the last one has to say.  Nobody later is called, and neither is who is not available or has a good
entry in the cache when the turn comes.  A decision is in the name of the candidate exactly if it
does not come from an entry in another name (`Turn.IsAttributed`).  A cache that attributes its
entries to those who gave them (`Attributes`) does so in all turns and goes on to do so.  All this
is for any `timeout` whose deadline `now + timeout` is a time of the clock (see `prove`). -/
theorem prove_fallsThrough (r : Router κ) (goal : Formula) (axioms : List Formula)
    {strategy : Strategy} (h : strategy.takesTurns = true) (timeout now : Nat) :
    (r.turns strategy goal axioms timeout now).map (·.seat) = r.lineup strategy goal axioms ∧
      (r.lineup strategy goal axioms = [] →
        r.prove goal axioms strategy timeout now = (.error .noCandidates, r)) ∧
      (r.lineup strategy goal axioms ≠ [] → ∃ result r',
        r.prove goal axioms strategy timeout now = (.ok result, r') ∧
          FallsThrough goal axioms (now + timeout) r (r.turns strategy goal axioms timeout now)
            result r') ∧
      (r.Attributes goal axioms →
        (∀ t ∈ r.turns strategy goal axioms timeout now, t.IsAttributed goal axioms) ∧
          (r.prove goal axioms strategy timeout now).2.Attributes goal axioms) := by
  refine ⟨seats_turnsFrom _ _ _ _ _ _, fun hnil => prove_of_lineup_eq_nil hnil timeout now,
    fun hne => ⟨_, _, prove_of_takesTurns h hne timeout now,
      fallsThrough_proveSequential _ untried now r⟩, fun hattributes => ?_⟩
  have hlineup : ∀ s ∈ r.lineup strategy goal axioms, s ∈ r.registry.seats := fun _ hs =>
    Registry.mem_of_mem_ordered hs
  obtain ⟨hturns, hend⟩ := hattributes.turnsFrom hlineup (now + timeout) untried now
  refine ⟨hturns, ?_⟩
  by_cases hnil : r.lineup strategy goal axioms = []
  · rw [prove_of_lineup_eq_nil hnil]
    exact hattributes
  · rw [prove_of_takesTurns h hnil]
    exact hend

/-- The first prover is not available, the second has an entry, the third fails and the fourth does
not know.  The fifth proves the goal when 10 of 15 ms have gone, and the sixth is not called. -/
theorem prove_fallsThrough_fifth :
    let provers : List Prover :=
      [⟨"absent", false, {}, [], .millis 0, fun _ _ _ => .crashed⟩,
        ⟨"kept", true, {}, [], .millis 0, fun _ _ _ => .crashed⟩,
        ⟨"broken", true, {}, [], .millis 2, fun _ _ _ => .failed ["no license"]⟩,
        ⟨"vague", true, {}, [], .millis 3, fun _ _ _ => .answered (.plain .unknown "v")⟩,
        ⟨"sure", true, {}, [], .millis 4, fun _ _ _ => .answered (.plain .proved "s")⟩,
        ⟨"spare", true, {}, [], .millis 0, fun _ _ _ => .answered (.plain .proved "s")⟩]
    let r : Router String :=
      { registry := .ofProvers provers, analyzer := {}, config := {}, keyOf := (·.prover)
        desk := { cache := Cache.put { config := {} } "kept" (.plain .unknown "kept") none 0 } }
    let goal : Formula := .atom "P"
    r.Attributes goal [] ∧ ∃ result r', r.prove goal [] .sequential 10 5 = (.ok result, r') ∧
      result.status = .proved ∧ result.prover = "sure" ∧ r'.desk.calls = [2, 3, 4] := by
  intro provers r goal
  have hattributes : r.Attributes goal [] := by
    refine ⟨fun _ s hs t ht hkey => ?_, fun _ p hp seat hseat hkey => ?_⟩
    · exact (Registry.distinct_ofProvers provers).eq_of_name_eq hs ht hkey
    · rcases Cache.mem_entries_put hp with hp | ⟨hp, hresult⟩
      · exact absurd hp List.not_mem_nil
      · rw [hresult]
        exact (hkey.trans hp).symm
  let turns := r.turns .sequential goal [] 10 5
  have hpasses : ∀ s ∈ turns.take 4, s.passes goal [] 15 = true :=
    List.all_eq_true.mp (by decide +kernel)
  have hinvoked : Turn.invoked goal [] (turns.take 5) = [2, 3, 4] := by decide +kernel
  let view (t : Turn String) : String × Nat × Status :=
    (t.seat.name, t.now, (t.result goal [] 15).status)
  have hfifth : turns[4]?.map view = some ("sure", 10, .proved) := by decide +kernel
  obtain ⟨t, ht, hview⟩ := Option.map_eq_some_iff.mp hfifth
  obtain ⟨hname, hnow, hstatus⟩ : t.seat.name = "sure" ∧ t.now = 10 ∧
      (t.result goal [] 15).status = .proved := by simpa [view] using hview
  obtain ⟨hlt, hget⟩ := List.getElem?_eq_some_iff.mp ht
  have hsplit : turns = turns.take 4 ++ t :: turns.drop 5 := by
    rw [← hget, ← List.drop_eq_getElem_cons hlt, List.take_append_drop]
  have htake : turns.take 5 = turns.take 4 ++ [t] := by
    rw [List.take_add_one, ht]
    rfl
  obtain ⟨hseats, -, hresult, hattributed⟩ :=
    prove_fallsThrough r goal [] (rfl : Strategy.sequential.takesTurns = true) 10 5
  have hlineup : r.lineup .sequential goal [] ≠ [] := by
    rw [← hseats]
    exact List.ne_nil_of_mem (List.mem_map_of_mem (List.mem_of_getElem? ht))
  obtain ⟨result, r', hprove, hfalls⟩ := hresult hlineup
  have hdecisive : (t.result goal [] 15).status.isDecisive = true := by
    rw [hstatus]
    rfl
  obtain ⟨rfl, hprover, hcalls⟩ := hfalls.decided _ t _ hsplit hpasses (by omega) hdecisive
  refine ⟨hattributes, _, r', hprove, hstatus, ?_, ?_⟩
  · rw [← hname]
    exact hprover.mpr ((hattributed hattributes).1 t (List.mem_of_getElem? ht))
  · rw [hcalls, ← htake, hinvoked]
    rfl

/-- An entry that was put into the cache in another name decides in that name.  An entry that is
good when the attempt begins can be gone when its turn comes: if there is room for one only, the
answer of the first candidate pushes out that of the second, who is called again. -/
theorem entry_misnamed_or_pushed_out :
    let vague : Prover :=
      ⟨"vague", true, {}, [], .millis 1, fun _ _ _ => .answered (.plain .unknown "v")⟩
    let sure : Prover :=
      ⟨"sure", true, {}, [], .millis 1, fun _ _ _ => .answered (.plain .proved "s")⟩
    let router (provers : List Prover) (cache : Cache String) : Router String :=
      { registry := .ofProvers provers, analyzer := {}, config := {}, keyOf := (·.prover)
        desk := { cache := cache } }
    let goal : Formula := .atom "P"
    let misled := router [sure] (Cache.put { config := {} } "sure" (.plain .proved "other") none 0)
    let crowded := router [vague, sure] { config := { maxEntries := 1 } }
    let again := (crowded.prove goal [] .sequential 10 0).2
    (misled.prove goal [] .sequential 10 0).1.toOption.map (fun result => (result.status,
        result.prover)) = some (.proved, "other") ∧
      again.desk.calls = [0, 1] ∧ (again.desk.cache.valid? "sure" 2).isSome = true ∧
      (again.prove goal [] .sequential 10 2).2.desk.calls = [0, 1, 0, 1] := by
  decide +kernel

end Router

end Deontica
