import Deontica.Proofs.Dispatch.Visit
import Deontica.Proofs.Prover
import Deontica.Proofs.Router

/-!
# Asking again

A strategy that tries candidates one after the other comes to a decision by a sequence of visits to
the shelf that its cache is (`Tried`).  What a candidate that did not decide has left behind makes
it not decide again (`Tried.left`): its answer is still on the shelf, since there is room for as
many results as there are candidates, or it has none and fails as before.  So a second run goes the
same way up to the candidate that decided, and finds that answer (`Tried.again`).
-/

namespace Deontica

variable {κ : Type} [DecidableEq κ]

/-! ### While nothing gets too old -/

namespace Cache

theorem expirations_drop (c : Cache κ) (key : κ) : (c.drop key).expirations = c.expirations := by
  rw [drop_eq]

theorem expirations_evict (recency : List (Nat × κ)) (c : Cache κ) :
    (evict recency c).expirations = c.expirations := by
  rw [evict_eq]

theorem expirations_put (c : Cache κ) (key : κ) (result : Result) (ttl : Option Nat) (now : Nat) :
    (c.put key result ttl now).expirations = c.expirations := by
  unfold put
  split_ifs
  · rfl
  · exact (expirations_evict _ _).trans (expirations_drop c key)

theorem expirations_le_get (c : Cache κ) (key : κ) (now : Nat) :
    c.expirations ≤ (c.get key now).2.expirations := by
  unfold get
  split_ifs
  · exact Nat.le_refl _
  split
  · exact Nat.le_refl _
  · split_ifs
    · exact Nat.le_succ _
    · exact Nat.le_of_eq (expirations_drop c key).symm

/-- What is there and is not found is too old, and that is noted. -/
theorem expirations_get_of_find? {c : Cache κ} {key : κ} {now : Nat} {e : Entry}
    (henabled : c.config.enabled = true) (hfind : c.find? key = some e)
    (hget : (c.get key now).1 = none) : (c.get key now).2.expirations = c.expirations + 1 := by
  cases hold : e.isExpired now with
  | true => simp [get, henabled, hfind, hold]
  | false => simp [get, henabled, hfind, hold] at hget

/-- As long as nothing gets too old, a cache finds what is on the shelf, and keeps it. -/
theorem Resembles.get_of_good {config : CacheConfig} {c : Cache κ} {l : Shelf κ} {key : κ}
    {now : Nat} (h : Resembles config c l)
    (hgood : (c.get key now).2.expirations = c.expirations) :
    (c.get key now).1 = (l.look key).map (fun i => { i.result with fromCache := true }) ∧
      ∃ l', Resembles config (c.get key now).2 l' ∧ l'.look = l.look := by
  obtain ⟨hanswer, hnext⟩ := h.get key now
  rcases Shelf.get_cases l key now with ⟨i, hlook, heq⟩ | heq
  · rw [heq] at hanswer hnext
    rw [hlook]
    exact ⟨hanswer, _, hnext, Shelf.look_front hlook⟩
  · rw [heq] at hanswer hnext
    cases hlook : l.look key with
    | none =>
      rw [Shelf.remove_of_look_eq_none hlook] at hnext
      exact ⟨hanswer, _, hnext, rfl⟩
    | some i =>
      obtain ⟨hconfig, henabled, -, used, horders, rfl⟩ := h
      have hfind : (used.find? (·.1 = key)).map item = some i :=
        (find?_map_item used key).symm.trans hlook
      obtain ⟨p, hp, -⟩ := Option.map_eq_some_iff.mp hfind
      have hentry : c.find? key = some p.2 := by rw [horders.find?_eq, hp, Option.map_some]
      have hnoted := expirations_get_of_find? (hconfig ▸ henabled) hentry hanswer
      omega

end Cache

namespace Desk

variable {config : CacheConfig} {d : Desk κ} {l : Shelf κ} {seat : Seat} {goal : Formula}
  {axioms : List Formula} {key : κ} {timeout now : Nat}

theorem expirations_finish (d : Desk κ) (seat : Seat) (key : κ) (ending : Ending) (now : Nat) :
    (d.finish seat key ending now).2.cache.expirations = d.cache.expirations := by
  rw [cache_finish]
  cases ending.kept seat.name with
  | none => rfl
  | some result => exact Cache.expirations_put _ _ _ _ _

theorem expirations_le_call (d : Desk κ) (seat : Seat) (goal : Formula) (axioms : List Formula)
    (key : κ) (timeout now : Nat) :
    d.cache.expirations ≤ (d.call seat goal axioms key timeout now).desk.cache.expirations := by
  have hle := Cache.expirations_le_get d.cache key now
  rcases d.call_cases seat goal axioms key timeout now with
    ⟨_, hcall⟩ | ⟨_, ⟨result, cache, hget, hcall⟩ | ⟨cache, hget, hcall⟩⟩
  · exact Nat.le_of_eq (congrArg (·.desk.cache.expirations) hcall).symm
  · rw [hcall]
    rwa [hget] at hle
  · rw [hcall, expirations_finish]
    rwa [hget] at hle

/-- **What is on the shelf is found**, and the prover is not called. -/
theorem call_of_look (h : Cache.Resembles config d.cache l)
    (havailable : seat.prover.available = true) {i : Item κ} (hlook : l.look key = some i)
    (hgood : (d.call seat goal axioms key timeout now).desk.cache.expirations =
      d.cache.expirations) :
    (d.call seat goal axioms key timeout now).attempt =
        .answered { i.result with fromCache := true, elapsed := ⟨0, 0⟩ } ∧
      (d.call seat goal axioms key timeout now).took = 0 ∧
      (d.call seat goal axioms key timeout now).desk.calls = d.calls ∧
      ∃ l', Cache.Resembles config (d.call seat goal axioms key timeout now).desk.cache l' ∧
        l'.look = l.look := by
  rcases d.call_cases seat goal axioms key timeout now with
    ⟨hunavailable, _⟩ | ⟨_, ⟨result, cache, hget, hcall⟩ | ⟨cache, hget, hcall⟩⟩
  · rw [havailable] at hunavailable
    cases hunavailable
  · rw [hcall] at hgood ⊢
    have hgood' : (d.cache.get key now).2.expirations = d.cache.expirations := by
      rw [hget]
      exact hgood
    obtain ⟨hfound, l', hnext, hsame⟩ := h.get_of_good hgood'
    rw [hget] at hnext hfound
    rw [hlook] at hfound
    cases hfound
    exact ⟨rfl, rfl, rfl, l', hnext, hsame⟩
  · rw [hcall, expirations_finish] at hgood
    have hgood' : (d.cache.get key now).2.expirations = d.cache.expirations := by
      rw [hget]
      exact hgood
    have hfound := (h.get_of_good hgood').1
    rw [hget, hlook] at hfound
    cases hfound

/-- A prover of which nothing is on the shelf is called, and if there is nothing to keep, nothing
changes there. -/
theorem call_of_look_eq_none (h : Cache.Resembles config d.cache l)
    (havailable : seat.prover.available = true) (hlook : l.look key = none)
    (hkept : (seat.prover.ending goal axioms timeout).kept seat.name = none) (now : Nat) :
    (d.call seat goal axioms key timeout now).attempt =
        attemptOf seat.name (seat.prover.ending goal axioms timeout) ∧
      (d.call seat goal axioms key timeout now).took = seat.prover.takes timeout ∧
      (d.call seat goal axioms key timeout now).desk.calls = d.calls ++ [seat.id] ∧
      Cache.Resembles config (d.call seat goal axioms key timeout now).desk.cache l := by
  obtain ⟨hanswer, hnext⟩ := h.get key now
  rcases Shelf.get_cases l key now with ⟨i, hsome, _⟩ | heq
  · rw [hlook] at hsome
    cases hsome
  rw [heq, Shelf.remove_of_look_eq_none hlook] at hnext
  rw [heq] at hanswer
  rcases d.call_cases seat goal axioms key timeout now with
    ⟨hunavailable, _⟩ | ⟨_, ⟨result, cache, hget, _⟩ | ⟨cache, hget, hcall⟩⟩
  · rw [havailable] at hunavailable
    cases hunavailable
  · rw [hget] at hanswer
    cases hanswer
  · rw [hcall]
    refine ⟨rfl, rfl, calls_finish _ _ _ _ _, ?_⟩
    rw [cache_finish, hkept]
    rw [hget] at hnext
    exact hnext

end Desk

/-! ### Coming to a decision -/

/-- Candidates are tried until one of them decides: on a shelf with so many places and until a
deadline, the candidates from a time on, with what is on the shelf then, come to a decision by one
of them, with its result and what is on the shelf in the end. -/
inductive Tried (limit : Nat) (goal : Formula) (axioms : List Formula) (keyOf : Seat → κ)
    (deadline : Nat) : List Seat → Nat → Shelf κ → Seat → Result → Shelf κ → Prop where
  | decided {seat : Seat} {seats : List Seat} {now took : Nat} {l l' : Shelf κ} {attempt : Attempt}
    (hnow : now < deadline)
    (visit : Visit limit goal axioms (deadline - now) seat (keyOf seat) l attempt took l')
    (hdecisive : attempt.isDecisive = true) :
    Tried limit goal axioms keyOf deadline (seat :: seats) now l seat attempt.toResult l'
  | next {seat decider : Seat} {seats : List Seat} {now took : Nat} {l l₁ l' : Shelf κ}
    {attempt : Attempt} {result : Result} (hnow : now < deadline)
    (visit : Visit limit goal axioms (deadline - now) seat (keyOf seat) l attempt took l₁)
    (hundecided : attempt.isDecisive = false)
    (rest : Tried limit goal axioms keyOf deadline seats (now + took) l₁ decider result l') :
    Tried limit goal axioms keyOf deadline (seat :: seats) now l decider result l'

/-- What a candidate that did not decide has left: it was not available, or its answer is on the
shelf, or nothing is there and there was nothing to keep. -/
inductive Left (goal : Formula) (axioms : List Formula) (timeout took : Nat) (seat : Seat) :
    Option (Item κ) → Prop where
  | refused {place : Option (Item κ)} (hunavailable : seat.prover.available = false) :
    Left goal axioms timeout took seat place
  | kept {i : Item κ} (havailable : seat.prover.available = true)
    (hundecided : i.result.status.isDecisive = false) : Left goal axioms timeout took seat (some i)
  | missed (havailable : seat.prover.available = true)
    (hpace : seat.prover.pace.isWithin timeout = true) (htook : seat.prover.pace.time = took)
    (hundecided : (Desk.attemptOf seat.name
      (.cameBack (seat.prover.run goal axioms timeout))).isDecisive = false)
    (hkept : (Ending.cameBack (seat.prover.run goal axioms timeout)).kept seat.name = none) :
    Left goal axioms timeout took seat none

namespace Tried

variable {limit deadline now took m : Nat} {goal : Formula} {axioms : List Formula}
  {keyOf : Seat → κ} {seats : List Seat} {seat decider : Seat} {l l₁ l' : Shelf κ}
  {attempt : Attempt} {result : Result} {k : κ} {i : Item κ}

theorem now_lt (t : Tried limit goal axioms keyOf deadline seats now l decider result l') :
    now < deadline := by
  cases t with
  | decided hnow => exact hnow
  | next hnow => exact hnow

theorem look_eq_none (t : Tried limit goal axioms keyOf deadline seats now l decider result l')
    (hk : k ∉ seats.map keyOf) (h : l.look k = none) : l'.look k = none := by
  induction t with
  | decided _ visit _ =>
    rw [List.map_cons, List.mem_cons, not_or] at hk
    exact visit.look_eq_none hk.1 h
  | next _ visit _ _ ih =>
    rw [List.map_cons, List.mem_cons, not_or] at hk
    exact ih hk.2 (visit.look_eq_none hk.1 h)

/-- **What another key has stays on the shelf** if there are places left for all candidates. -/
theorem look_take (t : Tried limit goal axioms keyOf deadline seats now l decider result l')
    (hk : k ∉ seats.map keyOf) (h : Shelf.look (l.take m) k = some i)
    (hm : m + seats.length ≤ limit) : l'.look k = some i := by
  induction t generalizing m with
  | decided _ visit _ =>
    rw [List.map_cons, List.mem_cons, not_or] at hk
    rw [List.length_cons] at hm
    exact Shelf.look_of_take (visit.look_take hk.1 h (by omega))
  | next _ visit _ _ ih =>
    rw [List.map_cons, List.mem_cons, not_or] at hk
    rw [List.length_cons] at hm
    exact ih hk.2 (visit.look_take hk.1 h (by omega)) (by omega)

/-- **A candidate that did not decide would not decide again.** -/
theorem left (rest : Tried limit goal axioms keyOf deadline seats (now + took) l₁ decider result l')
    (visit : Visit limit goal axioms (deadline - now) seat (keyOf seat) l attempt took l₁)
    (hundecided : attempt.isDecisive = false) (hkey : keyOf seat ∉ seats.map keyOf)
    (hroom : seats.length < limit) :
    Left goal axioms (deadline - now) took seat (l'.look (keyOf seat)) := by
  cases visit with
  | refused hunavailable => exact .refused hunavailable
  | @found havailable i hlook =>
    -- the answer is in front, and the candidates that follow do not push it off
    have hfront : Shelf.look ((i :: Shelf.remove (keyOf seat) l).take 1) (keyOf seat) = some i :=
      Shelf.look_cons_self (Shelf.key_of_look hlook) []
    rw [rest.look_take hkey hfront (by omega)]
    exact .kept havailable hundecided
  | @kept havailable i hi hkept =>
    have hfront : Shelf.look (((i :: Shelf.remove (keyOf seat) l).take limit).take 1) (keyOf seat) =
        some i := by
      rw [List.take_take, Nat.min_eq_left (by omega)]
      exact Shelf.look_cons_self hi []
    rw [rest.look_take hkey hfront (by omega)]
    exact .kept havailable hundecided
  | missed havailable hkept =>
    rw [rest.look_eq_none hkey (Shelf.look_remove_self (keyOf seat) l)]
    -- there was time left for the next candidate, so the prover came back
    have hlt := rest.now_lt
    have hpace : seat.prover.pace.isWithin (deadline - now) = true := by
      by_contra hlate
      rw [Prover.takes, if_neg hlate] at hlt
      omega
    rw [Prover.ending_of_isWithin hpace] at hkept hundecided
    exact .missed havailable hpace (if_pos hpace).symm hundecided hkept

end Tried

namespace Router

variable {config : CacheConfig} {r r' : Router κ} {goal : Formula} {axioms : List Formula}
  {deadline now : Nat} {l : Shelf κ} {result : Result}

theorem expirations_le_proveSequential (seats : List Seat) (last : Result) (now : Nat)
    (r : Router κ) :
    r.desk.cache.expirations ≤
      (proveSequential goal axioms deadline seats last now r).2.desk.cache.expirations := by
  induction seats generalizing last now r with
  | nil => exact Nat.le_refl _
  | cons seat seats ih =>
    have hcall := r.desk.expirations_le_call seat goal axioms (r.seatKey goal axioms seat)
      (deadline - now) now
    rcases Nat.lt_or_ge now deadline with hnow | hnow
    · cases h : (r.call seat goal axioms (deadline - now) now).1.isDecisive with
      | true =>
        rw [proveSequential_of_isDecisive hnow h]
        exact hcall
      | false =>
        rw [proveSequential_of_undecided hnow h]
        exact Nat.le_trans hcall (ih _ _ (r.call seat goal axioms (deadline - now) now).2.2)
    · have hstop : (proveSequential goal axioms deadline (seat :: seats) last now r).2 = r :=
        congrArg Prod.snd (proveSequential_of_le hnow seat seats last r)
      exact Nat.le_of_eq (congrArg (·.desk.cache.expirations) hstop).symm

/-- If nothing gets too old while candidates are tried, nothing does in the first call. -/
theorem expirations_call_of_proveSequential (hnow : now < deadline) {seat : Seat}
    {seats : List Seat} {last : Result}
    (hgood : (proveSequential goal axioms deadline (seat :: seats) last now
      r).2.desk.cache.expirations = r.desk.cache.expirations) :
    (r.call seat goal axioms (deadline - now) now).2.2.desk.cache.expirations =
      r.desk.cache.expirations := by
  cases h : (r.call seat goal axioms (deadline - now) now).1.isDecisive with
  | true =>
    rw [proveSequential_of_isDecisive hnow h] at hgood
    exact hgood
  | false =>
    rw [proveSequential_of_undecided hnow h] at hgood
    refine Nat.le_antisymm ?_ (r.desk.expirations_le_call _ _ _ _ _ _)
    rw [← hgood]
    exact expirations_le_proveSequential _ _ _ _

/-- From a router on, provers are called that do not decide, until a call of the decider gives the
result and leaves the router as said. -/
inductive DecidedBy (decider : Seat) (goal : Formula) (axioms : List Formula) (result : Result)
    (r' : Router κ) : Router κ → Prop where
  | last {r : Router κ} {timeout now took : Nat}
    (h : r.call decider goal axioms timeout now = (.answered result, took, r')) :
    DecidedBy decider goal axioms result r' r
  | before {r : Router κ} (seat : Seat) (timeout now : Nat)
    (hundecided : (r.call seat goal axioms timeout now).1.isDecisive = false)
    (rest : DecidedBy decider goal axioms result r' (r.call seat goal axioms timeout now).2.2) :
    DecidedBy decider goal axioms result r' r

theorem eq_answered_of_isDecisive {attempt : Attempt} (h : attempt.isDecisive = true) :
    attempt = .answered attempt.toResult := by
  cases attempt with
  | answered result => rfl
  | failed prover reason => cases h

/-- **A decision comes from trying candidates**, the last of which decided. -/
theorem tried_of_proveSequential (seats : List Seat) {last : Result}
    (hlast : last.status.isDecisive = false) (h : Cache.Resembles config r.desk.cache l)
    (hrun : proveSequential goal axioms deadline seats last now r = (result, r'))
    (hdecisive : result.status.isDecisive = true) :
    ∃ decider l', Tried config.maxEntries goal axioms (r.seatKey goal axioms) deadline seats now l
        decider result l' ∧
      Cache.Resembles config r'.desk.cache l' ∧ DecidedBy decider goal axioms result r' r := by
  induction seats generalizing last now r l with
  | nil =>
    cases hrun
    rw [hdecisive] at hlast
    cases hlast
  | cons seat seats ih =>
    rcases Nat.lt_or_ge now deadline with hnow | hnow
    · obtain ⟨l₁, visit, hnext⟩ := r.desk.visit_call h seat goal axioms (r.seatKey goal axioms seat)
        (deadline - now) now
      -- the shelf goes along with the cache from call to call
      cases hcall : (r.call seat goal axioms (deadline - now) now).1.isDecisive with
      | true =>
        rw [proveSequential_of_isDecisive hnow hcall] at hrun
        cases hrun
        have hanswered := eq_answered_of_isDecisive hcall
        exact ⟨seat, l₁, .decided hnow visit hcall, hnext, .last (Prod.ext hanswered rfl)⟩
      | false =>
        rw [proveSequential_of_undecided hnow hcall] at hrun
        have hlast' : (r.call seat goal axioms (deadline - now) now).1.toResult.status.isDecisive =
            false := (Attempt.isDecisive_eq _).symm.trans hcall
        obtain ⟨decider, l', rest, hres, hdecides⟩ := ih hlast' hnext hrun
        exact ⟨decider, l', .next hnow visit hcall rest, hres, .before seat _ _ hcall hdecides⟩
    · rw [proveSequential_of_le hnow] at hrun
      cases hrun
      cases hdecisive

end Router

/-! ### The second run -/

/-- **A candidate does not decide again**, and takes no longer than before. -/
theorem Left.call {config : CacheConfig} {d : Desk κ} {l : Shelf κ} {goal : Formula}
    {axioms : List Formula} {timeout timeout' took now : Nat} {seat : Seat} {key : κ}
    (left : Left goal axioms timeout took seat (l.look key))
    (hsteady : seat.prover.IsSteady goal axioms) (h : Cache.Resembles config d.cache l)
    (htimeout : timeout ≤ timeout')
    (hgood : (d.call seat goal axioms key timeout' now).desk.cache.expirations =
      d.cache.expirations) :
    (d.call seat goal axioms key timeout' now).attempt.isDecisive = false ∧
      (d.call seat goal axioms key timeout' now).took ≤ took ∧
      (∃ l', Cache.Resembles config (d.call seat goal axioms key timeout' now).desk.cache l' ∧
        l'.look = l.look) ∧
      ∀ id, id ≠ seat.id →
        (d.call seat goal axioms key timeout' now).desk.callsOf id = d.callsOf id := by
  generalize hplace : l.look key = place at left
  cases left with
  | refused hunavailable =>
    rw [Desk.call_of_unavailable hunavailable]
    exact ⟨rfl, Nat.zero_le _, ⟨l, h, rfl⟩, fun _ _ => rfl⟩
  | kept havailable hundecided =>
    obtain ⟨hattempt, htakes, hcalls, hnext⟩ := Desk.call_of_look h havailable hplace hgood
    rw [hattempt, htakes]
    refine ⟨hundecided, Nat.zero_le _, hnext, fun id _ => ?_⟩
    rw [Desk.callsOf, hcalls]
    rfl
  | missed havailable hpace htook hundecided hkept =>
    -- the prover is called again, comes back again, and there is again nothing to keep
    have hpace' := Pace.isWithin_mono hpace htimeout
    have hending : seat.prover.ending goal axioms timeout' =
        .cameBack (seat.prover.run goal axioms timeout) := by
      rw [Prover.ending_of_isWithin hpace', hsteady timeout timeout' hpace hpace']
    have hkept' : (seat.prover.ending goal axioms timeout').kept seat.name = none := by
      rw [hending]
      exact hkept
    obtain ⟨hattempt, htakes, hcalls, hnext⟩ :=
      Desk.call_of_look_eq_none h havailable hplace hkept' now
    rw [hattempt, hending, htakes, Prover.takes, if_pos hpace']
    refine ⟨hundecided, Nat.le_of_eq htook, ⟨l, hnext, rfl⟩, fun id hid => ?_⟩
    rw [Desk.callsOf, hcalls, List.count_append, List.count_singleton,
      if_neg (by simpa using Ne.symm hid)]
    rfl

namespace Tried

variable {config : CacheConfig} {deadline deadline' now now' : Nat} {goal : Formula}
  {axioms : List Formula} {keyOf : Seat → κ} {seats : List Seat} {decider : Seat} {l l' m : Shelf κ}
  {result : Result} {r : Router κ}

theorem mem {limit : Nat}
    (t : Tried limit goal axioms keyOf deadline seats now l decider result l') :
    decider ∈ seats := by
  induction t with
  | decided => exact List.mem_cons_self
  | next _ _ _ _ ih => exact List.mem_cons_of_mem _ ih

/-- **Trying the candidates again ends with the same answer**, now from the cache, and the prover
that gave it is not called. -/
theorem again (t : Tried config.maxEntries goal axioms keyOf deadline seats now l decider result l')
    (hkeys : (seats.map keyOf).Nodup) (hids : (seats.map (·.id)).Nodup)
    (hroom : seats.length ≤ config.maxEntries)
    (hsteady : ∀ seat ∈ seats, seat.prover.IsSteady goal axioms)
    (hkeyOf : r.seatKey goal axioms = keyOf) (h : Cache.Resembles config r.desk.cache m)
    (hsame : m.look = l'.look) (htime : deadline + now' ≤ deadline' + now) (last : Result)
    (hgood : (Router.proveSequential goal axioms deadline' seats last now'
      r).2.desk.cache.expirations = r.desk.cache.expirations) :
    (Router.proveSequential goal axioms deadline' seats last now' r).1 =
        { result with fromCache := true, elapsed := ⟨0, 0⟩ } ∧
      (Router.proveSequential goal axioms deadline' seats last now' r).2.desk.callsOf decider.id =
        r.desk.callsOf decider.id := by
  induction t generalizing r m now' last with
  | @decided seat seats now took l l' attempt hnow visit hdecisive =>
    -- the answer that decided is on the shelf
    have hnow' : now' < deadline' := by omega
    rw [List.length_cons] at hroom
    obtain ⟨havailable, i, hlook, answer, rfl, hanswer⟩ :=
      visit.look_of_isDecisive (by omega) hdecisive
    rw [← hsame, ← hkeyOf] at hlook
    obtain ⟨hattempt, _, hcalls, _⟩ := Desk.call_of_look h havailable hlook
      (Router.expirations_call_of_proveSequential hnow' hgood)
    have hcall : (r.call seat goal axioms (deadline' - now') now').1 =
        .answered { answer with fromCache := true, elapsed := ⟨0, 0⟩ } := by
      rw [← hanswer]
      exact hattempt
    have hagain : (r.call seat goal axioms (deadline' - now') now').1.isDecisive = true := by
      rw [hcall]
      exact hdecisive
    rw [Router.proveSequential_of_isDecisive hnow' hagain, hcall]
    exact ⟨rfl, congrArg (List.count seat.id) hcalls⟩
  | @next seat decider seats now took l l₁ l' attempt result hnow visit hundecided rest ih =>
    have hnow' : now' < deadline' := by omega
    rw [List.map_cons, List.nodup_cons] at hkeys hids
    rw [List.length_cons] at hroom
    rw [List.forall_mem_cons] at hsteady
    -- the first candidate finds what it has left, and does not decide
    have hleft := rest.left visit hundecided hkeys.1 (by omega)
    rw [← hsame, ← hkeyOf] at hleft
    have hfirst := Router.expirations_call_of_proveSequential hnow' hgood
    obtain ⟨hagain, htook, ⟨m', hnext, hsame'⟩, hcalls⟩ :=
      hleft.call hsteady.1 h (show deadline - now ≤ deadline' - now' by omega) hfirst
    rw [Router.proveSequential_of_undecided hnow' hagain] at hgood ⊢
    -- the rest is tried on a shelf where nothing has changed, and with no less time
    have htime' : deadline + (now' + (r.call seat goal axioms (deadline' - now') now').2.1) ≤
        deadline' + (now + took) := by
      have hle : (r.call seat goal axioms (deadline' - now') now').2.1 ≤ took := htook
      omega
    obtain ⟨hresult, hdecider⟩ := ih (r := (r.call seat goal axioms (deadline' - now') now').2.2)
      hkeys.2 hids.2 (by omega) hsteady.2 hkeyOf hnext (hsame'.trans hsame) htime' _
      (hgood.trans hfirst.symm)
    have hne : decider.id ≠ seat.id := fun heq =>
      hids.1 (List.mem_map.mpr ⟨decider, rest.mem, heq⟩)
    exact ⟨hresult, hdecider.trans (hcalls decider.id hne)⟩

end Tried

/-! ### Whole calls -/

namespace Router

variable {config : CacheConfig} {r r' : Router κ} {goal : Formula} {axioms : List Formula}
  {strategy : Strategy} {timeout now now' : Nat} {l : Shelf κ} {result : Result}

theorem proveAuto_of_answered {seat : Seat}
    (h : (r.call seat goal axioms timeout now).1 = .answered result) :
    (r.proveAuto seat goal axioms timeout now).1 = .ok result := by
  unfold proveAuto
  split
  · rename_i hcall
    rw [hcall] at h
    cases h
    rfl
  · rename_i hcall
    rw [hcall] at h
    cases h

theorem proveAuto_eq_ok {seat : Seat}
    (h : r.proveAuto seat goal axioms timeout now = (.ok result, r')) :
    ∃ took, r.call seat goal axioms timeout now = (.answered result, took, r') := by
  unfold proveAuto at h
  split at h
  · rename_i answer took r₁ hcall
    cases h
    exact ⟨took, hcall⟩
  · cases h

/-- What it takes for a router to give an answer again that it has given: its cache, with these
settings, is switched on and has room for an answer of each prover, the provers give the same answer
in all times within their pace, and the keys tell them apart.  That a prover's availability and pace
are the same in every call is part of what a `Prover` is. -/
structure IsReliable (r : Router κ) (config : CacheConfig) (goal : Formula)
    (axioms : List Formula) : Prop where
  enabled : config.enabled = true
  room : r.registry.size ≤ config.maxEntries
  steady : ∀ seat ∈ r.registry.seats, seat.prover.IsSteady goal axioms
  keys : r.KeysApart goal axioms

omit [DecidableEq κ] in
theorem IsReliable.nodup_keys (h : r.IsReliable config goal axioms)
    (hdistinct : r.registry.Distinct) : (r.registry.seats.map (r.seatKey goal axioms)).Nodup :=
  hdistinct.nodup.map_on fun _ hs _ ht => h.keys.eq hdistinct hs ht

/-- **A decision that is asked for again comes from the cache**, by a strategy that tries candidates
one after the other. -/
theorem again_of_takesTurns (hdistinct : r.registry.Distinct)
    (hreliable : r.IsReliable config goal axioms) (h : Cache.Resembles config r.desk.cache l)
    (hturns : strategy.takesTurns = true)
    (hfirst : r.prove goal axioms strategy timeout now = (.ok result, r'))
    (hdecisive : result.status.isDecisive = true)
    (hgood : (r'.prove goal axioms strategy timeout now').2.desk.cache.expirations =
      r'.desk.cache.expirations) :
    (r'.prove goal axioms strategy timeout now').1 =
        .ok { result with fromCache := true, elapsed := ⟨0, 0⟩ } ∧
      ∃ decider ∈ r.registry.seats, DecidedBy decider goal axioms result r' r ∧
        (r'.prove goal axioms strategy timeout now').2.desk.callsOf decider.id =
          r'.desk.callsOf decider.id := by
  have hne := lineup_ne_nil_of_prove hfirst
  have hperm := lineup_perm hdistinct strategy goal axioms
  rw [prove_of_takesTurns hturns hne] at hfirst
  obtain ⟨hresult, hrouter⟩ := Prod.mk.inj hfirst
  have hrun : proveSequential goal axioms (now + timeout) (r.lineup strategy goal axioms) untried
      now r = (result, r') := Prod.ext (Except.ok.inj hresult) hrouter
  obtain ⟨decider, l', tried, hnext, hdecided⟩ := tried_of_proveSequential _ rfl h hrun hdecisive
  -- the router that is asked again differs in its desk only, so it takes the candidates in the same
  -- order and under the same keys
  have hdesk := proveSequential_snd goal axioms (now + timeout) (r.lineup strategy goal axioms)
    untried now r
  rw [hrouter] at hdesk
  have hlineup : r'.lineup strategy goal axioms = r.lineup strategy goal axioms := by
    rw [hdesk]
    rfl
  have hkeyOf : r'.seatKey goal axioms = r.seatKey goal axioms := by
    rw [hdesk]
    rfl
  rw [prove_of_takesTurns hturns (hlineup ▸ hne), hlineup] at hgood ⊢
  have hkeys := (hperm.map (r.seatKey goal axioms)).nodup_iff.mpr (hreliable.nodup_keys hdistinct)
  have hids := (hperm.map (·.id)).nodup_iff.mpr hdistinct.ids
  have hroom : (r.lineup strategy goal axioms).length ≤ config.maxEntries :=
    Nat.le_trans (Nat.le_of_eq hperm.length_eq) hreliable.room
  have hsteady : ∀ seat ∈ r.lineup strategy goal axioms, seat.prover.IsSteady goal axioms :=
    fun seat hseat => hreliable.steady seat (hperm.mem_iff.mp hseat)
  obtain ⟨hagain, hcalls⟩ := tried.again hkeys hids hroom hsteady hkeyOf hnext rfl
    (Nat.le_of_eq (by omega)) untried hgood
  exact ⟨congrArg Except.ok hagain, decider, hperm.mem_iff.mp tried.mem, hdecided, hcalls⟩

/-- So it does by the strategy that calls one prover only. -/
theorem again_auto (hdistinct : r.registry.Distinct)
    (hreliable : r.IsReliable config goal axioms) (h : Cache.Resembles config r.desk.cache l)
    (hfirst : r.prove goal axioms .auto timeout now = (.ok result, r'))
    (hdecisive : result.status.isDecisive = true)
    (hgood : (r'.prove goal axioms .auto timeout now').2.desk.cache.expirations =
      r'.desk.cache.expirations) :
    (r'.prove goal axioms .auto timeout now').1 =
        .ok { result with fromCache := true, elapsed := ⟨0, 0⟩ } ∧
      ∃ decider ∈ r.registry.seats, DecidedBy decider goal axioms result r' r ∧
        (r'.prove goal axioms .auto timeout now').2.desk.callsOf decider.id =
          r'.desk.callsOf decider.id := by
  obtain ⟨seat, hseat, hauto⟩ := exists_prove_auto (lineup_ne_nil_of_prove hfirst)
  have hmem := (lineup_perm hdistinct .auto goal axioms).mem_iff.mp hseat
  obtain ⟨took, hcall⟩ := proveAuto_eq_ok ((hauto r.desk timeout now).symm.trans hfirst)
  obtain ⟨l', visit, hnext⟩ := r.desk.visit_call h seat goal axioms (r.seatKey goal axioms seat)
    timeout now
  have hdecided : DecidedBy seat goal axioms result r' r := .last hcall
  rw [call_eq] at hcall
  obtain ⟨hattempt, hrest⟩ := Prod.mk.inj hcall
  obtain ⟨-, rfl⟩ := Prod.mk.inj hrest
  rw [hattempt] at visit
  -- there is room for the answer, since the prover itself is registered
  have hroom : 0 < config.maxEntries :=
    Nat.lt_of_lt_of_le (List.length_pos_of_mem hmem) hreliable.room
  obtain ⟨havailable, i, hlook, answer, hanswer, hsame⟩ := visit.look_of_isDecisive hroom hdecisive
  cases hanswer
  rw [hauto, proveAuto_snd] at hgood ⊢
  obtain ⟨hagain, _, hcalls, _⟩ := Desk.call_of_look hnext havailable hlook hgood
  rw [hsame] at hagain
  exact ⟨proveAuto_of_answered hagain, seat, hmem, hdecided, congrArg (List.count seat.id) hcalls⟩

/-- **A decision that is asked for again comes from the cache.**  If the router gives a result that
settles the question by calling provers one after the other, or one only, and is asked again before
anything in its cache gets too old, then it gives the same outcome and message again, from the
cache, and does not call the prover again that gave it.  The provers are as available and as fast
the second time as the first (`Prover.pace`): a candidate that did not decide and has left no answer
is called again, and if it were slower then, the deadline could pass before the turn of the one that
decided.  Both deadlines, `now + timeout` and `now' + timeout`, are to be times of the clock (see
`prove`). -/
theorem prove_repeated (provers : List Prover) (config : CacheConfig) (fresh : Cache κ)
    (requests : List (Deontica.Request κ)) (r r' : Router κ) (goal : Formula)
    (axioms : List Formula) (strategy : Strategy) (timeout now now' : Nat) (result : Result)
    (hregistry : r.registry = .ofProvers provers) (hfresh : Cache.create config = .ok fresh)
    (hcache : r.desk.cache = requests.foldl (fun c request => (c.serve request).2) fresh)
    (hreliable : r.IsReliable config goal axioms) (hstrategy : strategy ≠ .parallel)
    (hfirst : r.prove goal axioms strategy timeout now = (.ok result, r'))
    (hdecisive : result.status.isDecisive = true)
    (hgood : (r'.prove goal axioms strategy timeout now').2.desk.cache.expirations =
      r'.desk.cache.expirations) :
    ∃ result', (r'.prove goal axioms strategy timeout now').1 = .ok result' ∧
      result.sameOutcome result' = true ∧ result'.message = result.message ∧
      result'.fromCache = true ∧
      ∃ decider ∈ r.registry.seats, DecidedBy decider goal axioms result r' r ∧
        (r'.prove goal axioms strategy timeout now').2.desk.callsOf decider.id =
          r'.desk.callsOf decider.id := by
  have hdistinct : r.registry.Distinct := hregistry ▸ Registry.distinct_ofProvers provers
  obtain ⟨l, h⟩ := (Cache.resembles_of_create hfresh hreliable.enabled).foldl_serve requests
  rw [← hcache] at h
  refine ⟨{ result with fromCache := true, elapsed := ⟨0, 0⟩ }, ?_⟩
  have hsame : result.sameOutcome { result with fromCache := true, elapsed := ⟨0, 0⟩ } = true := by
    simp [Result.sameOutcome]
  cases hturns : strategy.takesTurns with
  | true =>
    obtain ⟨hagain, hdecider⟩ :=
      again_of_takesTurns hdistinct hreliable h hturns hfirst hdecisive hgood
    exact ⟨hagain, hsame, rfl, rfl, hdecider⟩
  | false =>
    obtain rfl : strategy = .auto := by
      cases strategy with
      | auto => rfl
      | parallel => exact absurd rfl hstrategy
      | sequential | fastest | mostCapable => cases hturns
    obtain ⟨hagain, hdecider⟩ := again_auto hdistinct hreliable h hfirst hdecisive hgood
    exact ⟨hagain, hsame, rfl, rfl, hdecider⟩

/-- The first prover fails and is called again, the second does not decide, and its answer and that
of the native prover have pushed older ones out of the cache. -/
theorem prove_repeated_full_cache :
    let provers : List Prover :=
      [⟨"broken", true, {}, [], .millis 3, fun _ _ _ => .failed ["no memory"]⟩,
        ⟨"shy", true, {}, [], .millis 2, fun _ _ _ => .answered (.plain .unknown "shy")⟩,
        Native.prover {}]
    let config : CacheConfig := { maxEntries := 3 }
    let requests : List (Deontica.Request String) :=
      [.put "a" (.plain .unknown "a") none 0, .put "b" (.plain .proved "b") none 0,
        .put "c" (.plain .proved "c") none 0]
    let cache : Cache String :=
      requests.foldl (fun c request => (c.serve request).2) { config := config }
    let r : Router String :=
      { registry := .ofProvers provers, analyzer := {}, config := {}, keyOf := (·.prover)
        desk := { cache := cache } }
    let goal : Formula := .atom "P"
    let axioms : List Formula := [goal.always]
    r.IsReliable config goal axioms ∧
      ∃ result r' result', r.prove goal axioms .sequential 10 0 = (.ok result, r') ∧
        result.status = .proved ∧ (r'.prove goal axioms .sequential 10 9).1 = .ok result' ∧
        result.sameOutcome result' = true ∧ result'.message = result.message ∧
        result'.fromCache = true ∧
        ∃ decider ∈ r.registry.seats, DecidedBy decider goal axioms result r' r ∧
          (r'.prove goal axioms .sequential 10 9).2.desk.callsOf decider.id =
            r'.desk.callsOf decider.id := by
  intro provers config requests cache r goal axioms
  have hsteady : ∀ seat ∈ r.registry.seats, seat.prover.IsSteady goal axioms :=
    List.forall_mem_cons.mpr ⟨fun _ _ _ _ => rfl, List.forall_mem_cons.mpr ⟨fun _ _ _ _ => rfl,
      List.forall_mem_singleton.mpr (Native.isSteady_prover {} goal axioms)⟩⟩
  have hreliable : r.IsReliable config goal axioms :=
    ⟨rfl, by decide, hsteady, fun s _ t _ heq => heq⟩
  have hregistry : r.registry = .ofProvers provers := rfl
  have hfresh : Cache.create config = .ok ({ config := config } : Cache String) := rfl
  have hproved :
      (r.prove goal axioms .sequential 10 0).1.toOption.any (·.status == .proved) = true := by
    decide +kernel
  have hgood : ((r.prove goal axioms .sequential 10 0).2.prove goal axioms .sequential 10
      9).2.desk.cache.expirations =
        (r.prove goal axioms .sequential 10 0).2.desk.cache.expirations := by
    decide +kernel
  have hserved : cache =
      requests.foldl (fun c request => (c.serve request).2) { config := config } := rfl
  -- from here on, it does not matter what the cache and the router are
  clear_value cache
  have hcache : r.desk.cache = cache := rfl
  clear_value r
  obtain ⟨answer, r', hfirst⟩ : ∃ answer r', r.prove goal axioms .sequential 10 0 = (answer, r') :=
    ⟨_, _, rfl⟩
  rw [hfirst] at hproved hgood
  cases answer with
  | error e => cases hproved
  | ok result =>
    have hstatus : result.status = .proved := eq_of_beq hproved
    have hdecisive : result.status.isDecisive = true := by
      rw [hstatus]
      rfl
    obtain ⟨result', hrepeated⟩ := prove_repeated provers config { config := config } requests r r'
      goal axioms .sequential 10 0 9 result hregistry hfresh (hcache.trans hserved) hreliable
      (by decide) hfirst hdecisive hgood
    exact ⟨hreliable, result, r', result', hfirst, hstatus, hrepeated⟩

end Router

end Deontica
