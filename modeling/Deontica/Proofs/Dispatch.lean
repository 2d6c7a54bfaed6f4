import Deontica.Proofs.Cache.Recency
import Deontica.Race.Runner

/-!
# What a call does

A call of a prover does one of three things: it is refused, it is answered from the cache, or the
prover is called and comes to an end (`Desk.call_cases`).  A candidate in a race begins in the same
way (`Desk.enter_cases`).  The other facts here say what that means for the cache, for the accounts
and for the note of calls.  What calls leave in the cache is such as it should be if what provers
give is (`Desk.Trusts`).
-/

namespace Deontica

theorem Status.isCacheable_iff {status : Status} :
    status.isCacheable = true ↔ status ∈ [.proved, .disproved, .unknown] := by
  cases status <;> decide

/-! ### What is in the cache -/

namespace Cache

variable {κ : Type} [DecidableEq κ] {c : Cache κ} {key : κ} {now : Nat} {p : κ × Entry}

theorem mem_of_find? {e : Entry} (h : c.find? key = some e) : (key, e) ∈ c.entries := by
  obtain ⟨before, after, heq, _⟩ := List.lookup_eq_some_iff.mp h
  rw [heq]
  exact List.mem_append_right _ List.mem_cons_self

theorem mem_entries_drop (h : p ∈ (c.drop key).entries) : p ∈ c.entries := by
  unfold drop at h
  split at h
  · exact h
  · exact List.mem_of_mem_filter h

theorem mem_entries_evict {recency : List (Nat × κ)} (h : p ∈ (evict recency c).entries) :
    p ∈ c.entries := by
  induction recency generalizing c with
  | nil => exact h
  | cons used recency ih =>
    unfold evict at h
    split_ifs at h
    · have hdrop := ih h
      exact mem_entries_drop (show p ∈ (c.drop used.2).entries from hdrop)
    · exact h

/-- A lookup brings no result into the cache. -/
theorem mem_entries_get (h : p ∈ (c.get key now).2.entries) :
    ∃ e, (p.1, e) ∈ c.entries ∧ e.result = p.2.result := by
  unfold get at h
  split_ifs at h
  · exact ⟨p.2, h, rfl⟩
  split at h
  · exact ⟨p.2, h, rfl⟩
  · rename_i entry hfind
    split_ifs at h
    · exact ⟨p.2, mem_entries_drop h, rfl⟩
    · -- what was found is put back as the entry used last
      rcases List.mem_cons.mp h with rfl | h
      · exact ⟨entry, mem_of_find? hfind, rfl⟩
      · exact ⟨p.2, mem_entries_drop h, rfl⟩

/-- What is found in the cache is the result of the entry, marked as cached. -/
theorem get_eq_some {result : Result} (h : (c.get key now).1 = some result) :
    ∃ e, c.find? key = some e ∧ result = { e.result with fromCache := true } := by
  unfold get at h
  split_ifs at h
  split at h
  · cases h
  · rename_i entry hfind
    split_ifs at h
    exact ⟨entry, hfind, (Option.some.inj h).symm⟩

/-- Storing brings nothing but the result into the cache. -/
theorem mem_entries_put {result : Result} {ttl : Option Nat}
    (h : p ∈ (c.put key result ttl now).entries) :
    p ∈ c.entries ∨ p.1 = key ∧ p.2.result = { result with fromCache := false } := by
  unfold put at h
  split_ifs at h
  · exact Or.inl h
  · rcases List.mem_cons.mp (mem_entries_evict h) with rfl | h
    · exact Or.inr ⟨rfl, rfl⟩
    · exact Or.inl (mem_entries_drop h)

theorem config_get (c : Cache κ) (key : κ) (now : Nat) : (c.get key now).2.config = c.config := by
  unfold get
  split_ifs
  · rfl
  split
  · rfl
  · split_ifs
    · exact config_drop c key
    · exact config_drop c key

theorem config_put (c : Cache κ) (key : κ) (result : Result) (ttl : Option Nat) (now : Nat) :
    (c.put key result ttl now).config = c.config := by
  unfold put
  split_ifs
  · rfl
  · exact (config_evict _ _).trans (config_drop c key)

/-- A cache that is switched off finds nothing. -/
theorem enabled_of_get_eq_some {result : Result} (h : (c.get key now).1 = some result) :
    c.config.enabled = true := by
  unfold get at h
  split_ifs at h with henabled
  simpa using henabled

end Cache

namespace Desk

variable {κ : Type} [DecidableEq κ] {d d' : Desk κ} {seat : Seat} {key : κ} {now : Nat}

theorem cache_lookup (d : Desk κ) (seat : Seat) (key : κ) (now : Nat) :
    (d.lookup seat key now).2.cache = (d.cache.get key now).2 := by
  unfold lookup
  split
  · rename_i heq
    rw [heq]
  · rename_i heq
    rw [heq]

theorem lookup_eq_cached {result : Result} (h : d.lookup seat key now = (.cached result, d')) :
    ∃ e, d.cache.find? key = some e ∧
      result = { e.result with fromCache := true, elapsed := ⟨0, 0⟩ } := by
  unfold lookup at h
  split at h
  · rename_i found cache heq
    obtain ⟨e, he, rfl⟩ := Cache.get_eq_some (congrArg Prod.fst heq)
    refine ⟨e, he, ?_⟩
    cases h
    rfl
  · cases h

/-- An entry that is good is found. -/
theorem lookup_of_find? (henabled : d.cache.config.enabled = true) {e : Entry}
    (hfind : d.cache.find? key = some e) (hgood : e.isExpired now = false) :
    (d.lookup seat key now).1 =
      .cached { e.result with fromCache := true, elapsed := ⟨0, 0⟩ } := by
  have hget : (d.cache.get key now).1 = some { e.result with fromCache := true } := by
    simp [Cache.get, henabled, hfind, hgood]
  unfold lookup
  split
  · rename_i heq
    rw [heq] at hget
    cases hget
    rfl
  · rename_i heq
    rw [heq] at hget
    cases hget

theorem lookup_ne_unavailable : d.lookup seat key now ≠ (.unavailable, d') := by
  unfold lookup
  split
  · exact nofun
  · exact nofun

/-- What is told at the end of a call is not marked as cached. -/
theorem fromCache_attemptOf {name : String} {ending : Ending} {result : Result}
    (h : attemptOf name ending = .answered result) : result.fromCache = false := by
  match ending, h with
  | .cameBack (.answered _), h => cases h; rfl
  | .tooLate _, h => cases h; rfl

/-- Whatever the caller is told is told in the name of the prover. -/
theorem prover_attemptOf (name : String) (ending : Ending) :
    (attemptOf name ending).toResult.prover = name := by
  cases ending with
  | tooLate timeout => rfl
  | cameBack run => cases run <;> rfl

end Desk

/-! ### Ends of calls -/

theorem Status.isCacheable_of_isDecisive {status : Status} (h : status.isDecisive = true) :
    status.isCacheable = true := by
  cases status <;> first | rfl | cases h

namespace Ending

/-- The answer that is kept when a call of the prover ends. -/
def kept (name : String) : Ending → Option Result
  | .cameBack (.answered result) =>
    if result.status.isCacheable then some { result with prover := name, fromCache := false }
    else none
  | _ => none

/-- Whether the call broke off, so that it is not accounted for. -/
def isCrash : Ending → Bool
  | .cameBack .crashed => true
  | _ => false

/-- What is kept is what the caller is told. -/
theorem attemptOf_of_kept {name : String} {ending : Ending} {result : Result}
    (h : ending.kept name = some result) : Desk.attemptOf name ending = .answered result := by
  unfold kept at h
  split at h
  · split_ifs at h
    rw [← Option.some.inj h]
    rfl
  · cases h

theorem fromCache_of_kept {name : String} {ending : Ending} {result : Result}
    (h : ending.kept name = some result) : { result with fromCache := false } = result := by
  unfold kept at h
  split at h
  · split_ifs at h
    rw [← Option.some.inj h]
  · cases h

/-- An answer that settles the question is kept. -/
theorem kept_of_isDecisive {name : String} {ending : Ending} {result : Result}
    (h : Desk.attemptOf name ending = .answered result) (hdecisive : result.status.isDecisive) :
    ending.kept name = some result := by
  unfold Desk.attemptOf at h
  split at h
  · cases h
    exact if_pos (Status.isCacheable_of_isDecisive hdecisive)
  · cases h
  · cases h
  · cases h
    cases hdecisive

end Ending

/-- How a call of the prover ends that may take so many milliseconds. -/
def Prover.ending (p : Prover) (goal : Formula) (axioms : List Formula) (timeout : Nat) : Ending :=
  if p.pace.isWithin timeout then .cameBack (p.run goal axioms timeout) else .tooLate timeout

/-- The milliseconds after which the call ends. -/
def Prover.takes (p : Prover) (timeout : Nat) : Nat :=
  if p.pace.isWithin timeout then p.pace.time else timeout

theorem Prover.ending_of_isWithin {p : Prover} {timeout : Nat} (h : p.pace.isWithin timeout = true)
    (goal : Formula) (axioms : List Formula) :
    p.ending goal axioms timeout = .cameBack (p.run goal axioms timeout) :=
  if_pos h

namespace Attempt

/-- An attempt settles the question if its result does. -/
theorem isDecisive_eq (attempt : Attempt) :
    attempt.isDecisive = attempt.toResult.status.isDecisive := by
  cases attempt <;> rfl

end Attempt

namespace Desk

variable {κ : Type} [DecidableEq κ]

theorem calls_keep (d : Desk κ) (key : κ) (result : Result) (now : Nat) :
    (d.keep key result now).calls = d.calls := by
  unfold keep
  split_ifs <;> rfl

theorem stats_keep (d : Desk κ) (key : κ) (result : Result) (now : Nat) :
    (d.keep key result now).stats = d.stats := by
  unfold keep
  split_ifs <;> rfl

theorem finish_fst (d : Desk κ) (seat : Seat) (key : κ) (ending : Ending) (now : Nat) :
    (d.finish seat key ending now).1 = attemptOf seat.name ending := by
  cases ending with
  | tooLate timeout => rfl
  | cameBack run => cases run <;> rfl

theorem calls_finish (d : Desk κ) (seat : Seat) (key : κ) (ending : Ending) (now : Nat) :
    (d.finish seat key ending now).2.calls = d.calls := by
  cases ending with
  | tooLate timeout => rfl
  | cameBack run =>
    cases run with
    | answered result => exact calls_keep d key _ now
    | failed causes => rfl
    | crashed => rfl

/-- **A call that ends is accounted for**, unless it broke off. -/
theorem stats_finish (d : Desk κ) (seat : Seat) (key : κ) (ending : Ending) (now : Nat) :
    (d.finish seat key ending now).2.stats =
      if ending.isCrash then d.stats
      else recordIn seat.name (attemptOf seat.name ending).isDecisive d.stats := by
  cases ending with
  | tooLate timeout => rfl
  | cameBack run =>
    cases run with
    | answered result => exact congrArg (recordIn seat.name _) (stats_keep d key _ now)
    | failed causes => rfl
    | crashed => rfl

/-- **A call that ends stores what it keeps**, and nothing else. -/
theorem cache_finish (d : Desk κ) (seat : Seat) (key : κ) (ending : Ending) (now : Nat) :
    (d.finish seat key ending now).2.cache =
      (ending.kept seat.name).elim d.cache (d.cache.put key · none now) := by
  cases ending with
  | tooLate timeout => rfl
  | cameBack run =>
    cases run with
    | answered result =>
      show (d.keep key { result with prover := seat.name, fromCache := false } now).cache = _
      unfold keep Ending.kept
      dsimp only
      split_ifs <;> rfl
    | failed causes => rfl
    | crashed => rfl

/-! ### Calls -/

/-- The desk when the prover has been called, since the cache had no answer. -/
def called (d : Desk κ) (seat : Seat) (cache : Cache κ) : Desk κ :=
  { d with cache := cache, calls := d.calls ++ [seat.id] }

theorem eq_of_lookup_cached {d d' : Desk κ} {seat : Seat} {key : κ} {now : Nat} {result : Result}
    (h : d.lookup seat key now = (.cached result, d')) :
    d' = { d with cache := (d.cache.get key now).2 } := by
  unfold lookup at h
  split at h
  · rename_i heq
    cases h
    rw [heq]
  · cases h

theorem eq_of_lookup_called {d d' : Desk κ} {seat : Seat} {key : κ} {now : Nat}
    (h : d.lookup seat key now = (.called, d')) :
    d' = d.called seat (d.cache.get key now).2 := by
  unfold lookup at h
  split at h
  · cases h
  · rename_i heq
    cases h
    rw [heq]
    rfl

/-- **How a call begins.** -/
theorem start_cases (d : Desk κ) (seat : Seat) (key : κ) (now : Nat) :
    seat.prover.available = false ∧ d.start seat key now = (.unavailable, d) ∨
      seat.prover.available = true ∧
        ((∃ result cache, d.cache.get key now = (some result, cache) ∧
            d.start seat key now =
              (.cached { result with elapsed := ⟨0, 0⟩ }, { d with cache := cache })) ∨
          ∃ cache, d.cache.get key now = (none, cache) ∧
            d.start seat key now = (.called, d.called seat cache)) := by
  unfold start
  cases havailable : seat.prover.available with
  | false => exact Or.inl ⟨rfl, rfl⟩
  | true =>
    refine Or.inr ⟨rfl, ?_⟩
    show (∃ result cache, _ ∧ d.lookup seat key now = _) ∨ ∃ cache, _ ∧ d.lookup seat key now = _
    unfold lookup
    cases hget : d.cache.get key now with
    | mk found cache =>
      cases found with
      | some result => exact Or.inl ⟨result, cache, rfl, rfl⟩
      | none => exact Or.inr ⟨cache, rfl, rfl⟩

/-- **What a call can do.** -/
theorem call_cases (d : Desk κ) (seat : Seat) (goal : Formula) (axioms : List Formula) (key : κ)
    (timeout now : Nat) :
    seat.prover.available = false ∧
        d.call seat goal axioms key timeout now = ⟨.unavailable seat.name, d, 0⟩ ∨
      seat.prover.available = true ∧
        ((∃ result cache, d.cache.get key now = (some result, cache) ∧
            d.call seat goal axioms key timeout now =
              ⟨.answered { result with elapsed := ⟨0, 0⟩ }, { d with cache := cache }, 0⟩) ∨
          ∃ cache, d.cache.get key now = (none, cache) ∧
            d.call seat goal axioms key timeout now =
              ⟨attemptOf seat.name (seat.prover.ending goal axioms timeout),
                ((d.called seat cache).finish seat key (seat.prover.ending goal axioms timeout)
                  (now + seat.prover.takes timeout)).2,
                seat.prover.takes timeout⟩) := by
  unfold call
  rcases d.start_cases seat key now with
    ⟨havailable, hstart⟩ | ⟨havailable, ⟨result, cache, hget, hstart⟩ | ⟨cache, hget, hstart⟩⟩
  · rw [hstart]
    exact Or.inl ⟨havailable, rfl⟩
  · rw [hstart]
    exact Or.inr ⟨havailable, Or.inl ⟨result, cache, hget, rfl⟩⟩
  · rw [hstart]
    refine Or.inr ⟨havailable, Or.inr ⟨cache, hget, ?_⟩⟩
    rw [← finish_fst (d.called seat cache) seat key (seat.prover.ending goal axioms timeout)
      (now + seat.prover.takes timeout)]
    rfl

/-- **How a candidate enters a race.** -/
theorem enter_cases (d : Desk κ) (seat : Seat) (goal : Formula) (axioms : List Formula) (key : κ)
    (timeout now : Nat) :
    seat.prover.available = false ∧
        d.enter seat goal axioms key timeout now =
          (.ready (Attempt.unavailable seat.name).toResult, d) ∨
      seat.prover.available = true ∧
        ((∃ result cache, d.cache.get key now = (some result, cache) ∧
            d.enter seat goal axioms key timeout now =
              (.ready { result with elapsed := ⟨0, 0⟩ }, { d with cache := cache })) ∨
          ∃ cache, d.cache.get key now = (none, cache) ∧
            d.enter seat goal axioms key timeout now =
              if seat.prover.pace = .millis 0 then
                (.ofRun seat.name (seat.prover.run goal axioms timeout),
                  ((d.called seat cache).finish seat key
                    (.cameBack (seat.prover.run goal axioms timeout)) now).2)
              else (.running (seat.prover.run goal axioms timeout), d.called seat cache)) := by
  unfold enter
  rcases d.start_cases seat key now with
    ⟨havailable, hstart⟩ | ⟨havailable, ⟨result, cache, hget, hstart⟩ | ⟨cache, hget, hstart⟩⟩
  · rw [hstart]
    exact Or.inl ⟨havailable, rfl⟩
  · rw [hstart]
    exact Or.inr ⟨havailable, Or.inl ⟨result, cache, hget, rfl⟩⟩
  · rw [hstart]
    exact Or.inr ⟨havailable, Or.inr ⟨cache, hget, rfl⟩⟩

theorem call_of_unavailable {seat : Seat} (h : seat.prover.available = false) (d : Desk κ)
    (goal : Formula) (axioms : List Formula) (key : κ) (timeout now : Nat) :
    d.call seat goal axioms key timeout now = ⟨.unavailable seat.name, d, 0⟩ := by
  rcases d.call_cases seat goal axioms key timeout now with ⟨_, hcall⟩ | ⟨havailable, _⟩
  · exact hcall
  · rw [h] at havailable
    cases havailable

theorem enter_of_unavailable {seat : Seat} (h : seat.prover.available = false) (d : Desk κ)
    (goal : Formula) (axioms : List Formula) (key : κ) (timeout now : Nat) :
    d.enter seat goal axioms key timeout now =
      (.ready (Attempt.unavailable seat.name).toResult, d) := by
  rcases d.enter_cases seat goal axioms key timeout now with ⟨_, henter⟩ | ⟨havailable, _⟩
  · exact henter
  · rw [h] at havailable
    cases havailable

/-! ### What is kept for a prover -/

/-- A cache, if it is switched on, keeps the seats apart, and what it has under the key of a seat is
such as it should be for the seat. -/
structure Trusts (seats : List Seat) (keyOf : Seat → κ) (Q : Seat → Result → Prop) (d : Desk κ) :
    Prop where
  apart : d.cache.config.enabled = true → ∀ s ∈ seats, ∀ t ∈ seats, keyOf s = keyOf t → s = t
  results : d.cache.config.enabled = true → ∀ p ∈ d.cache.entries, ∀ seat ∈ seats,
    keyOf seat = p.1 → Q seat p.2.result

namespace Trusts

variable {seats : List Seat} {keyOf : Seat → κ} {Q : Seat → Result → Prop} {d : Desk κ}
  {seat : Seat} {key : κ} {now : Nat} {cache : Cache κ}

/-- What is found for a seat is such as it should be. -/
theorem found (h : d.Trusts seats keyOf Q) (hseat : seat ∈ seats) {result : Result}
    (hget : d.cache.get (keyOf seat) now = (some result, cache)) :
    ∃ kept, Q seat kept ∧ result = { kept with fromCache := true } := by
  have hfirst := congrArg Prod.fst hget
  obtain ⟨e, hfind, rfl⟩ := Cache.get_eq_some hfirst
  exact ⟨e.result, h.results (Cache.enabled_of_get_eq_some hfirst) _ (Cache.mem_of_find? hfind)
    seat hseat rfl, rfl⟩

theorem get {found : Option Result} (h : d.Trusts seats keyOf Q)
    (hget : d.cache.get key now = (found, cache)) (calls : List Nat) :
    Trusts seats keyOf Q { d with cache := cache, calls := calls } := by
  obtain rfl : (d.cache.get key now).2 = cache := congrArg Prod.snd hget
  have hconfig := Cache.config_get d.cache key now
  refine ⟨hconfig ▸ h.apart, fun henabled p hp seat hseat hkey => ?_⟩
  obtain ⟨e, he, hresult⟩ := Cache.mem_entries_get hp
  rw [← hresult]
  exact h.results (hconfig ▸ henabled) _ he seat hseat hkey

theorem finish (h : d.Trusts seats keyOf Q) (hseat : seat ∈ seats) {ending : Ending}
    (hkept : ∀ result, ending.kept seat.name = some result → Q seat result) :
    Trusts seats keyOf Q (d.finish seat (keyOf seat) ending now).2 := by
  have hcache := cache_finish d seat (keyOf seat) ending now
  cases hresult : ending.kept seat.name with
  | none =>
    rw [hresult, Option.elim_none] at hcache
    exact ⟨hcache ▸ h.apart, hcache ▸ h.results⟩
  | some result =>
    rw [hresult, Option.elim_some] at hcache
    have hconfig : (d.finish seat (keyOf seat) ending now).2.cache.config = d.cache.config := by
      rw [hcache]
      exact Cache.config_put d.cache (keyOf seat) result none now
    refine ⟨hconfig ▸ h.apart, fun henabled p hp s hs hkey => ?_⟩
    rw [hconfig] at henabled
    rw [hcache] at hp
    rcases Cache.mem_entries_put hp with hp | ⟨hp, hstored⟩
    · exact h.results henabled p hp s hs hkey
    · -- the key under which the answer was stored is that of the seat alone
      rw [h.apart henabled s hs seat hseat (hkey.trans hp), hstored,
        Ending.fromCache_of_kept hresult]
      exact hkept result hresult

/-- A whole call keeps up what is right for the seats. -/
theorem call (h : d.Trusts seats keyOf Q) (hseat : seat ∈ seats) {goal : Formula}
    {axioms : List Formula} {timeout : Nat}
    (hkept : seat.prover.available = true → ∀ result,
      (seat.prover.ending goal axioms timeout).kept seat.name = some result → Q seat result) :
    Trusts seats keyOf Q (d.call seat goal axioms (keyOf seat) timeout now).desk := by
  rcases d.call_cases seat goal axioms (keyOf seat) timeout now with
    ⟨_, hcall⟩ | ⟨havailable, ⟨result, cache, hget, hcall⟩ | ⟨cache, hget, hcall⟩⟩
  · rw [hcall]
    exact h
  · rw [hcall]
    exact h.get hget d.calls
  · rw [hcall]
    exact (h.get hget (d.calls ++ [seat.id])).finish hseat (hkept havailable)

/-- So does the beginning of a race. -/
theorem enter (h : d.Trusts seats keyOf Q) (hseat : seat ∈ seats) {goal : Formula}
    {axioms : List Formula} {timeout : Nat}
    (hkept : seat.prover.available = true → ∀ result,
      (Ending.cameBack (seat.prover.run goal axioms timeout)).kept seat.name = some result →
        Q seat result) :
    Trusts seats keyOf Q (d.enter seat goal axioms (keyOf seat) timeout now).2 := by
  rcases d.enter_cases seat goal axioms (keyOf seat) timeout now with
    ⟨_, henter⟩ | ⟨havailable, ⟨result, cache, hget, henter⟩ | ⟨cache, hget, henter⟩⟩
  · rw [henter]
    exact h
  · rw [henter]
    exact h.get hget d.calls
  · have hcalled := h.get hget (d.calls ++ [seat.id])
    rw [henter]
    split_ifs
    · exact hcalled.finish hseat (hkept havailable)
    · exact hcalled

end Trusts

end Desk

end Deontica
