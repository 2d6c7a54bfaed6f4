import Deontica.Proofs.Cache.Shelf
import Deontica.Proofs.Dispatch

/-!
# What a call leaves on the shelf

The cache of a desk is a shelf of results, the one used last in front (`Cache.Resembles`).  A call
visits the place of one key there (`Visit`): it finds a result and moves it to the front, or puts
one in front, or leaves nothing at that place.

What other keys have on the shelf is not taken from them by a visit, but it moves back by one place
at most (`Visit.look_take`).  So it stays for as many visits as the shelf has places left.
-/

namespace Deontica

variable {κ : Type} [DecidableEq κ]

namespace Shelf

variable {l : Shelf κ} {key k : κ} {i j : Item κ} {m n : Nat}

/-- The item of a key. -/
def look (l : Shelf κ) (key : κ) : Option (Item κ) :=
  l.find? (·.key = key)

theorem key_of_look (h : look l key = some i) : i.key = key := by
  simpa using List.find?_some h

theorem look_cons_self (hkey : i.key = key) (l : Shelf κ) : look (i :: l) key = some i :=
  List.find?_cons_of_pos (decide_eq_true hkey)

theorem look_cons_of_ne (hne : j.key ≠ k) (l : Shelf κ) : look (j :: l) k = look l k :=
  List.find?_cons_of_neg (by simpa using hne)

theorem look_eq_none_iff : look l key = none ↔ ∀ i ∈ l, i.key ≠ key := by
  simp [look, List.find?_eq_none]

theorem look_remove_self (key : κ) (l : Shelf κ) : look (remove key l) key = none :=
  look_eq_none_iff.mpr fun _ hi => of_decide_eq_true (List.mem_filter.mp hi).2

theorem remove_of_look_eq_none (h : look l key = none) : remove key l = l :=
  List.filter_eq_self.mpr fun i hi => decide_eq_true (look_eq_none_iff.mp h i hi)

theorem remove_cons_self (hkey : j.key = key) (l : Shelf κ) : remove key (j :: l) = remove key l :=
  List.filter_cons_of_neg (by simp [hkey])

theorem remove_cons_of_ne (hne : j.key ≠ key) (l : Shelf κ) :
    remove key (j :: l) = j :: remove key l :=
  List.filter_cons_of_pos (decide_eq_true hne)

theorem look_remove_of_ne (hne : k ≠ key) (l : Shelf κ) : look (remove key l) k = look l k := by
  induction l with
  | nil => rfl
  | cons j l ih =>
    by_cases hj : j.key = key
    · rw [remove_cons_self hj, ih, look_cons_of_ne fun h => hne (h.symm.trans hj)]
    · rw [remove_cons_of_ne hj]
      by_cases hk : j.key = k
      · rw [look_cons_self hk, look_cons_self hk]
      · rw [look_cons_of_ne hk, look_cons_of_ne hk, ih]

/-- Moving an item to the front does not change what any key has. -/
theorem look_front (h : look l key = some i) : look (i :: remove key l) = look l := by
  funext k
  by_cases hk : i.key = k
  · rw [look_cons_self hk, ← hk, key_of_look h, h]
  · rw [look_cons_of_ne hk]
    exact look_remove_of_ne (fun heq => hk ((key_of_look h).trans heq.symm)) l

/-! ### Places -/

/-- What is among the first is on the shelf. -/
theorem look_of_take (h : look (l.take m) k = some i) : look l k = some i := by
  have hfind : ((l.take m) ++ l.drop m).find? (fun j => decide (j.key = k)) = some i := by
    have h' : (l.take m).find? (fun j => decide (j.key = k)) = some i := h
    rw [List.find?_append, h', Option.some_or]
  rwa [List.take_append_drop] at hfind

theorem look_take_mono (hmn : m ≤ n) (h : look (l.take m) k = some i) :
    look (l.take n) k = some i := by
  refine look_of_take (m := m) ?_
  rwa [List.take_take, Nat.min_eq_left hmn]

theorem look_take_cons (hne : j.key ≠ k) (h : look (l.take m) k = some i) :
    look ((j :: l).take (m + 1)) k = some i := by
  rw [List.take_succ_cons]
  exact (look_cons_of_ne hne _).trans h

/-- Taking another key off the shelf moves nothing back. -/
theorem look_take_remove (hne : k ≠ key) (h : look (l.take m) k = some i) :
    look ((remove key l).take m) k = some i := by
  induction l generalizing m with
  | nil => exact h
  | cons j l ih =>
    cases m with
    | zero => cases h
    | succ m =>
      rw [List.take_succ_cons] at h
      by_cases hj : j.key = key
      · have hjk : j.key ≠ k := fun heq => hne (heq.symm.trans hj)
        rw [look_cons_of_ne hjk] at h
        rw [remove_cons_self hj]
        exact look_take_mono (Nat.le_succ m) (ih h)
      · rw [remove_cons_of_ne hj, List.take_succ_cons]
        by_cases hk : j.key = k
        · rw [look_cons_self hk] at h ⊢
          exact h
        · rw [look_cons_of_ne hk] at h ⊢
          exact ih h

theorem look_take_eq_none (h : look l k = none) (n : Nat) : look (l.take n) k = none :=
  look_eq_none_iff.mpr fun i hi => look_eq_none_iff.mp h i (List.mem_of_mem_take hi)

/-- Looking for a key finds its item and moves it to the front, or leaves nothing for the key. -/
theorem get_cases (l : Shelf κ) (key : κ) (now : Nat) :
    (∃ i, look l key = some i ∧
        get l key now = (some { i.result with fromCache := true }, i :: remove key l)) ∨
      get l key now = (none, remove key l) := by
  unfold get
  cases hlook : look l key with
  | none =>
    have hfind : l.find? (·.key = key) = none := hlook
    rw [hfind, remove_of_look_eq_none hlook]
    exact Or.inr rfl
  | some i =>
    have hfind : l.find? (·.key = key) = some i := hlook
    rw [hfind]
    dsimp only
    split_ifs
    · exact Or.inr rfl
    · exact Or.inl ⟨i, rfl, rfl⟩

end Shelf

/-! ### Visits -/

/-- What a call of a prover that may take so long does on a shelf with so many places: what the
caller is told, how long it takes, and what is on the shelf afterwards. -/
inductive Visit (limit : Nat) (goal : Formula) (axioms : List Formula) (timeout : Nat) (seat : Seat)
    (key : κ) (l : Shelf κ) : Attempt → Nat → Shelf κ → Prop where
  | refused (hunavailable : seat.prover.available = false) :
    Visit limit goal axioms timeout seat key l (.unavailable seat.name) 0 l
  | found (havailable : seat.prover.available = true) {i : Item κ} (hlook : l.look key = some i) :
    Visit limit goal axioms timeout seat key l
      (.answered { i.result with fromCache := true, elapsed := ⟨0, 0⟩ }) 0
      (i :: Shelf.remove key l)
  | kept (havailable : seat.prover.available = true) {i : Item κ} (hkey : i.key = key)
    (hkept : (seat.prover.ending goal axioms timeout).kept seat.name = some i.result) :
    Visit limit goal axioms timeout seat key l (.answered i.result) (seat.prover.takes timeout)
      ((i :: Shelf.remove key l).take limit)
  | missed (havailable : seat.prover.available = true)
    (hkept : (seat.prover.ending goal axioms timeout).kept seat.name = none) :
    Visit limit goal axioms timeout seat key l
      (Desk.attemptOf seat.name (seat.prover.ending goal axioms timeout))
      (seat.prover.takes timeout) (Shelf.remove key l)

/-- **A call is a visit.** -/
theorem Desk.visit_call {config : CacheConfig} {d : Desk κ} {l : Shelf κ}
    (h : Cache.Resembles config d.cache l) (seat : Seat) (goal : Formula) (axioms : List Formula)
    (key : κ) (timeout now : Nat) :
    ∃ l', Visit config.maxEntries goal axioms timeout seat key l
        (d.call seat goal axioms key timeout now).attempt
        (d.call seat goal axioms key timeout now).took l' ∧
      Cache.Resembles config (d.call seat goal axioms key timeout now).desk.cache l' := by
  rcases d.call_cases seat goal axioms key timeout now with
    ⟨hunavailable, hcall⟩ | ⟨havailable, ⟨result, cache, hget, hcall⟩ | ⟨cache, hget, hcall⟩⟩
  · rw [hcall]
    exact ⟨l, .refused hunavailable, h⟩
  · rw [hcall]
    obtain ⟨hanswer, hnext⟩ := h.get key now
    rw [hget] at hanswer hnext
    rcases Shelf.get_cases l key now with ⟨i, hlook, heq⟩ | heq
    · rw [heq] at hanswer hnext
      cases hanswer
      exact ⟨_, .found havailable hlook, hnext⟩
    · rw [heq] at hanswer
      cases hanswer
  · rw [hcall]
    obtain ⟨hanswer, hnext⟩ := h.get key now
    rw [hget] at hanswer hnext
    rcases Shelf.get_cases l key now with ⟨i, _, heq⟩ | heq
    · rw [heq] at hanswer
      cases hanswer
    rw [heq] at hnext
    have hcache := cache_finish (d.called seat cache) seat key
      (seat.prover.ending goal axioms timeout) (now + seat.prover.takes timeout)
    cases hkept : (seat.prover.ending goal axioms timeout).kept seat.name with
    | none =>
      rw [hkept, Option.elim_none] at hcache
      refine ⟨_, .missed havailable hkept, ?_⟩
      rw [hcache]
      exact hnext
    | some result =>
      rw [hkept, Option.elim_some] at hcache
      have hput := hnext.put key result none (now + seat.prover.takes timeout)
      -- the answer goes to the front of a shelf from which its key has just been taken
      rw [Cache.put_eq_take hnext.fits, Ending.fromCache_of_kept hkept,
        Shelf.remove_of_look_eq_none (Shelf.look_remove_self key l)] at hput
      rw [Ending.attemptOf_of_kept hkept]
      let stored : Item κ := ⟨key, result, now + seat.prover.takes timeout, config.ttl⟩
      refine ⟨_, .kept (i := stored) havailable rfl hkept, ?_⟩
      rw [hcache]
      exact hput

namespace Visit

variable {limit : Nat} {goal : Formula} {axioms : List Formula} {timeout took m : Nat} {seat : Seat}
  {key k : κ} {l l' : Shelf κ} {attempt : Attempt} {i : Item κ}

/-- A visit puts nothing on the shelf for another key. -/
theorem look_eq_none (v : Visit limit goal axioms timeout seat key l attempt took l')
    (hne : k ≠ key) (h : l.look k = none) : l'.look k = none := by
  have hremove : (Shelf.remove key l).look k = none := (Shelf.look_remove_of_ne hne l).trans h
  cases v with
  | refused => exact h
  | found havailable hlook =>
    have hkey := Shelf.key_of_look hlook
    exact (Shelf.look_cons_of_ne (fun heq => hne (heq.symm.trans hkey)) _).trans hremove
  | kept havailable hkey hkept =>
    refine Shelf.look_take_eq_none ?_ limit
    exact (Shelf.look_cons_of_ne (fun heq => hne (heq.symm.trans hkey)) _).trans hremove
  | missed => exact hremove

/-- **A visit moves what other keys have back by one place at most.** -/
theorem look_take (v : Visit limit goal axioms timeout seat key l attempt took l') (hne : k ≠ key)
    (h : Shelf.look (l.take m) k = some i) (hm : m < limit) :
    Shelf.look (l'.take (m + 1)) k = some i := by
  have hremove := Shelf.look_take_remove hne h
  cases v with
  | refused => exact Shelf.look_take_mono (Nat.le_succ m) h
  | found havailable hlook =>
    exact Shelf.look_take_cons (fun heq => hne (heq.symm.trans (Shelf.key_of_look hlook))) hremove
  | kept havailable hkey hkept =>
    rw [List.take_take, Nat.min_eq_left hm]
    exact Shelf.look_take_cons (fun heq => hne (heq.symm.trans hkey)) hremove
  | missed => exact Shelf.look_take_mono (Nat.le_succ m) hremove

/-- **A result that settles the question is on the shelf afterwards**, but for its origin and
time. -/
theorem look_of_isDecisive (v : Visit limit goal axioms timeout seat key l attempt took l')
    (hlimit : 0 < limit) (hdecisive : attempt.isDecisive = true) :
    seat.prover.available = true ∧ ∃ i, l'.look key = some i ∧
      ∃ result, attempt = .answered result ∧
        { i.result with fromCache := true, elapsed := ⟨0, 0⟩ } =
          { result with fromCache := true, elapsed := ⟨0, 0⟩ } := by
  cases v with
  | refused => cases hdecisive
  | found havailable hlook =>
    exact ⟨havailable, _, Shelf.look_cons_self (Shelf.key_of_look hlook) _, _, rfl, rfl⟩
  | @kept havailable i hkey hkept =>
    have hfront : Shelf.look ((i :: Shelf.remove key l).take 1) key = some i :=
      Shelf.look_cons_self hkey []
    exact ⟨havailable, i, Shelf.look_take_mono hlimit hfront, _, rfl, rfl⟩
  | missed havailable hkept =>
    -- an answer that settles the question would have been kept
    cases hattempt : Desk.attemptOf seat.name (seat.prover.ending goal axioms timeout) with
    | failed prover reason =>
      rw [hattempt] at hdecisive
      cases hdecisive
    | answered result =>
      rw [hattempt] at hdecisive
      rw [Ending.kept_of_isDecisive hattempt hdecisive] at hkept
      cases hkept

end Visit

end Deontica
