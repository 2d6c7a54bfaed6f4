import Deontica.Proofs.Cache.Recency

/-!
# A cache is a list of results

The plainest way to keep results is a *shelf*: a list of results with their keys, the one used last
in front.  A result that is found moves to the front, unless it is too old and is thrown away; a
result that is put there goes to the front, and the last one falls off if there are too many.

A cache has two tables that are linked by ticks, yet nobody can tell it from a shelf: whatever a
cache is asked, in whatever order and at whatever times, it gives the answers of the shelf
(`answers_serve_eq`).  One request leaves a cache and a shelf with the same contents
(`Resembles.serve`), so by induction all of them do.
-/

namespace Deontica

/-- A result on a shelf. -/
structure Item (κ : Type) where
  key : κ
  result : Result
  /-- When the result was put there. -/
  stored : Nat
  /-- How long it is good. -/
  ttl : Nat

/-- Whether more time has passed since an item was stored than it is good. -/
def Item.isExpired {κ : Type} (i : Item κ) (now : Nat) : Bool :=
  decide (now - i.stored > i.ttl)

/-- Results with their keys, the one used last in front. -/
abbrev Shelf (κ : Type) : Type := List (Item κ)

/-- What a store of results may be asked.  Requests that depend on the time tell it. -/
inductive Request (κ : Type) where
  /-- Is there a result for the key? -/
  | get (key : κ) (now : Nat)
  /-- Keep the result, for the length of time given or for the usual one. -/
  | put (key : κ) (result : Result) (ttl : Option Nat) (now : Nat)
  /-- Throw the result of the key away. -/
  | invalidate (key : κ)
  /-- Throw everything away. -/
  | clear
  /-- Throw away what is too old. -/
  | purge (now : Nat)
  /-- How many results are there? -/
  | size

/-- What a store of results answers. -/
inductive Answer where
  | found (result : Option Result)
  /-- Whether there was something to throw away. -/
  | removed (present : Bool)
  | number (n : Nat)
  | done

/-- The answers to a list of requests, one after the other. -/
def answers {κ σ : Type} (serve : σ → Request κ → Answer × σ) : List (Request κ) → σ → List Answer
  | [], _ => []
  | r :: rs, s => (serve s r).1 :: answers serve rs (serve s r).2

variable {κ : Type} [DecidableEq κ]

namespace Shelf

/-- Takes a key off the shelf. -/
def remove (key : κ) (l : Shelf κ) : Shelf κ :=
  l.filter (·.key ≠ key)

/-- Looks for a key.  What is found is marked as kept and moves to the front, what is too old is
thrown away. -/
def get (l : Shelf κ) (key : κ) (now : Nat) : Option Result × Shelf κ :=
  match l.find? (·.key = key) with
  | none => (none, l)
  | some i =>
    if i.isExpired now then (none, remove key l)
    else (some { i.result with fromCache := true }, i :: remove key l)

/-- Puts a result in front; if there are more than `limit` then, the last one falls off. -/
def put (limit : Nat) (l : Shelf κ) (key : κ) (result : Result) (ttl now : Nat) : Shelf κ :=
  let l := ⟨key, { result with fromCache := false }, now, ttl⟩ :: remove key l
  if limit < l.length then l.dropLast else l

/-- What a shelf answers that holds up to `limit` results, each for the time `ttl` unless told
otherwise. -/
def serve (limit ttl : Nat) (l : Shelf κ) : Request κ → Answer × Shelf κ
  | .get key now => (.found (get l key now).1, (get l key now).2)
  | .put key result own now => (.done, put limit l key result (own.getD ttl) now)
  | .invalidate key => (.removed (l.any (·.key = key)), remove key l)
  | .clear => (.done, [])
  | .purge now => (.number (l.countP (·.isExpired now)), l.filter (!·.isExpired now))
  | .size => (.number l.length, l)

end Shelf

namespace Cache

/-- What a cache answers. -/
def serve (c : Cache κ) : Request κ → Answer × Cache κ
  | .get key now => (.found (c.get key now).1, (c.get key now).2)
  | .put key result ttl now => (.done, c.put key result ttl now)
  | .invalidate key => (.removed (c.invalidate key).1, (c.invalidate key).2)
  | .clear => (.done, c.clear)
  | .purge now => (.number (c.purge now).1, (c.purge now).2)
  | .size => (.number c.size, c)

/-! ### Same contents -/

/-- The item of an entry under its key. -/
def item (p : κ × Entry) : Item κ :=
  ⟨p.1, p.2.result, p.2.stored, p.2.ttl⟩

/-- The cache is in use with the given settings and holds what the shelf holds, in the same
order. -/
structure Resembles (config : CacheConfig) (c : Cache κ) (l : Shelf κ) : Prop where
  config_eq : c.config = config
  enabled : config.enabled = true
  fits : l.length ≤ config.maxEntries
  contents : ∃ used, Orders c used ∧ l = used.map item

theorem map_item_filter (used : List (κ × Entry)) (key : κ) :
    (used.filter (·.1 ≠ key)).map item = Shelf.remove key (used.map item) := by
  rw [Shelf.remove, List.filter_map]
  rfl

theorem find?_map_item (used : List (κ × Entry)) (key : κ) :
    (used.map item).find? (·.key = key) = (used.find? (·.1 = key)).map item := by
  rw [List.find?_map]
  rfl

theorem length_remove_le (key : κ) (l : Shelf κ) : (Shelf.remove key l).length ≤ l.length :=
  List.length_filter_le _ _

/-- One item is added, so at most one falls off. -/
theorem put_eq_take {limit : Nat} {l : Shelf κ} (hfits : l.length ≤ limit) (key : κ)
    (result : Result) (ttl now : Nat) :
    Shelf.put limit l key result ttl now =
      (⟨key, { result with fromCache := false }, now, ttl⟩ :: Shelf.remove key l).take limit := by
  have hlen : (Shelf.remove key l).length ≤ limit := Nat.le_trans (length_remove_le key l) hfits
  rw [Shelf.put]
  split_ifs with hfull
  · rw [List.dropLast_eq_take]
    congr 1
    rw [List.length_cons] at hfull ⊢
    omega
  · rw [List.take_of_length_le (Nat.not_lt.mp hfull)]

/-- A shelf from which a key was taken has room for another item if the key was there. -/
theorem length_remove_lt {key : κ} {l : Shelf κ} {i : Item κ} (hi : i ∈ l) (hkey : i.key = key) :
    (Shelf.remove key l).length < l.length := by
  refine List.length_filter_lt_length_iff_exists.mpr ⟨i, hi, ?_⟩
  simp [hkey]

namespace Orders

variable {c : Cache κ} {used : List (κ × Entry)} {key : κ}

/-- The entry of a key is the one that the list has for it. -/
theorem find?_eq (h : Orders c used) : c.find? key = (used.find? (·.1 = key)).map (·.2) := by
  cases hfind : used.find? (·.1 = key) with
  | none =>
    rw [List.find?_eq_none] at hfind
    exact h.find?_eq_none_iff.mpr fun p hp heq => hfind p hp (decide_eq_true heq)
  | some p =>
    have hkey : p.1 = key := by simpa using List.find?_some hfind
    have hmem : p ∈ used := List.mem_of_find?_eq_some hfind
    rw [Option.map_some, h.find?_eq_some_iff, ← hkey]
    exact hmem

end Orders

namespace Resembles

variable {config : CacheConfig} {c : Cache κ} {l : Shelf κ}

/-- **Looking up a key.**  The cache finds what the shelf finds, and moves it to the front too. -/
theorem get (h : Resembles config c l) (key : κ) (now : Nat) :
    (c.get key now).1 = (Shelf.get l key now).1 ∧
      Resembles config (c.get key now).2 (Shelf.get l key now).2 := by
  obtain ⟨hconfig, henabled, hfits, used, horders, rfl⟩ := h
  have hon : c.config.enabled = true := hconfig ▸ henabled
  rw [Cache.get, hon, Shelf.get, find?_map_item, horders.find?_eq]
  cases hfind : used.find? (·.1 = key) with
  | none => exact ⟨rfl, hconfig, henabled, hfits, used, horders.congr rfl rfl rfl, rfl⟩
  | some p =>
    have hmem : p ∈ used := List.mem_of_find?_eq_some hfind
    have hkey : p.1 = key := by simpa using List.find?_some hfind
    simp only [Option.map_some, Bool.not_true, Bool.false_eq_true, if_false]
    have hexpired : (item p).isExpired now = p.2.isExpired now := rfl
    rw [hexpired]
    split_ifs with hold
    · refine ⟨rfl, (config_drop c key).trans hconfig, henabled,
        Nat.le_trans (length_remove_le key _) hfits, _, (horders.drop key).congr rfl rfl rfl, ?_⟩
      rw [map_item_filter]
    · obtain ⟨tick, hstore⟩ := horders.store key p.2.result p.2.stored p.2.ttl
      refine ⟨rfl, (config_drop c key).trans hconfig, henabled, ?_, _,
        hstore.congr rfl rfl rfl, ?_⟩
      · -- the item goes where it was taken off, so the shelf is no fuller than before
        have hitem : item p ∈ used.map item := List.mem_map_of_mem hmem
        have hroom := length_remove_lt hitem hkey
        exact Nat.le_trans (Nat.succ_le_of_lt hroom) hfits
      · rw [List.map_cons, map_item_filter, ← hkey]
        rfl

/-- **Storing a result.**  What the cache evicts is what falls off the shelf. -/
theorem put (h : Resembles config c l) (key : κ) (result : Result) (ttl : Option Nat) (now : Nat) :
    Resembles config (c.put key result ttl now)
      (Shelf.put config.maxEntries l key result (ttl.getD config.ttl) now) := by
  obtain ⟨hconfig, henabled, hfits, used, horders, rfl⟩ := h
  subst hconfig
  obtain ⟨hput, -⟩ := horders.put henabled key result ttl now
  have hconfig : (c.put key result ttl now).config = c.config := by
    rw [put_eq henabled]
  refine ⟨hconfig, henabled, ?_, _, hput, ?_⟩
  · rw [put_eq_take hfits]
    exact List.length_take_le _ _
  · rw [put_eq_take hfits, List.map_take, List.map_cons, map_item_filter]
    rfl

/-- **Throwing a key away.** -/
theorem invalidate (h : Resembles config c l) (key : κ) :
    (c.invalidate key).1 = l.any (·.key = key) ∧
      Resembles config (c.invalidate key).2 (Shelf.remove key l) := by
  obtain ⟨hconfig, henabled, hfits, used, horders, rfl⟩ := h
  constructor
  · show (c.find? key).isSome = _
    rw [horders.find?_eq, Option.isSome_map, List.any_map, Bool.eq_iff_iff, List.find?_isSome,
      List.any_eq_true]
    rfl
  · refine ⟨(config_drop c key).trans hconfig, henabled,
      Nat.le_trans (length_remove_le key _) hfits, _, horders.drop key, ?_⟩
    rw [map_item_filter]

/-- **Throwing away what is too old.** -/
theorem purge (h : Resembles config c l) (now : Nat) :
    (c.purge now).1 = l.countP (·.isExpired now) ∧
      Resembles config (c.purge now).2 (l.filter (!·.isExpired now)) := by
  obtain ⟨hconfig, henabled, hfits, used, horders, rfl⟩ := h
  obtain ⟨hcount, hpurge⟩ := horders.purge now
  constructor
  · rw [hcount, List.countP_map]
    rfl
  · refine ⟨(config_dropAll _ c).trans hconfig, henabled,
      Nat.le_trans (List.length_filter_le _ _) hfits, _, hpurge, ?_⟩
    rw [List.filter_map]
    rfl

/-- **One request.**  A cache and a shelf with the same contents give the same answer, and have the
same contents afterwards. -/
theorem serve (h : Resembles config c l) (r : Request κ) :
    (c.serve r).1 = (Shelf.serve config.maxEntries config.ttl l r).1 ∧
      Resembles config (c.serve r).2 (Shelf.serve config.maxEntries config.ttl l r).2 := by
  cases r with
  | get key now =>
    obtain ⟨hanswer, hnext⟩ := h.get key now
    exact ⟨congrArg Answer.found hanswer, hnext⟩
  | put key result ttl now => exact ⟨rfl, h.put key result ttl now⟩
  | invalidate key =>
    obtain ⟨hanswer, hnext⟩ := h.invalidate key
    exact ⟨congrArg Answer.removed hanswer, hnext⟩
  | clear => exact ⟨rfl, h.config_eq, h.enabled, Nat.zero_le _, [], orders_nil rfl rfl, rfl⟩
  | purge now =>
    obtain ⟨hanswer, hnext⟩ := h.purge now
    exact ⟨congrArg Answer.number hanswer, hnext⟩
  | size =>
    obtain ⟨used, horders, rfl⟩ := h.contents
    refine ⟨?_, h⟩
    show Answer.number c.size = Answer.number (used.map item).length
    rw [horders.size_eq, List.length_map]

theorem answers_eq (h : Resembles config c l) (requests : List (Request κ)) :
    answers Cache.serve requests c =
      answers (Shelf.serve config.maxEntries config.ttl) requests l := by
  induction requests generalizing c l with
  | nil => rfl
  | cons r requests ih =>
    obtain ⟨hanswer, hnext⟩ := h.serve r
    rw [answers, answers, hanswer, ih hnext]

/-- Whatever a cache has been asked, it is a shelf. -/
theorem foldl_serve (h : Resembles config c l) (requests : List (Request κ)) :
    ∃ l', Resembles config (requests.foldl (fun c request => (c.serve request).2) c) l' := by
  induction requests generalizing c l with
  | nil => exact ⟨l, h⟩
  | cons request requests ih => exact ih (h.serve request).2

end Resembles

section Create

variable {κ : Type} {config : CacheConfig} {c : Cache κ}

/-- A cache that has been set up is empty and has room for an entry. -/
theorem create_eq_ok (h : create config = .ok c) :
    c = { config := config } ∧ 0 < config.maxEntries := by
  unfold create CacheConfig.validate demand at h
  by_cases hpos : 0 < config.maxEntries
  · by_cases httl : 0 < config.ttl
    · simp only [hpos, httl, decide_true, if_true] at h
      exact ⟨(Except.ok.inj h).symm, hpos⟩
    · simp only [hpos, httl, decide_true, decide_false, if_true] at h
      cases h
  · simp only [hpos, decide_false] at h
    cases h

theorem resembles_of_create (h : create config = .ok c) (henabled : config.enabled = true) :
    Resembles config c [] := by
  obtain ⟨rfl, -⟩ := create_eq_ok h
  exact ⟨rfl, henabled, Nat.zero_le _, [], orders_nil rfl rfl, rfl⟩

end Create

/-- **A cache is a list of results.**  A cache that has been set up and is switched on answers every
sequence of requests, at whatever times they are made, as the list does that has the results in the
order of their use. -/
theorem answers_serve_eq (config : CacheConfig) (c : Cache κ) (hc : create config = .ok c)
    (henabled : config.enabled = true) (requests : List (Request κ)) :
    answers serve requests c =
      answers (Shelf.serve config.maxEntries config.ttl) requests [] :=
  (resembles_of_create hc henabled).answers_eq requests

/-- With room for two results, a hit saves the first from the third; later it is too old. -/
theorem answers_serve_eq_hit_then_expired :
    let config : CacheConfig := { maxEntries := 2, ttl := 10 }
    let result : Result := .plain .proved "native"
    create config = .ok ({ config := config } : Cache Nat) ∧ config.enabled = true ∧
      answers serve [.put 1 result none 0, .put 2 result (some 3) 1, .get 1 5, .put 3 result none 6,
          .get 2 6, .get 1 10, .get 1 11, .purge 11, .size] ({ config := config } : Cache Nat) =
        [.done, .done, .found (some { result with fromCache := true }), .done, .found none,
          .found (some { result with fromCache := true }), .found none, .number 0, .number 1] :=
  ⟨rfl, rfl, (answers_serve_eq { maxEntries := 2, ttl := 10 } _ rfl rfl _).trans rfl⟩

end Cache

end Deontica
