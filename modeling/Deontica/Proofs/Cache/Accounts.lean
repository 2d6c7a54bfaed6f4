import Deontica.Proofs.Cache.Shelf

/-!
# The books of a cache

A cache has two tables and five counters, and every request changes some of them.  They stay in step
with each other (`accounts_after`):

* the two tables are inverse to each other, and hold no more entries than the settings allow
  (`Linked`);
* every look-up is a hit or a miss;
* every entry that was ever stored is still there, or it was evicted, expired, thrown away, cleared,
  or replaced by a later one under its key.

The last is a balance: one request changes both sides of it by the same amount (`booked_serve`).
-/

namespace Deontica

namespace Request

variable {κ : Type}

def isGet : Deontica.Request κ → Bool
  | .get _ _ => true
  | _ => false

def isPut : Deontica.Request κ → Bool
  | .put _ _ _ _ => true
  | _ => false

end Request

namespace Cache

variable {κ : Type} [DecidableEq κ]

/-- The cache after some requests, made one after the other. -/
def after (requests : List (Deontica.Request κ)) (c : Cache κ) : Cache κ :=
  requests.foldl (fun c request => (c.serve request).2) c

/-! ### What no counter tells -/

/-- The entries thrown away by name. -/
def invalidated (c : Cache κ) : Deontica.Request κ → Nat
  | .invalidate key => if (c.invalidate key).1 then 1 else 0
  | _ => 0

/-- The entries dropped with all others. -/
def cleared (c : Cache κ) : Deontica.Request κ → Nat
  | .clear => c.size
  | _ => 0

/-- The entries, good or too old, that make room for a new one under the same key. -/
def replaced (c : Cache κ) : Deontica.Request κ → Nat
  | .put key _ _ _ => if (c.find? key).isSome then 1 else 0
  | _ => 0

/-- The sum of what the requests amount to, each with the cache that it is made to. -/
def total (amount : Cache κ → Deontica.Request κ → Nat) :
    List (Deontica.Request κ) → Cache κ → Nat
  | [], _ => 0
  | r :: rs, c => amount c r + total amount rs (c.serve r).2

/-! ### The tables -/

/-- The two tables of a cache fit together, and into the cache. -/
structure Linked (c : Cache κ) : Prop where
  /-- Each key has one entry. -/
  keys : (c.entries.map (·.1)).Nodup
  /-- Ticks are in order, each of them once. -/
  sorted : c.recency.Pairwise fun p q => p.1 < q.1
  /-- The ticks lead to the keys whose entries have them. -/
  inverse : ∀ tick key, c.recency.lookup tick = some key ↔
    ∃ e, c.find? key = some e ∧ e.tick = tick
  distinct : ∀ key key' e e', c.find? key = some e → c.find? key' = some e' → e.tick = e'.tick →
    key = key'
  tick : ∀ key e, c.find? key = some e → e.tick ≤ c.tick
  size : c.size ≤ c.config.maxEntries

theorem Orders.linked {c : Cache κ} {used : List (κ × Entry)} (h : Orders c used)
    (hfits : used.length ≤ c.config.maxEntries) : Linked c := by
  have hsorted : c.recency.Pairwise fun p q => p.1 < q.1 := by
    rw [h.recency, List.pairwise_reverse, List.pairwise_map]
    exact h.ticks
  have hnodup : (c.recency.map (·.1)).Nodup :=
    List.pairwise_map.mpr (hsorted.imp fun hlt => Nat.ne_of_lt hlt)
  constructor
  case keys => exact (h.entries.map _).nodup_iff.mpr h.keys
  case sorted => exact hsorted
  case inverse =>
    intro tick key
    rw [lookup_eq_some_iff hnodup, h.recency, List.mem_reverse, List.mem_map]
    constructor
    · rintro ⟨p, hp, heq⟩
      obtain ⟨rfl, rfl⟩ := Prod.mk.inj heq
      exact ⟨p.2, h.find?_eq_some_iff.mpr hp, rfl⟩
    · rintro ⟨e, he, rfl⟩
      exact ⟨(key, e), h.find?_eq_some_iff.mp he, rfl⟩
  case distinct =>
    intro key key' e e' he he' heq
    have hsame := h.eq_of_tick_eq (h.find?_eq_some_iff.mp he) (h.find?_eq_some_iff.mp he') heq
    exact (Prod.mk.inj hsame).1
  case tick => exact fun key e he => h.tick _ (h.find?_eq_some_iff.mp he)
  case size => exact h.size_eq ▸ hfits

/-! ### One request -/

namespace Orders

variable {c : Cache κ} {used : List (κ × Entry)}

/-- Dropping a key that has an entry makes one less of them. -/
theorem length_filter (h : Orders c used) (key : κ) :
    (used.filter (·.1 ≠ key)).length + (if (c.find? key).isSome then 1 else 0) = used.length := by
  have hmem : (c.find? key).isSome = true ↔ key ∈ used.map (·.1) := by
    rw [Option.isSome_iff_exists, List.mem_map]
    constructor
    · rintro ⟨e, he⟩
      exact ⟨(key, e), h.find?_eq_some_iff.mp he, rfl⟩
    · rintro ⟨p, hp, rfl⟩
      exact ⟨p.2, h.find?_eq_some_iff.mpr hp⟩
  -- no key is listed twice, so that to leave out all of a key is to leave out one
  have hfilter : (used.filter (·.1 ≠ key)).length = ((used.map (·.1)).erase key).length := by
    rw [h.keys.erase_eq_filter, List.filter_map, List.length_map]
    congr 1
    exact List.filter_congr fun p _ => by simp [bne, beq_eq_decide]
  rw [hfilter, List.length_erase, List.length_map]
  simp only [hmem]
  split_ifs with hkey
  · have hpos := List.length_pos_of_mem hkey
    rw [List.length_map] at hpos
    omega
  · rfl

end Orders

/-- What looking up a key does: it misses, finds something too old and drops it, or has a hit. -/
theorem get_cases {c : Cache κ} (henabled : c.config.enabled = true) (key : κ) (now : Nat) :
    c.find? key = none ∧ (c.get key now).2 = { c with misses := c.misses + 1 } ∨
      ∃ e, c.find? key = some e ∧
        ((c.get key now).2 =
            { c.drop key with expirations := c.expirations + 1, misses := c.misses + 1 } ∨
          (c.get key now).2 =
            { (c.drop key).push key e.result e.stored e.ttl with hits := c.hits + 1 }) := by
  unfold get
  rw [henabled]
  simp only [Bool.not_true, Bool.false_eq_true, if_false]
  cases hfind : c.find? key with
  | none => exact Or.inl ⟨rfl, rfl⟩
  | some e =>
    dsimp only
    split_ifs
    · exact Or.inr ⟨e, rfl, Or.inl rfl⟩
    · exact Or.inr ⟨e, rfl, Or.inr rfl⟩

/-- A request that leads from `c` to `c'` is booked: what goes off the cache is counted or is one of
the amounts that no counter tells, a look-up is a hit or a miss, and at most one tick is taken. -/
structure Booked (c : Cache κ) (r : Deontica.Request κ) (c' : Cache κ) : Prop where
  balance : c'.size + c'.evictions + c'.expirations + c.invalidated r + c.cleared r + c.replaced r =
    c.size + c.evictions + c.expirations + (if r.isPut then 1 else 0)
  lookups : c'.hits + c'.misses = c.hits + c.misses + (if r.isGet then 1 else 0)
  tick : c'.tick ≤ c.tick + 1

namespace Orders

variable {c : Cache κ} {used : List (κ × Entry)}

theorem size_drop (h : Orders c used) (key : κ) :
    (c.drop key).entries.length + (if (c.find? key).isSome then 1 else 0) = c.size := by
  have hdrop : (c.drop key).entries.length = _ := (h.drop key).size_eq
  rw [hdrop, h.length_filter, h.size_eq]

theorem booked_get (h : Orders c used) (henabled : c.config.enabled = true) (key : κ) (now : Nat) :
    Booked c (.get key now) (c.get key now).2 := by
  have hsize := h.size_drop key
  rcases get_cases henabled key now with ⟨_, hget⟩ | ⟨e, hfind, hget⟩
  · rw [hget]
    exact ⟨rfl, rfl, Nat.le_succ _⟩
  · rw [hfind, Option.isSome_some, if_pos rfl] at hsize
    rcases hget with hget | hget <;> rw [hget, drop_eq]
    · refine ⟨?_, rfl, Nat.le_succ _⟩
      show (c.drop key).entries.length + c.evictions + (c.expirations + 1) =
        c.size + c.evictions + c.expirations
      omega
    · refine ⟨?_, Nat.add_right_comm _ _ _, Nat.le_refl _⟩
      show (c.drop key).entries.length + 1 + c.evictions + c.expirations =
        c.size + c.evictions + c.expirations
      rw [hsize]

theorem booked_put (h : Orders c used) (henabled : c.config.enabled = true) (key : κ)
    (result : Result) (ttl : Option Nat) (now : Nat) :
    Booked c (.put key result ttl now) (c.put key result ttl now) := by
  obtain ⟨hput, hevictions⟩ := h.put henabled key result ttl now
  have hsize : (c.put key result ttl now).entries.length = _ := hput.size_eq
  have hlength := h.length_filter key
  rw [List.length_take, List.length_cons] at hsize
  rw [put_eq henabled]
  refine ⟨?_, rfl, Nat.le_refl _⟩
  -- what the list is longer than the settings allow is cut off, and counted
  show (c.put key result ttl now).entries.length + (c.put key result ttl now).evictions +
      c.expirations + (if (c.find? key).isSome then 1 else 0) =
    c.size + c.evictions + c.expirations + 1
  rw [hsize, hevictions, h.size_eq]
  omega

theorem booked_invalidate (h : Orders c used) (key : κ) :
    Booked c (.invalidate key) (c.invalidate key).2 := by
  have hsize := h.size_drop key
  show Booked c (.invalidate key) (c.drop key)
  rw [drop_eq]
  refine ⟨?_, rfl, Nat.le_succ _⟩
  show (c.drop key).entries.length + c.evictions + c.expirations +
    (if (c.find? key).isSome then 1 else 0) = c.size + c.evictions + c.expirations
  omega

theorem booked_purge (h : Orders c used) (now : Nat) :
    Booked c (.purge now) (c.purge now).2 := by
  obtain ⟨hcount, hpurge⟩ := h.purge now
  have hsize : (c.purge now).2.size + (c.purge now).1 = c.size := by
    have hsplit := used.length_eq_countP_add_countP fun p => p.2.isExpired now
    rw [hpurge.size_eq, hcount, h.size_eq, hsplit, Nat.add_comm]
    simp [List.countP_eq_length_filter]
  have hcounters : (c.purge now).2 = { c with
      entries := (c.purge now).2.entries
      recency := (c.purge now).2.recency
      expirations := c.expirations + (c.purge now).1 } := by
    rw [Cache.purge, dropAll_eq]
  rw [hcounters]
  refine ⟨?_, rfl, Nat.le_succ _⟩
  show (c.purge now).2.size + c.evictions + (c.expirations + (c.purge now).1) =
    c.size + c.evictions + c.expirations
  omega

end Orders

/-- **Every request is booked.** -/
theorem booked_serve {config : CacheConfig} {c : Cache κ} {l : Shelf κ}
    (h : Resembles config c l) (r : Deontica.Request κ) : Booked c r (c.serve r).2 := by
  obtain ⟨rfl, henabled, -, used, horders, -⟩ := h
  cases r with
  | get key now => exact horders.booked_get henabled key now
  | put key result ttl now => exact horders.booked_put henabled key result ttl now
  | invalidate key => exact horders.booked_invalidate key
  | clear =>
    refine ⟨?_, rfl, Nat.le_succ _⟩
    show 0 + c.evictions + c.expirations + 0 + c.size + 0 = c.size + c.evictions + c.expirations + 0
    omega
  | purge now => exact horders.booked_purge now
  | size => exact ⟨rfl, rfl, Nat.le_succ _⟩

/-! ### Many requests -/

section After

variable {config : CacheConfig} {c : Cache κ} {l : Shelf κ}

theorem balance_after (h : Resembles config c l) (requests : List (Deontica.Request κ)) :
    (after requests c).size + (after requests c).evictions + (after requests c).expirations +
        total invalidated requests c + total cleared requests c + total replaced requests c =
      c.size + c.evictions + c.expirations + requests.countP (·.isPut) := by
  induction requests generalizing c l with
  | nil => rfl
  | cons r requests ih =>
    have hfirst := (booked_serve h r).balance
    have hrest := ih (h.serve r).2
    simp only [after, total, List.foldl_cons, List.countP_cons] at hrest ⊢
    omega

theorem lookups_after (h : Resembles config c l) (requests : List (Deontica.Request κ)) :
    (after requests c).hits + (after requests c).misses =
      c.hits + c.misses + requests.countP (·.isGet) := by
  induction requests generalizing c l with
  | nil => rfl
  | cons r requests ih =>
    have hfirst := (booked_serve h r).lookups
    have hrest := ih (h.serve r).2
    simp only [after, List.foldl_cons, List.countP_cons] at hrest ⊢
    omega

theorem tick_after_le (h : Resembles config c l) (requests : List (Deontica.Request κ)) :
    (after requests c).tick ≤ c.tick + requests.length := by
  induction requests generalizing c l with
  | nil => exact Nat.le_refl _
  | cons r requests ih =>
    have hfirst := (booked_serve h r).tick
    have hrest := ih (h.serve r).2
    simp only [after, List.foldl_cons, List.length_cons] at hrest ⊢
    omega

end After

/-! ### Making room -/

/-- The entry `e` is taken in under `key`, and at most one entry has to go for it, which is another
one. -/
structure TakesIn (c : Cache κ) (key : κ) (e : Entry) (c' : Cache κ) : Prop where
  found : c'.find? key = some e
  evicted : ∃ victims : List κ, victims.length ≤ 1 ∧ key ∉ victims ∧
    (∀ k ∈ victims, (c.find? k).isSome) ∧ c'.evictions = c.evictions + victims.length ∧
    ∀ k, k ≠ key → c'.find? k = if k ∈ victims then none else c.find? k

namespace Orders

variable {c c' : Cache κ} {used : List (κ × Entry)} {key : κ} {e : Entry} {room : Nat}

/-- When something is put in front and the list is cut off, the keys behind the cut are those that
are not found any more. -/
theorem find?_cut (h : Orders c used)
    (h' : Orders c' ((key, e) :: (used.filter (·.1 ≠ key)).take room)) {k : κ} (hk : k ≠ key) :
    c'.find? k =
      if k ∈ ((used.filter (·.1 ≠ key)).drop room).map (·.1) then none else c.find? k := by
  have hkeys : ((used.filter (·.1 ≠ key)).map (·.1)).Nodup :=
    h.keys.sublist (List.filter_sublist.map _)
  have hmem : ∀ e', (k, e') ∈ used ↔ (k, e') ∈ used.filter (·.1 ≠ key) := fun e' => by
    simp [List.mem_filter, hk]
  generalize used.filter (·.1 ≠ key) = others at h' hkeys hmem ⊢
  -- a key is in front of the cut or behind it, but not both
  rw [← List.take_append_drop room others] at hmem hkeys
  rw [List.map_append, List.nodup_append] at hkeys
  split_ifs with hcut
  · rw [h'.find?_eq_none_iff, List.forall_mem_cons]
    refine ⟨hk.symm, fun p hp => ?_⟩
    exact hkeys.2.2 _ (List.mem_map_of_mem hp) k hcut
  · refine Option.ext fun e' => ?_
    rw [h'.find?_eq_some_iff, h.find?_eq_some_iff, hmem, List.mem_cons, List.mem_append]
    constructor
    · rintro (heq | hkept)
      · exact absurd (Prod.mk.inj heq).1 hk
      · exact Or.inl hkept
    · rintro (hkept | hgone)
      · exact Or.inr hkept
      · exact absurd (List.mem_map_of_mem hgone) hcut

/-- **Storing a result evicts one other entry at most.** -/
theorem takesIn_put (h : Orders c used) (henabled : c.config.enabled = true)
    (hfits : used.length ≤ c.config.maxEntries) (hpos : 0 < c.config.maxEntries) (key : κ)
    (result : Result) (ttl : Option Nat) (now : Nat) :
    TakesIn c key (c.stored result ttl now) (c.put key result ttl now) := by
  obtain ⟨hput, hevictions⟩ := h.put henabled key result ttl now
  -- the new entry has the first place, and `room` is what is left for the others
  obtain ⟨room, hroom⟩ := Nat.exists_eq_add_of_le' hpos
  rw [hroom, List.take_succ_cons] at hput
  rw [hroom] at hevictions hfits
  have hlength : (used.filter (·.1 ≠ key)).length ≤ room + 1 :=
    Nat.le_trans (List.length_filter_le _ _) hfits
  have hgone : ∀ p ∈ (used.filter (·.1 ≠ key)).drop room, p ∈ used ∧ p.1 ≠ key := fun p hp =>
    ⟨List.mem_of_mem_filter (List.mem_of_mem_drop hp), ne_of_mem_filter (List.mem_of_mem_drop hp)⟩
  refine ⟨hput.find?_eq_some_iff.mpr List.mem_cons_self,
    ((used.filter (·.1 ≠ key)).drop room).map (·.1), ?_, ?_, ?_, ?_,
    fun k hk => h.find?_cut hput hk⟩
  · rw [List.length_map, List.length_drop]
    omega
  · intro hmem
    obtain ⟨p, hp, heq⟩ := List.mem_map.mp hmem
    exact (hgone p hp).2 heq
  · intro k hk
    obtain ⟨p, hp, rfl⟩ := List.mem_map.mp hk
    rw [h.find?_eq_some_iff.mpr (hgone p hp).1]
    rfl
  · rw [hevictions, List.length_map, List.length_drop]
    omega

end Orders

/-- **The books of a cache.**  A cache that has been set up and is switched on may be asked whatever
and at whatever times.  Its tables are linked, and it has taken no more ticks than there were
requests.  The look-ups are the hits and the misses.  The results that were stored are those that
are there and those that went: evicted, expired, thrown away, cleared or replaced.  A result that is
stored next is taken in for one other entry at most. -/
theorem accounts_after (config : CacheConfig) (c : Cache κ) (hc : create config = .ok c)
    (henabled : config.enabled = true) (requests : List (Deontica.Request κ)) :
    Linked (after requests c) ∧ (after requests c).tick ≤ requests.length ∧
    (after requests c).hits + (after requests c).misses = requests.countP (·.isGet) ∧
    requests.countP (·.isPut) = (after requests c).size + (after requests c).evictions +
      (after requests c).expirations + total invalidated requests c + total cleared requests c +
      total replaced requests c ∧
    ∀ key result ttl now, TakesIn (after requests c) key ((after requests c).stored result ttl now)
      ((after requests c).put key result ttl now) := by
  have hstart := resembles_of_create hc henabled
  obtain ⟨rfl, hpos⟩ := create_eq_ok hc
  have hbalance := balance_after hstart requests
  have hlookups := lookups_after hstart requests
  have htick := tick_after_le hstart requests
  obtain ⟨l, hconfig, -, hfits, used, horders, rfl⟩ := hstart.foldl_serve requests
  rw [List.length_map, ← hconfig] at hfits
  rw [← hconfig] at henabled hpos
  refine ⟨horders.linked hfits, ?_, ?_, ?_, horders.takesIn_put henabled hfits hpos⟩
  · exact Nat.le_trans htick (Nat.le_of_eq (Nat.zero_add _))
  · exact hlookups.trans (Nat.zero_add _)
  · exact (hbalance.trans (Nat.zero_add _)).symm

/-- With room for two results, each of six goes another way. -/
theorem accounts_after_each_way :
    let c : Cache Nat := { config := { maxEntries := 2, ttl := 10 } }
    let result : Result := .plain .proved "native"
    let requests : List (Deontica.Request Nat) := [.put 1 result none 0, .put 1 result none 1,
      .put 2 result none 2, .put 3 result none 3, .get 1 4, .get 2 5, .get 2 20, .invalidate 3,
      .invalidate 3, .put 4 result none 21, .clear, .put 5 result none 22]
    create c.config = .ok c ∧ c.config.enabled = true ∧ (after requests c).stats = ⟨1, 2, 1, 1, 1⟩ ∧
      total invalidated requests c = 1 ∧ total cleared requests c = 1 ∧
      total replaced requests c = 1 ∧
      requests.countP (·.isPut) = (after requests c).size + (after requests c).evictions +
        (after requests c).expirations + total invalidated requests c + total cleared requests c +
        total replaced requests c :=
  ⟨rfl, rfl, by decide +kernel, rfl, rfl, rfl,
    (accounts_after { maxEntries := 2, ttl := 10 } _ rfl rfl _).2.2.2.1⟩

end Cache

end Deontica
