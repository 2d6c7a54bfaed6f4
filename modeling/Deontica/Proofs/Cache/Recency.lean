import Deontica.Cache
import Mathlib.Data.List.Basic
import Mathlib.Data.List.Induction
import Mathlib.Data.List.Nodup
import Mathlib.Data.List.Perm.Basic

/-!
# The order of use

A cache keeps its entries under their keys, and beside them the ticks of their last use with the
keys.  Both hold the same thing, a list of keys with entries in the order of use: the entries are
that list in some order, and the ticks run through it backwards (`Cache.Orders`).

Every operation is one on this list.  Dropping a key filters it (`Orders.drop`), putting something
under a new key adds to its front (`Orders.push`), and evicting cuts it off at the length that the
settings allow (`Orders.evict`).
-/

namespace Deontica

namespace Cache

variable {κ : Type}

/-- `used` lists the keys with their entries in the order of their last use, the latest first. -/
structure Orders (c : Cache κ) (used : List (κ × Entry)) : Prop where
  /-- The entries are those listed. -/
  entries : c.entries.Perm used
  /-- The ticks in use are those of the entries listed, oldest first. -/
  recency : c.recency = (used.map fun p => (p.2.tick, p.1)).reverse
  /-- No key is listed twice. -/
  keys : (used.map (·.1)).Nodup
  /-- An entry that was used later has the higher tick. -/
  ticks : used.Pairwise fun p q => q.2.tick < p.2.tick
  /-- No tick is higher than the last one taken. -/
  tick : ∀ p ∈ used, p.2.tick ≤ c.tick

/-- A cache without entries and ticks has nothing to list. -/
theorem orders_nil {c : Cache κ} (hentries : c.entries = []) (hrecency : c.recency = []) :
    Orders c [] :=
  ⟨hentries ▸ .nil, hrecency, .nil, .nil, nofun⟩

namespace Orders

variable {c d : Cache κ} {used : List (κ × Entry)} {key : κ}

/-- The list depends on nothing but the entries and the ticks. -/
theorem congr (h : Orders c used) (hentries : d.entries = c.entries)
    (hrecency : d.recency = c.recency) (htick : d.tick = c.tick) : Orders d used :=
  ⟨hentries ▸ h.entries, hrecency ▸ h.recency, h.keys, h.ticks, htick ▸ h.tick⟩

theorem size_eq (h : Orders c used) : c.size = used.length :=
  h.entries.length_eq

/-- An entry is known by its key. -/
theorem eq_of_key_eq (h : Orders c used) {p q : κ × Entry} (hp : p ∈ used) (hq : q ∈ used)
    (heq : p.1 = q.1) : p = q :=
  List.inj_on_of_nodup_map h.keys hp hq heq

/-- An entry is known by its tick. -/
theorem eq_of_tick_eq (h : Orders c used) {p q : κ × Entry} (hp : p ∈ used) (hq : q ∈ used)
    (heq : p.2.tick = q.2.tick) : p = q := by
  have hnodup : (used.map (·.2.tick)).Nodup :=
    List.pairwise_map.mpr (h.ticks.imp fun hlt => Nat.ne_of_gt hlt)
  exact List.inj_on_of_nodup_map hnodup hp hq heq

/-- **What is put under a new key comes first.** -/
theorem push (h : Orders c used) (hnew : ∀ p ∈ used, p.1 ≠ key) (result : Result)
    (stored ttl : Nat) :
    Orders (c.push key result stored ttl) ((key, ⟨result, stored, ttl, c.tick + 1⟩) :: used) where
  entries := h.entries.cons _
  recency := by
    show c.recency ++ [(c.tick + 1, key)] = _
    rw [h.recency, List.map_cons, List.reverse_cons]
  keys := by
    rw [List.map_cons, List.nodup_cons]
    refine ⟨fun hmem => ?_, h.keys⟩
    obtain ⟨p, hp, heq⟩ := List.mem_map.mp hmem
    exact hnew p hp heq
  ticks := List.pairwise_cons.mpr ⟨fun p hp => Nat.lt_succ_of_le (h.tick p hp), h.ticks⟩
  tick p hp := by
    rcases List.mem_cons.mp hp with rfl | hp
    · exact Nat.le_refl _
    · exact Nat.le_succ_of_le (h.tick p hp)

end Orders

variable [DecidableEq κ]

/-! ### Looking up -/

theorem lookup_eq_some_iff {α β : Type} [BEq α] [LawfulBEq α] {entries : List (α × β)}
    (hkeys : (entries.map (·.1)).Nodup) {key : α} {e : β} :
    entries.lookup key = some e ↔ (key, e) ∈ entries := by
  induction entries with
  | nil => simp
  | cons p entries ih =>
    obtain ⟨k, e'⟩ := p
    obtain ⟨hk, hkeys⟩ := List.nodup_cons.mp hkeys
    rw [List.lookup_cons, List.mem_cons]
    by_cases heq : key = k
    · subst heq
      -- no other entry has the key that was found first
      have hnot : (key, e) ∉ entries := fun hmem => hk (List.mem_map.mpr ⟨_, hmem, rfl⟩)
      simp [hnot, eq_comm]
    · rw [beq_eq_false_iff_ne.mpr heq, ih hkeys]
      simp [heq]

namespace Orders

variable {c d : Cache κ} {used : List (κ × Entry)} {key : κ}

theorem find?_eq_some_iff (h : Orders c used) {e : Entry} :
    c.find? key = some e ↔ (key, e) ∈ used := by
  have hkeys : (c.entries.map (·.1)).Nodup := (h.entries.map _).nodup_iff.mpr h.keys
  rw [find?, lookup_eq_some_iff hkeys]
  exact h.entries.mem_iff

theorem find?_eq_none_iff (h : Orders c used) :
    c.find? key = none ↔ ∀ p ∈ used, p.1 ≠ key := by
  rw [Option.eq_none_iff_forall_ne_some]
  constructor
  · rintro hnone ⟨k, e⟩ hp rfl
    exact hnone e (h.find?_eq_some_iff.mpr hp)
  · intro hnone e he
    exact hnone _ (h.find?_eq_some_iff.mp he) rfl

/-! ### Dropping -/

/-- **Dropping a key drops it from the list.** -/
theorem drop (h : Orders c used) (key : κ) : Orders (c.drop key) (used.filter (·.1 ≠ key)) := by
  unfold Cache.drop
  cases hfind : c.find? key with
  | none =>
    have hall : used.filter (·.1 ≠ key) = used :=
      List.filter_eq_self.mpr fun p hp => decide_eq_true (h.find?_eq_none_iff.mp hfind p hp)
    rw [hall]
    exact h
  | some e =>
    have hmem : (key, e) ∈ used := h.find?_eq_some_iff.mp hfind
    -- the tick that is taken out is that of the key and of no other
    have hsame : ∀ p ∈ used, decide (p.2.tick ≠ e.tick) = decide (p.1 ≠ key) := by
      intro p hp
      rw [decide_eq_decide, not_iff_not]
      constructor
      · intro heq
        rw [h.eq_of_tick_eq hp hmem heq]
      · intro heq
        rw [h.eq_of_key_eq hp hmem heq]
    exact {
      entries := h.entries.filter _
      recency := by
        show c.recency.filter (·.1 ≠ e.tick) = _
        rw [h.recency, List.filter_reverse, List.filter_map]
        congr 2
        exact List.filter_congr hsame
      keys := h.keys.sublist (List.filter_sublist.map _)
      ticks := h.ticks.sublist List.filter_sublist
      tick := fun p hp => h.tick p (List.mem_of_mem_filter hp) }

theorem ne_of_mem_filter {p : κ × Entry} (hp : p ∈ used.filter (·.1 ≠ key)) : p.1 ≠ key :=
  of_decide_eq_true (List.mem_filter.mp hp).2

/-- **What is stored under a key replaces what the key had, and comes first.** -/
theorem store (h : Orders c used) (key : κ) (result : Result) (stored ttl : Nat) :
    ∃ tick, Orders ((c.drop key).push key result stored ttl)
      ((key, ⟨result, stored, ttl, tick⟩) :: used.filter (·.1 ≠ key)) :=
  ⟨_, (h.drop key).push (fun _ hp => ne_of_mem_filter hp) result stored ttl⟩

theorem dropAll (h : Orders c used) (keys : List κ) :
    Orders (keys.foldl Cache.drop c) (used.filter (·.1 ∉ keys)) := by
  induction keys generalizing c used with
  | nil => simpa using h
  | cons key keys ih =>
    have hrest := ih (h.drop key)
    have hboth : (used.filter (·.1 ≠ key)).filter (·.1 ∉ keys) =
        used.filter (·.1 ∉ key :: keys) := by
      rw [List.filter_filter]
      refine List.filter_congr fun p _ => ?_
      simp [not_or, Bool.and_comm]
    rw [List.foldl_cons, ← hboth]
    exact hrest

/-- **Purging drops what is too old**, and counts it. -/
theorem purge (h : Orders c used) (now : Nat) :
    (c.purge now).1 = used.countP (·.2.isExpired now) ∧
      Orders (c.purge now).2 (used.filter (!·.2.isExpired now)) := by
  constructor
  · show ((c.entries.filter (·.2.isExpired now)).map (·.1)).length = _
    rw [List.length_map, ← List.countP_eq_length_filter]
    exact h.entries.countP_eq _
  · have hold : ∀ p ∈ used, decide (p.1 ∉ (c.entries.filter (·.2.isExpired now)).map (·.1)) =
        !p.2.isExpired now := by
      intro p hp
      rw [Bool.eq_iff_iff, decide_eq_true_iff, Bool.not_eq_true', ← Bool.not_eq_true, not_iff_not,
        List.mem_map]
      constructor
      · rintro ⟨q, hq, heq⟩
        obtain ⟨hmem, hexpired⟩ := List.mem_filter.mp hq
        rw [← h.eq_of_key_eq (h.entries.mem_iff.mp hmem) hp heq]
        exact hexpired
      · intro hexpired
        exact ⟨p, List.mem_filter.mpr ⟨h.entries.mem_iff.mpr hp, hexpired⟩, rfl⟩
    rw [← List.filter_congr hold]
    exact (h.dropAll _).congr rfl rfl rfl

end Orders

/-! ### Evicting -/

/-- Dropping a key is about the tables only. -/
theorem drop_eq (c : Cache κ) (key : κ) :
    c.drop key = { c with entries := (c.drop key).entries, recency := (c.drop key).recency } := by
  unfold drop
  cases c.find? key <;> rfl

theorem dropAll_eq (keys : List κ) (c : Cache κ) :
    keys.foldl drop c = { c with
      entries := (keys.foldl drop c).entries
      recency := (keys.foldl drop c).recency } := by
  induction keys generalizing c with
  | nil => rfl
  | cons key keys ih => rw [List.foldl_cons, ih, drop_eq]

/-- Evicting is about the tables and the counter of evictions only. -/
theorem evict_eq (recency : List (Nat × κ)) (c : Cache κ) :
    evict recency c = { c with
      entries := (evict recency c).entries
      recency := (evict recency c).recency
      evictions := (evict recency c).evictions } := by
  induction recency generalizing c with
  | nil => rfl
  | cons p recency ih =>
    rw [evict]
    split_ifs
    · rw [ih, drop_eq]
    · rfl

theorem config_drop (c : Cache κ) (key : κ) : (c.drop key).config = c.config := by
  rw [drop_eq]

theorem config_dropAll (keys : List κ) (c : Cache κ) :
    (keys.foldl drop c).config = c.config := by
  rw [dropAll_eq]

theorem config_evict (recency : List (Nat × κ)) (c : Cache κ) :
    (evict recency c).config = c.config := by
  rw [evict_eq]

/-- The entry that is made of a result when it is stored. -/
def stored (c : Cache κ) (result : Result) (ttl : Option Nat) (now : Nat) : Entry :=
  ⟨{ result with fromCache := false }, now, ttl.getD c.config.ttl, c.tick + 1⟩

/-- Storing a result takes a tick, and may evict something; else it is about the tables only. -/
theorem put_eq {c : Cache κ} (henabled : c.config.enabled = true) (key : κ) (result : Result)
    (ttl : Option Nat) (now : Nat) :
    c.put key result ttl now = { c with
      entries := (c.put key result ttl now).entries
      recency := (c.put key result ttl now).recency
      tick := c.tick + 1
      evictions := (c.put key result ttl now).evictions } := by
  unfold put
  rw [henabled]
  simp only [Bool.not_true, Bool.false_eq_true, if_false]
  rw [evict_eq, drop_eq]
  rfl

namespace Orders

variable {c : Cache κ} {used : List (κ × Entry)}

/-- The oldest entry is the first to be evicted, which leaves the others. -/
theorem evictOldest {key : κ} {e : Entry} (h : Orders c (used ++ [(key, e)])) :
    Orders { c.drop key with evictions := c.evictions + 1 } used := by
  have hothers : (used ++ [(key, e)]).filter (·.1 ≠ key) = used := by
    have hkeys := h.keys
    rw [List.map_append, List.nodup_append] at hkeys
    have hnew : ∀ p ∈ used, p.1 ≠ key := fun p hp =>
      hkeys.2.2 _ (List.mem_map_of_mem hp) _ (List.mem_singleton.mpr rfl)
    rw [List.filter_append, List.filter_eq_self.mpr fun p hp => decide_eq_true (hnew p hp)]
    simp
  exact (hothers ▸ h.drop key).congr rfl rfl rfl

/-- **Evicting cuts the list off** at the length that the settings allow, and counts what it cuts
off. -/
theorem evict (h : Orders c used) :
    Orders (evict c.recency c) (used.take c.config.maxEntries) ∧
      (Cache.evict c.recency c).evictions = c.evictions + (used.length - c.config.maxEntries) := by
  induction used using List.reverseRecOn generalizing c with
  | nil =>
    rw [h.recency, List.take_nil]
    exact ⟨h, by simp [Cache.evict]⟩
  | append_singleton used p ih =>
    obtain ⟨key, e⟩ := p
    have hrecency : c.recency = (e.tick, key) :: (used.map fun p => (p.2.tick, p.1)).reverse := by
      rw [h.recency, List.map_append, List.reverse_append]
      rfl
    have hlength : (used ++ [(key, e)]).length = used.length + 1 := List.length_append
    rw [hrecency, Cache.evict, hlength]
    split_ifs with hfull
    · rw [h.size_eq, hlength] at hfull
      have hlen : c.config.maxEntries ≤ used.length := Nat.le_of_lt_succ hfull
      obtain ⟨hrest, hcount⟩ := ih h.evictOldest
      rw [h.evictOldest.recency, config_drop] at hrest hcount
      rw [List.take_append_of_le_length hlen]
      refine ⟨hrest, hcount.trans ?_⟩
      show c.evictions + 1 + (used.length - c.config.maxEntries) = _
      omega
    · rw [h.size_eq, hlength, Nat.not_lt] at hfull
      rw [List.take_of_length_le (hlength ▸ hfull), Nat.sub_eq_zero_of_le hfull]
      exact ⟨h, rfl⟩

/-- **Storing a result** puts it in place of what the key had, as the one used last. -/
theorem put (h : Orders c used) (henabled : c.config.enabled = true) (key : κ) (result : Result)
    (ttl : Option Nat) (now : Nat) :
    Orders (c.put key result ttl now) (((key, c.stored result ttl now) ::
        used.filter (·.1 ≠ key)).take c.config.maxEntries) ∧
      (c.put key result ttl now).evictions = c.evictions +
        ((used.filter (·.1 ≠ key)).length + 1 - c.config.maxEntries) := by
  have hpush := ((h.drop key).push (fun _ hp => ne_of_mem_filter hp)
    { result with fromCache := false } now (ttl.getD c.config.ttl)).evict
  unfold Cache.put
  rw [henabled]
  simp only [Bool.not_true, Bool.false_eq_true, if_false]
  rw [drop_eq] at hpush ⊢
  exact hpush

end Orders

end Cache

end Deontica
