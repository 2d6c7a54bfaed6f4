import Deontica.Config
import Deontica.Proof

/-!
# The proof cache

A bounded store of proof results.  An entry is good for a length of time, and when the store is full
the entry that was used least recently makes room.

Every use of an entry takes a new *tick*, a number higher than all before, and `recency` lists the
ticks in use with their keys, oldest first.  So `recency` and `entries` hold the same keys, and an
entry's place in the order of use is its tick.

The cache does not look at a clock; each operation that depends on time is told the time.
-/

namespace Deontica

/-- A result in the cache. -/
structure Entry where
  result : Result
  /-- When the result was stored. -/
  stored : Nat
  /-- How long it is good. -/
  ttl : Nat
  /-- When it was used last, in ticks. -/
  tick : Nat
  deriving Repr, Inhabited

/-- Whether an entry is too old to be used. -/
def Entry.isExpired (e : Entry) (now : Nat) : Bool :=
  decide (e.ttl < now - e.stored)

/-- A store of results under keys, with an account of its use.  Times are in milliseconds. -/
structure Cache (κ : Type) where
  config : CacheConfig
  /-- The entries by key, each key once. -/
  entries : List (κ × Entry) := []
  /-- The ticks in use and what was used, oldest first. -/
  recency : List (Nat × κ) := []
  /-- The last tick taken. -/
  tick : Nat := 0
  hits : Nat := 0
  misses : Nat := 0
  evictions : Nat := 0
  expirations : Nat := 0
  deriving Repr, Inhabited

namespace Cache

variable {κ : Type} [DecidableEq κ]

/-- An empty cache, if its settings are in order. -/
def create (config : CacheConfig) : Except ConfigError (Cache κ) := do
  config.validate
  return { config := config }

/-- The number of entries. -/
def size (c : Cache κ) : Nat :=
  c.entries.length

/-- Whether there is no entry. -/
def isEmpty (c : Cache κ) : Bool :=
  c.entries.isEmpty

/-- The entry of a key. -/
def find? (c : Cache κ) (key : κ) : Option Entry :=
  c.entries.lookup key

/-- Drops the entry of a key, if there is one. -/
def drop (c : Cache κ) (key : κ) : Cache κ :=
  match c.find? key with
  | none => c
  | some entry =>
    { c with
      entries := c.entries.filter (·.1 ≠ key)
      recency := c.recency.filter (·.1 ≠ entry.tick) }

/-- Puts an entry under a key that has none, as the one used last. -/
def push (c : Cache κ) (key : κ) (result : Result) (stored ttl : Nat) : Cache κ :=
  let tick := c.tick + 1
  { c with
    entries := (key, ⟨result, stored, ttl, tick⟩) :: c.entries
    recency := c.recency ++ [(tick, key)]
    tick := tick }

/-- Evicts entries, oldest first, until the store fits. -/
def evict : List (Nat × κ) → Cache κ → Cache κ
  | [], c => c
  | (_, key) :: rest, c =>
    if c.config.maxEntries < c.size then
      evict rest { c.drop key with evictions := c.evictions + 1 }
    else c

/-- Looks up a key at a given time.  A result that is found is marked as cached and counts as used;
one that is too old is dropped. -/
def get (c : Cache κ) (key : κ) (now : Nat) : Option Result × Cache κ :=
  if !c.config.enabled then (none, c)
  else
    match c.find? key with
    | none => (none, { c with misses := c.misses + 1 })
    | some entry =>
      if entry.isExpired now then
        (none, { c.drop key with expirations := c.expirations + 1, misses := c.misses + 1 })
      else
        (some { entry.result with fromCache := true },
          { (c.drop key).push key entry.result entry.stored entry.ttl with hits := c.hits + 1 })

/-- Stores a result at a given time, in place of what the key had; the configured time to live is
taken unless one is given. -/
def put (c : Cache κ) (key : κ) (result : Result) (ttl : Option Nat) (now : Nat) : Cache κ :=
  if !c.config.enabled then c
  else
    let c := (c.drop key).push key { result with fromCache := false } now (ttl.getD c.config.ttl)
    evict c.recency c

/-- Drops the entry of a key, and says whether there was one. -/
def invalidate (c : Cache κ) (key : κ) : Bool × Cache κ :=
  ((c.find? key).isSome, c.drop key)

/-- Drops all entries; the account is kept. -/
def clear (c : Cache κ) : Cache κ :=
  { c with entries := [], recency := [] }

/-- Drops all entries that are too old, and says how many. -/
def purge (c : Cache κ) (now : Nat) : Nat × Cache κ :=
  let old := (c.entries.filter (·.2.isExpired now)).map (·.1)
  (old.length, { old.foldl drop c with expirations := c.expirations + old.length })

/-- The account of a cache's use. -/
structure Stats where
  hits : Nat
  misses : Nat
  entries : Nat
  evictions : Nat
  expirations : Nat
  deriving Repr, DecidableEq, Inhabited

def stats (c : Cache κ) : Stats :=
  ⟨c.hits, c.misses, c.size, c.evictions, c.expirations⟩

end Cache

end Deontica
