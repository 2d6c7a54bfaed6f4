import Deontica.Proofs.Cache.Key
import Deontica.Proofs.Office.Router

/-!
# What is found in the cache

Results are kept under keys, and a key is a digest.  As long as the inquiries that come up have
different digests, a result that is found under the key of an inquiry was kept for this inquiry and
no other, whatever dispatches did in the meantime (`keptFor_of_mem_entries`).
-/

namespace Deontica

namespace Inquiry

/-- The inquiries can be spelt out in full, and no two of them have one digest. -/
structure Distinguished (S : Set Inquiry) : Prop where
  fits : ∀ q ∈ S, q.fits = true
  digest : ∀ q ∈ S, ∀ q' ∈ S, Blake3.hash q.stream = Blake3.hash q'.stream → q.stream = q'.stream

theorem Distinguished.eq_of_key_eq {S : Set Inquiry} (h : Distinguished S) {q q' : Inquiry}
    (hq : q ∈ S) (hq' : q' ∈ S) (heq : Key.ofInquiry q = Key.ofInquiry q') : q = q' :=
  eq_of_stream_eq (h.fits q hq) (h.fits q' hq') (h.digest q hq q' hq' (Key.mk.inj heq))

end Inquiry

namespace Router

variable {analyzer : AnalyzerConfig} {cache : CacheConfig} {config : RouterConfig} {r : Router Key}

/-- A new router addresses its cache by digests, and nothing has happened in its office. -/
theorem isNew_of_create (h : Router.create analyzer cache config = .ok r) :
    r.keyOf = Key.ofInquiry ∧ r.office.IsNew := by
  unfold Router.create Cache.create at h
  cases hvalid : cache.validate with
  | error e =>
    rw [hvalid] at h
    cases h
  | ok u =>
    rw [hvalid] at h
    cases h
    exact ⟨rfl, rfl, rfl, rfl⟩

/-- What is in the cache is under the key of what a dispatch has asked, and was kept for it. -/
theorem exists_began_of_mem_entries (hcreate : Router.create analyzer cache config = .ok r)
    {events : List Event} {o : Office Key} (hrun : Office.Run r.keyOf r.office events o)
    {p : Key × Entry} (hp : p ∈ o.desk.cache.entries) :
    ∃ i d, .began i d ∈ events ∧ p.1 = Key.ofInquiry d.inquiry ∧
      KeptFor events d.inquiry p.2.result := by
  obtain ⟨hkeyOf, hnew⟩ := isNew_of_create hcreate
  obtain ⟨q, hq, hkept⟩ := (hrun.traced hnew).entries p hp
  rw [hkeyOf] at hq
  have hasked : ∃ i d, Event.began i d ∈ events ∧ d.inquiry = q := by
    obtain ⟨before, after, i, d, answer, rfl, hinquiry, _, hbegan, _⟩ := hkept
    exact ⟨i, d, List.mem_append_left _ hbegan, hinquiry⟩
  obtain ⟨i, d, hbegan, rfl⟩ := hasked
  exact ⟨i, d, hbegan, hq.symm, hkept⟩

/-- Under the key of an inquiry there are only results that were kept for it. -/
theorem keptFor_of_mem_entries {S : Set Inquiry} (hS : Inquiry.Distinguished S)
    (hcreate : Router.create analyzer cache config = .ok r) {events : List Event} {o : Office Key}
    (hrun : Office.Run r.keyOf r.office events o)
    (hasked : ∀ i d, .began i d ∈ events → d.inquiry ∈ S) {p : Key × Entry}
    (hp : p ∈ o.desk.cache.entries) {q : Inquiry} (hq : q ∈ S) (hkey : p.1 = Key.ofInquiry q) :
    KeptFor events q p.2.result := by
  obtain ⟨i, d, hbegan, hkey', hkept⟩ := exists_began_of_mem_entries hcreate hrun hp
  rw [hS.eq_of_key_eq hq (hasked i d hbegan) (hkey.symm.trans hkey')]
  exact hkept

/-- **The cache is coherent.**  However dispatches take turns in the office of a new router, every
entry of the cache is under the key of an inquiry that a dispatch has made, and a result under the
key of an inquiry was kept for this inquiry: a registered prover of this name and with these
settings had come back with it (`KeptFor`).  An answer from the cache is such a result, found there
by the dispatch that gives it.  What the router itself does with requests (`serve`) is one way of
taking turns. -/
theorem office_coherent (hcreate : Router.create analyzer cache config = .ok r) (S : Set Inquiry)
    (hS : Inquiry.Distinguished S) :
    (∀ events o, Office.Run r.keyOf r.office events o →
      (∀ i d, .began i d ∈ events → d.inquiry ∈ S) →
      (∀ p ∈ o.desk.cache.entries,
        (∃ i d, .began i d ∈ events ∧ p.1 = Key.ofInquiry d.inquiry) ∧
          ∀ q ∈ S, p.1 = Key.ofInquiry q → KeptFor events q p.2.result) ∧
      ∀ before after i result, events = before ++ .did i (.answered (.answered result)) :: after →
        result.fromCache = true → ∃ d o₁ entry, .began i d ∈ before ∧
          Office.Run r.keyOf r.office before o₁ ∧
          o₁.desk.cache.find? (Key.ofInquiry d.inquiry) = some entry ∧
          KeptFor before d.inquiry entry.result ∧
          result = { entry.result with fromCache := true, elapsed := result.elapsed }) ∧
    ∀ requests : List Request, ∃ events o, Office.Run r.keyOf r.office events o ∧
      o.registry = (requests.foldl serve r).registry ∧
      o.desk = (requests.foldl serve r).desk := by
  refine ⟨fun events o hrun hasked => ⟨fun p hp => ⟨?_, fun q hq hkey =>
    keptFor_of_mem_entries hS hcreate hrun hasked hp hq hkey⟩, ?_⟩, r.exists_run_serve⟩
  · obtain ⟨i, d, hbegan, hkey, _⟩ := exists_began_of_mem_entries hcreate hrun hp
    exact ⟨i, d, hbegan, hkey⟩
  · intro before after i result heq hcached
    obtain ⟨hkeyOf, hnew⟩ := isNew_of_create hcreate
    obtain ⟨d, o₁, entry, hbegan, hrun₁, hfind, hresult⟩ := hrun.answered hnew heq hcached
    rw [hkeyOf] at hfind
    have hasked₁ : ∀ j d', Event.began j d' ∈ before → d'.inquiry ∈ S := fun j d' h =>
      hasked j d' (heq ▸ List.mem_append_left _ h)
    have hkept := keptFor_of_mem_entries hS hcreate hrun₁ hasked₁ (Cache.mem_of_find? hfind)
      (hasked₁ i d hbegan) rfl
    exact ⟨d, o₁, entry, hbegan, hrun₁, hfind, hkept, hresult⟩

/-- Two dispatches of one problem take turns: the second begins before the prover has come back to
the first, and finds the answer that the first has kept. -/
theorem office_coherent_shared :
    let seat : Seat := ⟨0, "oracle", true, {}, [], .millis 5, fun _ _ _ => .crashed⟩
    let d : Dispatch := ⟨seat, .atom "P", []⟩
    let found : Result := { Result.plain .proved "oracle" with fromCache := true }
    Inquiry.Distinguished {d.inquiry, ⟨.atom "Q", [], "oracle", []⟩} ∧
      ∃ r before o, Router.create {} {} {} = .ok r ∧
        Office.Run r.keyOf r.office (before ++ [.did 1 (.answered (.answered found))]) o ∧
        ∃ d o₁ entry, .began 1 d ∈ before ∧ Office.Run r.keyOf r.office before o₁ ∧
          o₁.desk.cache.find? (Key.ofInquiry d.inquiry) = some entry ∧
          KeptFor before d.inquiry entry.result ∧
          found = { entry.result with fromCache := true, elapsed := found.elapsed } := by
  intro seat d found
  have hS : Inquiry.Distinguished {d.inquiry, ⟨.atom "Q", [], "oracle", []⟩} := by
    constructor
    · rintro q (rfl | rfl) <;> decide +kernel
    · rintro q (rfl | rfl) q' (rfl | rfl) h
      · rfl
      · exact absurd h (by decide +kernel)
      · exact absurd h (by decide +kernel)
      · rfl
  let r : Router Key :=
    { registry := {}, analyzer := {}, config := {}, keyOf := .ofInquiry
      desk := { cache := { config := {} } } }
  have hcreate : Router.create {} {} {} = .ok r := rfl
  have move : ∀ (before after : List Task) (i : Nat) (stage : Stage) {events o act stage' desk},
      Office.Run r.keyOf r.office events o → o.tasks = before ++ ⟨i, d, stage⟩ :: after →
      Moves r.keyOf d stage o.desk act stage' desk →
      Office.Run r.keyOf r.office (events ++ [.did i act])
        { o with desk := desk, tasks := before ++ (stage'.map (Task.mk i d)).toList ++ after } :=
    fun _ _ _ _ _ _ _ _ _ hrun htasks hmove => hrun.snoc (.move htasks hmove)
  have hstart : Office.Run r.keyOf r.office [] r.office := .nil
  have hregister := hstart.snoc (.register _ seat.prover)
  have hbegin := hregister.snoc (.begin _ (d := d) List.mem_cons_self)
  have hclear := move [] [] 0 .begun hbegin rfl (.clear rfl)
  have hmiss := move [] [] 0 .cleared hclear rfl (.miss 0 rfl)
  have hbegin' := hmiss.snoc (.begin _ (d := d) List.mem_cons_self)
  have hclear' := move [⟨0, d, .working⟩] [] 1 .begun hbegin' rfl (.clear rfl)
  let run : Deontica.Run := .answered (.plain .proved "anonymous")
  have hreturn := move [] [⟨1, d, .cleared⟩] 0 .working hclear' rfl (.comeBack run)
  have hstore := move [] [⟨1, d, .cleared⟩] 0 _ hreturn rfl (.store 5)
  let kept : Entry := ⟨.plain .proved "oracle", 5, 3600000, 1⟩
  have hfind : List.lookup (Key.ofInquiry d.inquiry) [(Key.ofInquiry d.inquiry, kept)] =
      some kept := List.lookup_cons_self
  have hhit := move [⟨0, d, .settled (Desk.attemptOf "oracle" (.cameBack run))⟩] [] 1 .cleared
    hstore rfl (.hit 7 (Prod.ext (Desk.lookup_of_find? rfl hfind rfl) rfl))
  refine ⟨hS, r, _, _, hcreate, hhit, ?_⟩
  refine ((office_coherent hcreate _ hS).1 _ _ hhit fun i d' h => ?_).2 _ [] _ _ rfl rfl
  have heq : i = r.office.next ∧ d' = d ∨ i = r.office.next + 1 ∧ d' = d := by simpa using h
  rcases heq with ⟨_, rfl⟩ | ⟨_, rfl⟩
  · exact Or.inl rfl
  · exact Or.inl rfl

end Router

end Deontica
