import Deontica.Cache.Key
import Mathlib.Algebra.Ring.Nat

/-!
# Keys tell inquiries apart

The stream of an inquiry can be read back in one way only, as long as eight bytes hold the length of
every text and list of arguments in it (`Inquiry.fits`).  So two inquiries with one stream are the
same, and two with one key are the same or make the digest collide (`stream_eq_iff`).

What is shown of each piece of a stream is that it *ends by itself*: if two such pieces start two
equal streams, the pieces are equal and so is what follows them.  A node of a tree determines all
about the node but its children, and how many children are to come; so the trees that wait to be
spelt are equal if the streams are and the trees are equally many (`terms_append_inj`,
`formulas_append_inj`).
-/

namespace Deontica

/-! ### What eight bytes can count -/

/-- Whether eight bytes can hold the number. -/
def Stream.isCount (n : Nat) : Bool :=
  decide (n < 2 ^ 64)

/-- Whether eight bytes can hold the length of the text. -/
def Stream.isShort (s : String) : Bool :=
  isCount s.utf8ByteSize

mutual

/-- Whether eight bytes can hold the length of every name and list of arguments in a term. -/
def Term.fits : Term → Bool
  | .var x => Stream.isShort x
  | .const c => Stream.isShort c
  | .app f args => Stream.isShort f && Stream.isCount args.length && Term.allFit args

/-- Whether eight bytes can hold the length of every name and list of arguments in some terms. -/
def Term.allFit : List Term → Bool
  | [] => true
  | t :: ts => Term.fits t && Term.allFit ts

end

/-- Whether eight bytes can hold the length of every name and list of arguments in a formula. -/
def Formula.fits : Formula → Bool
  | .pred p args => Stream.isShort p && Stream.isCount args.length && Term.allFit args
  | .not a | .deontic _ a | .tense _ a => a.fits
  | .quant _ x a => Stream.isShort x && a.fits
  | .binary _ a b | .span _ a b => a.fits && b.fits

/-- Whether eight bytes can hold the length of every text and list of arguments in an inquiry. -/
def Inquiry.fits (q : Inquiry) : Bool :=
  (q.goal :: q.axioms).all Formula.fits && Stream.isShort q.prover &&
    q.settings.all fun (name, value) => Stream.isShort name && Stream.isShort value

namespace Stream

/-! ### Texts and counts -/

theorem bytes_inj {s t : String} (h : bytes s = bytes t) : s = t := by
  rw [← String.toByteArray_inj]
  exact ByteArray.ext (Array.toList_inj.mp h)

theorem length_lowBytes (k n : Nat) : (lowBytes k n).length = k := by
  induction k generalizing n with
  | zero => rfl
  | succ k ih => rw [lowBytes, List.length_cons, ih]

/-- The lowest bytes of a number that has no others are the number. -/
theorem lowBytes_inj {k m n : Nat} (hm : m < 256 ^ k) (hn : n < 256 ^ k)
    (h : lowBytes k m = lowBytes k n) : m = n := by
  induction k generalizing m n with
  | zero => omega
  | succ k ih =>
    rw [lowBytes, lowBytes, List.cons.injEq] at h
    obtain ⟨hlow, hrest⟩ := h
    have hmod : m % 256 = n % 256 := congrArg UInt8.toNat hlow
    have hdiv : m / 256 = n / 256 :=
      ih (Nat.div_lt_of_lt_mul (by rw [← Nat.pow_succ']; exact hm))
        (Nat.div_lt_of_lt_mul (by rw [← Nat.pow_succ']; exact hn)) hrest
    omega

theorem count_append_inj {m n : Nat} (hm : isCount m = true) (hn : isCount n = true)
    {r r' : List UInt8} (h : count m ++ r = count n ++ r') : m = n ∧ r = r' := by
  have hpow : 2 ^ 64 = 256 ^ 8 := by decide
  rw [isCount, decide_eq_true_eq, hpow] at hm hn
  obtain ⟨hcount, hrest⟩ :=
    List.append_inj h (by rw [count, count, length_lowBytes, length_lowBytes])
  exact ⟨lowBytes_inj hm hn hcount, hrest⟩

/-- A text with its kind and length in front ends by itself. -/
theorem frame_append_inj {kind kind' : UInt8} {s s' : String} (hs : isShort s = true)
    (hs' : isShort s' = true) {r r' : List UInt8} (h : frame kind s ++ r = frame kind' s' ++ r') :
    kind = kind' ∧ s = s' ∧ r = r' := by
  simp only [frame, List.cons_append, List.append_assoc, List.cons.injEq] at h
  obtain ⟨hkind, h⟩ := h
  obtain ⟨hlength, h⟩ := count_append_inj hs hs' h
  obtain ⟨hbytes, hrest⟩ := List.append_inj h hlength
  exact ⟨hkind, bytes_inj hbytes, hrest⟩

/-! ### Terms -/

theorem allFit_append (ts us : List Term) :
    Term.allFit (ts ++ us) = (Term.allFit ts && Term.allFit us) := by
  induction ts with
  | nil => rfl
  | cons t ts ih => rw [List.cons_append, Term.allFit, Term.allFit, ih, Bool.and_assoc]

theorem allFit_args {t : Term} (h : t.fits = true) : Term.allFit t.args = true := by
  cases t with
  | var x => rfl
  | const c => rfl
  | app f args =>
    rw [Term.fits, Bool.and_eq_true] at h
    exact h.2

theorem terms_cons (t : Term) (ts : List Term) :
    terms (t :: ts) = termNode t ++ terms (t.args ++ ts) := by
  rw [terms, Term.Walk.visit, List.flatMap_cons, terms]

/-- The node of a term determines all about the term but its arguments, and their number. -/
theorem termNode_append_inj {t u : Term} (ht : t.fits = true) (hu : u.fits = true)
    {r r' : List UInt8} (h : termNode t ++ r = termNode u ++ r') :
    t.args.length = u.args.length ∧ (t.args = u.args → t = u) ∧ r = r' := by
  cases t with
  | var x =>
    cases u with
    | var y =>
      obtain ⟨-, rfl, hrest⟩ := frame_append_inj ht hu h
      exact ⟨rfl, fun _ => rfl, hrest⟩
    | const c => simp [termNode, frame] at h
    | app g bs => simp [termNode, frame] at h
  | const c =>
    cases u with
    | var y => simp [termNode, frame] at h
    | const d =>
      obtain ⟨-, rfl, hrest⟩ := frame_append_inj ht hu h
      exact ⟨rfl, fun _ => rfl, hrest⟩
    | app g bs => simp [termNode, frame] at h
  | app f as =>
    cases u with
    | var y => simp [termNode, frame] at h
    | const d => simp [termNode, frame] at h
    | app g bs =>
      simp only [Term.fits, Bool.and_eq_true] at ht hu
      rw [termNode, termNode, List.append_assoc, List.append_assoc] at h
      obtain ⟨-, rfl, hcount⟩ := frame_append_inj ht.1.1 hu.1.1 h
      obtain ⟨hlength, hrest⟩ := count_append_inj ht.1.2 hu.1.2 hcount
      exact ⟨hlength, fun hargs => congrArg _ hargs, hrest⟩

/-- Equally many terms with one stream, whatever follows it, are the same. -/
theorem terms_append_inj {ts us : List Term} (hts : Term.allFit ts = true)
    (hus : Term.allFit us = true) (hlength : ts.length = us.length) {r r' : List UInt8}
    (h : terms ts ++ r = terms us ++ r') : ts = us ∧ r = r' := by
  induction ts using Term.Walk.visit.induct generalizing us with
  | case1 =>
    obtain rfl := List.length_eq_zero_iff.mp hlength.symm
    exact ⟨rfl, List.append_cancel_left h⟩
  | case2 t ts ih =>
    match us, hlength with
    | u :: us, hlength =>
      rw [Term.allFit, Bool.and_eq_true] at hts hus
      rw [terms_cons, terms_cons, List.append_assoc, List.append_assoc] at h
      obtain ⟨hargs, hnode, h⟩ := termNode_append_inj hts.1 hus.1 h
      obtain ⟨hall, hrest⟩ := ih (by rw [allFit_append, allFit_args hts.1, hts.2]; rfl)
        (by rw [allFit_append, allFit_args hus.1, hus.2]; rfl)
        (by simpa [hargs] using hlength) h
      obtain ⟨heq, htail⟩ := List.append_inj hall hargs
      exact ⟨by rw [hnode heq, htail], hrest⟩

/-! ### Formulas -/

/-- The bytes of formulas one after the other. -/
def formulas (fs : List Formula) : List UInt8 :=
  (Formula.Walk.visit fs).flatMap node

theorem formulas_cons (f : Formula) (fs : List Formula) :
    formulas (f :: fs) = node f ++ formulas (f.children ++ fs) := by
  rw [formulas, Formula.Walk.visit, List.flatMap_cons, formulas]

theorem fits_children {f : Formula} (h : f.fits = true) : ∀ g ∈ f.children, g.fits = true := by
  cases f with
  | pred p args => exact nofun
  | not a => simpa [Formula.children, Formula.fits] using h
  | binary op a b => simpa [Formula.children, Formula.fits] using h
  | quant q x a =>
    rw [Formula.fits, Bool.and_eq_true] at h
    simpa [Formula.children] using h.2
  | deontic op a => simpa [Formula.children, Formula.fits] using h
  | tense op a => simpa [Formula.children, Formula.fits] using h
  | span op a b => simpa [Formula.children, Formula.fits] using h

/-! The byte of an operator tells which it is. -/

theorem connective_inj {a b : Connective} (h : a.rank.toUInt8 = b.rank.toUInt8) : a = b := by
  cases a <;> cases b <;> revert h <;> decide

theorem quantifier_inj {a b : Quantifier} (h : a.rank.toUInt8 = b.rank.toUInt8) : a = b := by
  cases a <;> cases b <;> revert h <;> decide

theorem norm_inj {a b : Norm} (h : a.rank.toUInt8 = b.rank.toUInt8) : a = b := by
  cases a <;> cases b <;> revert h <;> decide

theorem tense_inj {a b : Tense} (h : a.rank.toUInt8 = b.rank.toUInt8) : a = b := by
  cases a <;> cases b <;> revert h <;> decide

theorem span_inj {a b : Span} (h : a.rank.toUInt8 = b.rank.toUInt8) : a = b := by
  cases a <;> cases b <;> revert h <;> decide

/-- The node of a formula determines all about the formula but its children, and their number. -/
theorem node_append_inj {f g : Formula} (hf : f.fits = true) (hg : g.fits = true)
    {r r' : List UInt8} (h : node f ++ r = node g ++ r') :
    f.children.length = g.children.length ∧ (f.children = g.children → f = g) ∧ r = r' := by
  cases f with
  | pred p args =>
    cases g with
    | pred p' args' =>
      simp only [Formula.fits, Bool.and_eq_true] at hf hg
      simp only [node, List.append_assoc] at h
      obtain ⟨-, rfl, hcount⟩ := frame_append_inj hf.1.1 hg.1.1 h
      obtain ⟨hlength, hterms⟩ := count_append_inj hf.1.2 hg.1.2 hcount
      obtain ⟨rfl, hrest⟩ := terms_append_inj hf.2 hg.2 hlength hterms
      exact ⟨rfl, fun _ => rfl, hrest⟩
    | _ => simp [node, frame] at h
  | not a =>
    cases g with
    | not b => simpa [Formula.children, node] using h
    | _ => simp [node, frame] at h
  | binary op a b =>
    cases g with
    | binary op' a' b' =>
      simp only [node, List.cons_append, List.cons.injEq, true_and, List.nil_append] at h
      obtain rfl := connective_inj h.1
      simpa [Formula.children] using h.2
    | _ => simp [node, frame] at h
  | quant q x a =>
    cases g with
    | quant q' x' a' =>
      rw [Formula.fits, Bool.and_eq_true] at hf hg
      simp only [node, List.cons_append, List.cons.injEq, true_and, List.nil_append] at h
      obtain rfl := quantifier_inj h.1
      obtain ⟨-, rfl, hrest⟩ := frame_append_inj hf.1 hg.1 h.2
      simpa [Formula.children] using hrest
    | _ => simp [node, frame] at h
  | deontic op a =>
    cases g with
    | deontic op' a' =>
      simp only [node, List.cons_append, List.cons.injEq, true_and, List.nil_append] at h
      obtain rfl := norm_inj h.1
      simpa [Formula.children] using h.2
    | _ => simp [node, frame] at h
  | tense op a =>
    cases g with
    | tense op' a' =>
      simp only [node, List.cons_append, List.cons.injEq, true_and, List.nil_append] at h
      obtain rfl := tense_inj h.1
      simpa [Formula.children] using h.2
    | _ => simp [node, frame] at h
  | span op a b =>
    cases g with
    | span op' a' b' =>
      simp only [node, List.cons_append, List.cons.injEq, true_and, List.nil_append] at h
      obtain rfl := span_inj h.1
      simpa [Formula.children] using h.2
    | _ => simp [node, frame] at h

/-- Equally many formulas with one stream, whatever follows it, are the same. -/
theorem formulas_append_inj {fs gs : List Formula} (hfs : ∀ f ∈ fs, f.fits = true)
    (hgs : ∀ g ∈ gs, g.fits = true) (hlength : fs.length = gs.length) {r r' : List UInt8}
    (h : formulas fs ++ r = formulas gs ++ r') : fs = gs ∧ r = r' := by
  induction fs using Formula.Walk.visit.induct generalizing gs with
  | case1 =>
    obtain rfl := List.length_eq_zero_iff.mp hlength.symm
    exact ⟨rfl, List.append_cancel_left h⟩
  | case2 f fs ih =>
    match gs, hlength with
    | g :: gs, hlength =>
      rw [List.forall_mem_cons] at hfs hgs
      rw [formulas_cons, formulas_cons, List.append_assoc, List.append_assoc] at h
      obtain ⟨hnumber, hnode, h⟩ := node_append_inj hfs.1 hgs.1 h
      obtain ⟨hall, hrest⟩ := ih (List.forall_mem_append.mpr ⟨fits_children hfs.1, hfs.2⟩)
        (List.forall_mem_append.mpr ⟨fits_children hgs.1, hgs.2⟩)
        (by simpa [hnumber] using hlength) h
      obtain ⟨hchildren, htail⟩ := List.append_inj hall hnumber
      exact ⟨by rw [hnode hchildren, htail], hrest⟩

/-- The stream of a formula ends by itself. -/
theorem formula_append_inj {f g : Formula} (hf : f.fits = true) (hg : g.fits = true)
    {r r' : List UInt8} (h : formula f ++ r = formula g ++ r') : f = g ∧ r = r' := by
  obtain ⟨hfg, hrest⟩ := formulas_append_inj (List.forall_mem_singleton.mpr hf)
    (List.forall_mem_singleton.mpr hg) rfl h
  exact ⟨(List.cons.inj hfg).1, hrest⟩

/-! ### Inquiries -/

/-- Axioms are not counted; they end where the next byte is not that of an axiom. -/
theorem axioms_append_inj {fs gs : List Formula} (hfs : ∀ f ∈ fs, f.fits = true)
    (hgs : ∀ g ∈ gs, g.fits = true) {r r' : List UInt8} (hr : r.head? ≠ some 0x02)
    (hr' : r'.head? ≠ some 0x02)
    (h : fs.flatMap (fun f => 0x02 :: formula f) ++ r =
      gs.flatMap (fun f => 0x02 :: formula f) ++ r') : fs = gs ∧ r = r' := by
  induction fs generalizing gs with
  | nil =>
    cases gs with
    | nil => exact ⟨rfl, h⟩
    | cons g gs => exact absurd (congrArg List.head? h) hr
  | cons f fs ih =>
    cases gs with
    | nil => exact absurd (congrArg List.head? h).symm hr'
    | cons g gs =>
      rw [List.forall_mem_cons] at hfs hgs
      simp only [List.flatMap_cons, List.cons_append, List.append_assoc, List.cons.injEq,
        true_and] at h
      obtain ⟨hfirst, hmore⟩ := formula_append_inj hfs.1 hgs.1 h
      obtain ⟨hothers, hrest⟩ := ih hfs.2 hgs.2 hmore
      exact ⟨by rw [hfirst, hothers], hrest⟩

/-- Settings end where the stream does. -/
theorem settings_inj {ps qs : List (String × String)}
    (hps : ∀ p ∈ ps, isShort p.1 = true ∧ isShort p.2 = true)
    (hqs : ∀ q ∈ qs, isShort q.1 = true ∧ isShort q.2 = true)
    (h : ps.flatMap (fun (name, value) => frame 0x04 name ++ frame 0x05 value) =
      qs.flatMap (fun (name, value) => frame 0x04 name ++ frame 0x05 value)) : ps = qs := by
  induction ps generalizing qs with
  | nil =>
    cases qs with
    | nil => rfl
    | cons q qs => cases h
  | cons p ps ih =>
    cases qs with
    | nil => cases h
    | cons q qs =>
      rw [List.forall_mem_cons] at hps hqs
      simp only [List.flatMap_cons, List.append_assoc] at h
      obtain ⟨-, hname, h⟩ := frame_append_inj hps.1.1 hqs.1.1 h
      obtain ⟨-, hvalue, h⟩ := frame_append_inj hps.1.2 hqs.1.2 h
      rw [Prod.ext hname hvalue, ih hps.2 hqs.2 h]

end Stream

namespace Inquiry

theorem eq_of_stream_eq {q q' : Inquiry} (hq : q.fits = true) (hq' : q'.fits = true)
    (h : q.stream = q'.stream) : q = q' := by
  simp only [fits, Bool.and_eq_true, List.all_eq_true, List.forall_mem_cons] at hq hq'
  obtain ⟨⟨⟨hgoal, haxioms⟩, hprover⟩, hsettings⟩ := hq
  obtain ⟨⟨⟨hgoal', haxioms'⟩, hprover'⟩, hsettings'⟩ := hq'
  simp only [stream, List.cons_append, List.append_assoc, List.cons.injEq, true_and] at h
  obtain ⟨hgoals, h⟩ := Stream.formula_append_inj hgoal hgoal' h
  -- the kind of the prover's name is not that of an axiom
  obtain ⟨haxioms, h⟩ := Stream.axioms_append_inj haxioms haxioms' (by simp [Stream.frame])
    (by simp [Stream.frame]) h
  obtain ⟨-, hprovers, h⟩ := Stream.frame_append_inj hprover hprover' h
  have hsettings := Stream.settings_inj hsettings hsettings' h
  cases q
  cases q'
  rw [mk.injEq]
  exact ⟨hgoals, haxioms, hprovers, hsettings⟩

/-- **Keys tell inquiries apart.**  Two inquiries with one stream are the same, and two with one key
are the same unless their streams, which differ then, have one digest. -/
theorem stream_eq_iff {q q' : Inquiry} (hq : q.fits = true) (hq' : q'.fits = true) :
    (q.stream = q'.stream ↔ q = q') ∧
      (Key.ofInquiry q = Key.ofInquiry q' ↔
        q = q' ∨ q.stream ≠ q'.stream ∧ Blake3.hash q.stream = Blake3.hash q'.stream) := by
  have hstream : q.stream = q'.stream ↔ q = q' :=
    ⟨eq_of_stream_eq hq hq', fun h => congrArg stream h⟩
  refine ⟨hstream, ?_⟩
  rw [Key.ofInquiry, Key.ofInquiry, Key.mk.injEq, ← hstream]
  constructor
  · intro h
    by_cases hsame : q.stream = q'.stream
    · exact Or.inl hsame
    · exact Or.inr ⟨hsame, h⟩
  · rintro (h | ⟨-, h⟩)
    · rw [h]
    · exact h

/-- A variable and a constant of one name are told apart, although the formulas print alike. -/
theorem stream_eq_iff_var_const :
    let q : Inquiry := ⟨.all "x" (.pred "R" [.var "x"]), [], "native", []⟩
    let q' : Inquiry := ⟨.all "x" (.pred "R" [.const "x"]), [], "native", []⟩
    q.fits = true ∧ q'.fits = true ∧ q.stream ≠ q'.stream := by
  intro q q'
  have hq : q.fits = true := by decide +kernel
  have hq' : q'.fits = true := by decide +kernel
  refine ⟨hq, hq', fun h => ?_⟩
  exact absurd ((stream_eq_iff hq hq').1.mp h) (by decide +kernel)

end Inquiry

end Deontica
