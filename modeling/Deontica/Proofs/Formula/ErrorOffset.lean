import Deontica.Proofs.Formula.Ladder
import Deontica.Proofs.Token.Spelling

/-!
# Where errors point

An error carries a byte offset, at which a character of the text starts or the text ends
(`isValid_of_parseWithin_error`).  There are many places at which reading can fail, but all take the
offset from the token that is next, or from the end of the text; the two errors that are not about a
token point to the start of the text.  So the argument is about offsets of any kind `P`: if all
tokens are at such offsets and the end of the text is one, a reader fails only at such an offset,
and the tokens that it leaves are again at such offsets (`Stays`).

A character that starts no token is named by the error itself.  What stands before it has been
scanned, and would be scanned to the same tokens if the text ended there (`exists_of_scan_error`).
-/

namespace Deontica

namespace Token

/-! ### Scanning -/

/-- Every token starts where some of the text ends. -/
theorem exists_before_of_mem_scan (offset : Nat) (cs : List Char) :
    ∀ tokens, scan 0 offset cs = .ok tokens → ∀ t ∈ tokens,
      ∃ before after, cs = before ++ after ∧ t.offset = offset + width before := by
  apply scan_induct (P := fun offset cs scanned => ∀ tokens, scanned = .ok tokens → ∀ t ∈ tokens,
    ∃ before after, cs = before ++ after ∧ t.offset = offset + width before)
  case nil =>
    intro offset tokens h t ht
    cases h
    cases ht
  case blank =>
    intro offset c cs _ ih tokens h t ht
    obtain ⟨before, after, rfl, hoffset⟩ := ih tokens h t ht
    exact ⟨c :: before, after, rfl, by rw [hoffset, width, Nat.add_assoc]⟩
  case unknown =>
    intro offset c cs _ tokens h
    cases h
  case token =>
    intro offset c taken rest token _ _ _ ih tokens h t ht
    obtain ⟨tokens', htokens', rfl⟩ := map_eq_ok_iff.mp h
    rcases List.mem_cons.mp ht with rfl | ht
    · exact ⟨[], c :: taken ++ rest, rfl, rfl⟩
    · obtain ⟨before, after, rfl, hoffset⟩ := ih tokens' htokens' t ht
      exact ⟨c :: taken ++ before, after, by simp, by rw [hoffset, width_append, Nat.add_assoc]⟩

/-- A character that starts no token does not make the token before it longer. -/
theorem stops_of_start_eq_none {c : Char} {cs : List Char} (h : start c cs = none) :
    Stops (c :: cs) := by
  rintro d ⟨⟩
  refine ⟨?_, ?_, ?_⟩
  · by_contra hname
    rw [start_of_isNameChar (Bool.not_eq_false _ ▸ hname)] at h
    cases h
  · rintro rfl
    cases h
  · rintro rfl
    cases h

/-- **Scanning fails at a character that starts no token**, and what stands before that character is
scanned without an error. -/
theorem exists_of_scan_error (offset : Nat) (cs : List Char) :
    ∀ e, scan 0 offset cs = .error e → ∃ before c after, cs = before ++ c :: after ∧
      start c after = none ∧ e = .unknownOperator c (offset + width before) ∧
      ∃ tokens, scan 0 offset before = .ok tokens := by
  apply scan_induct (P := fun offset cs scanned => ∀ e, scanned = .error e →
    ∃ before c after, cs = before ++ c :: after ∧ start c after = none ∧
      e = .unknownOperator c (offset + width before) ∧ ∃ tokens, scan 0 offset before = .ok tokens)
  case nil =>
    intro offset e h
    cases h
  case blank =>
    intro offset c cs hblank ih e h
    obtain ⟨before, d, after, rfl, hd, rfl, tokens, htokens⟩ := ih e h
    refine ⟨c :: before, d, after, rfl, hd, by rw [width, Nat.add_assoc], tokens, ?_⟩
    rw [scan, if_pos hblank, htokens]
  case unknown =>
    intro offset c cs hstart e h
    cases h
    exact ⟨[], c, cs, rfl, hstart, rfl, [], rfl⟩
  case token =>
    intro offset c taken rest token hstart hblank _ ih e h
    obtain ⟨before, d, after, rfl, hd, rfl, tokens, htokens⟩ := ih e (map_eq_error_iff.mp h)
    -- the token is the same without what follows `before`
    have hstart' : start c (taken ++ before) = some (token, taken.length) := by
      rw [← start_append_iff (stops_of_start_eq_none hd) (by simp), List.append_assoc]
      exact hstart
    refine ⟨c :: taken ++ before, d, after, by simp, hd, ?_, ⟨token, offset⟩ :: tokens, ?_⟩
    · rw [width_append, Nat.add_assoc]
    · rw [scan_start hblank hstart', htokens]
      rfl

end Token

/-! ### Reading -/

/-- All tokens are at offsets of `P`. -/
def AllAt (P : Nat → Prop) (tokens : List Located) : Prop :=
  ∀ t ∈ tokens, P t.offset

theorem AllAt.tail {P : Nat → Prop} {t : Located} {rest : List Located} (h : AllAt P (t :: rest)) :
    AllAt P rest :=
  (List.forall_mem_cons.mp h).2

/-- The error is one about tokens, and was noticed at an offset of `P`. -/
def ParseError.IsAt (P : Nat → Prop) : ParseError → Prop
  | .malformed offset _ | .tooDeep _ offset => P offset
  | .unknownOperator _ _ => False

/-- What was read has to do with offsets of `P` only: reading failed at one of them, or all tokens
left are at such offsets. -/
structure Stays {α : Type} (P : Nat → Prop) (x : Except ParseError (α × List Located)) : Prop where
  error : ∀ e, x = .error e → e.IsAt P
  left : ∀ a rest, x = .ok (a, rest) → AllAt P rest

/-- A reader stays at offsets of `P` if the tokens that it is given are at such offsets. -/
def Reader.Stays {α : Type} (P : Nat → Prop) (read : Reader α) : Prop :=
  ∀ tokens, AllAt P tokens → Deontica.Stays P (read tokens)

namespace Stays

variable {P : Nat → Prop} {s : Source} {α β : Type} {tokens : List Located}

theorem ok {a : α} (h : AllAt P tokens) : Stays P (.ok (a, tokens)) :=
  ⟨nofun, fun _ _ heq => by cases heq; exact h⟩

theorem bind {x : Except ParseError (α × List Located)}
    {f : α × List Located → Except ParseError (β × List Located)} (hx : Stays P x)
    (hf : ∀ a rest, AllAt P rest → Stays P (f (a, rest))) : Stays P (x >>= f) := by
  cases x with
  | error e => exact ⟨fun e' h => hx.error e' (congrArg _ (Except.error.inj h)), nofun⟩
  | ok p => exact hf p.1 p.2 (hx.left p.1 p.2 rfl)

/-- What is made of the result does not matter. -/
theorem bind_ok {x : Except ParseError (α × List Located)} (hx : Stays P x) (build : α → β) :
    Stays P (x >>= fun p => .ok (build p.1, p.2)) :=
  hx.bind fun _ _ hrest => ok hrest

variable (hend : P s.length) (htokens : AllAt P tokens)
include hend htokens

/-- A complaint is made at the next token, or at the end of the text. -/
theorem at_offset : P (s.offset tokens) := by
  cases tokens with
  | nil => exact hend
  | cons t rest => exact htokens t List.mem_cons_self

theorem refuse {complaint : Option Token → Complaint} :
    Stays P (s.refuse tokens complaint : Except ParseError (α × List Located)) :=
  ⟨fun e h => by cases h; exact at_offset hend htokens, nofun⟩

theorem tooDeep : Stays P (s.tooDeep tokens : Except ParseError (α × List Located)) :=
  ⟨fun e h => by cases h; exact at_offset hend htokens, nofun⟩

theorem expect {wanted : Token} {f : List Located → Except ParseError (β × List Located)}
    (hf : ∀ rest, AllAt P rest → Stays P (f rest)) : Stays P (s.expect wanted tokens >>= f) := by
  cases tokens with
  | nil => exact refuse hend htokens
  | cons t rest =>
    rw [Source.expect]
    split
    · exact hf rest htokens.tail
    · exact refuse hend htokens

end Stays

namespace Source

variable {P : Nat → Prop} {s : Source} (hend : P s.length) {bound : List String}
include hend

section Terms

variable {term : Reader Term} (hterm : Reader.Stays P term)
include hterm

theorem stays_moreArgs (count : Nat) : Reader.Stays P (s.moreArgs term count) := by
  induction count with
  | zero =>
    intro tokens htokens
    rw [moreArgs.eq_def]
    exact .refuse hend htokens
  | succ count ih =>
    intro tokens htokens
    cases tokens with
    | nil => exact .refuse hend htokens
    | cons t rest =>
      rw [moreArgs]
      split
      · exact .ok htokens.tail
      · refine (hterm rest htokens.tail).bind fun arg rest hrest => ?_
        exact (ih rest hrest).bind_ok _
      · exact .refuse hend htokens

theorem stays_args : Reader.Stays P (s.args term) := by
  intro tokens htokens
  refine .expect hend htokens fun tokens htokens => ?_
  split
  · exact .ok htokens.tail
  · refine (hterm tokens htokens).bind fun arg rest hrest => ?_
    exact (stays_moreArgs hend hterm _ rest hrest).bind_ok _

end Terms

theorem stays_term (bound : List String) (room : Nat) : Reader.Stays P (s.term bound room) := by
  induction room with
  | zero => exact fun tokens htokens => .tooDeep hend htokens
  | succ room ih =>
    intro tokens htokens
    rw [term.eq_def]
    dsimp only
    split
    · split
      · exact (stays_args hend ih _ htokens.tail).bind_ok _
      · exact .ok htokens.tail
    · exact .refuse hend htokens

section Grouped

variable {op : Connective} {token : Token} {operand : Reader Formula}
  (hoperand : Reader.Stays P operand)
include hoperand

theorem stays_chain (count : Nat) (left : Formula) (depth : Nat) :
    Reader.Stays P (s.chain op token operand count left depth) := by
  induction count generalizing left depth with
  | zero =>
    intro tokens htokens
    rw [chain.eq_def]
    exact .ok htokens
  | succ count ih =>
    intro tokens htokens
    cases tokens with
    | nil => exact .ok htokens
    | cons t rest =>
      rw [chain]
      split
      · refine (hoperand rest htokens.tail).bind fun right rest hrest => ?_
        dsimp only
        -- a tree that is too deep is noticed at what follows its last operand
        split
        · exact .tooDeep hend hrest
        · exact ih _ _ rest hrest
      · exact .ok htokens

theorem stays_leftGrouped : Reader.Stays P (s.leftGrouped op token operand) :=
  fun tokens htokens => (hoperand tokens htokens).bind fun left rest hrest =>
    stays_chain hend hoperand _ left _ rest hrest

end Grouped

section Level

variable {below : Level} (hformula : ∀ rung bound, Reader.Stays P (below.formula rung bound))
  (hterm : ∀ bound, Reader.Stays P (below.term bound))
include hformula

theorem stays_parenthesized : Reader.Stays P (s.parenthesized below bound) := by
  intro tokens htokens
  refine .expect hend htokens fun tokens htokens => ?_
  refine (hformula _ _ tokens htokens).bind fun body rest hrest => ?_
  exact .expect hend hrest fun rest hrest => .ok hrest

theorem stays_quantified (q : Quantifier) : Reader.Stays P (s.quantified below bound q) := by
  intro tokens htokens
  rw [quantified.eq_def]
  split
  · refine (hformula _ _ _ ?_).bind_ok _
    -- the point or colon after the variable may be there or not
    split
    · exact htokens.tail.tail
    · exact htokens.tail.tail
    · exact htokens.tail
  · exact .refuse hend htokens

include hterm

theorem stays_named (x : String) : Reader.Stays P (s.named below bound x) := by
  intro tokens htokens
  rw [named.eq_def]
  split
  · split
    · exact (stays_parenthesized hend hformula _ htokens).bind_ok _
    · split
      · exact (stays_parenthesized hend hformula _ htokens).bind_ok _
      · exact (stays_args hend (hterm bound) _ htokens).bind_ok _
  · exact .ok htokens

theorem stays_unary : Reader.Stays P (s.unary below bound) := by
  intro tokens htokens
  rw [unary.eq_def]
  dsimp only
  split
  · exact (hformula _ _ _ htokens.tail).bind_ok _
  · exact (hformula _ _ _ htokens.tail).bind_ok _
  · exact (hformula _ _ _ htokens.tail).bind_ok _
  · exact (hformula _ _ _ htokens.tail).bind_ok _
  · exact stays_quantified hend hformula _ _ htokens.tail
  · exact stays_quantified hend hformula _ _ htokens.tail
  · exact stays_parenthesized hend hformula _ htokens
  · exact stays_named hend hformula hterm _ _ htokens.tail
  · exact .refuse hend htokens

end Level

section Rungs

variable {room : Nat} (henter : ∀ rung bound, Reader.Stays P (s.enter rung room bound))
  (hunary : ∀ bound, Reader.Stays P (s.read room .unary bound))

omit hend
include henter

theorem stays_spanTail (left : Formula) : Reader.Stays P (s.spanTail room bound left) := by
  intro tokens htokens
  rw [spanTail.eq_def]
  split
  · exact .ok htokens
  · split
    · exact .ok htokens
    · exact (henter _ _ _ htokens.tail).bind_ok _

theorem stays_impliesTail (left : Formula) : Reader.Stays P (s.impliesTail room bound left) := by
  intro tokens htokens
  rw [impliesTail.eq_def]
  split
  · exact (henter _ _ _ htokens.tail).bind_ok _
  · exact .ok htokens

include hunary

theorem stays_span (bound : List String) : Reader.Stays P (s.read room .span bound) := by
  intro tokens htokens
  rw [read_span]
  exact (hunary bound tokens htokens).bind fun left => stays_spanTail henter left

include hend

/-- A rung stays at offsets of `P` if the levels below and the lowest rung do. -/
theorem stays_rung (rung : Rung) (bound : List String) :
    Reader.Stays P (s.read room rung bound) := by
  intro tokens htokens
  cases rung with
  | unary => exact hunary bound tokens htokens
  | span => exact stays_span henter hunary bound tokens htokens
  | implication =>
    have hdisjunction : Reader.Stays P (s.disjunction room bound) :=
      stays_leftGrouped hend (stays_leftGrouped hend (stays_leftGrouped hend
        (stays_span henter hunary bound)))
    rw [read_implication]
    exact (hdisjunction tokens htokens).bind fun left => stays_impliesTail henter left
  | formula =>
    rw [read_formula]
    exact stays_leftGrouped hend (henter .implication bound) tokens htokens

end Rungs

/-- **A formula is read at offsets of the tokens and the end of the text only.** -/
theorem stays_read (room : Nat) (rung : Rung) (bound : List String) :
    Reader.Stays P (s.read room rung bound) := by
  induction room generalizing rung bound with
  | zero =>
    -- without room every rung opens a level that is refused
    refine stays_rung hend ?_ ?_ rung bound
    · exact fun _ _ tokens htokens => .tooDeep hend htokens
    · exact fun _ tokens htokens => .tooDeep hend htokens
  | succ room ih =>
    refine stays_rung hend ?_ ?_ rung bound
    · exact ih
    · exact fun _ => stays_unary hend ih fun bound => stays_term hend bound room

end Source

namespace Formula

/-- An offset at which `text` can be cut in two. -/
def IsCut (text : String) (offset : Nat) : Prop :=
  ∃ before after, text = before ++ after ∧ before.utf8ByteSize = offset

theorem isCut_zero (text : String) : IsCut text 0 :=
  ⟨"", text, by simp, rfl⟩

theorem isCut_utf8ByteSize (text : String) : IsCut text text.utf8ByteSize :=
  ⟨text, "", by simp, rfl⟩

theorem IsCut.isValid {text : String} {offset : Nat} (h : IsCut text offset) :
    (⟨offset⟩ : String.Pos.Raw).IsValid text := by
  obtain ⟨before, after, rfl, rfl⟩ := h
  exact String.Pos.Raw.isValid_iff_exists_append.mpr ⟨before, after, rfl, rfl⟩

theorem IsCut.le {text : String} {offset : Nat} (h : IsCut text offset) :
    offset ≤ text.utf8ByteSize := by
  obtain ⟨before, after, rfl, rfl⟩ := h
  rw [String.utf8ByteSize_append]
  exact Nat.le_add_right _ _

/-- The text can be cut in front of every token. -/
theorem allAt_of_tokenize {text : String} {tokens : List Located}
    (h : Token.tokenize text = .ok tokens) : AllAt (IsCut text) tokens := by
  intro t ht
  obtain ⟨before, after, htext, hoffset⟩ := Token.exists_before_of_mem_scan 0 _ tokens h t ht
  refine ⟨String.ofList before, String.ofList after, ?_, ?_⟩
  · rw [← String.ofList_append, ← htext, String.ofList_toList]
  · rw [hoffset, Nat.zero_add, Token.width_eq]

/-- A text with an unknown character has been scanned up to that character. -/
theorem exists_of_tokenize_error {text : String} {e : ParseError}
    (h : Token.tokenize text = .error e) :
    ∃ before c after, text = before ++ String.singleton c ++ after ∧
      e = .unknownOperator c before.utf8ByteSize ∧
      ∃ tokens, Token.tokenize before = .ok tokens := by
  obtain ⟨before, c, after, htext, -, rfl, tokens, htokens⟩ :=
    Token.exists_of_scan_error 0 text.toList e h
  refine ⟨String.ofList before, c, String.ofList after, ?_, ?_, tokens, ?_⟩
  · rw [← String.toList_inj, htext]
    simp
  · rw [Nat.zero_add, Token.width_eq]
  · rw [Token.tokenize, String.toList_ofList, htokens]

/-- Once its tokens are known, a text is refused only where it can be cut. -/
theorem isAt_of_tokenize {limit : Nat} {text : String} {tokens : List Located} {e : ParseError}
    (htokens : Token.tokenize text = .ok tokens) (h : parseWithin limit text = .error e) :
    e.IsAt (IsCut text) := by
  let s : Source := ⟨limit, text.utf8ByteSize⟩
  have hend : IsCut text s.length := isCut_utf8ByteSize text
  have hread := s.stays_read hend limit .formula [] tokens (allAt_of_tokenize htokens)
  rw [parseWithin, htokens] at h
  change (if tokens.isEmpty then _ else _) = _ at h
  split at h
  · -- there is no token to blame
    cases h
    exact isCut_zero text
  · change (s.read limit .formula [] tokens >>= _) = _ at h
    cases hresult : s.read limit .formula [] tokens with
    | error e' =>
      rw [hresult] at h
      cases h
      exact hread.error e hresult
    | ok p =>
      obtain ⟨f, rest⟩ := p
      rw [hresult] at h
      change (if !rest.isEmpty then _ else _) = _ at h
      split at h
      · cases h
        exact Stays.at_offset hend (hread.left f rest hresult)
      · change (if f.depth > limit then _ else _) = _ at h
        split at h
        · -- the whole formula is too deep
          cases h
          exact isCut_zero text
        · cases h

/-- **Every error points into the text**: to the start of a character or to the end.  An error about
an unknown character points to that character, and the text in front of it has tokens. -/
theorem isValid_of_parseWithin_error (limit : Nat) (text : String) (e : ParseError)
    (h : parseWithin limit text = .error e) :
    e.offset ≤ text.utf8ByteSize ∧ (⟨e.offset⟩ : String.Pos.Raw).IsValid text ∧
      ∀ c offset, e = .unknownOperator c offset →
        ∃ before after, text = before ++ String.singleton c ++ after ∧
          before.utf8ByteSize = offset ∧ ∃ tokens, Token.tokenize before = .ok tokens := by
  cases htokens : Token.tokenize text with
  | ok tokens =>
    have hcut := isAt_of_tokenize htokens h
    cases e with
    | malformed | tooDeep =>
      refine ⟨IsCut.le hcut, IsCut.isValid hcut, ?_⟩
      rintro c offset ⟨⟩
    | unknownOperator => exact hcut.elim
  | error e' =>
    rw [parseWithin, htokens] at h
    obtain rfl : e' = e := Except.error.inj h
    obtain ⟨before, c, after, htext, rfl, hbefore⟩ := exists_of_tokenize_error htokens
    have hcut : IsCut text before.utf8ByteSize :=
      ⟨before, String.singleton c ++ after, by rw [htext, String.append_assoc], rfl⟩
    refine ⟨hcut.le, hcut.isValid, ?_⟩
    rintro d offset ⟨⟩
    exact ⟨before, after, htext, rfl, hbefore⟩

/-- An unknown character behind one of three bytes. -/
theorem isValid_of_parseWithin_error_unknown :
    parseWithin 8 "∀x $" = .error (.unknownOperator '$' 5) ∧
      ∃ before after, "∀x $" = before ++ "$" ++ after ∧ before.utf8ByteSize = 5 ∧
        ∃ tokens, Token.tokenize before = .ok tokens := by
  have herror : parseWithin 8 "∀x $" = .error (.unknownOperator '$' 5) := by decide +kernel
  exact ⟨herror, (isValid_of_parseWithin_error 8 "∀x $" _ herror).2.2 '$' 5 rfl⟩

end Formula

end Deontica
