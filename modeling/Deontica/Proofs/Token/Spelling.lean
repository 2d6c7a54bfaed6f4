import Deontica.Proofs.Token.Lexer

/-!
# Spelling tokens

Most tokens can be spelt in more than one way.  A text is *laid out* from pieces, each a token in
one of its spellings with blanks before it.  If neighbouring spellings are kept apart by a blank,
the scanner finds the tokens again, each at the byte at which its spelling starts
(`tokenize_layout`): a blank ends every name, and it keeps `&` from being read on as `&&`.

There are no other spellings.  The characters that a token takes spell it
(`mem_spellings_of_start`), so whatever text has tokens is laid out from them
(`exists_layout_of_scan`).
-/

namespace Deontica.Token

/-- The ways in which a token can be spelt.  A name is spelt by itself. -/
def spellings : Token → List String
  | .not => ["¬", "!", "~"]
  | .and => ["∧", "&", "&&"]
  | .or => ["∨", "|", "||"]
  | .implies => ["→", "⇒", "->", "=>"]
  | .iff => ["↔", "⇔", "<->", "<=>"]
  | .xor => ["⊕", "^", "xor"]
  | .all => ["∀", "forall"]
  | .exists => ["∃", "exists"]
  | .always => ["□", "always"]
  | .eventually => ["◊", "◇", "eventually"]
  | .next => ["next"]
  | .until => ["until"]
  | .since => ["since"]
  | .name x => if isName x then [x] else []
  | .open => ["("]
  | .close => [")"]
  | .comma => [","]
  | .point => ["."]
  | .colon => [":"]

/-- Whether a text consists of white space. -/
def IsBlank (text : String) : Prop :=
  ∀ c ∈ text.toList, Text.isBlank c = true

instance (text : String) : Decidable (IsBlank text) :=
  decidable_of_iff (text.toList.all Text.isBlank = true) List.all_eq_true

/-- A token in one of its spellings, with blanks before it. -/
structure Piece where
  gap : String
  token : Token
  spelling : String
  isBlank_gap : IsBlank gap
  mem_spellings : spelling ∈ token.spellings

/-- The text of a piece. -/
def Piece.text (p : Piece) : String :=
  p.gap ++ p.spelling

/-- The text of some pieces. -/
def layout (pieces : List Piece) : String :=
  String.join (pieces.map (·.text))

/-- The tokens of some pieces that start at byte `offset`, each with the byte at which its spelling
starts. -/
def located (offset : Nat) (pieces : List Piece) : List Located :=
  pieces.mapIdx fun i p => ⟨p.token, offset + (layout (pieces.take i) ++ p.gap).utf8ByteSize⟩

theorem layout_cons (p : Piece) (pieces : List Piece) :
    layout (p :: pieces) = p.text ++ layout pieces := by
  rw [layout, List.map_cons, String.join_cons, layout]

theorem located_cons (offset : Nat) (p : Piece) (pieces : List Piece) :
    located offset (p :: pieces) = ⟨p.token, offset + p.gap.utf8ByteSize⟩ ::
      located (offset + p.text.utf8ByteSize) pieces := by
  simp [located, layout, List.mapIdx_cons, String.utf8ByteSize_append, Nat.add_assoc]

theorem width_eq (cs : List Char) : width cs = (String.ofList cs).utf8ByteSize := by
  induction cs with
  | nil => rfl
  | cons c cs ih =>
    rw [width, ih, String.ofList_cons, String.utf8ByteSize_append, String.utf8ByteSize_singleton]

theorem width_toList (text : String) : width text.toList = text.utf8ByteSize := by
  rw [width_eq, String.ofList_toList]

theorem isBlank_empty : IsBlank "" := by
  intro c hc
  rw [String.toList_empty] at hc
  cases hc

theorem IsBlank.singleton_append {c : Char} (hc : Text.isBlank c = true) {text : String}
    (h : IsBlank text) : IsBlank (String.singleton c ++ text) := by
  intro d hd
  rw [String.toList_append, String.toList_singleton] at hd
  rcases List.mem_cons.mp hd with rfl | hd
  · exact hc
  · exact h d hd

/-! ### Where a token ends -/

/-- Whether a text goes on neither with a name nor with a sign that may be doubled. -/
def Stops (cs : List Char) : Prop :=
  ∀ c ∈ cs.head?, isNameChar c = false ∧ c ≠ '&' ∧ c ≠ '|'

theorem head?_append_eq_some_iff {before rest : List Char} {c : Char} (h : rest.head? ≠ some c) :
    (before ++ rest).head? = some c ↔ before.head? = some c := by
  cases before with
  | nil => simp [h]
  | cons d before => exact Iff.rfl

theorem start_lt_eq_some_iff {cs : List Char} {token : Token} {more : Nat} :
    start '<' cs = some (token, more) ↔
      (['-', '>'] <+: cs ∨ ['=', '>'] <+: cs) ∧ token = .iff ∧ more = 2 := by
  by_cases h : ['-', '>'] <+: cs ∨ ['=', '>'] <+: cs
  · have hstart : start '<' cs = some (.iff, 2) := by
      obtain ⟨tail, rfl⟩ | ⟨tail, rfl⟩ := h <;> rfl
    simp [h, hstart, eq_comm]
  · have hstart : start '<' cs = none := by
      rw [start]
      · rintro tail rfl
        exact h (.inl ⟨tail, rfl⟩)
      · rintro tail rfl
        exact h (.inr ⟨tail, rfl⟩)
    simp [h, hstart]

/-- **A token depends on its own characters only**, as long as what follows them does not make it
longer. -/
theorem start_append_iff {c : Char} {before rest : List Char} (hrest : Stops rest) {token : Token}
    {more : Nat} (hmore : more ≤ before.length) :
    start c (before ++ rest) = some (token, more) ↔ start c before = some (token, more) := by
  have hname : endsName rest := fun d hd => (hrest d hd).1
  have hand : rest.head? ≠ some '&' := fun h => (hrest _ h).2.1 rfl
  have hor : rest.head? ≠ some '|' := fun h => (hrest _ h).2.2 rfl
  by_cases hc : c = '<'
  · rw [hc, start_lt_eq_some_iff, start_lt_eq_some_iff]
    refine and_congr_left fun ⟨_, htwo⟩ => ?_
    have hlong : 2 ≤ before.length := htwo ▸ hmore
    have hiff : ∀ d, [d, '>'] <+: before ++ rest ↔ [d, '>'] <+: before := fun d =>
      ⟨fun h => List.prefix_of_prefix_length_le h (List.prefix_append _ _) hlong,
        fun h => h.trans (List.prefix_append _ _)⟩
    rw [hiff, hiff]
  · unfold start
    split
    case h_5 => simp only [head?_append_eq_some_iff hand]
    case h_7 => simp only [head?_append_eq_some_iff hor]
    case h_24 | h_25 =>
      -- an arrow takes one more character, so that there is one before `rest`
      cases before with
      | nil =>
        obtain rfl : more = 0 := Nat.le_zero.mp hmore
        simp
      | cons d before => exact Iff.rfl
    case h_26 => exact absurd rfl hc
    case h_27 => rw [takeWhile_append_of_endsName hname]
    all_goals exact Iff.rfl

/-! ### A spelling is scanned to its token -/

/-- Whether a text is at its end or goes on with a blank. -/
def BreaksOff (cs : List Char) : Prop :=
  ∀ c ∈ cs.head?, Text.isBlank c = true

theorem BreaksOff.stops {cs : List Char} (h : BreaksOff cs) : Stops cs := by
  intro c hc
  have hblank := h c hc
  refine ⟨isNameChar_of_isBlank hblank, ?_, ?_⟩ <;> rintro rfl <;> cases hblank

/-- Whether some characters are those of one token, from the first to the last. -/
def isSpelling (token : Token) : List Char → Bool
  | [] => false
  | c :: more => !Text.isBlank c && start c more == some (token, more.length)

/-- A spelling starts its token and is used up by it. -/
theorem isSpelling_of_mem_spellings {token : Token} :
    ∀ spelling ∈ token.spellings, isSpelling token spelling.toList = true := by
  cases token
  case name x =>
    intro spelling h
    obtain ⟨hx, rfl⟩ : isName x = true ∧ spelling = x := by simpa [spellings] using h
    obtain ⟨hne, hall, hword⟩ := isName_iff.mp hx
    cases hlist : spelling.toList with
    | nil => exact absurd (String.toList_eq_nil_iff.mp hlist) hne
    | cons c more =>
      rw [hlist, List.forall_mem_cons] at hall
      rw [isSpelling, start_of_isNameChar hall.1, List.takeWhile_eq_self_iff.mpr hall.2, ← hlist,
        String.ofList_toList, ofWord_eq_name_iff.mpr ⟨rfl, hword⟩, isBlank_of_isNameChar hall.1]
      simp
  all_goals decide +kernel

/-- A spelling is scanned to its token if a blank follows. -/
theorem scan_spelling {token : Token} {spelling : String} (h : spelling ∈ token.spellings)
    {rest : List Char} (hrest : BreaksOff rest) (offset : Nat) :
    scan 0 offset (spelling.toList ++ rest) =
      (⟨token, offset⟩ :: ·) <$> scan 0 (offset + spelling.utf8ByteSize) rest := by
  have hspelling := isSpelling_of_mem_spellings spelling h
  rw [← width_toList]
  cases hlist : spelling.toList with
  | nil =>
    rw [hlist] at hspelling
    cases hspelling
  | cons c more =>
    rw [hlist, isSpelling, Bool.and_eq_true, Bool.not_eq_true', beq_iff_eq] at hspelling
    apply scan_start hspelling.1
    exact (start_append_iff hrest.stops (Nat.le_refl _)).mpr hspelling.2

/-- Blanks are passed. -/
theorem scan_blanks {gap : String} (h : IsBlank gap) (rest : List Char) (offset : Nat) :
    scan 0 offset (gap.toList ++ rest) = scan 0 (offset + gap.utf8ByteSize) rest := by
  rw [← width_toList]
  unfold IsBlank at h
  generalize gap.toList = cs at h
  induction cs generalizing offset with
  | nil => rfl
  | cons c cs ih =>
    obtain ⟨hc, hcs⟩ := List.forall_mem_cons.mp h
    rw [List.cons_append, scan, if_pos hc, ih _ hcs, width, Nat.add_assoc]

/-! ### Every token is spelt -/

theorem mem_spellings_of_mem_keywords : ∀ p ∈ keywords, p.1 ∈ p.2.spellings := by
  decide

/-- A word spells its token, be it a keyword or a name. -/
theorem mem_spellings_ofWord {word : String} (hne : word ≠ "")
    (hword : ∀ c ∈ word.toList, isNameChar c = true) : word ∈ (ofWord word).spellings := by
  by_cases hkey : word ∈ keywords.map (·.1)
  · obtain ⟨p, hp, rfl⟩ := List.mem_map.mp hkey
    have hof : ∀ p ∈ keywords, ofWord p.1 = p.2 := by decide
    rw [hof p hp]
    exact mem_spellings_of_mem_keywords p hp
  · rw [ofWord_eq_name_iff.mpr ⟨rfl, hkey⟩, spellings, if_pos (isName_iff.mpr ⟨hne, hword, hkey⟩)]
    exact List.mem_singleton.mpr rfl

/-- The characters that a token takes spell it. -/
theorem mem_spellings_of_start {c : Char} {cs : List Char} {token : Token} {more : Nat}
    (h : start c cs = some (token, more)) :
    ∃ taken rest, cs = taken ++ rest ∧ taken.length = more ∧
      String.ofList (c :: taken) ∈ token.spellings := by
  by_cases hc : c = '<'
  · subst hc
    obtain ⟨⟨rest, rfl⟩ | ⟨rest, rfl⟩, rfl, rfl⟩ := start_lt_eq_some_iff.mp h
    · exact ⟨['-', '>'], rest, rfl, rfl, by decide⟩
    · exact ⟨['=', '>'], rest, rfl, rfl, by decide⟩
  · unfold start at h
    split at h
    case h_5 =>
      split_ifs at h with hhead <;> cases h
      · obtain ⟨rest, rfl⟩ := List.head?_eq_some_iff.mp hhead
        exact ⟨['&'], rest, rfl, rfl, by decide⟩
      · exact ⟨[], cs, rfl, rfl, by decide⟩
    case h_7 =>
      split_ifs at h with hhead <;> cases h
      · obtain ⟨rest, rfl⟩ := List.head?_eq_some_iff.mp hhead
        exact ⟨['|'], rest, rfl, rfl, by decide⟩
      · exact ⟨[], cs, rfl, rfl, by decide⟩
    case h_24 | h_25 =>
      split_ifs at h with hhead
      cases h
      obtain ⟨rest, rfl⟩ := List.head?_eq_some_iff.mp hhead
      exact ⟨['>'], rest, rfl, rfl, by decide⟩
    case h_26 => exact absurd rfl hc
    case h_27 =>
      split_ifs at h with hname
      cases h
      refine ⟨_, _, List.takeWhile_append_dropWhile.symm, rfl, mem_spellings_ofWord (by simp) ?_⟩
      rw [String.toList_ofList, List.forall_mem_cons]
      exact ⟨hname, List.all_eq_true.mp List.all_takeWhile⟩
    all_goals
      cases h
      exact ⟨[], cs, rfl, rfl, by decide⟩

/-! ### Layouts -/

theorem toList_layout_cons (p : Piece) (pieces : List Piece) (after : String) :
    (layout (p :: pieces) ++ after).toList =
      p.gap.toList ++ (p.spelling.toList ++ (layout pieces ++ after).toList) := by
  simp only [layout_cons, Piece.text, String.toList_append, List.append_assoc]

/-- What follows a piece breaks off if there are blanks before the next one and after the last. -/
theorem breaksOff_layout {pieces : List Piece} {after : String}
    (hgaps : ∀ p ∈ pieces, p.gap ≠ "") (hafter : IsBlank after) :
    BreaksOff (layout pieces ++ after).toList := by
  cases pieces with
  | nil =>
    intro c hc
    apply hafter
    simpa [layout] using List.mem_of_mem_head? hc
  | cons p pieces =>
    rw [toList_layout_cons]
    cases hgap : p.gap.toList with
    | nil => exact absurd (String.toList_eq_nil_iff.mp hgap) (hgaps p List.mem_cons_self)
    | cons c gap =>
      rintro d ⟨⟩
      exact p.isBlank_gap c (hgap ▸ List.mem_cons_self)

/-- **Pieces are scanned to their tokens.** -/
theorem scan_layout {pieces : List Piece} {after : String} (hgaps : ∀ p ∈ pieces.tail, p.gap ≠ "")
    (hafter : IsBlank after) (offset : Nat) :
    scan 0 offset (layout pieces ++ after).toList = .ok (located offset pieces) := by
  induction pieces generalizing offset with
  | nil =>
    have hnil : (layout [] ++ after).toList = after.toList ++ [] := by simp [layout]
    rw [hnil, scan_blanks hafter]
    rfl
  | cons p pieces ih =>
    have hrest : ∀ q ∈ pieces, q.gap ≠ "" := hgaps
    rw [toList_layout_cons, scan_blanks p.isBlank_gap,
      scan_spelling p.mem_spellings (breaksOff_layout hrest hafter), located_cons, Piece.text,
      String.utf8ByteSize_append, ← Nat.add_assoc,
      ih fun q hq => hrest q (List.mem_of_mem_tail hq)]
    rfl

/-- What a scan comes to is known from what its parts come to: it is at its end, or it passes a
blank, or it fails at a character that starts no token, or it takes a token off the text. -/
theorem scan_induct {P : Nat → List Char → Except ParseError (List Located) → Prop}
    (nil : ∀ offset, P offset [] (.ok []))
    (blank : ∀ offset c cs, Text.isBlank c = true →
      P (offset + c.utf8Size) cs (scan 0 (offset + c.utf8Size) cs) →
      P offset (c :: cs) (scan 0 (offset + c.utf8Size) cs))
    (unknown : ∀ offset c cs, start c cs = none →
      P offset (c :: cs) (.error (.unknownOperator c offset)))
    (token : ∀ offset c taken rest token, start c (taken ++ rest) = some (token, taken.length) →
      Text.isBlank c = false → String.ofList (c :: taken) ∈ token.spellings →
      P (offset + width (c :: taken)) rest (scan 0 (offset + width (c :: taken)) rest) →
      P offset (c :: taken ++ rest)
        ((⟨token, offset⟩ :: ·) <$> scan 0 (offset + width (c :: taken)) rest))
    (offset : Nat) (cs : List Char) : P offset cs (scan 0 offset cs) := by
  induction hlength : cs.length using Nat.strong_induction_on generalizing offset cs with
  | _ n ih =>
    subst hlength
    cases cs with
    | nil => exact nil offset
    | cons c cs =>
      by_cases hblank : Text.isBlank c = true
      · rw [scan, if_pos hblank]
        exact blank offset c cs hblank (ih _ (Nat.lt_succ_self _) _ cs rfl)
      · rw [Bool.not_eq_true] at hblank
        cases hstart : start c cs with
        | none =>
          rw [scan, hblank, hstart]
          exact unknown offset c cs hstart
        | some p =>
          obtain ⟨t, more⟩ := p
          obtain ⟨taken, rest, rfl, rfl, hspelling⟩ := mem_spellings_of_start hstart
          rw [← List.cons_append, scan_start hblank hstart]
          refine token offset c taken rest t hstart hblank hspelling (ih _ ?_ _ rest rfl)
          rw [List.length_cons, List.length_append]
          omega

/-- One more blank before some pieces. -/
theorem exists_layout_cons {c : Char} (hc : Text.isBlank c = true) (pieces : List Piece)
    {after : String} (hafter : IsBlank after) (offset : Nat) :
    ∃ pieces' after', IsBlank after' ∧
      c :: (layout pieces ++ after).toList = (layout pieces' ++ after').toList ∧
      located (offset + c.utf8Size) pieces = located offset pieces' := by
  cases pieces with
  | nil =>
    refine ⟨[], String.singleton c ++ after, hafter.singleton_append hc, ?_, rfl⟩
    simp [layout]
  | cons p pieces =>
    refine ⟨⟨String.singleton c ++ p.gap, p.token, p.spelling, p.isBlank_gap.singleton_append hc,
      p.mem_spellings⟩ :: pieces, after, hafter, ?_, ?_⟩
    · rw [toList_layout_cons, toList_layout_cons]
      simp
    · simp [located_cons, Piece.text, String.utf8ByteSize_append, Nat.add_assoc]

/-- **What has tokens is laid out from them.** -/
theorem exists_layout_of_scan (offset : Nat) (cs : List Char) :
    ∀ tokens, scan 0 offset cs = .ok tokens → ∃ pieces after, IsBlank after ∧
      cs = (layout pieces ++ after).toList ∧ tokens = located offset pieces := by
  apply scan_induct (P := fun offset cs scanned => ∀ tokens, scanned = .ok tokens →
    ∃ pieces after, IsBlank after ∧ cs = (layout pieces ++ after).toList ∧
      tokens = located offset pieces)
  case nil =>
    intro offset tokens h
    cases h
    exact ⟨[], "", isBlank_empty, rfl, rfl⟩
  case blank =>
    intro offset c cs hblank ih tokens h
    obtain ⟨pieces, after, hafter, rfl, rfl⟩ := ih tokens h
    exact exists_layout_cons hblank pieces hafter offset
  case unknown =>
    intro offset c cs _ tokens h
    cases h
  case token =>
    intro offset c taken rest token _ _ hspelling ih tokens h
    obtain ⟨tokens', htokens', rfl⟩ := map_eq_ok_iff.mp h
    obtain ⟨pieces, after, hafter, rfl, rfl⟩ := ih tokens' htokens'
    refine ⟨⟨"", token, String.ofList (c :: taken), isBlank_empty, hspelling⟩ :: pieces, after,
      hafter, ?_, ?_⟩
    · rw [toList_layout_cons]
      simp
    · rw [located_cons, Piece.text, String.empty_append, width_eq]
      rfl

/-- **A text laid out from tokens has these tokens**, if there is a blank between any two
neighbours: whichever spellings and blanks are chosen, every token is found, at the byte at which
its spelling starts.  And every text that has tokens is laid out from them. -/
theorem tokenize_layout :
    (∀ (pieces : List Piece) (after : String), (∀ p ∈ pieces.tail, p.gap ≠ "") → IsBlank after →
      tokenize (layout pieces ++ after) = .ok (located 0 pieces)) ∧
    ∀ (text : String) (tokens : List Located), tokenize text = .ok tokens →
      ∃ pieces after, IsBlank after ∧ text = layout pieces ++ after ∧
        tokens = located 0 pieces := by
  constructor
  · exact fun pieces after hgaps hafter => scan_layout hgaps hafter 0
  · intro text tokens h
    obtain ⟨pieces, after, hafter, htext, htokens⟩ := exists_layout_of_scan 0 text.toList tokens h
    exact ⟨pieces, after, hafter, String.toList_inj.mp htext, htokens⟩

/-- Two signs for the same token are told apart by the blank between them, and a blank of three
bytes moves what follows by three. -/
theorem tokenize_layout_doubled :
    tokenize "\u2003∀ x'\n& && <=>" =
      .ok [⟨.all, 3⟩, ⟨.name "x'", 7⟩, ⟨.and, 10⟩, ⟨.and, 12⟩, ⟨.iff, 15⟩] :=
  tokenize_layout.1
    [⟨"\u2003", .all, "∀", by decide, by decide⟩, ⟨" ", .name "x'", "x'", by decide, by decide⟩,
      ⟨"\n", .and, "&", by decide, by decide⟩, ⟨" ", .and, "&&", by decide, by decide⟩,
      ⟨" ", .iff, "<=>", by decide, by decide⟩] "" (by decide) (by decide)

end Deontica.Token
