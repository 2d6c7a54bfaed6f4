import Deontica.Token.Lexer
import Mathlib.Data.List.Basic
import Mathlib.Data.List.TakeWhile

/-!
# Texts and their tokens

No character of a name is white space or starts a symbol, so a name is scanned whole (`scan_name`),
and the names that the scanner finds are names (`isName_of_mem_scan`).

Texts are put together from pieces.  A piece *spells* tokens if the scanner finds them in it
whatever follows, as long as that does not go on with a name (`Spells`); pieces that spell something
are put one after the other unless the second would continue a name of the first.
-/

namespace Deontica

/-- A computation in two parts succeeds if both parts do. -/
theorem bind_eq_ok_iff {ε α β : Type} {x : Except ε α} {f : α → Except ε β} {b : β} :
    x >>= f = .ok b ↔ ∃ a, x = .ok a ∧ f a = .ok b := by
  cases x with
  | error e => exact ⟨nofun, fun ⟨_, h, _⟩ => nomatch h⟩
  | ok a => exact ⟨fun h => ⟨a, rfl, h⟩, fun ⟨_, h, hf⟩ => Except.ok.inj h ▸ hf⟩

theorem map_eq_ok_iff {ε α β : Type} {x : Except ε α} {f : α → β} {b : β} :
    f <$> x = .ok b ↔ ∃ a, x = .ok a ∧ f a = b := by
  cases x with
  | error e => exact ⟨nofun, fun ⟨_, h, _⟩ => nomatch h⟩
  | ok a => exact ⟨fun h => ⟨a, rfl, Except.ok.inj h⟩, fun ⟨_, h, hf⟩ => by cases h; rw [← hf]; rfl⟩

theorem map_eq_error_iff {ε α β : Type} {x : Except ε α} {f : α → β} {e : ε} :
    f <$> x = .error e ↔ x = .error e := by
  cases x with
  | error e' =>
    change Except.error e' = Except.error e ↔ _
    rw [Except.error.injEq, Except.error.injEq]
  | ok a =>
    change Except.ok (f a) = Except.error e ↔ _
    simp only [reduceCtorEq]

namespace Text

/-- A range of blanks and one of letters or digits have nothing in common. -/
theorem wideBlanks_disjoint :
    ∀ r ∈ wideBlanks, ∀ r' ∈ wideAlphanumerics, r.2 < r'.1 ∨ r'.2 < r.1 := by
  decide +kernel

end Text

namespace Token

/-! ### Names -/

/-- Whether a word is a name: it has a character, all its characters may stand in names, and it is
no keyword. -/
def isName (word : String) : Bool :=
  !word.isEmpty && word.toList.all isNameChar && !(keywords.map (·.1)).contains word

/-- No blank may stand in a name. -/
theorem isNameChar_of_isBlank {c : Char} (h : Text.isBlank c = true) : isNameChar c = false := by
  unfold Text.isBlank at h
  split_ifs at h with hascii
  · have hcode : c.toNat ∈ [32, 9, 10, 11, 12, 13] := by
      simp only [Bool.or_eq_true, Bool.and_eq_true, beq_iff_eq, decide_eq_true_eq] at h
      simp only [List.mem_cons, List.not_mem_nil, or_false]
      omega
    have hnone : ∀ n ∈ [32, 9, 10, 11, 12, 13], isNameChar (Char.ofNat n) = false := by
      decide +kernel
    have := hnone _ hcode
    rwa [Char.ofNat_toNat] at this
  · obtain ⟨r, hr, hlow, hhigh⟩ := Text.inRanges_iff.mp h
    have hwide : Text.inRanges Text.wideAlphanumerics c = false := by
      rw [Bool.eq_false_iff, Ne, Text.inRanges_iff]
      rintro ⟨r', hr', hlow', hhigh'⟩
      have := Text.wideBlanks_disjoint r hr r' hr'
      omega
    rw [isNameChar, Text.isAlphanumeric, if_neg hascii, hwide, Bool.false_or, Bool.or_eq_false_iff,
      beq_eq_false_iff_ne, beq_eq_false_iff_ne]
    constructor <;> (rintro rfl; exact hascii (by decide))

theorem isBlank_of_isNameChar {c : Char} (h : isNameChar c = true) : Text.isBlank c = false := by
  by_contra hblank
  rw [isNameChar_of_isBlank (Bool.not_eq_false _ ▸ hblank)] at h
  cases h

/-- A character of a name starts a word, which goes as far as it can. -/
theorem start_of_isNameChar {c : Char} (h : isNameChar c = true) (cs : List Char) :
    start c cs = some (ofWord (String.ofList (c :: cs.takeWhile isNameChar)),
      (cs.takeWhile isNameChar).length) := by
  unfold start
  split
  case h_27 => rw [if_pos h]
  all_goals exact absurd h (by decide +kernel)

/-- The keywords are spelt by their tokens, none of which is a name. -/
theorem ne_name_of_mem_keywords : ∀ p ∈ keywords, ∀ x, p.2 ≠ .name x := by
  simp [keywords]

theorem ofWord_eq_name_iff {word x : String} :
    ofWord word = .name x ↔ x = word ∧ word ∉ keywords.map (·.1) := by
  unfold ofWord
  cases hlookup : keywords.lookup word with
  | none =>
    rw [List.lookup_eq_none_iff] at hlookup
    have hnot : word ∉ keywords.map (·.1) := by
      intro hmem
      obtain ⟨p, hp, rfl⟩ := List.mem_map.mp hmem
      exact absurd (hlookup p hp) (by simp)
    simp [hnot, eq_comm]
  | some t =>
    obtain ⟨l, l', hsplit, -⟩ := List.lookup_eq_some_iff.mp hlookup
    have hmem : (word, t) ∈ keywords := by
      rw [hsplit]
      exact List.mem_append_right _ (List.mem_cons_self)
    constructor
    · intro h
      exact absurd h (ne_name_of_mem_keywords _ hmem x)
    · rintro ⟨-, hnot⟩
      exact absurd (List.mem_map_of_mem hmem) hnot

/-! ### Scanning -/

/-- The number of bytes of some characters. -/
def width : List Char → Nat
  | [] => 0
  | c :: cs => c.utf8Size + width cs

/-- Characters that belong to the token before are passed. -/
theorem scan_skip (cs rest : List Char) (offset : Nat) :
    scan cs.length offset (cs ++ rest) = scan 0 (offset + width cs) rest := by
  induction cs generalizing offset with
  | nil => rfl
  | cons c cs ih =>
    rw [List.length_cons, List.cons_append, scan, ih, width, Nat.add_assoc]

/-- Whether a text does not go on with a name. -/
def endsName (cs : List Char) : Prop :=
  ∀ c ∈ cs.head?, isNameChar c = false

theorem endsName_cons {c : Char} (h : isNameChar c = false) (cs : List Char) :
    endsName (c :: cs) := by
  rintro d ⟨⟩
  exact h

theorem takeWhile_append_of_endsName {rest : List Char} (hrest : endsName rest) (cs : List Char) :
    (cs ++ rest).takeWhile isNameChar = cs.takeWhile isNameChar := by
  induction cs with
  | nil =>
    cases rest with
    | nil => rfl
    | cons c rest => simp [hrest c rfl]
  | cons c cs ih => rw [List.cons_append, List.takeWhile_cons, List.takeWhile_cons, ih]

theorem width_append (cs cs' : List Char) : width (cs ++ cs') = width cs + width cs' := by
  induction cs with
  | nil => rw [List.nil_append, width, Nat.zero_add]
  | cons c cs ih => rw [List.cons_append, width, width, ih, Nat.add_assoc]

/-- A token is scanned with the characters that belong to it. -/
theorem scan_start {c : Char} {more rest : List Char} {token : Token}
    (hblank : Text.isBlank c = false) (hstart : start c (more ++ rest) = some (token, more.length))
    (offset : Nat) :
    scan 0 offset (c :: more ++ rest) =
      (⟨token, offset⟩ :: ·) <$> scan 0 (offset + width (c :: more)) rest := by
  rw [List.cons_append, scan, hblank, hstart, width, ← Nat.add_assoc]
  simp only [Bool.false_eq_true, if_false, scan_skip, bind_pure_comp]

/-- A word is scanned whole. -/
theorem scan_word {word : String} (hne : word ≠ "") (hword : ∀ c ∈ word.toList, isNameChar c = true)
    {rest : List Char} (hrest : endsName rest) (offset : Nat) :
    scan 0 offset (word.toList ++ rest) =
      (⟨ofWord word, offset⟩ :: ·) <$> scan 0 (offset + width word.toList) rest := by
  cases hlist : word.toList with
  | nil => exact absurd (String.toList_eq_nil_iff.mp hlist) hne
  | cons c cs =>
    rw [hlist, List.forall_mem_cons] at hword
    apply scan_start (isBlank_of_isNameChar hword.1)
    rw [start_of_isNameChar hword.1, takeWhile_append_of_endsName hrest,
      List.takeWhile_eq_self_iff.mpr hword.2, ← hlist, String.ofList_toList]

theorem isName_iff {x : String} :
    isName x = true ↔
      x ≠ "" ∧ (∀ c ∈ x.toList, isNameChar c = true) ∧ x ∉ keywords.map (·.1) := by
  simp only [isName, Bool.and_eq_true, Bool.not_eq_true', List.all_eq_true, List.contains_eq_mem,
    decide_eq_false_iff_not, String.isEmpty_eq_false_iff, and_assoc]

/-- A name is scanned whole. -/
theorem scan_name {x : String} (hx : isName x = true) {rest : List Char} (hrest : endsName rest)
    (offset : Nat) :
    scan 0 offset (x.toList ++ rest) =
      (⟨.name x, offset⟩ :: ·) <$> scan 0 (offset + width x.toList) rest := by
  obtain ⟨hne, hall, hword⟩ := isName_iff.mp hx
  rw [scan_word hne hall hrest, ofWord_eq_name_iff.mpr ⟨rfl, hword⟩]

/-- A symbol of one character is scanned by itself. -/
theorem scan_symbol {c : Char} {token : Token} (hblank : Text.isBlank c = false)
    (hstart : ∀ cs, start c cs = some (token, 0)) (rest : List Char) (offset : Nat) :
    scan 0 offset (c :: rest) =
      (⟨token, offset⟩ :: ·) <$> scan 0 (offset + c.utf8Size) rest := by
  have hnone : start c ([] ++ rest) = some (token, List.length ([] : List Char)) := hstart rest
  exact scan_start hblank hnone offset

/-- A name that starts somewhere is a name. -/
theorem isName_of_start {c : Char} {cs : List Char} {x : String} {more : Nat}
    (h : start c cs = some (.name x, more)) : isName x = true := by
  unfold start at h
  split at h
  case h_27 =>
    split at h
    · rename_i hc
      obtain ⟨hword, -⟩ := Prod.mk.inj (Option.some.inj h)
      obtain ⟨rfl, hnot⟩ := ofWord_eq_name_iff.mp hword
      rw [isName_iff, String.toList_ofList, List.forall_mem_cons]
      exact ⟨by simp, ⟨hc, List.all_eq_true.mp List.all_takeWhile⟩, hnot⟩
    · cases h
  all_goals grind

/-- The names that the scanner finds are names. -/
theorem isName_of_mem_scan {skip offset : Nat} {cs : List Char} {located : List Located}
    (h : scan skip offset cs = .ok located) :
    ∀ t ∈ located, ∀ x, t.token = .name x → isName x = true := by
  fun_induction scan skip offset cs generalizing located with
  | case1 =>
    cases h
    exact nofun
  | case2 skip offset c cs ih => exact ih h
  | case3 offset c cs hblank ih => exact ih h
  | case4 => cases h
  | case5 offset c cs hblank token more hstart ih =>
    obtain ⟨rest, hrest, hlocated⟩ := bind_eq_ok_iff.mp h
    obtain rfl := Except.ok.inj hlocated
    rw [List.forall_mem_cons]
    exact ⟨fun x (hx : token = .name x) => isName_of_start (hx ▸ hstart), ih hrest⟩

/-- Scanning fails only at a character that starts no token. -/
theorem exists_unknownOperator_of_scan {skip offset : Nat} {cs : List Char} {e : ParseError}
    (h : scan skip offset cs = .error e) : ∃ c offset, e = .unknownOperator c offset := by
  fun_induction scan skip offset cs with
  | case1 => cases h
  | case2 skip offset c cs ih => exact ih h
  | case3 offset c cs hblank ih => exact ih h
  | case4 offset c cs =>
    cases h
    exact ⟨c, offset, rfl⟩
  | case5 offset c cs hblank token more hstart ih =>
    cases hrest : scan more (offset + c.utf8Size) cs with
    | ok rest =>
      rw [hrest] at h
      cases h
    | error e' =>
      rw [hrest] at h
      cases h
      exact ih hrest

/-! ### Spelling -/

/-- The characters `cs` spell `tokens`: the scanner finds the tokens in them and goes on with what
follows, if that does not go on with a name. -/
def Spells (cs : List Char) (tokens : List Token) : Prop :=
  ∀ (offset : Nat) (rest : List Char), endsName rest →
    ∃ located : List Located, located.map (·.token) = tokens ∧
      scan 0 offset (cs ++ rest) = (located ++ ·) <$> scan 0 (offset + width cs) rest

namespace Spells

variable {cs cs' : List Char} {tokens tokens' : List Token}

theorem nil : Spells [] [] := fun offset rest _ => ⟨[], rfl, by simp [width]⟩

theorem name {x : String} (h : isName x = true) : Spells x.toList [.name x] :=
  fun offset _ hrest => ⟨[⟨.name x, offset⟩], rfl, scan_name h hrest offset⟩

theorem symbol {c : Char} {token : Token} (hblank : Text.isBlank c = false)
    (hstart : ∀ cs, start c cs = some (token, 0)) (h : Spells cs tokens) :
    Spells (c :: cs) (token :: tokens) := by
  intro offset rest hrest
  obtain ⟨located, hlocated, hscan⟩ := h (offset + c.utf8Size) rest hrest
  refine ⟨⟨token, offset⟩ :: located, by rw [List.map_cons, hlocated], ?_⟩
  rw [List.cons_append, scan_symbol hblank hstart, hscan, width, ← Nat.add_assoc,
    Functor.map_map]
  rfl

theorem blank (h : Spells cs tokens) : Spells (' ' :: cs) tokens := by
  intro offset rest hrest
  obtain ⟨located, hlocated, hscan⟩ := h (offset + ' '.utf8Size) rest hrest
  refine ⟨located, hlocated, ?_⟩
  rw [List.cons_append, scan, width, ← Nat.add_assoc, ← hscan]
  rfl

/-- Pieces are put together if the second does not continue a name of the first. -/
theorem append (h : Spells cs tokens) (h' : Spells cs' tokens') (hends : endsName cs') :
    Spells (cs ++ cs') (tokens ++ tokens') := by
  intro offset rest hrest
  obtain ⟨located, hlocated, hscan⟩ := h offset (cs' ++ rest) (by
    cases cs' with
    | nil => exact hrest
    | cons c cs' => exact hends)
  obtain ⟨located', hlocated', hscan'⟩ := h' (offset + width cs) rest hrest
  refine ⟨located ++ located', by rw [List.map_append, hlocated, hlocated'], ?_⟩
  rw [List.append_assoc, hscan, hscan', width_append, ← Nat.add_assoc, Functor.map_map]
  simp only [List.append_assoc]

theorem parentheses (h : Spells cs tokens) :
    Spells ('(' :: (cs ++ [')'])) (.open :: (tokens ++ [.close])) :=
  .symbol (by decide) (fun _ => rfl) <|
    h.append (.symbol (by decide) (fun _ => rfl) .nil) (endsName_cons (by decide) _)

/-- What a text spells is what it is scanned to. -/
theorem tokenize {text : String} (h : Spells text.toList tokens) :
    ∃ located : List Located, located.map (·.token) = tokens ∧
      Token.tokenize text = .ok located := by
  obtain ⟨located, hlocated, hscan⟩ := h 0 [] nofun
  refine ⟨located, hlocated, ?_⟩
  rw [Token.tokenize, ← List.append_nil text.toList, hscan, scan, Except.map_ok, List.append_nil]

end Spells

end Token

end Deontica
