import Mathlib.Data.List.Basic
import SmallCpp.Token.Scan

/-!
# The spelling of tokens

Every token that a source can contain has a spelling. Before a blank or at the end of a text the
spelling is scanned as the token (`Piece.first_spelling`), and what is scanned from any source is
such a token (`Piece.spellable_of_first`). `Spells` says of a whole text that it is cut into certain
tokens and nothing faulty.
-/

namespace SmallCpp

/-- A name: letters, digits and underscores, of which the first is no digit, but no keyword. -/
def IsName (name : String) : Prop :=
  ∃ c cs, name.toList = c :: cs ∧ Piece.startsWord c = true ∧
    (∀ d ∈ cs, Piece.continuesWord d = true) ∧ Keyword.ofText? name = none

/-- A character as it stands between single quotes. -/
def charSpelling (c : Char) : List Char :=
  if c = '\n' then ['\\', 'n']
  else if c = '\\' || c = '\'' then ['\\', c]
  else [c]

namespace TokenKind

/-- The tokens that a source can contain. -/
def Spellable : TokenKind → Prop
  | identifier name => IsName name
  | integer value => 0 ≤ value
  | character value => value < 128
  | keyword _ | symbol _ => True
  | eof => False

/-- The text of a token in a source. -/
def spelling : TokenKind → List Char
  | identifier name => name.toList
  | integer value => Nat.toDigits 10 value.toNatClampNeg
  | character value => '\'' :: (charSpelling (Char.ofNat value.toNat) ++ ['\''])
  | keyword word => word.text.toList
  | symbol sign => sign.text.toList
  | eof => []

end TokenKind

/-- Decimal digits have the value that the library gives them. -/
theorem Text.decimal_eq (digits : List Char) :
    Text.decimal digits = Nat.ofDigitChars 10 digits 0 :=
  rfl

namespace Piece

variable {p : Char → Bool} {c : Char} {cs rest : List Char}

/-! ### The first piece of a text -/

/-- A sort of characters to which no blank belongs. -/
def HasNoBlank (p : Char → Bool) : Prop :=
  p ' ' = false ∧ p '\t' = false ∧ p '\r' = false ∧ p '\n' = false

instance (p : Char → Bool) : Decidable (HasNoBlank p) :=
  inferInstanceAs (Decidable (_ ∧ _))

/-- A blank is not of a sort without blanks. -/
theorem HasNoBlank.eq_false (hp : HasNoBlank p) (h : isBlank c = true) : p c = false := by
  simp only [isBlank, Bool.or_eq_true, decide_eq_true_eq] at h
  obtain ((rfl | rfl) | rfl) | rfl := h
  exacts [hp.1, hp.2.1, hp.2.2.1, hp.2.2.2]

/-- A character of a sort without blanks is no blank. -/
theorem HasNoBlank.isBlank_eq_false (hp : HasNoBlank p) (hc : p c = true) :
    isBlank c = false := by
  rw [Bool.eq_false_iff]
  intro hblank
  rw [hp.eq_false hblank] at hc
  cases hc

/-- Characters of different sorts are different. -/
theorem ne_of_sort {d : Char} (hc : p c = true) (hd : p d = false) : c ≠ d := by
  rintro rfl
  rw [hc] at hd
  cases hd

/-- A word does not start with a digit. -/
theorem isDigit_eq_false_of_startsWord (h : startsWord c = true) : c.isDigit = false := by
  rw [startsWord, Bool.or_eq_true, decide_eq_true_eq] at h
  obtain h | rfl := h
  · -- letters come after the digits
    have hletter : 65 ≤ c.toNat := by
      have hcase : c.isUpper = true ∨ c.isLower = true := Bool.or_eq_true_iff.mp h
      obtain hupper | hlower := hcase
      · exact (of_decide_eq_true hupper).1
      · exact Nat.le_trans (by decide) (of_decide_eq_true (Bool.and_eq_true_iff.mp hlower).1)
    rw [Bool.eq_false_iff]
    intro hdigit
    have hnine : c.toNat ≤ 57 := (Char.isDigit_iff_toNat.mp hdigit).2
    omega
  · rfl

/-- The text is at its end or goes on with a blank. -/
def Separated (rest : List Char) : Prop :=
  ∀ c ∈ rest.head?, isBlank c = true

/-- Characters of a sort are taken up to the first one of another sort. -/
theorem takeWhile_append_of_head? (hcs : ∀ c ∈ cs, p c = true)
    (hrest : ∀ c ∈ rest.head?, p c = false) : (cs ++ rest).takeWhile p = cs := by
  have hstop : rest.takeWhile p = [] := by
    cases rest with
    | nil => rfl
    | cons c rest => rw [List.takeWhile_cons, hrest c rfl, if_neg (by simp)]
  rw [List.takeWhile_append_of_pos hcs, hstop, List.append_nil]

/-- Characters of a sort without blanks are taken up to the blank. -/
theorem Separated.takeWhile_append (h : Separated rest) (hp : HasNoBlank p)
    (hcs : ∀ c ∈ cs, p c = true) : (cs ++ rest).takeWhile p = cs :=
  takeWhile_append_of_head? hcs fun c hc => hp.eq_false (h c hc)

/-- A piece that starts with a digit takes all digits that follow. -/
theorem first_of_isDigit (hc : c.isDigit = true) (cs : List Char) : first c cs =
    (ofDigits (c :: cs.takeWhile Char.isDigit), (cs.takeWhile Char.isDigit).length) := by
  have hblank : isBlank c = false := HasNoBlank.isBlank_eq_false (by decide) hc
  have hslash : c ≠ '/' := ne_of_sort hc (by decide)
  simp [first, hblank, hslash, hc]

/-- A piece that starts with a letter takes all letters and digits that follow. -/
theorem first_of_startsWord (hc : startsWord c = true) (cs : List Char) : first c cs =
    (ofWord (String.ofList (c :: cs.takeWhile continuesWord)),
      (cs.takeWhile continuesWord).length) := by
  have hblank : isBlank c = false := HasNoBlank.isBlank_eq_false (by decide) hc
  have hslash : c ≠ '/' := ne_of_sort hc (by decide)
  have hdigit : c.isDigit = false := isDigit_eq_false_of_startsWord hc
  have hquote : c ≠ '\'' := ne_of_sort hc (by decide)
  simp [first, hblank, hslash, hdigit, hquote, hc]

/-- Digits before a blank are one piece. -/
theorem first_digits (hc : c.isDigit = true) (hcs : ∀ d ∈ cs, d.isDigit = true)
    (hrest : Separated rest) : first c (cs ++ rest) = (ofDigits (c :: cs), cs.length) := by
  rw [first_of_isDigit hc, hrest.takeWhile_append (by decide) hcs]

/-- A word before a blank is one piece. -/
theorem first_word (hc : startsWord c = true) (hcs : ∀ d ∈ cs, continuesWord d = true)
    (hrest : Separated rest) :
    first c (cs ++ rest) = (ofWord (String.ofList (c :: cs)), cs.length) := by
  rw [first_of_startsWord hc, hrest.takeWhile_append (by decide) hcs]

/-- A quote starts a character. -/
theorem first_quote (cs : List Char) : first '\'' cs = quotedFirst cs :=
  rfl

/-- A character that is spelled between quotes is scanned as itself. -/
theorem first_quoted (h : c.toNat < 128) : first '\'' (charSpelling c ++ '\'' :: rest) =
    (token (.character (UInt8.ofNat c.toNat)), (charSpelling c).length + 1) := by
  have hchar : ofChar c = token (.character (UInt8.ofNat c.toNat)) := if_pos h
  rw [first_quote, charSpelling]
  split_ifs with hnewline hescape
  · -- A line break is spelled as an escape of its own.
    rw [← hchar, hnewline]
    rfl
  · -- The backslash and the quote are escaped.
    simp only [Bool.or_eq_true, decide_eq_true_eq] at hescape
    obtain rfl | rfl := hescape <;> rfl
  · -- Any other character stands for itself.
    simp_all [quotedFirst]

/-- Text without blanks starts a text before a blank only if it starts it without what follows. -/
theorem Separated.isPrefixOf_append (hrest : Separated rest) {u : List Char}
    (hu : ∀ c ∈ u, isBlank c = false) (cs : List Char) :
    u.isPrefixOf (cs ++ rest) = u.isPrefixOf cs := by
  induction u generalizing cs with
  | nil => rw [List.isPrefixOf_nil_left, List.isPrefixOf_nil_left]
  | cons a u ih =>
    obtain ⟨ha, hu⟩ := List.forall_mem_cons.mp hu
    cases cs with
    | cons b cs => rw [List.cons_append, List.isPrefixOf, List.isPrefixOf, ih hu]
    | nil =>
      cases rest with
      | nil => rfl
      | cons b rest =>
        have hne : a ≠ b := by
          rintro rfl
          rw [hrest a rfl] at ha
          cases ha
        simp [List.isPrefixOf, hne]

/-- No symbol contains a blank. -/
theorem isBlank_symbol_text (s : Symbol) : ∀ c ∈ s.text.toList, isBlank c = false := by
  have hall : s.text.toList.all (fun c => !isBlank c) = true := by cases s <;> rfl
  intro c hc
  simpa using List.all_eq_true.mp hall c hc

/-- Before a blank no longer symbol starts where a symbol stands. -/
theorem leading?_text (s : Symbol) (hrest : Separated rest) :
    Symbol.leading? (s.text.toList ++ rest) = some s := by
  have hshort : Symbol.leading? (s.text.toList ++ rest) = Symbol.leading? s.text.toList :=
    congrArg (Symbol.all.find? ·) <| funext fun t =>
      hrest.isPrefixOf_append (isBlank_symbol_text t) s.text.toList
  rw [hshort]
  cases s <;> rfl

/-- A keyword is a word. -/
theorem exists_keyword_text (w : Keyword) : ∃ c cs, w.text.toList = c :: cs ∧
    startsWord c = true ∧ ∀ d ∈ cs, continuesWord d = true := by
  have hword : ∃ c cs, w.text.toList = c :: cs ∧ startsWord c = true ∧
      cs.all continuesWord = true := by
    cases w <;> exact ⟨_, _, rfl, rfl, rfl⟩
  obtain ⟨c, cs, htext, hc, hcs⟩ := hword
  exact ⟨c, cs, htext, hc, List.all_eq_true.mp hcs⟩

/-- The first character of a symbol tells it from all other pieces, but for the comments. -/
theorem exists_symbol_text (s : Symbol) : ∃ c cs, s.text.toList = c :: cs ∧
    isBlank c = false ∧ c.isDigit = false ∧ c ≠ '\'' ∧ startsWord c = false ∧
    (c = '/' → cs.head? ≠ some '/' ∧ cs.head? ≠ some '*') := by
  cases s <;> exact ⟨_, _, rfl, by decide⟩

/-- A symbol that is scanned has its first character and as many more as it is long. -/
theorem length_symbol_text {s : Symbol} (h : s.text.toList = c :: cs) :
    s.text.length - 1 = cs.length := by
  rw [← String.length_toList, h, List.length_cons, Nat.add_sub_cancel]

/-- A character that does not follow in the text does not follow once a blank is added. -/
theorem Separated.head?_append_ne (hrest : Separated rest) {d : Char} (hd : isBlank d = false)
    (h : cs.head? ≠ some d) : (cs ++ rest).head? ≠ some d := by
  cases cs with
  | cons a cs => exact h
  | nil =>
    intro hhead
    rw [hrest d hhead] at hd
    cases hd

/-- A symbol before a blank is scanned as itself, and starts no comment. -/
theorem first_symbol (s : Symbol) (hrest : Separated rest) : ∃ c cs, s.text.toList = c :: cs ∧
    first c (cs ++ rest) = (token (.symbol s), cs.length) := by
  obtain ⟨c, cs, htext, hblank, hdigit, hquote, hword, hslash⟩ := exists_symbol_text s
  have hline : ¬(c = '/' && (cs ++ rest).head? = some '/') = true := by
    rw [Bool.and_eq_true, decide_eq_true_eq, decide_eq_true_eq]
    exact fun h => hrest.head?_append_ne rfl (hslash h.1).1 h.2
  have hblock : ¬(c = '/' && (cs ++ rest).head? = some '*') = true := by
    rw [Bool.and_eq_true, decide_eq_true_eq, decide_eq_true_eq]
    exact fun h => hrest.head?_append_ne rfl (hslash h.1).2 h.2
  have hleading : Symbol.leading? (c :: (cs ++ rest)) = some s := by
    rw [← List.cons_append, ← htext]
    exact leading?_text s hrest
  refine ⟨c, cs, htext, ?_⟩
  rw [first, if_neg (by simp [hblank]), if_neg hline, if_neg hblock, if_neg (by simp [hdigit]),
    if_neg hquote, if_neg (by simp [hword]), symbolFirst, hleading,
    ← length_symbol_text htext]

/-- The spelling of a token before a blank is scanned as the token. -/
theorem first_spelling {k : TokenKind} (hk : k.Spellable) (hrest : Separated rest) :
    ∃ c cs, k.spelling = c :: cs ∧ first c (cs ++ rest) = (token k, cs.length) := by
  cases k with
  -- A name takes all letters and digits up to the blank, and is no keyword.
  | identifier name =>
    obtain ⟨c, cs, hname, hc, hcs, hkeyword⟩ := hk
    refine ⟨c, cs, hname, ?_⟩
    rw [first_word hc hcs hrest, ← hname, String.ofList_toList, ofWord, hkeyword]
  -- A keyword is a word too, but one that the table of keywords knows.
  | keyword w =>
    have hkeyword : Keyword.ofText? w.text = some w := by cases w <;> rfl
    obtain ⟨c, cs, htext, hc, hcs⟩ := exists_keyword_text w
    refine ⟨c, cs, htext, ?_⟩
    rw [first_word hc hcs hrest, ← htext, String.ofList_toList, ofWord, hkeyword]
  -- The decimal digits of a number are read back as the number.
  | integer n =>
    have hn : Int64.ofNat n.toNatClampNeg = n := n.ofNat_toNatClampNeg hk
    have hdigits : ∀ c ∈ Nat.toDigits 10 n.toNatClampNeg, c.isDigit = true :=
      fun c hc => Nat.isDigit_of_mem_toDigits (by decide) (by decide) hc
    have hdecimal : Text.decimal (Nat.toDigits 10 n.toNatClampNeg) = n.toNatClampNeg := by
      rw [Text.decimal_eq, Nat.ofDigitChars_ten_toDigits]
    obtain ⟨c, cs, hcs⟩ := List.exists_cons_of_ne_nil (Nat.toDigits_ne_nil (n := n.toNatClampNeg))
    refine ⟨c, cs, hcs, ?_⟩
    rw [hcs] at hdigits hdecimal
    obtain ⟨hc, hmore⟩ := List.forall_mem_cons.mp hdigits
    rw [first_digits hc hmore hrest, ofDigits, hdecimal, if_pos n.toNatClampNeg_lt, hn]
  -- A byte of seven bits is the character with its code.
  | character v =>
    have hlt : v.toNat < 128 := hk
    have hvalid : v.toNat.isValidChar := .inl (by omega)
    have hv : (Char.ofNat v.toNat).toNat = v.toNat := by
      rw [Char.ofNat, dif_pos hvalid]
      rfl
    refine ⟨_, _, rfl, ?_⟩
    rw [List.append_assoc, List.singleton_append, first_quoted (by rwa [hv]), hv,
      UInt8.ofNat_toNat, List.length_append, List.length_singleton]
  | symbol s => exact first_symbol s hrest
  | eof => exact hk.elim

/-! ### What is scanned -/

/-- Digits are scanned as a number that is not negative. -/
theorem spellable_ofDigits {ds : List Char} {k : TokenKind} (h : ofDigits ds = token k) :
    k.Spellable := by
  rw [ofDigits] at h
  split_ifs at h with hlt
  cases h
  change (0 : Int64) ≤ Int64.ofNat (Text.decimal ds)
  rw [Int64.le_iff_toInt_le, Int64.toInt_ofNat_of_lt hlt]
  exact Int.natCast_nonneg _

/-- Only characters of seven bits are scanned. -/
theorem spellable_ofChar {k : TokenKind} (h : ofChar c = token k) : k.Spellable := by
  rw [ofChar] at h
  split_ifs at h with hlt
  cases h
  change UInt8.ofNat c.toNat < 128
  have hsize : c.toNat < UInt8.size := Nat.lt_trans hlt (by decide)
  rw [UInt8.lt_iff_toNat_lt, UInt8.toNat_ofNat_of_lt' hsize]
  exact hlt

/-- What is scanned between quotes can be spelled. -/
theorem spellable_quotedFirst {k : TokenKind} {n : Nat} (h : quotedFirst cs = (token k, n)) :
    k.Spellable := by
  unfold quotedFirst at h
  split at h
  · -- Behind a backslash stand the characters that may be escaped.
    split at h
    · exact spellable_ofChar (congrArg Prod.fst h)
    · cases h
  · -- Any other character stands for itself, but for a bare quote, backslash or line break.
    split_ifs at h
    · cases h
    · exact spellable_ofChar (congrArg Prod.fst h)
  · cases h

/-- A word is scanned as a keyword or as a name. -/
theorem spellable_ofWord {k : TokenKind} (hc : startsWord c = true)
    (hcs : ∀ d ∈ cs, continuesWord d = true) (h : ofWord (String.ofList (c :: cs)) = token k) :
    k.Spellable := by
  rw [ofWord] at h
  cases hkeyword : Keyword.ofText? (String.ofList (c :: cs)) with
  | some w =>
    rw [hkeyword] at h
    cases h
    trivial
  | none =>
    rw [hkeyword] at h
    cases h
    exact ⟨c, cs, String.toList_ofList, hc, hcs, hkeyword⟩

/-- Every token that is scanned can be spelled. -/
theorem spellable_of_first {k : TokenKind} {n : Nat} (h : first c cs = (token k, n)) :
    k.Spellable := by
  rw [first] at h
  split_ifs at h with _ _ _ _ _ hword
  · -- a blank
    cases h
  · -- a comment up to the end of the line
    cases h
  · -- a comment between its marks, which may be missing at the end
    cases hlength : commentLength? cs.tail <;> rw [hlength] at h <;> cases h
  · -- a number
    exact spellable_ofDigits (congrArg Prod.fst h)
  · -- a character
    exact spellable_quotedFirst h
  · -- a word
    have hmore := List.all_eq_true.mp (List.all_takeWhile (p := continuesWord) (l := cs))
    exact spellable_ofWord hword hmore (congrArg Prod.fst h)
  · -- a symbol
    rw [symbolFirst] at h
    cases hleading : Symbol.leading? (c :: cs) <;> rw [hleading] at h <;> cases h
    trivial

end Piece

/-! ### Whole texts -/

/-- The text is cut into these tokens, wherever it stands, and nothing in it is faulty. -/
def Spells (cs : List Char) (ks : List TokenKind) : Prop :=
  ∀ pos, ((pieces pos cs).map Prod.fst).filter (· ≠ .blank) = ks.map .token

namespace Spells

variable {rest : List Char} {ks : List TokenKind}

/-- An empty text has no tokens. -/
theorem nil : Spells [] [] := by
  intro pos
  rw [pieces]
  rfl

/-- A blank adds no token. -/
theorem blank {c : Char} (hc : Piece.isBlank c = true) (h : Spells rest ks) :
    Spells (c :: rest) ks := by
  intro pos
  have hfirst : Piece.first c rest = (.blank, 0) := if_pos hc
  rw [pieces, hfirst]
  exact h _

/-- The spelling of a token before a blank adds the token. -/
theorem token {k : TokenKind} (hk : k.Spellable) (hrest : Piece.Separated rest)
    (h : Spells rest ks) : Spells (k.spelling ++ rest) (k :: ks) := by
  intro pos
  obtain ⟨c, cs, hspelling, hfirst⟩ := Piece.first_spelling hk hrest
  rw [hspelling, List.cons_append, pieces, hfirst]
  dsimp only
  rw [List.drop_left]
  exact congrArg (Piece.token k :: ·) (h _)

end Spells

/-- Pieces that are tokens and blanks give these tokens and no errors. -/
theorem tokensOf_of_pieces {ps : List (Piece × Span)} : ∀ {ks : List TokenKind},
    (ps.map Prod.fst).filter (· ≠ .blank) = ks.map .token →
      lexErrorsOf ps = [] ∧ ∀ size, (tokensOf size ps).map Token.kind = ks ++ [.eof] := by
  induction ps with
  | nil =>
    intro ks h
    obtain rfl : ks = [] := List.map_eq_nil_iff.mp h.symm
    exact ⟨rfl, fun _ => rfl⟩
  | cons p ps ih =>
    intro ks h
    obtain ⟨piece, span⟩ := p
    cases piece with
    | blank => exact ih h
    | token k =>
      obtain ⟨k', ks, rfl, hk, hks⟩ := List.map_eq_cons_iff.mp h.symm
      cases hk
      obtain ⟨herrors, htokens⟩ := ih hks.symm
      exact ⟨herrors, fun size => congrArg (k :: ·) (htokens size)⟩
    -- A faulty piece would have to be one of the tokens.
    | faulty cause =>
      obtain ⟨k', ks, rfl, hk, hks⟩ := List.map_eq_cons_iff.mp h.symm
      cases hk

/-- A text that is cut into tokens only is scanned as these, closed by the end of file. -/
theorem Spells.scan {source : String} {ks : List TokenKind} (h : Spells source.toList ks) :
    ∃ tokens, scan source = .ok tokens ∧ tokens.map Token.kind = ks ++ [.eof] := by
  obtain ⟨herrors, htokens⟩ := tokensOf_of_pieces (h 0)
  refine ⟨_, ?_, htokens (byteLength source.toList)⟩
  rw [SmallCpp.scan, herrors]

/-- Every token among the pieces of a text can be spelled. -/
theorem spellable_of_pieces (pos : Nat) (cs : List Char) :
    ∀ p ∈ pieces pos cs, ∀ k, p.1 = .token k → k.Spellable := by
  induction pos, cs using pieces.induct with
  | case1 pos =>
    rw [pieces]
    exact List.forall_mem_nil _
  | case2 pos c cs piece n hfirst stop ih =>
    rw [pieces, hfirst, List.forall_mem_cons]
    refine ⟨fun k hk => ?_, ih⟩
    cases hk
    exact Piece.spellable_of_first hfirst

/-- Every token of a source can be spelled, but for the end of file. -/
theorem spellable_of_scan {source : String} {tokens : List Token}
    (h : scan source = .ok tokens) : ∀ t ∈ tokens, t.kind ≠ .eof → t.kind.Spellable := by
  have htokens : tokens = tokensOf (byteLength source.toList) (pieces 0 source.toList) := by
    rw [scan] at h
    split at h <;> cases h
    rfl
  rw [htokens, tokensOf, List.forall_mem_append, List.forall_mem_singleton]
  refine ⟨fun t ht _ => ?_, fun hne => absurd rfl hne⟩
  obtain ⟨⟨piece, span⟩, hp, hpt⟩ := List.mem_filterMap.mp ht
  cases piece with
  | token k =>
    cases hpt
    exact spellable_of_pieces _ _ _ hp k rfl
  | _ => cases hpt

end SmallCpp
