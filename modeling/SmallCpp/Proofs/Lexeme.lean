import Mathlib.Data.List.TakeWhile
import SmallCpp.Proofs.Spelling

/-!
# Lexemes

What the pieces of a source are, said without the scanner: which texts spell a token (`Spelled`),
which are white space or a comment (`Trivia`), and which are faulty and why (`Faulty`). What follows
a text has a part in it, since a comment ends where it first can and a token is the longest text
that spells one (`Munched`). `Piece.firstFits` says that the first piece that the scanner finds is
of the sort that it is said to be.
-/

namespace SmallCpp

/-- A character literal: a character between single quotes, or a letter after a backslash. -/
inductive CharLiteral : List Char → Char → Prop
  | plain {c : Char} (hc : c ≠ '\\' ∧ c ≠ '\'' ∧ c ≠ '\n') : CharLiteral ['\'', c, '\''] c
  | escape {letter c : Char} (h : Piece.escape? letter = some c) :
    CharLiteral ['\'', '\\', letter, '\''] c

/-- The text spells the token. -/
inductive Spelled : List Char → TokenKind → Prop
  | identifier {c : Char} {cs : List Char} (hc : Piece.startsWord c = true)
    (hcs : ∀ d ∈ cs, Piece.continuesWord d = true)
    (hkeyword : ∀ w : Keyword, w.text.toList ≠ c :: cs) :
    Spelled (c :: cs) (.identifier (String.ofList (c :: cs)))
  | keyword (w : Keyword) : Spelled w.text.toList (.keyword w)
  | integer {c : Char} {cs : List Char} (hdigits : ∀ d ∈ c :: cs, d.isDigit = true)
    (hfits : Nat.ofDigitChars 10 (c :: cs) 0 < Nat.pow 2 63) :
    Spelled (c :: cs) (.integer (Int64.ofNat (Nat.ofDigitChars 10 (c :: cs) 0)))
  | character {text : List Char} {c : Char} (h : CharLiteral text c) (hascii : c.toNat < 128) :
    Spelled text (.character (UInt8.ofNat c.toNat))
  | symbol (s : Symbol) : Spelled s.text.toList (.symbol s)

/-- The text, before the rest, is white space or a comment. A comment ends with its line, or where
it is closed for the first time. -/
inductive Trivia : List Char → List Char → Prop
  | space {c : Char} {rest : List Char} (hc : c ∈ [' ', '\t', '\r', '\n']) :
    Trivia [c] rest
  | line {body rest : List Char} (hbody : '\n' ∉ body) (hrest : ∀ c ∈ rest.head?, c = '\n') :
    Trivia ('/' :: '/' :: body) rest
  | block {body rest : List Char} (hbody : ¬['*', '/'] <:+: body) :
    Trivia ('/' :: '*' :: (body ++ ['*', '/'])) rest

/-- The text, before the rest, is faulty for this cause. -/
inductive Faulty : LexCause → List Char → List Char → Prop
  | unterminatedComment {body : List Char} (hbody : ¬['*', '/'] <:+: body) :
    Faulty .unterminatedComment ('/' :: '*' :: body) []
  | integerTooLarge {c : Char} {cs rest : List Char} (hdigits : ∀ d ∈ c :: cs, d.isDigit = true)
    (hlarge : Nat.pow 2 63 ≤ Nat.ofDigitChars 10 (c :: cs) 0)
    (hrest : ∀ d ∈ rest.head?, d.isDigit = false) :
    Faulty (.integerTooLarge (String.ofList (c :: cs))) (c :: cs) rest
  | wideCharacter {text rest : List Char} {c : Char} (h : CharLiteral text c)
    (hwide : 128 ≤ c.toNat) : Faulty (.wideCharacter c) text rest
  | malformedCharacter {rest : List Char}
    (h : ∀ text c, CharLiteral text c → ¬text <+: '\'' :: rest) :
    Faulty .malformedCharacter ['\''] rest
  | unexpected {c : Char} {rest : List Char} (hblank : c ∉ [' ', '\t', '\r', '\n'])
    (hquote : c ≠ '\'') (h : ∀ text kind, Spelled text kind → ¬text <+: c :: rest) :
    Faulty (.unexpected c) [c] rest

/-- The text is the longest one that spells a token where it stands, and it spells no other. Neither
a comment nor a fault starts there. -/
structure Munched (text rest : List Char) (kind : TokenKind) : Prop where
  spelled : Spelled text kind
  only : ∀ kind', Spelled text kind' → kind' = kind
  longest : ∀ longer kind', longer <+: text ++ rest → Spelled longer kind' →
    longer.length ≤ text.length
  not_trivia : ∀ gap after, text ++ rest = gap ++ after → ¬Trivia gap after
  not_faulty : ∀ cause fault after, text ++ rest = fault ++ after → ¬Faulty cause fault after

/-- The text, before the rest, is what the piece says. -/
def Piece.Fits (text rest : List Char) : Piece → Prop
  | blank => Trivia text rest
  | token kind => Munched text rest kind
  | faulty cause => Faulty cause text rest

/-- A character literal starts with a quote. -/
theorem CharLiteral.exists_cons {text : List Char} {c : Char} (h : CharLiteral text c) :
    ∃ ds, text = '\'' :: ds := by
  cases h with
  | plain hc => exact ⟨_, rfl⟩
  | escape h => exact ⟨_, rfl⟩

/-- White space and comments are not empty. -/
theorem Trivia.exists_cons {text rest : List Char} (h : Trivia text rest) :
    ∃ c cs, text = c :: cs := by
  cases h <;> exact ⟨_, _, rfl⟩

/-- Faults are not empty. -/
theorem Faulty.exists_cons {cause : LexCause} {text rest : List Char} (h : Faulty cause text rest) :
    ∃ c cs, text = c :: cs := by
  cases h with
  | wideCharacter hliteral => exact ⟨_, hliteral.exists_cons⟩
  | _ => exact ⟨_, _, rfl⟩

namespace Piece

variable {c : Char} {cs : List Char}

/-- The four characters of white space. -/
theorem isBlank_iff : isBlank c = true ↔ c ∈ [' ', '\t', '\r', '\n'] := by
  simp [isBlank, or_assoc]

/-! ### Comments -/

/-- Where a comment is not closed, it goes on. -/
theorem commentLength?_cons (h : ∀ tail, c = '*' → cs = '/' :: tail → False) :
    commentLength? (c :: cs) = (commentLength? cs).map (· + 1) := by
  rw [commentLength?]
  exact h

/-- A comment ends where it is closed for the first time. -/
theorem exists_of_commentLength? {n : Nat} (h : commentLength? cs = some n) :
    ∃ body rest, cs = body ++ '*' :: '/' :: rest ∧ n = body.length + 2 ∧
      ¬['*', '/'] <:+: body := by
  induction cs using commentLength?.induct generalizing n with
  | case1 rest =>
    cases h
    exact ⟨[], rest, rfl, rfl, by simp⟩
  | case2 c cs hopen ih =>
    rw [commentLength?_cons hopen] at h
    obtain ⟨m, hm, rfl⟩ := Option.map_eq_some_iff.mp h
    obtain ⟨body, rest, rfl, rfl, hbody⟩ := ih hm
    refine ⟨c :: body, rest, rfl, by simp, ?_⟩
    rw [List.infix_cons_iff]
    rintro (⟨tail, htail⟩ | hinfix)
    · -- The mark would stand where the comment was found to go on.
      cases htail
      exact hopen _ rfl rfl
    · exact hbody hinfix
  | case3 => cases h

/-- A comment is as long as the text before its first closing mark, and the mark. -/
theorem commentLength?_append {body : List Char} (h : ¬['*', '/'] <:+: body) (rest : List Char) :
    commentLength? (body ++ '*' :: '/' :: rest) = some (body.length + 2) := by
  induction body with
  | nil => rfl
  | cons c body ih =>
    rw [List.infix_cons_iff, not_or] at h
    have hopen : ∀ tail, c = '*' → body ++ '*' :: '/' :: rest = '/' :: tail → False := by
      rintro tail rfl heq
      cases body with
      | nil => cases heq
      | cons d body =>
        obtain ⟨rfl, -⟩ := List.cons.inj heq
        exact h.1 ⟨body, rfl⟩
    rw [List.cons_append, commentLength?_cons hopen, ih h.2]
    rfl

/-- Where no end of a comment is found, there is none. -/
theorem not_infix_of_commentLength? (h : commentLength? cs = none) : ¬['*', '/'] <:+: cs := by
  induction cs using commentLength?.induct with
  | case1 rest => cases h
  | case2 c cs hopen ih =>
    rw [commentLength?_cons hopen] at h
    rw [List.infix_cons_iff]
    rintro (⟨tail, htail⟩ | hinfix)
    · cases htail
      exact hopen tail rfl rfl
    · exact ih (Option.map_eq_none_iff.mp h) hinfix
  | case3 => simp

/-! ### Characters -/

/-- A literal that stands after the quote is found there, whatever follows it. -/
theorem quotedFirst_of_literal {ds : List Char} (h : CharLiteral ('\'' :: ds) c) (hds : ds <+: cs) :
    quotedFirst cs = (ofChar c, ds.length) := by
  obtain ⟨rest, rfl⟩ := hds
  cases h with
  | plain hc =>
    obtain ⟨hslash, hquote, hnewline⟩ := hc
    simp_all [quotedFirst]
  | escape h => simp [quotedFirst, h]

/-- A single quote starts a character literal, or a malformed one. -/
theorem quotedFirst_cases (cs : List Char) :
    (∃ ds c, CharLiteral ('\'' :: ds) c ∧ ds <+: cs) ∨
      quotedFirst cs = (faulty .malformedCharacter, 0) := by
  unfold quotedFirst
  split
  · rename_i letter rest
    cases hletter : escape? letter with
    | some c => exact .inl ⟨['\\', letter, '\''], c, .escape hletter, ⟨rest, rfl⟩⟩
    | none => exact .inr rfl
  · rename_i c rest _
    split_ifs with hspecial
    · exact .inr rfl
    · simp only [Bool.or_eq_true, decide_eq_true_eq, not_or] at hspecial
      obtain ⟨⟨hslash, hquote⟩, hnewline⟩ := hspecial
      exact .inl ⟨[c, '\''], c, .plain ⟨hslash, hquote, hnewline⟩, ⟨rest, rfl⟩⟩
  · exact .inr rfl

/-! ### Tokens -/

/-- A text that spells a token is scanned as that token if nothing follows. -/
theorem first_of_spelled {text : List Char} {kind : TokenKind} (h : Spelled text kind) :
    ∃ c cs, text = c :: cs ∧ first c cs = (token kind, cs.length) := by
  have hend : Separated [] := fun c hc => absurd hc (Option.not_mem_none c)
  have hspelling : ∀ k : TokenKind, k.Spellable →
      ∃ c cs, k.spelling = c :: cs ∧ first c cs = (token k, cs.length) := by
    intro k hk
    obtain ⟨c, cs, htext, hfirst⟩ := first_spelling hk hend
    rw [List.append_nil] at hfirst
    exact ⟨c, cs, htext, hfirst⟩
  cases h with
  | @identifier c cs hc hcs hkeyword =>
    have hnone : Keyword.ofText? (String.ofList (c :: cs)) = none := by
      rw [Keyword.ofText?, List.find?_eq_none]
      intro w _ hw
      have htext : w.text.toList = c :: cs := by
        rw [beq_iff_eq.mp hw, String.toList_ofList]
      exact hkeyword w htext
    have hfirst := first_word hc hcs hend
    rw [List.append_nil, ofWord, hnone] at hfirst
    exact ⟨c, cs, rfl, hfirst⟩
  | keyword w => exact hspelling (.keyword w) trivial
  | @integer c cs hdigits hfits =>
    obtain ⟨hc, hcs⟩ := List.forall_mem_cons.mp hdigits
    have hfirst := first_digits hc hcs hend
    rw [List.append_nil, ofDigits, Text.decimal_eq, if_pos hfits] at hfirst
    exact ⟨c, cs, rfl, hfirst⟩
  | @character text c h hascii =>
    obtain ⟨ds, rfl⟩ := h.exists_cons
    refine ⟨'\'', ds, rfl, ?_⟩
    rw [first_quote, quotedFirst_of_literal h (List.prefix_refl ds), ofChar, if_pos hascii]
  | symbol s => exact hspelling (.symbol s) trivial

/-- The scanner goes on at least as far as the characters that fit. -/
theorem length_le_takeWhile {p : Char → Bool} {ds : List Char} (h : ∀ d ∈ ds, p d = true)
    (rest : List Char) : ds.length ≤ ((ds ++ rest).takeWhile p).length := by
  rw [List.takeWhile_append_of_pos h, List.length_append]
  omega

/-- The symbols are listed by length, so that the first that fits is the longest. -/
theorem length_le_of_leading? {s s' : Symbol} (h : Symbol.leading? cs = some s)
    (hstarts : s'.text.toList <+: cs) : s'.text.toList.length ≤ s.text.toList.length := by
  have hsorted : Symbol.all.Pairwise fun s t => t.text.toList.length ≤ s.text.toList.length := by
    decide
  have hmem : s' ∈ Symbol.all := by cases s' <;> decide
  obtain ⟨-, before, after, hall, hbefore⟩ := List.find?_eq_some_iff_append.mp h
  rw [hall] at hmem hsorted
  rcases List.mem_append.mp hmem with hmem | hmem
  · have hnot := hbefore s' hmem
    rw [List.isPrefixOf_iff_prefix.mpr hstarts] at hnot
    cases hnot
  · rcases List.mem_cons.mp hmem with rfl | hmem
    · exact Nat.le_refl _
    · have hafter := (List.pairwise_append.mp hsorted).2.1
      exact (List.pairwise_cons.mp hafter).1 s' hmem

/-- A word at the start of the text ends where the scanner stops, or before. -/
theorem length_le_of_word {ds rest : List Char} {k : TokenKind} {n : Nat} (hc : startsWord c = true)
    (hds : ∀ d ∈ ds, continuesWord d = true) (hfirst : first c (ds ++ rest) = (token k, n)) :
    ds.length ≤ n := by
  rw [first_of_startsWord hc] at hfirst
  have hn : ((ds ++ rest).takeWhile continuesWord).length = n := congrArg Prod.snd hfirst
  rw [← hn]
  exact length_le_takeWhile hds rest

/-- A symbol at the start of the text is no longer than the first piece, if that is a token. -/
theorem length_le_of_symbol {s : Symbol} {k : TokenKind} {n : Nat}
    (hstarts : s.text.toList <+: c :: cs) (hfirst : first c cs = (token k, n)) :
    s.text.toList.length ≤ n + 1 := by
  obtain ⟨d, ds, htext, -, hdigit, hquote, hstart, -⟩ := exists_symbol_text s
  obtain rfl : d = c := by
    rw [htext] at hstarts
    exact (List.cons_prefix_cons.mp hstarts).1
  rw [first] at hfirst
  split_ifs at hfirst with hblank' hline hblock hdigit' hstart'
  -- White space and comments are no tokens, and no symbol starts like a number or a word.
  · cases hfirst
  · cases hfirst
  · cases hlength : commentLength? cs.tail <;> rw [hlength] at hfirst <;> cases hfirst
  · rw [hdigit] at hdigit'
    cases hdigit'
  · rw [hstart] at hstart'
    cases hstart'
  · rw [symbolFirst] at hfirst
    cases hleading : Symbol.leading? (d :: cs) with
    | none =>
      rw [hleading] at hfirst
      cases hfirst
    | some s' =>
      rw [hleading] at hfirst
      have hn : s'.text.length - 1 = n := congrArg Prod.snd hfirst
      have hle := length_le_of_leading? hleading hstarts
      rw [String.length_toList, String.length_toList] at hle
      rw [String.length_toList]
      omega

/-- No text that spells a token reaches further than the first piece, if that is a token. -/
theorem length_le_of_first {text : List Char} {kind k : TokenKind} {n : Nat}
    (h : Spelled text kind) (hstarts : text <+: c :: cs) (hfirst : first c cs = (token k, n)) :
    text.length ≤ n + 1 := by
  obtain ⟨rest, heq⟩ := hstarts
  cases h with
  | @identifier d ds hc hcs _ =>
    obtain ⟨rfl, rfl⟩ := List.cons.inj heq
    exact Nat.succ_le_succ (length_le_of_word hc hcs hfirst)
  | keyword w =>
    obtain ⟨d, ds, htext, hc, hcs⟩ := exists_keyword_text w
    rw [htext] at heq ⊢
    obtain ⟨rfl, rfl⟩ := List.cons.inj heq
    exact Nat.succ_le_succ (length_le_of_word hc hcs hfirst)
  | @integer d ds hdigits _ =>
    obtain ⟨hd, hds⟩ := List.forall_mem_cons.mp hdigits
    obtain ⟨rfl, rfl⟩ := List.cons.inj heq
    rw [first_of_isDigit hd] at hfirst
    have hn : ((ds ++ rest).takeWhile Char.isDigit).length = n := congrArg Prod.snd hfirst
    rw [← hn]
    exact Nat.succ_le_succ (length_le_takeWhile hds rest)
  | @character _ c h _ =>
    obtain ⟨ds, rfl⟩ := h.exists_cons
    obtain ⟨rfl, hcs⟩ := List.cons.inj heq
    rw [first_quote, quotedFirst_of_literal h ⟨rest, hcs⟩] at hfirst
    have hn : ds.length = n := congrArg Prod.snd hfirst
    exact Nat.succ_le_succ (Nat.le_of_eq hn)
  | symbol s => exact length_le_of_symbol ⟨rest, heq⟩ hfirst

end Piece

/-- A text spells one token at most. -/
theorem Spelled.unique {text : List Char} {kind kind' : TokenKind} (h : Spelled text kind)
    (h' : Spelled text kind') : kind' = kind := by
  obtain ⟨c, cs, rfl, hfirst⟩ := Piece.first_of_spelled h
  obtain ⟨c', cs', heq, hfirst'⟩ := Piece.first_of_spelled h'
  cases heq
  rw [hfirst] at hfirst'
  cases hfirst'
  rfl

namespace Piece

variable {c : Char} {cs : List Char}

/-! ### White space, comments and faults are scanned as such -/

/-- A block comment is blank up to its end, and a fault up to the end of the source if it has none.
-/
theorem first_block (cs : List Char) : first '/' ('*' :: cs) =
    match commentLength? cs with
    | some n => (blank, n + 1)
    | none => (faulty .unterminatedComment, cs.length + 1) :=
  rfl

/-- White space and comments are scanned as blank, each as long as it is. -/
theorem first_of_trivia {more rest : List Char} (h : Trivia (c :: more) rest) :
    first c (more ++ rest) = (blank, more.length) := by
  cases h with
  | space hc => exact if_pos (isBlank_iff.mpr hc)
  | @line body _ hbody hrest =>
    have hline : (body ++ rest).takeWhile (· ≠ '\n') = body := by
      apply takeWhile_append_of_head?
      · intro d hd
        exact decide_eq_true (ne_of_mem_of_not_mem hd hbody)
      · intro d hd
        simp [hrest d hd]
    have hfirst : first '/' ('/' :: (body ++ rest)) =
        (blank, ('/' :: (body ++ rest).takeWhile (· ≠ '\n')).length) := rfl
    rw [List.cons_append, hfirst, hline]
  | @block body _ hbody =>
    have hlength := commentLength?_append hbody rest
    rw [List.cons_append, List.append_assoc, List.cons_append, List.singleton_append, first_block,
      hlength]
    simp

/-- A single character that is a digit, a letter or a slash spells a token. -/
theorem exists_spelled_singleton (h : c = '/' ∨ c.isDigit = true ∨ startsWord c = true) :
    ∃ kind, Spelled [c] kind := by
  rcases h with rfl | hdigit | hword
  · exact ⟨_, .symbol .slash⟩
  · refine ⟨_, .integer (by simpa using hdigit) ?_⟩
    have hnine : c.toNat ≤ 57 := (Char.isDigit_iff_toNat.mp hdigit).2
    have hvalue : Nat.ofDigitChars 10 [c] 0 = c.toNat - '0'.toNat := by
      rw [Nat.ofDigitChars_cons, Nat.ofDigitChars_nil, Nat.mul_zero, Nat.zero_add]
    have hlimit : 57 < Nat.pow 2 63 := by decide
    omega
  · refine ⟨_, .identifier hword (by simp) ?_⟩
    intro w hw
    have hlength : w.text.toList.length ≠ 1 := by cases w <;> decide
    rw [hw] at hlength
    exact hlength rfl

/-- Every fault is scanned as that fault, as long as it is. -/
theorem first_of_faulty {cause : LexCause} {more rest : List Char}
    (h : Faulty cause (c :: more) rest) : first c (more ++ rest) = (faulty cause, more.length) := by
  cases h with
  | @unterminatedComment body hbody =>
    have hlength : commentLength? body = none := by
      rw [Option.eq_none_iff_forall_ne_some]
      intro n hn
      obtain ⟨inner, rest, rfl, -⟩ := exists_of_commentLength? hn
      exact hbody ⟨inner, rest, by simp⟩
    rw [List.append_nil, first_block, hlength]
    rfl
  | integerTooLarge hdigits hlarge hrest =>
    obtain ⟨hc, hmore⟩ := List.forall_mem_cons.mp hdigits
    rw [first_of_isDigit hc, takeWhile_append_of_head? hmore hrest, ofDigits,
      Text.decimal_eq, if_neg (Nat.not_lt.mpr hlarge)]
  | @wideCharacter _ _ d hliteral hwide =>
    obtain ⟨ds, heq⟩ := hliteral.exists_cons
    obtain ⟨rfl, rfl⟩ := List.cons.inj heq
    rw [first_quote, quotedFirst_of_literal hliteral ⟨rest, rfl⟩, ofChar,
      if_neg (Nat.not_lt.mpr hwide)]
  | malformedCharacter h =>
    rcases quotedFirst_cases rest with ⟨ds, d, hliteral, hds⟩ | hmalformed
    · exact absurd (List.cons_prefix_cons.mpr ⟨rfl, hds⟩) (h _ d hliteral)
    · exact hmalformed
  | unexpected hblank hquote h =>
    have hsingle : ¬(c = '/' ∨ c.isDigit = true ∨ startsWord c = true) := by
      intro hc
      obtain ⟨kind, hkind⟩ := exists_spelled_singleton hc
      exact h _ kind hkind ⟨rest, rfl⟩
    rw [not_or, not_or] at hsingle
    obtain ⟨hslash, hdigit, hword⟩ := hsingle
    have hleading : Symbol.leading? (c :: rest) = none := by
      rw [Symbol.leading?, List.find?_eq_none]
      intro s _ hs
      exact h _ _ (.symbol s) (List.isPrefixOf_iff_prefix.mp hs)
    rw [List.nil_append, first, if_neg (mt isBlank_iff.mp hblank), if_neg (by simp [hslash]),
      if_neg (by simp [hslash]), if_neg hdigit, if_neg hquote, if_neg hword, symbolFirst, hleading]
    rfl

/-! ### The first piece is what it is said to be -/

/-- The first piece of the text takes some characters after `c`, and fits what it takes. -/
def FirstFits (c : Char) (cs : List Char) : Prop :=
  ∃ piece more rest, cs = more ++ rest ∧ first c cs = (piece, more.length) ∧
    piece.Fits (c :: more) rest

/-- A first piece whose text spells the token is the longest token. -/
theorem firstFits_token {more rest : List Char} {kind : TokenKind}
    (hfirst : first c (more ++ rest) = (token kind, more.length))
    (h : Spelled (c :: more) kind) : FirstFits c (more ++ rest) := by
  have hhere : ∀ d ds after, c :: more ++ rest = d :: ds ++ after →
      first d (ds ++ after) = (token kind, more.length) := by
    intro d ds after heq
    rw [List.cons_append, List.cons_append] at heq
    obtain ⟨rfl, htail⟩ := List.cons.inj heq
    rw [← htail, hfirst]
  refine ⟨_, more, rest, rfl, hfirst, h, fun kind' h' => h.unique h', ?_, ?_, ?_⟩
  · intro longer kind' hstarts h'
    exact length_le_of_first h' hstarts hfirst
  · intro gap after heq htrivia
    obtain ⟨d, ds, rfl⟩ := htrivia.exists_cons
    cases (first_of_trivia htrivia).symm.trans (hhere d ds after heq)
  · intro cause fault after heq hfaulty
    obtain ⟨d, ds, rfl⟩ := hfaulty.exists_cons
    cases (first_of_faulty hfaulty).symm.trans (hhere d ds after heq)

/-- A scan stops at a character that does not fit. -/
theorem head?_dropWhile {p : Char → Bool} : ∀ d ∈ (cs.dropWhile p).head?, p d = false := by
  intro d hd
  have hnot := List.head?_dropWhile_not p cs
  rw [hd] at hnot
  exact hnot

/-- A comment up to the end of the line. -/
theorem firstFits_line (cs : List Char) : FirstFits '/' ('/' :: cs) := by
  have hsplit : cs.takeWhile (· ≠ '\n') ++ cs.dropWhile (· ≠ '\n') = cs :=
    List.takeWhile_append_dropWhile
  have hfirst : first '/' ('/' :: cs) = (blank, ('/' :: cs.takeWhile (· ≠ '\n')).length) := rfl
  refine ⟨blank, _, cs.dropWhile (· ≠ '\n'), ?_, hfirst, .line ?_ ?_⟩
  · rw [List.cons_append, hsplit]
  · intro hmem
    have hne := List.mem_takeWhile_imp hmem
    simp at hne
  · intro d hd
    have hnewline := head?_dropWhile d hd
    simpa using hnewline

/-- A comment that is closed, or goes on to the end of the source. -/
theorem firstFits_block (cs : List Char) : FirstFits '/' ('*' :: cs) := by
  cases hlength : commentLength? cs with
  | some n =>
    obtain ⟨body, rest, rfl, rfl, hbody⟩ := exists_of_commentLength? hlength
    refine ⟨blank, '*' :: (body ++ ['*', '/']), rest, by simp, ?_, .block hbody⟩
    rw [first_block, hlength]
    simp
  | none =>
    refine ⟨faulty .unterminatedComment, '*' :: cs, [], by simp, ?_, ?_⟩
    · rw [first_block, hlength]
      rfl
    · exact .unterminatedComment (not_infix_of_commentLength? hlength)

/-- Digits are an integer, or one that is too large. -/
theorem firstFits_digits (hc : c.isDigit = true) (cs : List Char) : FirstFits c cs := by
  have hsplit : cs.takeWhile Char.isDigit ++ cs.dropWhile Char.isDigit = cs :=
    List.takeWhile_append_dropWhile
  have hdigits : ∀ d ∈ c :: cs.takeWhile Char.isDigit, d.isDigit = true :=
    List.forall_mem_cons.mpr ⟨hc, fun d hd => List.mem_takeWhile_imp hd⟩
  have hfirst := first_of_isDigit hc cs
  rw [ofDigits, Text.decimal_eq] at hfirst
  split_ifs at hfirst with hfits
  · rw [← hsplit]
    refine firstFits_token ?_ (.integer hdigits hfits)
    rw [hsplit, hfirst]
  · refine ⟨_, _, _, hsplit.symm, hfirst, ?_⟩
    exact .integerTooLarge hdigits (Nat.le_of_not_lt hfits) head?_dropWhile

/-- A word is a keyword or an identifier. -/
theorem firstFits_word (hc : startsWord c = true) (cs : List Char) : FirstFits c cs := by
  have hsplit : cs.takeWhile continuesWord ++ cs.dropWhile continuesWord = cs :=
    List.takeWhile_append_dropWhile
  have hcs : ∀ d ∈ cs.takeWhile continuesWord, continuesWord d = true :=
    fun d hd => List.mem_takeWhile_imp hd
  have hfirst := first_of_startsWord hc cs
  rw [ofWord] at hfirst
  cases hkeyword : Keyword.ofText? (String.ofList (c :: cs.takeWhile continuesWord)) with
  | some w =>
    -- The word is the text of the keyword that was found.
    have htext : w.text = String.ofList (c :: cs.takeWhile continuesWord) :=
      beq_iff_eq.mp (List.find?_some (p := fun k : Keyword => k.text == _) hkeyword)
    have hspelled : Spelled (c :: cs.takeWhile continuesWord) (.keyword w) := by
      have hw := Spelled.keyword w
      rwa [htext, String.toList_ofList] at hw
    rw [hkeyword] at hfirst
    rw [← hsplit]
    refine firstFits_token ?_ hspelled
    rw [hsplit, hfirst]
  | none =>
    have hnot : ∀ w : Keyword, w.text.toList ≠ c :: cs.takeWhile continuesWord := by
      intro w hw
      have hmem : w ∈ Keyword.all := by cases w <;> decide
      refine List.find?_eq_none.mp hkeyword w hmem (beq_iff_eq.mpr ?_)
      rw [← hw, String.ofList_toList]
    rw [hkeyword] at hfirst
    rw [← hsplit]
    refine firstFits_token ?_ (.identifier hc hcs hnot)
    rw [hsplit, hfirst]

/-- After a quote there is a literal of an ASCII character or of a wide one, or none at all. -/
theorem firstFits_quote (cs : List Char) : FirstFits '\'' cs := by
  rcases quotedFirst_cases cs with ⟨ds, c, hliteral, rest, rfl⟩ | hmalformed
  · have hfirst : first '\'' (ds ++ rest) = (ofChar c, ds.length) :=
      quotedFirst_of_literal hliteral ⟨rest, rfl⟩
    by_cases hascii : c.toNat < 128
    · refine firstFits_token ?_ (.character hliteral hascii)
      rw [hfirst, ofChar, if_pos hascii]
    · refine ⟨faulty (.wideCharacter c), ds, rest, rfl, ?_, ?_⟩
      · rw [hfirst, ofChar, if_neg hascii]
      · exact .wideCharacter hliteral (Nat.le_of_not_lt hascii)
  · refine ⟨faulty .malformedCharacter, [], cs, rfl, hmalformed, .malformedCharacter ?_⟩
    intro text c hliteral hstarts
    obtain ⟨ds, rfl⟩ := hliteral.exists_cons
    have hds : ds <+: cs := (List.cons_prefix_cons.mp hstarts).2
    rw [quotedFirst_of_literal hliteral hds] at hmalformed
    have hfaulty : ofChar c = faulty .malformedCharacter := congrArg Prod.fst hmalformed
    rw [ofChar] at hfaulty
    split_ifs at hfaulty
    cases hfaulty

/-- Where no digit, quote, word or symbol starts, no token is spelled. -/
theorem not_spelled_of_leading?_eq_none (hdigit : c.isDigit = false) (hquote : c ≠ '\'')
    (hword : startsWord c = false) (hleading : Symbol.leading? (c :: cs) = none) {text : List Char}
    {kind : TokenKind} (hspelled : Spelled text kind) : ¬text <+: c :: cs := by
  rintro ⟨rest, heq⟩
  cases hspelled with
  | identifier hc _ _ =>
    obtain ⟨rfl, -⟩ := List.cons.inj heq
    rw [hc] at hword
    cases hword
  | keyword w =>
    obtain ⟨d, ds, htext, hd, -⟩ := exists_keyword_text w
    rw [htext] at heq
    obtain ⟨rfl, -⟩ := List.cons.inj heq
    rw [hd] at hword
    cases hword
  | integer hdigits _ =>
    obtain ⟨rfl, -⟩ := List.cons.inj heq
    rw [hdigits _ List.mem_cons_self] at hdigit
    cases hdigit
  | character hliteral _ =>
    obtain ⟨ds, rfl⟩ := hliteral.exists_cons
    exact hquote (List.cons.inj heq).1.symm
  | symbol s =>
    have hmem : s ∈ Symbol.all := by cases s <;> decide
    have hnot := List.find?_eq_none.mp hleading s hmem
    exact hnot (List.isPrefixOf_iff_prefix.mpr ⟨rest, heq⟩)

/-- A character that starts nothing else starts a symbol or is not expected. -/
theorem firstFits_symbol (hblank : isBlank c ≠ true) (hdigit : c.isDigit = false)
    (hquote : c ≠ '\'') (hword : startsWord c = false)
    (hfirst : first c cs = symbolFirst c cs) : FirstFits c cs := by
  rw [symbolFirst] at hfirst
  cases hleading : Symbol.leading? (c :: cs) with
  | some s =>
    rw [hleading] at hfirst
    have hstarts : s.text.toList.isPrefixOf (c :: cs) = true :=
      List.find?_some (p := fun s : Symbol => s.text.toList.isPrefixOf _) hleading
    obtain ⟨rest, hrest⟩ := List.isPrefixOf_iff_prefix.mp hstarts
    obtain ⟨d, ds, htext, -⟩ := exists_symbol_text s
    have hspelled := Spelled.symbol s
    rw [htext] at hspelled
    rw [htext, List.cons_append] at hrest
    obtain ⟨rfl, rfl⟩ := List.cons.inj hrest
    refine firstFits_token ?_ hspelled
    rw [hfirst, ← length_symbol_text htext]
  | none =>
    rw [hleading] at hfirst
    refine ⟨faulty (.unexpected c), [], cs, rfl, hfirst,
      .unexpected (mt isBlank_iff.mpr hblank) hquote fun text kind hspelled => ?_⟩
    exact not_spelled_of_leading?_eq_none hdigit hquote hword hleading hspelled

/-- The first piece of a text is of the sort that it is said to be. -/
theorem firstFits (c : Char) (cs : List Char) : FirstFits c cs := by
  by_cases hblank : isBlank c = true
  · exact ⟨blank, [], cs, rfl, if_pos hblank, .space (isBlank_iff.mp hblank)⟩
  by_cases hline : c = '/' ∧ cs.head? = some '/'
  · obtain ⟨rfl, hhead⟩ := hline
    obtain ⟨cs, rfl⟩ := List.head?_eq_some_iff.mp hhead
    exact firstFits_line cs
  by_cases hblock : c = '/' ∧ cs.head? = some '*'
  · obtain ⟨rfl, hhead⟩ := hblock
    obtain ⟨cs, rfl⟩ := List.head?_eq_some_iff.mp hhead
    exact firstFits_block cs
  by_cases hdigit : c.isDigit = true
  · exact firstFits_digits hdigit cs
  by_cases hquote : c = '\''
  · rw [hquote]
    exact firstFits_quote cs
  by_cases hword : startsWord c = true
  · exact firstFits_word hword cs
  have hfirst : first c cs = symbolFirst c cs := by
    rw [first, if_neg hblank, if_neg (by simpa using hline), if_neg (by simpa using hblock),
      if_neg hdigit, if_neg hquote, if_neg hword]
  rw [Bool.not_eq_true] at hdigit hword
  exact firstFits_symbol hblank hdigit hquote hword hfirst

/-- What fits the start of a text is its first piece. -/
theorem first_of_fits {piece : Piece} {more rest : List Char} (h : piece.Fits (c :: more) rest) :
    first c (more ++ rest) = (piece, more.length) := by
  cases piece with
  | blank => exact first_of_trivia h
  | faulty cause => exact first_of_faulty h
  | token kind =>
    obtain ⟨piece', more', rest', heq, hfirst, hfits⟩ := firstFits c (more ++ rest)
    have htext : c :: more ++ rest = c :: more' ++ rest' := congrArg (c :: ·) heq
    cases piece' with
    | blank => exact absurd hfits (h.not_trivia _ _ htext)
    | faulty cause => exact absurd hfits (h.not_faulty _ _ _ htext)
    | token kind' =>
      -- Both are the longest token here.
      have hle := h.longest _ kind' ⟨rest', htext.symm⟩ hfits.spelled
      have hge := hfits.longest _ kind ⟨rest, htext⟩ h.spelled
      obtain ⟨hmore, -⟩ := List.append_inj htext (Nat.le_antisymm hge hle)
      obtain ⟨-, rfl⟩ := List.cons.inj hmore
      rw [hfirst, h.only kind' hfits.spelled]

end Piece

end SmallCpp
