import SmallCpp.Proofs.Tiling

/-!
# Scanning undoes rendering

Tokens that are written out with separators between them are scanned as these tokens, whatever the
separators are: each starts with a white-space character and may go on with white space and
comments. The white space in front keeps a token from growing into the separator, and a separator
has no token of its own (`Filler.spells`).
-/

namespace SmallCpp

/-- White space, line comments with their newline and closed block comments, in any number. -/
inductive Filler : List Char → Prop
  | nil : Filler []
  | space {c : Char} {rest : List Char} (hc : c ∈ [' ', '\t', '\r', '\n']) (hrest : Filler rest) :
    Filler (c :: rest)
  | line {body rest : List Char} (hbody : '\n' ∉ body) (hrest : Filler rest) :
    Filler ('/' :: '/' :: (body ++ '\n' :: rest))
  | block {body rest : List Char} (hbody : ¬['*', '/'] <:+: body) (hrest : Filler rest) :
    Filler ('/' :: '*' :: (body ++ '*' :: '/' :: rest))

/-- A white-space character with any filler after it. -/
structure Separator where
  /-- The character in front. -/
  mark : Char
  /-- What follows it. -/
  filler : List Char
  isBlank : mark ∈ [' ', '\t', '\r', '\n']
  fills : Filler filler

/-- The characters of a separator. -/
def Separator.text (sep : Separator) : List Char :=
  sep.mark :: sep.filler

/-- The text is the spellings of the tokens, with a separator between each and the next. -/
inductive Joined : List TokenKind → List Char → Prop
  | nil : Joined [] []
  | single (k : TokenKind) : Joined [k] k.spelling
  | cons {k k' : TokenKind} {ks : List TokenKind} {text : List Char} (sep : Separator)
    (h : Joined (k' :: ks) text) : Joined (k :: k' :: ks) (k.spelling ++ (sep.text ++ text))

section Separators

variable {text rest : List Char} {ks : List TokenKind}

/-- White space and comments in front of a text have no token. -/
theorem Spells.trivia (h : Trivia text rest) (hrest : Spells rest ks) :
    Spells (text ++ rest) ks := by
  intro pos
  have hfits : Piece.blank.Fits text rest := h
  rw [pieces_of_fits hfits]
  exact hrest _

/-- Filler in front of a text has no token. -/
theorem Filler.spells (h : Filler text) (hrest : Spells rest ks) : Spells (text ++ rest) ks := by
  induction h with
  | nil => exact hrest
  | space hc _ ih => exact .blank (Piece.isBlank_iff.mpr hc) ih
  | @line body filler hbody _ ih =>
    -- The newline ends the comment and is white space of its own.
    have hnewline : Spells ('\n' :: (filler ++ rest)) ks := .blank rfl ih
    have hcomment : Trivia ('/' :: '/' :: body) ('\n' :: (filler ++ rest)) :=
      .line hbody (by rintro _ ⟨⟩; rfl)
    have hspells := hnewline.trivia hcomment
    simpa using hspells
  | @block body filler hbody _ ih =>
    have hcomment : Trivia ('/' :: '*' :: (body ++ ['*', '/'])) (filler ++ rest) := .block hbody
    have hspells := ih.trivia hcomment
    simpa using hspells

/-- A separator in front of a text has no token: it is white space with filler behind it. -/
theorem Separator.spells (sep : Separator) (hrest : Spells rest ks) :
    Spells (sep.text ++ rest) ks :=
  .blank (Piece.isBlank_iff.mpr sep.isBlank) (sep.fills.spells hrest)

/-- What a separator stands in front of is separated from what stands before. -/
theorem Separator.separated (sep : Separator) (rest : List Char) :
    Piece.Separated (sep.text ++ rest) := by
  rintro _ ⟨⟩
  exact Piece.isBlank_iff.mpr sep.isBlank

/-- Joined tokens that can be spelled are cut apart again. -/
theorem Joined.spells (h : Joined ks text) (hks : ∀ k ∈ ks, k.Spellable) : Spells text ks := by
  induction h with
  | nil => exact .nil
  | single k =>
    have hend : Piece.Separated [] := fun c hc => absurd hc (Option.not_mem_none c)
    have hspells := Spells.token (hks k List.mem_cons_self) hend .nil
    rwa [List.append_nil] at hspells
  | cons sep _ ih =>
    obtain ⟨hk, hmore⟩ := List.forall_mem_cons.mp hks
    exact .token hk (sep.separated _) (sep.spells (ih hmore))

end Separators

end SmallCpp
