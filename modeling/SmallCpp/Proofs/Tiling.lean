import SmallCpp.Proofs.Lexeme

/-!
# A source is cut into its lexemes

`Tiles` says what it is to cut a text: its lexemes, put end to end, are the text; the spans of the
tokens and the faults among them are the bytes that they take; all else is white space and comments.
A text is tiled in one way only, the one that the scanner finds (`Tiles.eq_pieces`). From a tiling
follows where the spans stand: on character boundaries of the source, one after the other
(`InOrder`).
-/

namespace SmallCpp

/-- The lexemes of a text that stands at byte `pos`, with the tokens and the faults among them. -/
inductive Tiles : Nat → List Char → List Token → List LexError → Prop
  | eof {pos : Nat} : Tiles pos [] [⟨.eof, ⟨pos, pos⟩⟩] []
  | blank {pos : Nat} {text rest : List Char} {tokens : List Token} {errors : List LexError}
    (h : Trivia text rest) (hrest : Tiles (pos + byteLength text) rest tokens errors) :
    Tiles pos (text ++ rest) tokens errors
  | token {pos : Nat} {text rest : List Char} {kind : TokenKind} {tokens : List Token}
    {errors : List LexError} (h : Munched text rest kind)
    (hrest : Tiles (pos + byteLength text) rest tokens errors) :
    Tiles pos (text ++ rest) (⟨kind, ⟨pos, pos + byteLength text⟩⟩ :: tokens) errors
  | faulty {pos : Nat} {text rest : List Char} {cause : LexCause} {tokens : List Token}
    {errors : List LexError} (h : Faulty cause text rest)
    (hrest : Tiles (pos + byteLength text) rest tokens errors) :
    Tiles pos (text ++ rest) tokens (⟨cause, ⟨pos, pos + byteLength text⟩⟩ :: errors)

/-- The span lies inside the source and on character boundaries. -/
structure Span.Inside (source : String) (span : Span) : Prop where
  start_valid : String.Pos.Raw.IsValid source ⟨span.start⟩
  stop_valid : String.Pos.Raw.IsValid source ⟨span.stop⟩
  start_le_stop : span.start ≤ span.stop

/-- The spans lie inside the source, each behind those before it. Only the last may be empty. -/
structure InOrder (source : String) (spans : List Span) : Prop where
  inside : ∀ span ∈ spans, span.Inside source
  ordered : spans.Pairwise fun s t => s.start < s.stop ∧ s.stop ≤ t.start

/-! ### Bytes -/

/-- The length in bytes is that of the text as a string. -/
theorem byteLength_eq (cs : List Char) : byteLength cs = (String.ofList cs).utf8ByteSize := by
  induction cs with
  | nil => rfl
  | cons c cs ih =>
    rw [String.ofList_cons, String.utf8ByteSize_append, String.utf8ByteSize_singleton, ← ih]
    rfl

/-- Lengths in bytes add up. -/
theorem byteLength_append (cs ds : List Char) :
    byteLength (cs ++ ds) = byteLength cs + byteLength ds := by
  rw [byteLength_eq, String.ofList_append, String.utf8ByteSize_append, ← byteLength_eq,
    ← byteLength_eq]

/-- A character takes at least one byte. -/
theorem byteLength_cons_pos (c : Char) (cs : List Char) : 0 < byteLength (c :: cs) :=
  Nat.lt_of_lt_of_le c.utf8Size_pos (Nat.le_add_right _ _)

/-- A byte offset is a character boundary if it is the length of a first part of the source. -/
theorem isValid_byteLength {source : String} {cs ds : List Char} (h : source.toList = cs ++ ds) :
    String.Pos.Raw.IsValid source ⟨byteLength cs⟩ := by
  rw [String.Pos.Raw.isValid_iff_exists_append]
  refine ⟨String.ofList cs, String.ofList ds, ?_, ?_⟩
  · rw [← String.ofList_append, ← h, String.ofList_toList]
  · rw [byteLength_eq]
    rfl

/-! ### A text is tiled by its pieces -/

section Pieces

variable {pos : Nat} {cs : List Char} {tokens : List Token} {errors : List LexError}

/-- Every piece takes at least one character. -/
theorem Piece.Fits.exists_cons {piece : Piece} {text rest : List Char} (h : piece.Fits text rest) :
    ∃ c more, text = c :: more := by
  cases piece with
  | blank => exact Trivia.exists_cons h
  | faulty cause => exact Faulty.exists_cons h
  | token kind =>
    obtain ⟨c, more, htext, -⟩ := Piece.first_of_spelled h.spelled
    exact ⟨c, more, htext⟩

/-- Every piece takes at least one byte. -/
theorem Piece.byteLength_pos (piece : Piece) {text rest : List Char} (h : piece.Fits text rest) :
    0 < byteLength text := by
  obtain ⟨c, more, rfl⟩ := h.exists_cons
  exact byteLength_cons_pos c more

/-- What fits the start of a text is its first piece, and the rest is cut as if it stood alone. -/
theorem pieces_of_fits {piece : Piece} {text rest : List Char} (h : piece.Fits text rest) :
    pieces pos (text ++ rest) =
      (piece, ⟨pos, pos + byteLength text⟩) :: pieces (pos + byteLength text) rest := by
  obtain ⟨c, more, rfl⟩ := h.exists_cons
  rw [List.cons_append, pieces, Piece.first_of_fits h]
  simp

/-- The tokens and the faults that the scanner finds tile the text. -/
theorem tiles_pieces (pos : Nat) : (cs : List Char) →
    Tiles pos cs (tokensOf (pos + byteLength cs) (pieces pos cs)) (lexErrorsOf (pieces pos cs))
  | [] => by
    rw [pieces]
    exact .eof
  | c :: cs => by
    -- The scanner's next piece fits the start of the text, so the rest is cut on its own.
    obtain ⟨piece, more, rest, rfl, -, hfits⟩ := Piece.firstFits c cs
    have hrest := tiles_pieces (pos + byteLength (c :: more)) rest
    rw [← List.cons_append, pieces_of_fits hfits, byteLength_append, ← Nat.add_assoc]
    cases piece with
    | blank => exact .blank hfits hrest
    | token kind => exact .token hfits hrest
    | faulty cause => exact .faulty hfits hrest
termination_by cs => cs.length

/-- A text is tiled in one way only. -/
theorem Tiles.eq_pieces (h : Tiles pos cs tokens errors) :
    tokens = tokensOf (pos + byteLength cs) (pieces pos cs) ∧
      errors = lexErrorsOf (pieces pos cs) := by
  induction h with
  | eof =>
    rw [pieces]
    exact ⟨rfl, rfl⟩
  -- White space and comments are a piece, but neither a token nor a fault.
  | @blank pos text rest _ _ h _ ih =>
    have hfits : Piece.blank.Fits text rest := h
    rw [pieces_of_fits hfits, byteLength_append, ← Nat.add_assoc]
    exact ih
  -- A token is put in front of those of the rest.
  | @token pos text rest kind _ _ h _ ih =>
    have hfits : (Piece.token kind).Fits text rest := h
    rw [pieces_of_fits hfits, byteLength_append, ← Nat.add_assoc]
    exact ⟨congrArg _ ih.1, ih.2⟩
  -- A fault is put in front of those of the rest.
  | @faulty pos text rest cause _ _ h _ ih =>
    have hfits : (Piece.faulty cause).Fits text rest := h
    rw [pieces_of_fits hfits, byteLength_append, ← Nat.add_assoc]
    exact ⟨ih.1, congrArg _ ih.2⟩

/-- A tiling closes with the end of file behind the last byte. -/
theorem Tiles.getLast?_eq (h : Tiles pos cs tokens errors) :
    tokens.getLast? = some ⟨.eof, ⟨pos + byteLength cs, pos + byteLength cs⟩⟩ := by
  rw [h.eq_pieces.1, tokensOf, List.getLast?_concat]

end Pieces

/-! ### Where the spans stand -/

/-- The span of a part of a text that stands at byte `pos`. -/
def Span.Placed (pos : Nat) (cs : List Char) (span : Span) : Prop :=
  ∃ before text after, cs = before ++ (text ++ after) ∧
    span = ⟨pos + byteLength before, pos + byteLength (before ++ text)⟩

/-- Spans of parts of a text that stands at byte `pos`, one after the other. -/
structure Laid (pos : Nat) (cs : List Char) (spans : List Span) : Prop where
  placed : ∀ span ∈ spans, span.Placed pos cs
  ordered : spans.Pairwise fun s t => s.start < s.stop ∧ s.stop ≤ t.start

section Laid

variable {pos : Nat} {text rest : List Char} {spans : List Span}

/-- A part of the rest of a text is a part of the text. -/
theorem Span.Placed.append {span : Span} (h : span.Placed (pos + byteLength text) rest) :
    span.Placed pos (text ++ rest) := by
  obtain ⟨before, inner, after, rfl, rfl⟩ := h
  refine ⟨text ++ before, inner, after, (List.append_assoc ..).symm, ?_⟩
  simp only [byteLength_append, Nat.add_assoc]

/-- No spans are in order in any text. -/
theorem Laid.nil (pos : Nat) (cs : List Char) : Laid pos cs [] :=
  ⟨by simp, .nil⟩

/-- Spans of the rest of a text are spans of the text. -/
theorem Laid.append (h : Laid (pos + byteLength text) rest spans) : Laid pos (text ++ rest) spans :=
  ⟨fun span hspan => (h.placed span hspan).append, h.ordered⟩

/-- The span of a first part goes before spans behind it. -/
theorem Laid.cons (htext : 0 < byteLength text) (h : Laid (pos + byteLength text) rest spans) :
    Laid pos (text ++ rest) (⟨pos, pos + byteLength text⟩ :: spans) := by
  constructor
  · refine List.forall_mem_cons.mpr ⟨?_, h.append.placed⟩
    exact ⟨[], text, rest, rfl, rfl⟩
  · refine List.pairwise_cons.mpr ⟨?_, h.ordered⟩
    intro span hspan
    obtain ⟨before, inner, after, -, rfl⟩ := h.placed span hspan
    exact ⟨Nat.lt_add_of_pos_right htext, Nat.le_add_right _ _⟩

/-- The spans of a tiling. -/
theorem Tiles.laid {cs : List Char} {tokens : List Token} {errors : List LexError}
    (h : Tiles pos cs tokens errors) :
    Laid pos cs (tokens.map Token.span) ∧ Laid pos cs (errors.map LexError.span) := by
  induction h with
  -- The end of file stands behind the last byte and is empty.
  | eof =>
    refine ⟨⟨?_, List.pairwise_singleton _ _⟩, .nil _ _⟩
    intro span hspan
    rw [List.mem_singleton.mp hspan]
    exact ⟨[], [], [], rfl, rfl⟩
  | blank h _ ih => exact ⟨ih.1.append, ih.2.append⟩
  -- A token takes bytes, so its span goes before those behind it.
  | token h _ ih => exact ⟨ih.1.cons (Piece.byteLength_pos (.token _) h), ih.2.append⟩
  | faulty h _ ih => exact ⟨ih.1.append, ih.2.cons (Piece.byteLength_pos (.faulty _) h)⟩

/-- Spans that are laid in a source lie on its character boundaries. -/
theorem Laid.inOrder {source : String} (h : Laid 0 source.toList spans) : InOrder source spans := by
  refine ⟨?_, h.ordered⟩
  intro span hspan
  obtain ⟨before, text, after, hsource, rfl⟩ := h.placed span hspan
  have hstop : source.toList = (before ++ text) ++ after := by
    rw [hsource, List.append_assoc]
  rw [Nat.zero_add, Nat.zero_add]
  refine ⟨isValid_byteLength hsource, isValid_byteLength hstop, ?_⟩
  show byteLength before ≤ byteLength (before ++ text)
  rw [byteLength_append]
  exact Nat.le_add_right _ _

end Laid

/-! ### What the scanner returns -/

section Scan

variable {source : String} {tokens : List Token} {errors : List LexError}

/-- What tiles a source decides what the scanner returns. -/
theorem scan_of_tiles (h : Tiles 0 source.toList tokens errors) :
    scan source = if errors = [] then .ok tokens else .error errors := by
  obtain ⟨rfl, rfl⟩ := h.eq_pieces
  rw [Nat.zero_add, scan]
  cases lexErrorsOf (pieces 0 source.toList) <;> rfl

/-- The scanner returns the tokens of a tiling without faults. -/
theorem scan_eq_ok_iff : scan source = .ok tokens ↔ Tiles 0 source.toList tokens [] := by
  constructor
  · intro hscan
    have htiles := tiles_pieces 0 source.toList
    rw [scan_of_tiles htiles] at hscan
    split_ifs at hscan with hnone
    rwa [hnone, Except.ok.inj hscan] at htiles
  · intro htiles
    rw [scan_of_tiles htiles, if_pos rfl]

/-- The scanner returns the faults of a tiling that has some. -/
theorem scan_eq_error_iff : scan source = .error errors ↔
    errors ≠ [] ∧ ∃ tokens, Tiles 0 source.toList tokens errors := by
  constructor
  · intro hscan
    have htiles := tiles_pieces 0 source.toList
    rw [scan_of_tiles htiles] at hscan
    split_ifs at hscan with hsome
    rw [Except.error.inj hscan] at htiles hsome
    exact ⟨hsome, _, htiles⟩
  · rintro ⟨hsome, tokens, htiles⟩
    rw [scan_of_tiles htiles, if_neg hsome]

end Scan

end SmallCpp
