import SmallCpp.Proofs.Parser.Accepts

/-!
# What a parser has read when it succeeds

`Parser.Ensures c p Q` says of a success of `p` at the cursor `c` that its result and the cursor
after it satisfy `Q`. `Cursor.Passes c w d` says that `w` was read from `c` to `d` and that nothing
had to be recovered from on the way.
-/

namespace SmallCpp

namespace Cursor

/-- From `c` to `d` exactly the kinds `w` are read, without an error. -/
def Passes (c : Cursor) (w : List TokenKind) (d : Cursor) : Prop :=
  c.kinds = w ++ d.kinds ∧ d.recovered = c.recovered

namespace Passes

variable {c d d' : Cursor} {w w' : List TokenKind}

/-- Where nothing is read the cursor stays. -/
theorem refl (c : Cursor) : c.Passes [] c :=
  ⟨rfl, rfl⟩

/-- What is read in two parts is read one after the other. -/
theorem trans (h : c.Passes w d) (h' : d.Passes w' d') : c.Passes (w ++ w') d' :=
  ⟨by rw [h.1, h'.1, List.append_assoc], h'.2.trans h.2⟩

/-- One token is read, unless it is the end of file. -/
theorem advance {k : TokenKind} (h : c.kind = k) (hk : k ≠ .eof := by simp) :
    c.Passes [k] c.advance := by
  rcases c with ⟨_ | ⟨t, ts⟩, stop, es⟩
  · exact absurd h.symm hk
  · obtain rfl : t.kind = k := h
    exact ⟨by rw [kinds_advance rfl hk]; rfl, recovered_advance _⟩

end Passes

end Cursor

namespace Parser

variable {α β : Type} {c : Cursor}

/-- A success of the parser at the cursor has a result and an end with the property. -/
def Ensures (c : Cursor) (p : Parser α) (Q : α → Cursor → Prop) : Prop :=
  ∀ a d, p c = .ok a d → Q a d

namespace Ensures

variable {p : Parser α} {f : α → Parser β} {P : α → Cursor → Prop} {Q : β → Cursor → Prop}

/-- A result is reached where the parser stands. -/
theorem pure {a : α} (h : P a c) : Ensures c (pure a) P := by
  rintro _ _ ⟨⟩
  exact h

/-- Of a failure nothing is asked. -/
theorem fail (cause : SyntaxCause) (span : Span) : Ensures c (Parser.fail cause span) P :=
  nofun

/-- One parser after another: the second starts where the first ends. -/
theorem bind (hp : Ensures c p P) (hf : ∀ a d, P a d → Ensures d (f a) Q) :
    Ensures c (p >>= f) Q := by
  intro b d h
  rw [EStateM.bind_apply] at h
  cases ha : p c with
  | ok a d' => rw [ha] at h; exact hf a d' (hp a d' ha) b d h
  | error e d' => rw [ha] at h; cases h

/-- What is ensured may be weakened. -/
theorem imp {P' : α → Cursor → Prop} (hp : Ensures c p P) (h : ∀ a d, P a d → P' a d) :
    Ensures c p P' :=
  fun a d ha => h a d (hp a d ha)

/-- A branch ensures what both its sides do. -/
theorem ite {b : Prop} [Decidable b] {p' : Parser α} (hp : b → Ensures c p P)
    (hp' : ¬b → Ensures c p' P) : Ensures c (if b then p else p') P := by
  split_ifs with h
  · exact hp h
  · exact hp' h

/-- The next token is seen before anything is read. -/
theorem peek {f : Token → Parser β} (h : Ensures c (f c.peek) Q) :
    Ensures c (Parser.peek >>= f) Q :=
  h

/-- The kind of the next token is seen before anything is read. -/
theorem kind {f : TokenKind → Parser β} (h : Ensures c (f c.kind) Q) :
    Ensures c (Parser.kind >>= f) Q :=
  h

/-- Where the last token ended is known before anything is read. -/
theorem lastEnd {f : Nat → Parser β} (h : Ensures c (f c.lastEnd) Q) :
    Ensures c (Parser.lastEnd >>= f) Q :=
  h

/-- After a token is read, the rest starts behind it. -/
theorem advance {f : Token → Parser β} (h : Ensures c.advance (f c.peek) Q) :
    Ensures c (Parser.advance >>= f) Q :=
  h

/-- Of an error about an unexpected token nothing is asked. -/
theorem unexpected (what : Expected) : Ensures c (Parser.unexpected what) P :=
  .peek (.fail _ _)

/-- Of an error about a missing expression nothing is asked. -/
theorem noExpression : Ensures c Parser.noExpression P :=
  .peek (.fail _ _)

/-- Of an error about too few steps nothing is asked. -/
theorem unfinished : Ensures c Parser.unfinished P :=
  .peek (.fail _ _)

/-- What was expected has been read. -/
theorem expect (s : Symbol) (what : Expected) :
    Ensures c (Parser.expect s what) fun _ d => c.Passes [.symbol s] d := by
  refine .kind (.ite (fun hk => ?_) fun _ => .unexpected what)
  rintro _ _ ⟨⟩
  exact .advance hk

/-- A name that is asked for has been read. -/
theorem expectName (what : Expected) :
    Ensures c (Parser.expectName what) fun id d => c.Passes [.identifier id] d := by
  refine .kind ?_
  split
  · next hk => exact .advance (.pure (.advance hk))
  · exact .unexpected what

/-- An accepted symbol has been read; otherwise it does not come next. -/
theorem accept (s : Symbol) :
    Ensures c (Parser.accept s) fun b d =>
      if b then c.Passes [.symbol s] d else d = c ∧ c.kind ≠ .symbol s :=
  .kind (.ite (fun hk => .advance (.pure (.advance hk))) fun hk => .pure ⟨rfl, hk⟩)

end Ensures

end Parser

end SmallCpp
