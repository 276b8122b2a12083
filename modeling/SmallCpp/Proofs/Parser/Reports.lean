import SmallCpp.Proofs.Outline.Reading
import SmallCpp.Program.Parser

/-!
# Where a parser reports errors

`Parser.Reports c p Q` says of both outcomes of `p` at the cursor `c`: the result and the cursor
after a success have the property `Q`, and a failure leaves the errors so far in order, with the one
that it fails with in its place behind them. The rules follow the ways in which parsers are put
together.
-/

namespace SmallCpp

namespace Parser

variable {source : String} {tokens : List Token} {α β : Type} {b c d : Cursor} {span : Span}

variable (source tokens) in
/-- A success has the property; a failure leaves the errors in order, and so does its own. -/
def Reports (c : Cursor) (p : Parser α) (Q : α → Cursor → Prop) : Prop :=
  match p c with
  | .ok a d => Q a d
  | .error e d => d.Tidy source tokens ∧ d.Blames source e.span

namespace Reports

variable {p : Parser α} {f : α → Parser β} {P : α → Cursor → Prop} {Q : β → Cursor → Prop}

/-- A result is reached where the parser stands. -/
theorem pure {a : α} (h : P a c) : Reports source tokens c (pure a) P :=
  h

/-- An error may be reported wherever it can be blamed on something. -/
theorem fail (cause : SyntaxCause) (hc : c.Tidy source tokens) (h : c.Blames source span) :
    Reports source tokens c (Parser.fail cause span) P :=
  ⟨hc, h⟩

/-- One parser after another: the second starts where the first ends. -/
theorem bind (hp : Reports source tokens c p P)
    (hf : ∀ a d, P a d → Reports source tokens d (f a) Q) :
    Reports source tokens c (p >>= f) Q := by
  unfold Reports at hp ⊢
  rw [EStateM.bind_apply]
  cases ha : p c with
  | ok a d =>
    rw [ha] at hp
    exact hf a d hp
  | error e d =>
    rw [ha] at hp
    exact hp

/-- What a success is known to have may be weakened. -/
theorem imp {P' : α → Cursor → Prop} (hp : Reports source tokens c p P)
    (h : ∀ a d, P a d → P' a d) : Reports source tokens c p P' := by
  unfold Reports at hp ⊢
  cases ha : p c with
  | ok a d =>
    rw [ha] at hp
    exact h a d hp
  | error e d =>
    rw [ha] at hp
    exact hp

/-- A branch reports what its two sides report. -/
theorem ite {b : Prop} [Decidable b] {p' : Parser α} (hp : b → Reports source tokens c p P)
    (hp' : ¬b → Reports source tokens c p' P) :
    Reports source tokens c (if b then p else p') P := by
  split_ifs with h
  · exact hp h
  · exact hp' h

/-- The next token is the one at the cursor. -/
theorem peek {f : Token → Parser β} (h : Reports source tokens c (f c.peek) Q) :
    Reports source tokens c (Parser.peek >>= f) Q :=
  h

/-- The kind of the next token is seen before anything is read. -/
theorem kind {f : TokenKind → Parser β} (h : Reports source tokens c (f c.kind) Q) :
    Reports source tokens c (Parser.kind >>= f) Q :=
  h

/-- The kind of the token after the next is seen before anything is read. -/
theorem secondKind {f : TokenKind → Parser β} (h : Reports source tokens c (f c.secondKind) Q) :
    Reports source tokens c (Parser.secondKind >>= f) Q :=
  h

/-- Where the last token ended is known before anything is read. -/
theorem lastEnd {f : Nat → Parser β} (h : Reports source tokens c (f c.lastEnd) Q) :
    Reports source tokens c (Parser.lastEnd >>= f) Q :=
  h

/-- After a token is read, the rest starts behind it. -/
theorem advance {f : Token → Parser β} (h : Reports source tokens c.advance (f c.peek) Q) :
    Reports source tokens c (Parser.advance >>= f) Q :=
  h

/-- A failure at the next token. -/
theorem fail_peek (cause : SyntaxCause) (hc : c.Tidy source tokens) :
    Reports source tokens c (Parser.fail cause c.peek.span) P :=
  .fail cause hc hc.blames_peek

/-- An unexpected token is reported where it stands. -/
theorem unexpected (what : Expected) (hc : c.Tidy source tokens) :
    Reports source tokens c (Parser.unexpected what) P :=
  .peek (.fail_peek _ hc)

/-- A missing expression is reported at the token in its place. -/
theorem noExpression (hc : c.Tidy source tokens) :
    Reports source tokens c Parser.noExpression P :=
  .peek (.fail_peek _ hc)

/-- That the steps have run out is reported at the token where they did. -/
theorem unfinished (hc : c.Tidy source tokens) : Reports source tokens c Parser.unfinished P :=
  .peek (.fail_peek _ hc)

/-- The token that was expected ends where the last token does. -/
theorem expect (s : Symbol) (what : Expected) (hc : c.Tidy source tokens) :
    Reports source tokens c (Parser.expect s what) fun t d =>
      Opens source tokens c d ∧ t = c.peek ∧ t.span.stop = d.lastEnd := by
  refine .kind (.ite (fun hk => ?_) fun _ => .unexpected what hc)
  have hk : c.kind ≠ .eof := by simp [hk]
  exact ⟨hc.opens hk, rfl, Cursor.lastEnd_advance hk⟩

/-- A name that was expected is read. -/
theorem expectName (what : Expected) (hc : c.Tidy source tokens) :
    Reports source tokens c (Parser.expectName what) fun _ d => Opens source tokens c d := by
  refine .kind ?_
  split
  · next hk => exact .advance (.pure (hc.opens (by simp [hk])))
  · exact .unexpected what hc

/-- A symbol that may stand next is read, or nothing is. -/
theorem accept (s : Symbol) (hc : c.Tidy source tokens) :
    Reports source tokens c (Parser.accept s) fun _ d => Takes source tokens c d [] :=
  .kind (.ite (fun _ => .advance (.pure hc.takes)) fun _ => .pure (.refl hc))

/-- A list between commas, of which the first element is read already. -/
theorem commaRest {out : α → Outline} {a : α} {rest : Parser (List α)}
    (ha : Takes source tokens b c [out a])
    (hrest : ∀ {d : Cursor}, d.Tidy source tokens →
      Reports source tokens d rest fun as e => Takes source tokens d e (as.map out)) :
    Reports source tokens c (Parser.accept .comma >>= fun comma =>
      if comma = true then rest >>= fun as => Pure.pure (a :: as) else Pure.pure [a])
      fun as d => Takes source tokens b d (as.map out) := by
  refine .bind (.accept _ ha.tidy) fun comma d hcomma => .ite (fun _ => ?_) fun _ => ?_
  · exact .bind (hrest hcomma.tidy) fun as e has => .pure ((ha.skip hcomma).trans has)
  · exact .pure (ha.skip hcomma)

/-- An error that is recovered from takes its place behind those before it. What could not be read
leaves no outline. -/
theorem recovering {rank fuel n : Nat} {q : Parser α} {out : α → List Outline}
    (hc : c.Tidy source tokens) (hmoves : Moves rank fuel n c p q)
    (h : Reports source tokens c p fun a d => Lays source tokens c d (out a)) :
    Reports source tokens c (Parser.recovering p) fun r d =>
      Lays source tokens c d ((r.map out).getD []) := by
  unfold Reports at h ⊢
  unfold Moves at hmoves
  rw [Parser.recovering]
  cases hp : p c with
  | ok a d =>
    rw [hp] at h
    exact h
  | error e d =>
    rw [hp] at h hmoves
    have hleads := hmoves.1.trans (d.leads_recover e).1
    exact ⟨hc, h.1.recover h.2, hleads, (hleads.orderly hc.toOrderly).2, .nil⟩

end Reports

end Parser

end SmallCpp
