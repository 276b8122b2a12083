import SmallCpp.Proofs.Parser.Ensures

/-!
# What a parser gives if nothing had to be recovered from

Reading goes on after an error, so the result of a parser may lack parts of what was read.
`Parser.Gives S c p Q` speaks only of successes at whose end no error has been recorded: then none
had been recorded before, and if all the kinds that were still to be read satisfy `S`, so do those
that are left, and the result satisfies `Q`.
-/

namespace SmallCpp

/-- What is left after a token was left before it. -/
theorem Cursor.mem_kinds_of_advance {c : Cursor} {k : TokenKind} (h : k ∈ c.advance.kinds) :
    k ∈ c.kinds := by
  rcases c with ⟨_ | ⟨t, ts⟩, stop, es⟩
  · exact h
  · dsimp only [Cursor.advance] at h
    split_ifs at h
    · exact h
    · exact List.mem_cons_of_mem _ h

namespace Parser

variable {α β : Type} {S : TokenKind → Prop} {c : Cursor}

/-- A success of the parser after which no error is recorded. -/
def Gives (S : TokenKind → Prop) (c : Cursor) (p : Parser α) (Q : α → Cursor → Prop) : Prop :=
  ∀ a d, p c = .ok a d → d.recovered = [] → c.recovered = [] ∧
    ((∀ k ∈ c.kinds, S k) → (∀ k ∈ d.kinds, S k) ∧ Q a d)

namespace Gives

variable {p : Parser α} {f : α → Parser β} {P : α → Cursor → Prop} {Q : β → Cursor → Prop}

/-- A result is reached with what is left. -/
theorem pure {a : α} (h : P a c) : Gives S c (pure a) P := by
  rintro _ _ ⟨⟩ hrec
  exact ⟨hrec, fun hS => ⟨hS, h⟩⟩

/-- Of a failure nothing is asked. -/
theorem fail (cause : SyntaxCause) (span : Span) : Gives S c (Parser.fail cause span) P :=
  nofun

/-- One parser after another. What the first gives is known of the result only at the end, since
only then it is known that no error was recorded. -/
theorem bind (hp : Gives S c p P) (hf : ∀ a d, Gives S d (f a) fun b d' => P a d → Q b d') :
    Gives S c (p >>= f) Q := by
  intro b d' h hrec
  rw [EStateM.bind_apply] at h
  cases ha : p c with
  | ok a d =>
    rw [ha] at h
    obtain ⟨hrecd, hsecond⟩ := hf a d b d' h hrec
    obtain ⟨hrecc, hfirst⟩ := hp a d ha hrecd
    refine ⟨hrecc, fun hS => ?_⟩
    obtain ⟨hSd, hPa⟩ := hfirst hS
    obtain ⟨hSd', hQ⟩ := hsecond hSd
    exact ⟨hSd', hQ hPa⟩
  | error e d =>
    rw [ha] at h
    cases h

/-- What is given may be weakened. -/
theorem imp {P' : α → Cursor → Prop} (hp : Gives S c p P) (h : ∀ a d, P a d → P' a d) :
    Gives S c p P' := by
  intro a d ha hrec
  obtain ⟨hrecc, hgives⟩ := hp a d ha hrec
  exact ⟨hrecc, fun hS => ⟨(hgives hS).1, h a d (hgives hS).2⟩⟩

/-- A branch gives what both its sides do. -/
theorem ite {b : Prop} [Decidable b] {p' : Parser α} (hp : b → Gives S c p P)
    (hp' : ¬b → Gives S c p' P) : Gives S c (if b then p else p') P := by
  split_ifs with h
  · exact hp h
  · exact hp' h

/-- The next token is the one at the cursor. -/
theorem peek {f : Token → Parser β} (h : Gives S c (f c.peek) Q) :
    Gives S c (Parser.peek >>= f) Q :=
  h

/-- The kind of the next token is seen before anything is read. -/
theorem kind {f : TokenKind → Parser β} (h : Gives S c (f c.kind) Q) :
    Gives S c (Parser.kind >>= f) Q :=
  h

/-- The kind of the token after the next is seen before anything is read. -/
theorem secondKind {f : TokenKind → Parser β} (h : Gives S c (f c.secondKind) Q) :
    Gives S c (Parser.secondKind >>= f) Q :=
  h

/-- Where the last token ended is known before anything is read. -/
theorem lastEnd {f : Nat → Parser β} (h : Gives S c (f c.lastEnd) Q) :
    Gives S c (Parser.lastEnd >>= f) Q :=
  h

/-- After a token is read, the rest starts behind it. -/
theorem advance {f : Token → Parser β} (h : Gives S c.advance (f c.peek) Q) :
    Gives S c (Parser.advance >>= f) Q := by
  intro b d hb hrec
  obtain ⟨hrecc, hgives⟩ := h b d hb hrec
  rw [c.recovered_advance] at hrecc
  exact ⟨hrecc, fun hS => hgives fun k hk => hS k (Cursor.mem_kinds_of_advance hk)⟩

/-- A parser that reads a word and records no error: all kinds in the word satisfy `S`. -/
theorem of_passes {P : List TokenKind → α → Prop}
    (h : Ensures c p fun a d => ∃ w, c.Passes w d ∧ P w a) :
    Gives S c p fun a _ => ∃ w, (∀ k ∈ w, S k) ∧ P w a := by
  intro a d ha hrec
  obtain ⟨w, ⟨hkinds, hrecovered⟩, hP⟩ := h a d ha
  refine ⟨hrecovered ▸ hrec, fun hS => ?_⟩
  rw [hkinds, List.forall_mem_append] at hS
  exact ⟨hS.2, w, hS.1, hP⟩

/-- Of steps that have run out nothing is asked. -/
theorem unfinished : Gives S c Parser.unfinished P :=
  .peek (.fail _ _)

/-- A symbol that is asked for records no error. -/
theorem expect (s : Symbol) (what : Expected) :
    Gives S c (Parser.expect s what) fun _ _ => True := by
  refine (of_passes (P := fun _ _ => True) ?_).imp fun _ _ _ => trivial
  exact (Ensures.expect s what).imp fun _ _ hpass => ⟨_, hpass, trivial⟩

/-- A name that is asked for comes from the tokens, so it satisfies what they do. -/
theorem expectName (what : Expected) :
    Gives S c (Parser.expectName what) fun id _ => S (.identifier id) := by
  refine (of_passes (P := fun w id => w = [.identifier id]) ?_).imp ?_
  · exact (Ensures.expectName what).imp fun _ _ hpass => ⟨_, hpass, rfl⟩
  · rintro id _ ⟨w, hw, rfl⟩
    exact hw _ List.mem_cons_self

/-- A symbol that is not accepted stays unread. -/
theorem accept (s : Symbol) :
    Gives S c (Parser.accept s) fun b d => b = false → d.kind ≠ .symbol s :=
  .kind (.ite (fun _ => .advance (.pure fun h => absurd h (by decide))) fun hk => .pure fun _ => hk)

/-- Where no error is recorded, nothing was recovered from, so there is a result. -/
theorem recovering (h : Gives S c p P) :
    Gives S c (Parser.recovering p) fun o d => ∃ a, o = some a ∧ P a d := by
  intro o d ho hrec
  rw [Parser.recovering] at ho
  cases hp : p c with
  | ok a d' =>
    rw [hp] at ho
    cases ho
    obtain ⟨hrecc, hgives⟩ := h a d hp hrec
    exact ⟨hrecc, fun hS => ⟨(hgives hS).1, a, rfl, (hgives hS).2⟩⟩
  | error e d' =>
    -- the error is recorded
    rw [hp] at ho
    cases ho
    exact absurd hrec (List.append_ne_nil_of_right_ne_nil _ (List.cons_ne_nil e []))

end Gives

end Parser

end SmallCpp
