import SmallCpp.Proofs.Bare
import SmallCpp.Proofs.Parser.Accepts

/-!
# Two runs of a parser on the same kinds of tokens

Cursors are `Alike` if the tokens left are of the same kinds and the errors so far read the same;
the places of both may differ. `Parser.Agrees view p q` says that at cursors alike `p` and `q` have
the same outcome: both succeed with results of which the view is the same, or both fail with errors
that read the same, and the cursors after them are alike. The rules follow the ways in which parsers
are put together. A place may go into a result or an error, but nothing that is decided by looking
at a place has a rule.
-/

namespace SmallCpp

/-- What is shown of an error, its place apart. -/
def SyntaxError.bare (e : SyntaxError) : Diagnostic :=
  { e.diagnostic with span := .nowhere }

namespace Cursor

/-- The same kinds of tokens are left, and the errors so far read the same. -/
structure Alike (c c' : Cursor) : Prop where
  kinds_eq : c.kinds = c'.kinds
  errors_eq : c.recovered.map SyntaxError.bare = c'.recovered.map SyntaxError.bare

namespace Alike

variable {c c' : Cursor}

/-- The next token is of one kind. -/
theorem kind_eq (h : c.Alike c') : c.kind = c'.kind := by
  rw [Cursor.kind_eq, Cursor.kind_eq, h.kinds_eq]

/-- The token after the next is of one kind. -/
theorem secondKind_eq (h : c.Alike c') : c.secondKind = c'.secondKind := by
  rw [Cursor.secondKind_eq, Cursor.secondKind_eq, h.kinds_eq]

/-- After a token both have the same kinds left. -/
theorem advance (h : c.Alike c') : c.advance.Alike c'.advance := by
  obtain ⟨hkinds, herrors⟩ := h
  refine ⟨?_, by rwa [recovered_advance, recovered_advance]⟩
  rcases c with ⟨_ | ⟨t, ts⟩, stop, es⟩ <;> rcases c' with ⟨_ | ⟨t', ts'⟩, stop', es'⟩
  · exact hkinds
  · cases hkinds
  · cases hkinds
  · obtain ⟨ht, hts⟩ : t.kind = t'.kind ∧ ts.map Token.kind = ts'.map Token.kind :=
      List.cons.inj hkinds
    rw [Cursor.advance, Cursor.advance]
    dsimp only
    rw [ht]
    split_ifs
    · exact hkinds
    · exact hts

/-- Which tokens are passed over after an error is decided by their kinds. -/
theorem kinds_skipped {ts ts' : List Token} (h : ts.map Token.kind = ts'.map Token.kind)
    (stop stop' : Nat) :
    (skipped ts stop).1.map Token.kind = (skipped ts' stop').1.map Token.kind := by
  induction ts generalizing ts' stop stop' with
  | nil =>
    obtain rfl := List.map_eq_nil_iff.mp h.symm
    rfl
  | cons t ts ih =>
    cases ts' with
    | nil => cases h
    | cons t' ts' =>
      obtain ⟨ht, hts⟩ := List.cons.inj h
      rw [skipped, skipped, ht]
      split
      · exact h
      · exact hts
      · exact hts
      · exact ih hts _ _

/-- Errors that say the same are recorded on both sides. -/
theorem recover (h : c.Alike c') {e e' : SyntaxError} (he : e.bare = e'.bare) :
    (c.recover e).Alike (c'.recover e') := by
  refine ⟨kinds_skipped h.kinds_eq _ _, ?_⟩
  change (c.recovered ++ [e]).map _ = (c'.recovered ++ [e']).map _
  rw [List.map_append, List.map_append, h.errors_eq, List.map_singleton, List.map_singleton, he]

end Alike

end Cursor

namespace Parser

variable {α β γ δ : Type}

/-- Both runs succeed with the same view of their results, or both fail with errors that read the
same; and the cursors after them are alike. -/
inductive SameOutcome (view : α → γ) :
    EStateM.Result SyntaxError Cursor α → EStateM.Result SyntaxError Cursor α → Prop
  | ok {a a' : α} {d d' : Cursor} (ha : view a = view a') (hd : d.Alike d') :
    SameOutcome view (.ok a d) (.ok a' d')
  | error {e e' : SyntaxError} {d d' : Cursor} (he : e.bare = e'.bare) (hd : d.Alike d') :
    SameOutcome view (.error e d) (.error e' d')

/-- At cursors alike the parsers have the same outcome. -/
def Agrees (view : α → γ) (p q : Parser α) : Prop :=
  ∀ c c', c.Alike c' → SameOutcome view (p c) (q c')

namespace Agrees

variable {view : α → γ} {view' : β → δ} {p q : Parser α} {f g : α → Parser β}

/-- Results that look the same agree. -/
theorem pure {a a' : α} (h : view a = view a') : Agrees view (pure a) (pure a') :=
  fun _ _ hc => .ok h hc

/-- Errors of causes that read the same. -/
theorem fail_of {cause cause' : SyntaxCause} (hmessage : cause.message = cause'.message)
    (hlabel : cause.label = cause'.label) (hhelp : cause.help = cause'.help) (span span' : Span) :
    Agrees view (Parser.fail cause span) (Parser.fail cause' span') := by
  refine fun c c' hc => .error ?_ hc
  rw [SyntaxError.bare, SyntaxError.bare, SyntaxError.diagnostic, SyntaxError.diagnostic, hmessage,
    hlabel, hhelp]

/-- Errors with the same cause agree, wherever they are. -/
theorem fail (cause : SyntaxCause) (span span' : Span) :
    Agrees view (Parser.fail cause span) (Parser.fail cause span') :=
  .fail_of rfl rfl rfl span span'

/-- One parser after another: the second gets results of the same view. -/
theorem bind (hp : Agrees view p q)
    (hf : ∀ a a', view a = view a' → Agrees view' (f a) (g a')) :
    Agrees view' (p >>= f) (q >>= g) := by
  intro c c' hc
  have hfirst := hp c c' hc
  rw [EStateM.bind_apply, EStateM.bind_apply]
  generalize p c = r at hfirst
  generalize q c' = r' at hfirst
  cases hfirst with
  | ok ha hd => exact hf _ _ ha _ _ hd
  | error he hd => exact .error he hd

/-- The second parser gets the same result in both runs. -/
theorem bind_same (hp : Agrees id p q) (hf : ∀ a, Agrees view' (f a) (g a)) :
    Agrees view' (p >>= f) (q >>= g) :=
  hp.bind fun a a' ha => (show a = a' from ha) ▸ hf a

/-- A branch on something that both parsers know. -/
theorem ite {b : Prop} [Decidable b] {p' q' : Parser α} (h : Agrees view p q)
    (h' : Agrees view p' q') : Agrees view (if b then p else p') (if b then q else q') := by
  split_ifs
  · exact h
  · exact h'

/-- The next token is seen as its kind. -/
theorem peek : Agrees Token.kind Parser.peek Parser.peek :=
  fun _ _ hc => .ok hc.kind_eq hc

/-- The kind of the next token is the same. -/
theorem kind : Agrees id Parser.kind Parser.kind :=
  fun _ _ hc => .ok hc.kind_eq hc

/-- The kind of the token after the next is the same. -/
theorem secondKind : Agrees id Parser.secondKind Parser.secondKind :=
  fun _ _ hc => .ok hc.secondKind_eq hc

/-- Where the last token ends is a place, of which nothing is known. -/
theorem lastEnd : Agrees (fun _ => ()) Parser.lastEnd Parser.lastEnd :=
  fun _ _ hc => .ok rfl hc

/-- A token that is read is seen as its kind. -/
theorem advance : Agrees Token.kind Parser.advance Parser.advance :=
  fun _ _ hc => .ok hc.kind_eq hc.advance

/-- What was expected does not depend on where it was. -/
theorem unexpected (what : Expected) :
    Agrees view (Parser.unexpected what : Parser α) (Parser.unexpected what) :=
  .bind .peek fun _ _ ht => ht ▸ .fail _ _ _

/-- That an expression is missing does not depend on where it was. -/
theorem noExpression : Agrees view (Parser.noExpression : Parser α) Parser.noExpression :=
  .bind .peek fun _ _ ht => ht ▸ .fail _ _ _

/-- That the steps have run out does not depend on where they did. -/
theorem unfinished : Agrees view (Parser.unfinished : Parser α) Parser.unfinished :=
  .bind .peek fun _ _ _ => .fail _ _ _

/-- A symbol that may stand next is read on both sides or on neither. -/
theorem accept (s : Symbol) : Agrees id (Parser.accept s) (Parser.accept s) :=
  .bind_same .kind fun _ => .ite (.bind .advance fun _ _ _ => .pure rfl) (.pure rfl)

/-- A symbol that is asked for. -/
theorem expect (s : Symbol) (what : Expected) :
    Agrees Token.kind (Parser.expect s what) (Parser.expect s what) :=
  .bind_same .kind fun _ => .ite .advance (.unexpected what)

/-- A name that is asked for is the same, as it is part of the kind. -/
theorem expectName (what : Expected) :
    Agrees id (Parser.expectName what) (Parser.expectName what) := by
  refine .bind_same .kind fun k => ?_
  split
  · exact .bind .advance fun _ _ _ => .pure rfl
  · exact .unexpected what

/-- A list between commas, of which the first element is read already. -/
theorem commaRest {a a' : α} {rest : Parser (List α)} (ha : view a = view a')
    (hrest : Agrees (List.map view) rest rest) :
    Agrees (List.map view)
      (Parser.accept .comma >>= fun comma =>
        if comma = true then rest >>= fun as => Pure.pure (a :: as) else Pure.pure [a])
      (Parser.accept .comma >>= fun comma =>
        if comma = true then rest >>= fun as => Pure.pure (a' :: as) else Pure.pure [a']) := by
  refine .bind_same (.accept _) fun comma => .ite ?_ (.pure ?_)
  · refine .bind hrest fun as as' has => .pure ?_
    rw [List.map_cons, List.map_cons, ha, has]
  · rw [List.map_singleton, List.map_singleton, ha]

/-- An error in both runs is kept in both. -/
theorem recovering (h : Agrees view p q) :
    Agrees (Option.map view) (Parser.recovering p) (Parser.recovering q) := by
  intro c c' hc
  have hsame := h c c' hc
  rw [Parser.recovering, Parser.recovering]
  generalize p c = r at hsame
  generalize q c' = r' at hsame
  cases hsame with
  | ok ha hd => exact .ok (congrArg some ha) hd
  | error he hd => exact .ok rfl (hd.recover he)

end Agrees

end Parser

end SmallCpp
