import Mathlib.Data.List.Basic
import SmallCpp.Program.Parser
import SmallCpp.Proofs.Except

/-!
# What parsers accept

`Parser.Accepts p w rest Q` says that `p`, whenever the token kinds `w` come next and `rest` after
them, succeeds, reads exactly `w`, and has a result with the property `Q`. The rules here follow the
ways in which parsers are put together, with the tokens that each part reads split off `w`.
-/

namespace SmallCpp

namespace Cursor

/-- The kinds of the tokens still to be read. -/
def kinds (c : Cursor) : List TokenKind :=
  c.rest.map Token.kind

/-- The kind of the next token; behind the last one stands the end of file. -/
theorem kind_eq (c : Cursor) : c.kind = c.kinds.headD .eof := by
  rcases c with ⟨_ | ⟨t, ts⟩, stop, es⟩ <;> rfl

/-- The kind of the token after the next. -/
theorem secondKind_eq (c : Cursor) : c.secondKind = c.kinds.tail.headD .eof := by
  rcases c with ⟨_ | ⟨t, _ | ⟨u, ts⟩⟩, stop, es⟩ <;> rfl

/-- Going on takes one kind off the front. -/
theorem kinds_advance {c : Cursor} {k : TokenKind} {ks : List TokenKind} (h : c.kinds = k :: ks)
    (hk : k ≠ .eof) : c.advance.kinds = ks := by
  rcases c with ⟨_ | ⟨t, ts⟩, stop, es⟩
  · cases h
  · obtain ⟨rfl, hks⟩ := List.cons_eq_cons.mp h
    rw [← hks, advance]
    dsimp only
    rw [if_neg hk]
    rfl

/-- Going on recovers from nothing. -/
@[simp] theorem recovered_advance (c : Cursor) : c.advance.recovered = c.recovered := by
  rcases c with ⟨_ | ⟨t, ts⟩, stop, es⟩
  · rfl
  · dsimp only [advance]
    split_ifs <;> rfl

end Cursor

/-- Words with a comma between each and the next. -/
def separated (ws : List (List TokenKind)) : List TokenKind :=
  [TokenKind.symbol .comma].intercalate ws

/-- Nothing stands between no words. -/
@[simp] theorem separated_nil : separated [] = [] :=
  rfl

/-- A single word needs no comma. -/
@[simp] theorem separated_singleton (w : List TokenKind) : separated [w] = w :=
  List.intercalate_singleton

/-- Two words stand on the two sides of a comma. -/
theorem separated_cons_cons (w w' : List TokenKind) (ws : List (List TokenKind)) :
    separated (w :: w' :: ws) = w ++ .symbol .comma :: separated (w' :: ws) :=
  List.intercalate_cons_cons.trans (List.append_assoc ..)

/-- The word starts with a token of the given sort. -/
def Starts (p : TokenKind → Bool) (w : List TokenKind) : Prop :=
  ∃ k ks, w = k :: ks ∧ p k = true

namespace Starts

variable {p q : TokenKind → Bool} {w : List TokenKind}

/-- A longer word starts in the same way. -/
theorem append (h : Starts p w) (w' : List TokenKind) : Starts p (w ++ w') := by
  obtain ⟨k, ks, rfl, hk⟩ := h
  exact ⟨k, ks ++ w', rfl, hk⟩

/-- The sort of the first token may be widened. -/
theorem mono (h : Starts p w) (hpq : ∀ k, p k = true → q k = true) : Starts q w := by
  obtain ⟨k, ks, rfl, hk⟩ := h
  exact ⟨k, ks, rfl, hpq k hk⟩

/-- A word that starts is not empty. -/
theorem length_pos (h : Starts p w) : 0 < w.length := by
  obtain ⟨k, ks, rfl, -⟩ := h
  exact Nat.succ_pos _

/-- The first token, which `headD` finds whatever comes after the word. -/
theorem headD_append (h : Starts p w) (w' : List TokenKind) (k : TokenKind) :
    p ((w ++ w').headD k) = true := by
  obtain ⟨k', ks, rfl, hk⟩ := h
  exact hk

/-- A word does not start with a token of another sort, whatever follows. -/
theorem headD_ne (h : Starts p w) {k : TokenKind} (hk : p k = false) (w' : List TokenKind)
    (d : TokenKind) : (w ++ w').headD d ≠ k := by
  intro heq
  have := h.headD_append w' d
  rw [heq, hk] at this
  cases this

end Starts

/-- Words between commas start as the first of them does. -/
theorem starts_separated {p : TokenKind → Bool} {w : List TokenKind} (h : Starts p w)
    (ws : List (List TokenKind)) : Starts p (separated (w :: ws)) := by
  cases ws with
  | nil => rwa [separated_singleton]
  | cons w' ws =>
    rw [separated_cons_cons]
    exact h.append _

namespace Parser

variable {α β : Type}

/-- With the kinds `w` next and `rest` after them, the parser reads exactly `w` and has a result
with the property. -/
def Accepts (p : Parser α) (w rest : List TokenKind) (Q : α → Prop) : Prop :=
  ∀ c : Cursor, c.kinds = w ++ rest →
    ∃ a c', p c = .ok a c' ∧ c'.kinds = rest ∧ c'.recovered = c.recovered ∧ Q a

namespace Accepts

variable {p : Parser α} {f : α → Parser β} {w w' rest : List TokenKind} {k : TokenKind}
  {P : α → Prop} {Q : β → Prop}

/-- A result takes nothing. -/
theorem pure {a : α} (h : P a) : Accepts (pure a) [] rest P :=
  fun c hc => ⟨a, c, rfl, hc, rfl, h⟩

/-- One parser after another: the second reads what the first leaves. -/
theorem bind (hp : Accepts p w (w' ++ rest) P) (hf : ∀ a, P a → Accepts (f a) w' rest Q) :
    Accepts (p >>= f) (w ++ w') rest Q := by
  intro c hc
  rw [List.append_assoc] at hc
  obtain ⟨a, d, hpc, hd, hdr, ha⟩ := hp c hc
  obtain ⟨b, d', hfd, hd', hdr', hb⟩ := hf a ha d hd
  refine ⟨b, d', ?_, hd', hdr'.trans hdr, hb⟩
  rw [EStateM.bind_apply, hpc]
  exact hfd

/-- A first parser that reads one token. -/
theorem token (hp : Accepts p [k] (w ++ rest) P) (hf : ∀ a, P a → Accepts (f a) w rest Q) :
    Accepts (p >>= f) (k :: w) rest Q :=
  .bind hp hf

/-- A first parser that reads nothing. -/
theorem look (hp : Accepts p [] (w ++ rest) P) (hf : ∀ a, P a → Accepts (f a) w rest Q) :
    Accepts (p >>= f) w rest Q :=
  .bind hp hf

/-- A first parser that reads the whole word. -/
theorem whole (hp : Accepts p w rest P) (hf : ∀ a, P a → Accepts (f a) [] rest Q) :
    Accepts (p >>= f) w rest Q := by
  rw [← List.append_nil w]
  exact .bind hp hf

/-- What is known of the result may be weakened. -/
theorem imp {P' : α → Prop} (hp : Accepts p w rest P) (h : ∀ a, P a → P' a) :
    Accepts p w rest P' := by
  intro c hc
  obtain ⟨a, c', hpc, hc', hr, ha⟩ := hp c hc
  exact ⟨a, c', hpc, hc', hr, h a ha⟩

/-- Only what the parser does before the word matters. -/
theorem congr {p' : Parser α} (h : ∀ c : Cursor, c.kinds = w ++ rest → p c = p' c)
    (hp : Accepts p' w rest P) : Accepts p w rest P := by
  intro c hc
  rw [h c hc]
  exact hp c hc

/-- The next token is seen without being taken. -/
theorem peek : Accepts Parser.peek [] rest fun t => t.kind = rest.headD .eof :=
  fun c hc => ⟨c.peek, c, rfl, hc, rfl, by rw [← List.nil_append rest, ← hc]; exact c.kind_eq⟩

/-- The kind of the next token is seen without being taken. -/
theorem kind : Accepts Parser.kind [] rest (· = rest.headD .eof) :=
  fun c hc => ⟨c.kind, c, rfl, hc, rfl, by rw [← List.nil_append rest, ← hc]; exact c.kind_eq⟩

/-- The kind of the token after the next is seen without being taken. -/
theorem secondKind : Accepts Parser.secondKind [] rest (· = rest.tail.headD .eof) :=
  fun c hc =>
    ⟨c.secondKind, c, rfl, hc, rfl, by rw [← List.nil_append rest, ← hc]; exact c.secondKind_eq⟩

/-- The end of the last token is known without taking one. -/
theorem lastEnd : Accepts Parser.lastEnd [] rest fun _ => True :=
  fun c hc => ⟨c.lastEnd, c, rfl, hc, rfl, trivial⟩

/-- Going on takes the next token. -/
theorem advance (hk : k ≠ .eof := by simp) : Accepts Parser.advance [k] rest fun t => t.kind = k :=
  fun c hc => ⟨c.peek, c.advance, rfl, c.kinds_advance hc hk, c.recovered_advance,
    c.kind_eq.trans (by rw [hc]; rfl)⟩

/-- The next kind is at hand for the parser that comes after. -/
theorem onKind {f : TokenKind → Parser β} (hk : (w ++ rest).headD .eof = k)
    (h : Accepts (f k) w rest Q) : Accepts (Parser.kind >>= f) w rest Q :=
  .look .kind fun _ hk' => (hk'.trans hk) ▸ h

/-- A condition that holds chooses the first branch. -/
theorem pos {b : Prop} [Decidable b] {p' : Parser α} (hb : b) (h : Accepts p w rest P) :
    Accepts (if b then p else p') w rest P := by
  rwa [if_pos hb]

/-- A condition that does not hold chooses the second branch. -/
theorem neg {b : Prop} [Decidable b] {p' : Parser α} (hb : ¬b) (h : Accepts p' w rest P) :
    Accepts (if b then p else p') w rest P := by
  rwa [if_neg hb]

/-- A symbol that stands there is accepted. -/
theorem accept (s : Symbol) : Accepts (Parser.accept s) [.symbol s] rest (· = true) :=
  .onKind rfl (.pos rfl (.token .advance fun _ _ => .pure rfl))

/-- A symbol that does not come next is left alone. -/
theorem decline (s : Symbol) (h : rest.headD .eof ≠ .symbol s) :
    Accepts (Parser.accept s) [] rest (· = false) :=
  .onKind rfl (.neg h (.pure rfl))

/-- A symbol that is expected and stands there is taken. -/
theorem expect (s : Symbol) (what : Expected) :
    Accepts (Parser.expect s what) [.symbol s] rest fun _ => True :=
  .onKind rfl (.pos rfl (.imp .advance fun _ _ => trivial))

/-- A name that is expected and stands there is taken. -/
theorem expectName (id : String) (what : Expected) :
    Accepts (Parser.expectName what) [.identifier id] rest (· = id) :=
  .onKind rfl (.token .advance fun _ _ => .pure rfl)

/-- A parser that succeeds needs no recovery. -/
theorem recovering (h : Accepts p w rest P) :
    Accepts (Parser.recovering p) w rest fun o => ∃ a, o = some a ∧ P a := by
  intro c hc
  obtain ⟨a, c', hpc, hc', hr, ha⟩ := h c hc
  exact ⟨some a, c', by rw [Parser.recovering, hpc], hc', hr, a, rfl, ha⟩

/-- A parser of one or more parts between commas reads the words of the parts with commas between
them. `p` is what the first token of a part satisfies, `F` what the token after a part has to
satisfy; a part takes `need` steps beyond those in proportion to its length. -/
theorem separated {γ : Type} {view : α → β} {one : Nat → Parser α} {many : Nat → Parser (List α)}
    (p : TokenKind → Bool) (F : TokenKind → Prop) (need : Nat) {word : γ → List TokenKind}
    {image : γ → β} {xs : List γ}
    (hmany : ∀ fuel (c : Cursor), p c.kind = true → many (fuel + 1) c = (do
      let a ← one fuel
      if ← Parser.accept .comma then
        return a :: (← many fuel)
      else
        return [a] : Parser (List α)) c)
    (hcomma : F (.symbol .comma)) (hend : F (rest.headD .eof))
    (hstop : rest.headD .eof ≠ .symbol .comma) (hne : xs ≠ [])
    (hone : ∀ x ∈ xs, Starts p (word x) ∧
      ∀ fuel rest, 8 * (word x).length + need ≤ fuel → F (rest.headD .eof) →
        Accepts (one fuel) (word x) rest (view · = image x)) :
    ∀ fuel, 8 * (SmallCpp.separated (xs.map word)).length + need < fuel →
      Accepts (many fuel) (SmallCpp.separated (xs.map word)) rest
        (·.map view = xs.map image) := by
  induction xs with
  | nil => exact absurd rfl hne
  | cons x xs ih =>
    intro fuel hfuel
    obtain ⟨fuel, rfl⟩ : ∃ f, fuel = f + 1 := ⟨fuel - 1, by omega⟩
    obtain ⟨hstarts, hread⟩ := hone x List.mem_cons_self
    have hfirst := hread fuel
    refine .congr (fun c hc => hmany fuel c ?_) ?_
    · rw [c.kind_eq, hc]
      exact (starts_separated hstarts _).headD_append _ _
    -- After the last part no comma stands; after any other one does, and the rest follows.
    cases xs with
    | nil =>
      rw [List.map_singleton, separated_singleton] at hfuel ⊢
      refine .whole (hfirst _ (by omega) hend) fun a ha => ?_
      refine .look (.decline .comma hstop) fun b hb => .neg (by simp [hb]) (.pure ?_)
      exact congrArg (fun b => [b]) ha
    | cons y xs =>
      rw [List.map_cons, List.map_cons, separated_cons_cons] at hfuel ⊢
      rw [List.length_append, List.length_cons] at hfuel
      refine .bind (hfirst _ (by omega) hcomma) fun a ha => ?_
      refine .token (.accept .comma) fun b hb => .pos hb ?_
      have hrest := ih (List.cons_ne_nil _ _)
        (fun x hx => hone x (List.mem_cons_of_mem _ hx)) fuel
      rw [← List.map_cons (f := word)]
      refine .whole (hrest (by rw [List.map_cons]; omega)) fun as has => .pure ?_
      exact congrArg₂ List.cons ha has

end Accepts

end Parser

end SmallCpp
