import SmallCpp.Proofs.Parser.Accepts

/-!
# How far a parser moves

`Cursor.Leads n c d` says that `d` is reached from `c` by reading tokens, at least `n` of them and
no end of file. `Parser.Moves rank fuel n c p q` says of both outcomes of `p` at `c` that they only
move on, and of a success that it reads at least `n` tokens; and if `fuel` is enough for `rank`
steps and six more for each token that is left, that no error in it comes from the bound on the
steps, and that `q`, which is `p` with more steps, has the same outcome. The rules follow the ways
in which parsers are put together: each token that was read adds six to the rank of what comes after
it, and a call with one step less has a lower rank.
-/

namespace SmallCpp

/-- Where the last of the tokens ends; `stop` if there is none. -/
def lastStop (stop : Nat) (tokens : List Token) : Nat :=
  tokens.foldl (fun _ t => t.span.stop) stop

namespace Cursor

/-- `d` is reached from `c` by reading at least `n` tokens, none of which is the end of file. -/
def Leads (n : Nat) (c d : Cursor) : Prop :=
  ∃ read, c.rest = read ++ d.rest ∧ d.lastEnd = lastStop c.lastEnd read ∧
    (∀ t ∈ read, t.kind ≠ .eof) ∧ n ≤ read.length

namespace Leads

variable {m n : Nat} {c d d' : Cursor}

/-- Without reading anything the cursor stays. -/
theorem refl (c : Cursor) : c.Leads 0 c :=
  ⟨[], rfl, rfl, List.forall_mem_nil _, Nat.le_refl 0⟩

/-- What is read in two parts adds up. -/
theorem trans (h : c.Leads m d) (h' : d.Leads n d') : c.Leads (m + n) d' := by
  obtain ⟨read, hrest, hstop, hkinds, hm⟩ := h
  obtain ⟨read', hrest', hstop', hkinds', hn⟩ := h'
  refine ⟨read ++ read', ?_, ?_, List.forall_mem_append.mpr ⟨hkinds, hkinds'⟩, ?_⟩
  · rw [hrest, hrest', List.append_assoc]
  · rw [hstop', hstop, lastStop, lastStop, lastStop, List.foldl_append]
  · rw [List.length_append]
    omega

/-- At least `n` tokens are at least any smaller number of them. -/
theorem mono (h : c.Leads n d) (hle : m ≤ n) : c.Leads m d := by
  obtain ⟨read, hrest, hstop, hkinds, hn⟩ := h
  exact ⟨read, hrest, hstop, hkinds, Nat.le_trans hle hn⟩

/-- Each token that was read is one less to read. -/
theorem length_le (h : c.Leads n d) : d.rest.length + n ≤ c.rest.length := by
  obtain ⟨read, hrest, -, -, hn⟩ := h
  rw [hrest, List.length_append]
  omega

/-- The tokens that are left are the last of those there were. -/
theorem suffix (h : c.Leads n d) : d.rest <:+ c.rest := by
  obtain ⟨read, hrest, -⟩ := h
  exact ⟨read, hrest.symm⟩

/-- A token other than the end of file is read. -/
theorem advance (hk : c.kind ≠ .eof) : c.Leads 1 c.advance := by
  rcases c with ⟨_ | ⟨t, ts⟩, stop, es⟩
  · exact absurd rfl hk
  · have ht : t.kind ≠ .eof := hk
    refine ⟨[t], ?_, ?_, List.forall_mem_singleton.mpr ht, Nat.le_refl 1⟩
    · rw [Cursor.advance]
      dsimp only
      rw [if_neg ht]
      rfl
    · rw [Cursor.advance]
      dsimp only
      rw [if_neg ht]
      rfl

/-- The next token, whatever it is; the end of file stays. -/
theorem advance_any (c : Cursor) : c.Leads 0 c.advance := by
  by_cases hk : c.kind = .eof
  · have hstay : c.advance = c := by
      rcases c with ⟨_ | ⟨t, ts⟩, stop, es⟩
      · rfl
      · exact if_pos hk
    rw [hstay]
    exact .refl c
  · exact (advance hk).mono (Nat.zero_le 1)

/-- A cursor with another kind in front is behind at least one token. -/
theorem of_kind_ne (h : c.Leads n d) (hk : c.kind ≠ d.kind) : c.Leads 1 d := by
  obtain ⟨read, hrest, hstop, hkinds, -⟩ := h
  refine ⟨read, hrest, hstop, hkinds, ?_⟩
  cases read with
  | nil =>
    have hkinds : c.kinds = d.kinds := congrArg (List.map Token.kind) hrest
    rw [kind_eq, kind_eq, hkinds] at hk
    exact absurd rfl hk
  | cons t read => exact Nat.le_add_left 1 _

end Leads

/-- Tokens are skipped in order, and the first is, unless it is the end of file. -/
theorem exists_skipped (ts : List Token) (stop : Nat) : ∃ read, ts = read ++ (skipped ts stop).1 ∧
    (skipped ts stop).2 = lastStop stop read ∧ (∀ t ∈ read, t.kind ≠ .eof) ∧
    ∀ t ∈ ts.head?, t.kind ≠ .eof → read ≠ [] := by
  induction ts, stop using skipped.induct with
  | case1 stop => exact ⟨[], rfl, rfl, List.forall_mem_nil _, fun t ht => absurd ht (by simp)⟩
  | case2 t ts stop hk =>
    rw [skipped, hk]
    refine ⟨[], rfl, rfl, List.forall_mem_nil _, ?_⟩
    rintro _ ⟨⟩ hne
    exact absurd hk hne
  | case3 t ts stop hk =>
    -- A semicolon or a closing brace is the last token that is skipped.
    have hne : t.kind ≠ .eof := by simp [hk]
    rw [skipped, hk]
    exact ⟨[t], rfl, rfl, List.forall_mem_singleton.mpr hne, fun _ _ _ => List.cons_ne_nil _ _⟩
  | case4 t ts stop hk =>
    have hne : t.kind ≠ .eof := by simp [hk]
    rw [skipped, hk]
    exact ⟨[t], rfl, rfl, List.forall_mem_singleton.mpr hne, fun _ _ _ => List.cons_ne_nil _ _⟩
  | case5 t ts stop heof hsemi hbrace ih =>
    obtain ⟨read, hrest, hstop, hkinds, -⟩ := ih
    have hskip : skipped (t :: ts) stop = skipped ts t.span.stop := by
      rw [skipped]
      split
      · next hk => exact absurd hk heof
      · next hk => exact absurd hk hsemi
      · next hk => exact absurd hk hbrace
      · rfl
    rw [hskip]
    refine ⟨t :: read, congrArg (t :: ·) hrest, hstop, ?_, fun _ _ _ => List.cons_ne_nil _ _⟩
    exact List.forall_mem_cons.mpr ⟨heof, hkinds⟩

/-- Recovering passes over tokens, and over one at least unless the end of file comes next. -/
theorem leads_recover (c : Cursor) (e : SyntaxError) : c.Leads 0 (c.recover e) ∧
    (c.kind ≠ .eof → c.Leads 1 (c.recover e)) := by
  obtain ⟨read, hrest, hstop, hkinds, hfirst⟩ := exists_skipped c.rest c.lastEnd
  refine ⟨⟨read, hrest, hstop, hkinds, Nat.zero_le _⟩, fun hk => ⟨read, hrest, hstop, hkinds, ?_⟩⟩
  rcases c with ⟨_ | ⟨t, ts⟩, stop, es⟩
  · exact absurd rfl hk
  · exact List.length_pos_iff.mpr (hfirst t rfl hk)

end Cursor

/-- No error comes from the bound on the steps. -/
def Finished (errors : List SyntaxError) : Prop :=
  ∀ e ∈ errors, e.cause ≠ .unfinished

namespace Parser

variable {α β : Type} {rank rank' spare fuel j m n : Nat} {c : Cursor}

/-- Both outcomes of the parser `p` only move on, and a success reads at least `n` tokens. If the
fuel is enough, `q` has the same outcome, and no error comes from the bound on the steps, unless one
did before. -/
def Moves (rank fuel n : Nat) (c : Cursor) (p q : Parser α) : Prop :=
  match p c with
  | .ok a d => c.Leads n d ∧ (rank + 6 * c.rest.length ≤ fuel →
      q c = .ok a d ∧ (Finished c.recovered → Finished d.recovered))
  | .error e d => c.Leads 0 d ∧ (rank + 6 * c.rest.length ≤ fuel →
      q c = .error e d ∧ (Finished c.recovered → Finished (d.recovered ++ [e])))

/-- The symbol is read exactly if it comes next. -/
theorem accept_apply (s : Symbol) (c : Cursor) :
    accept s c = if c.kind = .symbol s then .ok true c.advance else .ok false c := by
  change (if c.kind = .symbol s then _ else _ : Parser Bool) c = _
  split_ifs <;> rfl

namespace Moves

variable {p q : Parser α} {f g : α → Parser β}

/-- How far a success has read. -/
theorem leads {a : α} {d : Cursor} (h : Moves rank fuel n c p q) (hp : p c = .ok a d) :
    c.Leads n d := by
  unfold Moves at h
  rw [hp] at h
  exact h.1

/-- A result moves nowhere and takes no steps. -/
theorem pure (a : α) : Moves rank fuel 0 c (pure a) (pure a) :=
  ⟨.refl c, fun _ => ⟨rfl, fun h => h⟩⟩

/-- Every error but the one about the bound may be given at once, whatever was to be read. -/
theorem fail {cause : SyntaxCause} (hcause : cause ≠ .unfinished) (span : Span) :
    Moves rank fuel n c (Parser.fail cause span : Parser α) (Parser.fail cause span) := by
  refine ⟨.refl c, fun _ => ⟨rfl, fun h => ?_⟩⟩
  exact List.forall_mem_append.mpr ⟨h, List.forall_mem_singleton.mpr hcause⟩

/-- The bound on the steps is used up only if it was not enough. -/
theorem unfinished : Moves (rank + 1) 0 n c (Parser.unfinished : Parser α) q := by
  refine ⟨.refl c, fun henough => ?_⟩
  omega

/-- One parser after another: the second has to read what the first may have left to read, and may
make the steps of the tokens that the first has read. -/
theorem bind (hp : Moves rank fuel j c p q)
    (hf : ∀ a d, Moves (rank + 6 * j) fuel (n - j) d (f a) (g a)) :
    Moves rank fuel n c (p >>= f) (q >>= g) := by
  unfold Moves at hp ⊢
  rw [EStateM.bind_apply]
  cases ha : p c with
  | error e d =>
    rw [ha] at hp
    obtain ⟨hleads, hsame⟩ := hp
    refine ⟨hleads, fun henough => ⟨?_, (hsame henough).2⟩⟩
    rw [EStateM.bind_apply, (hsame henough).1]
  | ok a d =>
    rw [ha] at hp
    obtain ⟨hleads, hsame⟩ := hp
    -- the `j` tokens that were read pay for the higher rank
    have hlength := hleads.length_le
    have hsecond := hf a d
    unfold Moves at hsecond
    dsimp only
    cases hb : f a d with
    | ok b d' =>
      rw [hb] at hsecond
      refine ⟨(hleads.trans hsecond.1).mono (by omega), fun henough => ?_⟩
      obtain ⟨hfirst, hbefore⟩ := hsame henough
      obtain ⟨hnext, hafter⟩ := hsecond.2 (by omega)
      refine ⟨?_, fun h => hafter (hbefore h)⟩
      rw [EStateM.bind_apply, hfirst]
      exact hnext
    | error e d' =>
      rw [hb] at hsecond
      refine ⟨(hleads.trans hsecond.1).mono (Nat.zero_le _), fun henough => ?_⟩
      obtain ⟨hfirst, hbefore⟩ := hsame henough
      obtain ⟨hnext, hafter⟩ := hsecond.2 (by omega)
      refine ⟨?_, fun h => hafter (hbefore h)⟩
      rw [EStateM.bind_apply, hfirst]
      exact hnext

/-- A promise of more tokens, or of fewer steps. -/
theorem imp {fuel' : Nat} (h : Moves rank' fuel' m c p q) (hn : n ≤ m)
    (henough : rank + 6 * c.rest.length ≤ fuel → rank' + 6 * c.rest.length ≤ fuel') :
    Moves rank fuel n c p q := by
  unfold Moves at h ⊢
  cases ha : p c with
  | ok a d =>
    rw [ha] at h
    exact ⟨h.1.mono hn, fun hfuel => h.2 (henough hfuel)⟩
  | error e d =>
    rw [ha] at h
    exact ⟨h.1, fun hfuel => h.2 (henough hfuel)⟩

/-- A parser that makes do with fewer steps. -/
theorem of (h : Moves rank fuel n c p q) : Moves (spare + rank) fuel n c p q :=
  h.imp (Nat.le_refl n) fun henough => by omega

/-- A parser that is called with one step less. -/
theorem call (h : Moves rank fuel n c p q) : Moves (spare + (rank + 1)) (fuel + 1) n c p q :=
  h.imp (Nat.le_refl n) fun henough => by omega

/-- A parser of which it does not matter how much it reads. -/
theorem any (h : Moves rank fuel n c p q) : Moves rank fuel 0 c p q :=
  h.imp (Nat.zero_le n) fun henough => henough

/-- A parser without a promise about its steps. -/
theorem spent (h : Moves rank' fuel n c p q) : Moves (rank + 1) 0 n c p q :=
  h.imp (Nat.le_refl n) fun henough => by omega

/-- A branch on something that both parsers know. -/
theorem ite {b : Prop} [Decidable b] {p' q' : Parser α} (hp : b → Moves rank fuel n c p q)
    (hp' : ¬b → Moves rank fuel n c p' q') :
    Moves rank fuel n c (if b then p else p') (if b then q else q') := by
  split_ifs with h
  · exact hp h
  · exact hp' h

/-- The next token is the same in both runs. -/
theorem peek {f g : Token → Parser β} (h : Moves rank fuel n c (f c.peek) (g c.peek)) :
    Moves rank fuel n c (Parser.peek >>= f) (Parser.peek >>= g) :=
  h

/-- The kind of the next token is the same in both runs. -/
theorem kind {f g : TokenKind → Parser β} (h : Moves rank fuel n c (f c.kind) (g c.kind)) :
    Moves rank fuel n c (Parser.kind >>= f) (Parser.kind >>= g) :=
  h

/-- The kind of the token after the next is the same in both runs. -/
theorem secondKind {f g : TokenKind → Parser β}
    (h : Moves rank fuel n c (f c.secondKind) (g c.secondKind)) :
    Moves rank fuel n c (Parser.secondKind >>= f) (Parser.secondKind >>= g) :=
  h

/-- Where the last token ended is the same in both runs. -/
theorem lastEnd {f g : Nat → Parser β} (h : Moves rank fuel n c (f c.lastEnd) (g c.lastEnd)) :
    Moves rank fuel n c (Parser.lastEnd >>= f) (Parser.lastEnd >>= g) :=
  h

/-- A token is read if the end of file does not come next. -/
theorem advance (hk : c.kind ≠ .eof) : Moves rank fuel 1 c Parser.advance Parser.advance :=
  ⟨.advance hk, fun _ => ⟨rfl, fun h => by rwa [Cursor.recovered_advance]⟩⟩

/-- Where nothing is known of the next token, nothing is sure to be read. -/
theorem advance_any : Moves rank fuel 0 c Parser.advance Parser.advance :=
  ⟨.advance_any c, fun _ => ⟨rfl, fun h => by rwa [Cursor.recovered_advance]⟩⟩

/-- An error about an unexpected token. -/
theorem unexpected (what : Expected) :
    Moves rank fuel n c (Parser.unexpected what : Parser α) (Parser.unexpected what) :=
  .peek (.fail (by simp) _)

/-- An error about a missing expression. -/
theorem noExpression :
    Moves rank fuel n c (Parser.noExpression : Parser α) Parser.noExpression :=
  .peek (.fail (by simp) _)

/-- A symbol that is asked for is read if the parser succeeds. -/
theorem expect (s : Symbol) (what : Expected) :
    Moves rank fuel 1 c (Parser.expect s what) (Parser.expect s what) :=
  .kind (.ite (fun hk => .advance (by simp [hk])) fun _ => .unexpected what)

/-- A name that is asked for is read if the parser succeeds. -/
theorem expectName (what : Expected) :
    Moves rank fuel 1 c (Parser.expectName what) (Parser.expectName what) := by
  refine .kind ?_
  split
  · next hk => exact .bind (.advance (by simp [hk])) fun _ _ => .pure _
  · exact .unexpected what

/-- A symbol that may stand next need not be read. -/
theorem accept_any (s : Symbol) : Moves rank fuel 0 c (Parser.accept s) (Parser.accept s) :=
  .kind (.ite (fun _ => .bind .advance_any fun _ _ => .pure _) fun _ => .pure _)

/-- A symbol that is read if it is next. -/
theorem accept {s : Symbol} {p p' q q' : Parser α}
    (hp : ∀ d, Moves (rank + 6 * 1) fuel (n - 1) d p q) (hp' : Moves rank fuel n c p' q') :
    Moves rank fuel n c (Parser.accept s >>= fun b => if b = true then p else p')
      (Parser.accept s >>= fun b => if b = true then q else q') := by
  by_cases hs : c.kind = .symbol s
  · have hread : Moves rank fuel n c (Parser.advance >>= fun _ => p)
        (Parser.advance >>= fun _ => q) :=
      .bind (.advance (by simp [hs])) fun _ d => hp d
    unfold Moves at hread ⊢
    rw [EStateM.bind_apply, EStateM.bind_apply, accept_apply, if_pos hs]
    exact hread
  · unfold Moves at hp' ⊢
    rw [EStateM.bind_apply, EStateM.bind_apply, accept_apply, if_neg hs]
    exact hp'

/-- An error is recorded, and reading goes on behind at least one token. -/
theorem recovering (h : Moves rank fuel 1 c p q) (hk : c.kind ≠ .eof) :
    Moves rank fuel 1 c (Parser.recovering p) (Parser.recovering q) := by
  unfold Moves at h ⊢
  rw [Parser.recovering, Parser.recovering]
  cases ha : p c with
  | ok a d =>
    rw [ha] at h
    refine ⟨h.1, fun henough => ⟨?_, (h.2 henough).2⟩⟩
    rw [(h.2 henough).1]
  | error e d =>
    rw [ha] at h
    obtain ⟨hleads, hsame⟩ := h
    obtain ⟨hany, hone⟩ := d.leads_recover e
    refine ⟨?_, fun henough => ⟨?_, (hsame henough).2⟩⟩
    · by_cases hd : d.kind = .eof
      · -- the end of file came next only here
        have hbehind := hleads.of_kind_ne (by rwa [hd])
        exact hbehind.trans hany
      · exact (hleads.trans (hone hd)).mono (Nat.le_add_left 1 0)
    · rw [(hsame henough).1]

end Moves

/-- Induction on the steps of two runs, the second of which may make more. -/
@[elab_as_elim]
theorem bound_induction {motive : (fuel more : Nat) → fuel ≤ more → Prop}
    (zero : ∀ more, motive 0 more more.zero_le)
    (succ : ∀ fuel more h, motive fuel more h → motive (fuel + 1) (more + 1) (Nat.succ_le_succ h))
    {fuel more : Nat} (h : fuel ≤ more) : motive fuel more h := by
  induction fuel generalizing more with
  | zero => exact zero more
  | succ fuel ih =>
    cases more with
    | zero => exact absurd h (Nat.not_succ_le_zero fuel)
    | succ more => exact succ fuel more (Nat.le_of_succ_le_succ h) (ih _)

end Parser

end SmallCpp
