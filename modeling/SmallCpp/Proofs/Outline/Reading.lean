import SmallCpp.Proofs.Outline

/-!
# Reading from one cursor to another

`Lays c d os` says that reading from `c` to `d` gives the outlines `os`, one behind the other
between the ends of the tokens that were read last at `c` and at `d`. `Takes` says also that nothing
had to be recovered from on the way, and `Opens` that at least one token was read. Their rules
follow the ways in which a span is made up.

The errors of a source are `ReportedInOrder` if they lie inside it and none starts before the one
that was reported before it. What has to be shown of an error is `Cursor.Blames`: its span starts no
earlier than the errors before it, and no later than the next token. It can stand at the next token,
or at something that was read since the last error (`Takes.blames`).

After an error, tokens are passed over. So the errors so far start before the end of the last token,
unless the end of file has been reached; there, nothing can be read that an error could point back
at. `Cursor.Tidy` keeps both facts.
-/

namespace SmallCpp

/-- The errors lie inside the source, and none starts before the one in front of it. -/
structure ReportedInOrder (source : String) (errors : List SyntaxError) : Prop where
  inside : ∀ e ∈ errors, e.span.Inside source
  ordered : errors.Pairwise fun e e' => e.span.start ≤ e'.span.start

/-- An error that starts no earlier than the others may be reported after them. -/
theorem ReportedInOrder.concat {source : String} {errors : List SyntaxError} {e : SyntaxError}
    (h : ReportedInOrder source errors) (he : e.span.Inside source)
    (hlast : ∀ e' ∈ errors, e'.span.start ≤ e.span.start) :
    ReportedInOrder source (errors ++ [e]) := by
  refine ⟨List.forall_mem_append.mpr ⟨h.inside, List.forall_mem_singleton.mpr he⟩, ?_⟩
  refine List.pairwise_append.mpr ⟨h.ordered, List.pairwise_singleton _ _, fun e' he' _ hmem => ?_⟩
  rw [List.mem_singleton.mp hmem]
  exact hlast e' he'

variable {source : String} {tokens : List Token} {n : Nat} {b c d e : Cursor} {span : Span}
  {o o' : Outline} {os os' : List Outline}

/-- A span over tokens is inside the source if the tokens are. -/
theorem Span.Covers.inside (h : span.Covers source tokens)
    (htokens : ∀ t ∈ tokens, t.span.Inside source) : span.Inside source := by
  obtain ⟨t, ht, hstart⟩ := h.starts
  obtain ⟨t', ht', hstop⟩ := h.stops
  refine ⟨?_, ?_, Nat.le_of_lt h.start_lt_stop⟩
  · rw [← hstart]
    exact (htokens t ht).start_valid
  · rw [← hstop]
    exact (htokens t' ht').stop_valid

/-! ### Cursors -/

namespace Cursor

/-- The errors so far are reported in order and start no later than the next token. If that is not
the end of file, they start before the end of the last token. -/
structure Tidy (source : String) (tokens : List Token) (c : Cursor) : Prop
    extends c.Orderly source tokens where
  tokens_inside : ∀ t ∈ tokens, t.span.Inside source
  errors : ReportedInOrder source c.recovered
  reached : ∀ e ∈ c.recovered, e.span.start ≤ c.peek.span.start
  passed : c.kind ≠ .eof → ∀ e ∈ c.recovered, e.span.start ≤ c.lastEnd

/-- An error with the span can be reported at the cursor. -/
structure Blames (source : String) (c : Cursor) (span : Span) : Prop where
  inside : span.Inside source
  after : ∀ e ∈ c.recovered, e.span.start ≤ span.start
  reached : span.start ≤ c.peek.span.start

namespace Tidy

/-- Reading without an error keeps the errors in order. -/
theorem of_leads (hc : c.Tidy source tokens) (h : c.Leads n d) (hsame : d.recovered = c.recovered) :
    d.Tidy source tokens := by
  obtain ⟨horderly, hle⟩ := h.orderly hc.toOrderly
  refine ⟨horderly, hc.tokens_inside, hsame ▸ hc.errors, ?_, ?_⟩
  · rw [hsame]
    exact fun e he => Nat.le_trans (hc.reached e he) (h.start_le hc.toOrderly)
  · intro hk
    rw [hsame]
    have hk : c.kind ≠ .eof := fun heof => hk (h.of_eof heof).1
    exact fun e he => Nat.le_trans (hc.passed hk e he) hle

/-- The start of the source and the ends of tokens are boundaries of characters. -/
theorem lastEnd_valid (hc : c.Tidy source tokens) :
    String.Pos.Raw.IsValid source ⟨c.lastEnd⟩ := by
  rcases hc.stops with hzero | ⟨t, ht, hstop⟩
  · rw [hzero]
    exact String.Pos.Raw.isValid_zero
  · rw [← hstop]
    exact (hc.tokens_inside t ht).stop_valid

/-- An error can be reported at the next token. -/
theorem blames_peek (hc : c.Tidy source tokens) : c.Blames source c.peek.span := by
  refine ⟨?_, hc.reached, Nat.le_refl _⟩
  have hvalid := hc.lastEnd_valid
  have hsuffix := hc.suffix
  have htokens := hc.tokens_inside
  rcases c with ⟨_ | ⟨t, ts⟩, stop, es⟩
  · exact ⟨hvalid, hvalid, Nat.le_refl stop⟩
  · exact htokens t (hsuffix.mem List.mem_cons_self)

/-- After an error the next token is one that the error does not reach. -/
theorem recover {e : SyntaxError} (hc : c.Tidy source tokens) (he : c.Blames source e.span) :
    (c.recover e).Tidy source tokens := by
  obtain ⟨hany, hone⟩ := c.leads_recover e
  have hreached : ∀ e' ∈ c.recovered ++ [e], e'.span.start ≤ c.peek.span.start :=
    List.forall_mem_append.mpr ⟨hc.reached, List.forall_mem_singleton.mpr he.reached⟩
  refine ⟨(hany.orderly hc.toOrderly).1, hc.tokens_inside, hc.errors.concat he.inside he.after,
    fun e' he' => ?_, fun hk e' he' => ?_⟩
  · exact Nat.le_trans (hreached e' he') (hany.start_le hc.toOrderly)
  · have hfirst := (hone fun heof => hk (hany.of_eof heof).1).first hc.toOrderly
    exact Nat.le_trans (hreached e' he') (Nat.le_of_lt hfirst.2.2)

end Tidy

end Cursor

/-! ### What is read -/

/-- Reading from `c` to `d` gives a row of outlines. -/
structure Lays (source : String) (tokens : List Token) (c d : Cursor) (os : List Outline) :
    Prop where
  before : c.Tidy source tokens
  tidy : d.Tidy source tokens
  leads : c.Leads 0 d
  le : c.lastEnd ≤ d.lastEnd
  row : Row source tokens c.lastEnd d.lastEnd os

/-- Reading from `c` to `d` gives a row of outlines, and nothing had to be recovered from. -/
structure Takes (source : String) (tokens : List Token) (c d : Cursor) (os : List Outline) : Prop
    extends Lays source tokens c d os where
  kept : d.recovered = c.recovered

/-- From `c` to `d` at least one token is read without an error. -/
structure Opens (source : String) (tokens : List Token) (c d : Cursor) : Prop
    extends Takes source tokens c d [] where
  moved : c.Leads 1 d

/-- Tokens that are read without an error. -/
theorem Cursor.Leads.takes (h : c.Leads n d) (hc : c.Tidy source tokens)
    (hkept : d.recovered = c.recovered) : Takes source tokens c d [] :=
  ⟨⟨hc, hc.of_leads h hkept, h.mono (Nat.zero_le n), (h.orderly hc.toOrderly).2, .nil⟩, hkept⟩

/-- At least one token that is read without an error. -/
theorem Cursor.Leads.opens (h : c.Leads 1 d) (hc : c.Tidy source tokens)
    (hkept : d.recovered = c.recovered) : Opens source tokens c d :=
  ⟨h.takes hc hkept, h⟩

namespace Cursor.Tidy

/-- The next token is read, unless it is the end of file. -/
theorem takes (hc : c.Tidy source tokens) : Takes source tokens c c.advance [] :=
  (Leads.advance_any c).takes hc c.recovered_advance

/-- The next token is read, since it is not the end of file. -/
theorem opens (hc : c.Tidy source tokens) (hk : c.kind ≠ .eof) :
    Opens source tokens c c.advance :=
  (Leads.advance hk).opens hc c.recovered_advance

end Cursor.Tidy

namespace Lays

/-- Where nothing is read, nothing is laid. -/
theorem refl (h : c.Tidy source tokens) : Lays source tokens c c [] :=
  ⟨h, h, .refl c, Nat.le_refl _, .nil⟩

/-- What is read one after the other is laid one behind the other. -/
theorem trans (h : Lays source tokens c d os) (h' : Lays source tokens d e os') :
    Lays source tokens c e (os ++ os') :=
  ⟨h.before, h'.tidy, h.leads.trans h'.leads, Nat.le_trans h.le h'.le,
    h.row.append h'.row h.le h'.le⟩

/-- Tokens without an outline of their own. -/
theorem skip (h : Lays source tokens c d os) (h' : Lays source tokens d e []) :
    Lays source tokens c e os := by
  have htrans := h.trans h'
  rwa [List.append_nil] at htrans

/-- A node from the start of its first part to the last token. -/
theorem extend (h : Lays source tokens c d (o :: os)) :
    Lays source tokens c d [.node ⟨o.span.start, d.lastEnd⟩ (o :: os)] := by
  obtain ⟨hcovers, hlo, hhi⟩ := h.row.head
  have hlt := hcovers.start_lt_stop
  have hspan := h.tidy.covers hcovers.starts (Nat.lt_of_lt_of_le hlt hhi)
  exact ⟨h.before, h.tidy, h.leads, h.le, .node hspan h.row.of_head hlo (Nat.le_refl _)⟩

end Lays

namespace Takes

/-- Where nothing is read, nothing is taken. -/
theorem refl (h : c.Tidy source tokens) : Takes source tokens c c [] :=
  ⟨.refl h, rfl⟩

/-- What is read one after the other is taken one after the other. -/
theorem trans (h : Takes source tokens c d os) (h' : Takes source tokens d e os') :
    Takes source tokens c e (os ++ os') :=
  ⟨h.toLays.trans h'.toLays, h'.kept.trans h.kept⟩

/-- Tokens without an outline of their own. -/
theorem skip (h : Takes source tokens c d os) (h' : Takes source tokens d e []) :
    Takes source tokens c e os :=
  ⟨h.toLays.skip h'.toLays, h'.kept.trans h.kept⟩

/-- A node from the start of its first part to the last token. -/
theorem extend (h : Takes source tokens c d (o :: os)) :
    Takes source tokens c d [.node ⟨o.span.start, d.lastEnd⟩ (o :: os)] :=
  ⟨h.toLays.extend, h.kept⟩

/-- A node that joins two others. -/
theorem join (h : Takes source tokens c d [o, o']) :
    Takes source tokens c d [.node (o.span.join o'.span) [o, o']] :=
  ⟨⟨h.before, h.tidy, h.leads, h.le, h.row.join⟩, h.kept⟩

/-- An error can be reported at something that was read since the last one. -/
theorem blames (h : Takes source tokens c d (o :: os)) : d.Blames source o.span := by
  have hc := h.before
  obtain ⟨hcovers, hstart, hstop⟩ := h.row.head
  have hlt := hcovers.start_lt_stop
  refine ⟨hcovers.inside hc.tokens_inside, ?_, ?_⟩
  · -- the end of file was not next, since then nothing would have been read
    have hk : c.kind ≠ .eof := by
      intro hk
      have hsame := (h.leads.of_eof hk).2
      omega
    rw [h.kept]
    exact fun e he => Nat.le_trans (hc.passed hk e he) hstart
  · have hnext := h.tidy.lastEnd_le_start
    omega

end Takes

/-- An error can be reported at an expression that was read since the last one. -/
theorem Takes.blames_expr {e : Expr} (h : Takes source tokens c d [e.outline]) :
    d.Blames source e.span := by
  have hblames := h.blames
  rwa [Expr.span_outline] at hblames

namespace Opens

/-- The first token that is read starts behind the last one before it. -/
theorem le_start (h : Opens source tokens c d) : c.lastEnd ≤ c.peek.span.start :=
  (h.moved.first h.before.toOrderly).2.1

/-- The first token that is read starts before the last one ends. -/
theorem start_lt (h : Opens source tokens c d) : c.peek.span.start < d.lastEnd :=
  (h.moved.first h.before.toOrderly).2.2

/-- The first token that is read is one of the source. -/
theorem exists_start (h : Opens source tokens c d) :
    ∃ t ∈ tokens, t.span.start = c.peek.span.start :=
  ⟨c.peek, (h.moved.first h.before.toOrderly).1, rfl⟩

/-- At least one token, and what comes after it. -/
theorem also (h : Opens source tokens c d) (h' : Takes source tokens d e []) :
    Opens source tokens c e :=
  ⟨h.toTakes.skip h', h.moved.trans h'.leads⟩

/-- At least one token behind others. -/
theorem behind (h' : Opens source tokens d e) (h : Takes source tokens c d []) :
    Opens source tokens c e :=
  ⟨h.skip h'.toTakes, h.leads.trans h'.moved⟩

/-- A node from the first token to the last, in whose parts errors may have been recovered from. -/
theorem throughout (h : Opens source tokens c d) (h' : Lays source tokens d e os) :
    Lays source tokens c e [.node ⟨c.peek.span.start, e.lastEnd⟩ os] := by
  have hlt := h.start_lt
  have hle := h'.le
  refine ⟨h.before, h'.tidy, h.leads.trans h'.leads, Nat.le_trans h.le hle,
    .node (h'.tidy.covers h.exists_start (by omega)) ?_ h.le_start (Nat.le_refl _)⟩
  have hrow : Row source tokens c.peek.span.start d.lastEnd [] := .nil
  exact hrow.append h'.row (Nat.le_of_lt hlt) hle

/-- A node from the first token to the last. -/
theorem node (h : Opens source tokens c d) (h' : Takes source tokens d e os) :
    Takes source tokens c e [.node ⟨c.peek.span.start, e.lastEnd⟩ os] :=
  ⟨h.throughout h'.toLays, h'.kept.trans h.kept⟩

/-- A node of a single token. -/
theorem leaf (h : Opens source tokens c d) (hstop : c.peek.span.stop = d.lastEnd) :
    Takes source tokens c d [.node c.peek.span []] := by
  have hnode := h.node (.refl h.tidy)
  rwa [← hstop] at hnode

/-- A node from its first token to the end of its part. -/
theorem prefixed (h : Opens source tokens c d) (hstop : c.peek.span.stop = d.lastEnd)
    (h' : Takes source tokens d e [o]) :
    Takes source tokens c e [.node (c.peek.span.join o.span) [o]] := by
  obtain ⟨hcovers, hlo, hhi⟩ := h'.row.head
  have hlt := h.start_lt
  have hlt' := hcovers.start_lt_stop
  have hjoin : c.peek.span.join o.span = ⟨c.peek.span.start, o.span.stop⟩ := by
    rw [Span.join, Nat.min_eq_left (by omega), Nat.max_eq_right (by omega)]
  rw [hjoin]
  refine ⟨⟨h.before, h'.tidy, h.leads.trans h'.leads, Nat.le_trans h.le h'.le,
    .node ?_ ?_ h.le_start hhi⟩, h'.kept.trans h.kept⟩
  · exact ⟨by dsimp only; omega, hcovers.stop_le, h.exists_start, hcovers.stops⟩
  · refine ⟨h'.row.nested, List.forall_mem_singleton.mpr ⟨?_, Nat.le_refl _⟩, h'.row.ordered⟩
    dsimp only
    omega

end Opens

end SmallCpp
