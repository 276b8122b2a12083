import SmallCpp.Proofs.Parser.Moves
import SmallCpp.Proofs.Tiling

/-!
# The spans of a syntax tree

The `Outline` of a piece of syntax keeps of it only the nodes that carry a span, each with the nodes
below it in source order. `Outline.Nested` says that every span in it goes from the start of a token
to the end of one, that the spans below a node lie inside its own, and that siblings lie one behind
the other. A `Row` is a list of such outlines between two offsets; its rules follow the ways in
which the span of a node is made up of those below it.
-/

namespace SmallCpp

/-- A node with a span, and the nodes below it in source order. -/
inductive Outline
  | node (span : Span) (parts : List Outline)

/-- Where the node stands. -/
def Outline.span : Outline → Span
  | node span _ => span

namespace Expr

mutual

/-- The spans of an expression; the name of a called function is a part of the call. -/
def outline : Expr → Outline
  | literal _ span | name _ span => .node span []
  | binary _ left right span => .node span [left.outline, right.outline]
  | unary _ operand span => .node span [operand.outline]
  | assign _ target value span => .node span [target.outline, value.outline]
  | step _ _ target span => .node span [target.outline]
  | call _ calleeSpan args span => .node span (.node calleeSpan [] :: outlines args)
  | index base subscript span => .node span [base.outline, subscript.outline]
  | field base _ span => .node span [base.outline]

/-- The outlines of expressions. -/
def outlines : List Expr → List Outline
  | [] => []
  | e :: es => e.outline :: outlines es

end

/-- The outlines of several expressions are those of each. -/
theorem outlines_eq_map (es : List Expr) : outlines es = es.map outline := by
  induction es with
  | nil => rfl
  | cons e es ih => rw [outlines, ih, List.map_cons]

/-- An outline has the span of its expression. -/
@[simp] theorem span_outline (e : Expr) : e.outline.span = e.span := by
  cases e <;> rfl

end Expr

/-- The bounds that are written, outermost first. -/
def boundOutlines (bounds : List (Option Expr)) : List Outline :=
  bounds.flatMap fun bound => bound.toList.map Expr.outline

/-- The bounds in a type, outermost first, which is their order in the source. -/
def WrittenType.outlines : WrittenType → List Outline
  | array elem bound => bound.toList.map Expr.outline ++ elem.outlines
  | _ => []

/-- Bounds that are added stand in front of those that are there. -/
theorem WrittenType.outlines_withBounds (type : WrittenType) (bounds : List (Option Expr)) :
    (type.withBounds bounds).outlines = boundOutlines bounds ++ type.outlines := by
  induction bounds with
  | nil => rfl
  | cons bound bounds ih =>
    have hstep : (type.withBounds (bound :: bounds)).outlines =
        bound.toList.map Expr.outline ++ (type.withBounds bounds).outlines := rfl
    rw [hstep, ih, boundOutlines, boundOutlines, List.flatMap_cons, List.append_assoc]

namespace Initializer

mutual

/-- The spans of an initializer. -/
def outline : Initializer → Outline
  | expr value => value.outline
  | list items span => .node span (outlines items)

/-- The outlines of initializers. -/
def outlines : List Initializer → List Outline
  | [] => []
  | i :: is => i.outline :: outlines is

end

/-- The outlines of several initializers are those of each. -/
theorem outlines_eq_map (is : List Initializer) : outlines is = is.map outline := by
  induction is with
  | nil => rfl
  | cons i is ih => rw [outlines, ih, List.map_cons]

end Initializer

/-- The spans of a declared variable: its bounds come before its initializer. -/
def VarDecl.outline (decl : VarDecl) : Outline :=
  .node decl.span (decl.type.outlines ++ decl.init.toList.map Initializer.outline)

namespace Statement

mutual

/-- The spans of a statement. -/
def outline : Statement → Outline
  | declare decls span => .node span (decls.map VarDecl.outline)
  | expr value span => .node span [value.outline]
  | ifThen condition thenBranch span => .node span [condition.outline, thenBranch.outline]
  | ifElse condition thenBranch elseBranch span =>
    .node span [condition.outline, thenBranch.outline, elseBranch.outline]
  | loop condition body span => .node span [condition.outline, body.outline]
  | ret value span => .node span (value.toList.map Expr.outline)
  | block body span => .node span (outlines body)
  | empty span => .node span []

/-- The outlines of statements. -/
def outlines : List Statement → List Outline
  | [] => []
  | s :: ss => s.outline :: outlines ss

end

/-- The outlines of several statements are those of each. -/
theorem outlines_eq_map (ss : List Statement) : outlines ss = ss.map outline := by
  induction ss with
  | nil => rfl
  | cons s ss ih => rw [outlines, ih, List.map_cons]

end Statement

/-- The spans of a block. -/
def Block.outline (b : Block) : Outline :=
  .node b.span (b.statements.map Statement.outline)

/-- The spans of a parameter. -/
def Param.outline (p : Param) : Outline :=
  .node p.span p.type.outlines

/-- The spans of a function: its result type comes first, then its parameters and its body. -/
def FunctionDecl.outline (f : FunctionDecl) : Outline :=
  .node f.span (f.returns.outlines ++ f.params.map Param.outline ++ f.body.toList.map Block.outline)

/-- The spans of a member. -/
def FieldDecl.outline (f : FieldDecl) : Outline :=
  .node f.span f.type.outlines

/-- The spans of a record. -/
def RecordDecl.outline (r : RecordDecl) : Outline :=
  .node r.span (r.fields.map FieldDecl.outline)

/-- The spans of an item. -/
def Item.outline : Item → Outline
  | function decl => decl.outline
  | record decl => decl.outline
  | global decl => decl.outline

/-- The spans of a program, item by item. -/
def Program.outlines (p : Program) : List Outline :=
  p.items.map Item.outline

/-! ### Nested and ordered spans -/

/-- The span is not empty, ends inside the source, and starts and ends where tokens do. -/
structure Span.Covers (source : String) (tokens : List Token) (span : Span) : Prop where
  start_lt_stop : span.start < span.stop
  stop_le : span.stop ≤ source.utf8ByteSize
  starts : ∃ t ∈ tokens, t.span.start = span.start
  stops : ∃ t ∈ tokens, t.span.stop = span.stop

namespace Outline

/-- The second node starts where the first has ended, or behind. -/
def Before (o o' : Outline) : Prop :=
  o.span.stop ≤ o'.span.start

/-- Every span covers tokens and holds the spans below it, which lie one behind the other. -/
inductive Nested (source : String) (tokens : List Token) : Outline → Prop
  | node {span : Span} {parts : List Outline} (covers : span.Covers source tokens)
    (inside : ∀ o ∈ parts, span.start ≤ o.span.start ∧ o.span.stop ≤ span.stop)
    (ordered : parts.Pairwise Before) (nested : ∀ o ∈ parts, o.Nested source tokens) :
    Nested source tokens (.node span parts)

/-- What is nested covers tokens. -/
theorem Nested.covers {source : String} {tokens : List Token} {o : Outline}
    (h : o.Nested source tokens) : o.span.Covers source tokens := by
  cases h with
  | node covers => exact covers

end Outline

/-- Nested outlines that lie one behind the other between two offsets. -/
structure Row (source : String) (tokens : List Token) (lo hi : Nat) (os : List Outline) : Prop where
  nested : ∀ o ∈ os, o.Nested source tokens
  inside : ∀ o ∈ os, lo ≤ o.span.start ∧ o.span.stop ≤ hi
  ordered : os.Pairwise Outline.Before

namespace Row

variable {source : String} {tokens : List Token} {lo mid hi : Nat} {o o' : Outline}
  {os os' : List Outline}

/-- Nothing is in a row wherever it starts and ends. -/
theorem nil : Row source tokens lo hi [] :=
  ⟨List.forall_mem_nil _, List.forall_mem_nil _, .nil⟩

/-- Rows that meet are one row. -/
theorem append (h : Row source tokens lo mid os) (h' : Row source tokens mid hi os')
    (hlo : lo ≤ mid) (hhi : mid ≤ hi) : Row source tokens lo hi (os ++ os') := by
  refine ⟨List.forall_mem_append.mpr ⟨h.nested, h'.nested⟩, ?_, ?_⟩
  · intro o ho
    rcases List.mem_append.mp ho with ho | ho
    · obtain ⟨hstart, hstop⟩ := h.inside o ho
      exact ⟨hstart, Nat.le_trans hstop hhi⟩
    · obtain ⟨hstart, hstop⟩ := h'.inside o ho
      exact ⟨Nat.le_trans hlo hstart, hstop⟩
  · refine List.pairwise_append.mpr ⟨h.ordered, h'.ordered, fun o ho o' ho' => ?_⟩
    exact Nat.le_trans (h.inside o ho).2 (h'.inside o' ho').1

/-- A node above a row is a row by itself. -/
theorem node {span : Span} (covers : span.Covers source tokens)
    (h : Row source tokens span.start span.stop os) (hlo : lo ≤ span.start) (hhi : span.stop ≤ hi) :
    Row source tokens lo hi [.node span os] := by
  have hnested : (Outline.node span os).Nested source tokens :=
    .node covers h.inside h.ordered h.nested
  exact ⟨List.forall_mem_singleton.mpr hnested, List.forall_mem_singleton.mpr ⟨hlo, hhi⟩,
    List.pairwise_singleton _ _⟩

/-- The first of a row, with what is known of it. -/
theorem head (h : Row source tokens lo hi (o :: os)) :
    o.span.Covers source tokens ∧ lo ≤ o.span.start ∧ o.span.stop ≤ hi := by
  obtain ⟨hnested, hinside, -⟩ := h
  exact ⟨(hnested o List.mem_cons_self).covers, hinside o List.mem_cons_self⟩

/-- A row starts where its first node does. -/
theorem of_head (h : Row source tokens lo hi (o :: os)) :
    Row source tokens o.span.start hi (o :: os) := by
  obtain ⟨hnested, hinside, hordered⟩ := h
  refine ⟨hnested, List.forall_mem_cons.mpr ⟨⟨Nat.le_refl _, (hinside o List.mem_cons_self).2⟩, ?_⟩,
    hordered⟩
  intro o' ho'
  have hbefore : o.span.stop ≤ o'.span.start := (List.pairwise_cons.mp hordered).1 o' ho'
  have hlt := (hnested o List.mem_cons_self).covers.start_lt_stop
  exact ⟨by omega, (hinside o' (List.mem_cons_of_mem _ ho')).2⟩

/-- Two nodes under their common span. -/
theorem join (h : Row source tokens lo hi [o, o']) :
    Row source tokens lo hi [.node (o.span.join o'.span) [o, o']] := by
  have hbefore : o.span.stop ≤ o'.span.start :=
    (List.pairwise_cons.mp h.ordered).1 o' List.mem_cons_self
  obtain ⟨hcovers, hlo, -⟩ := h.head
  have hcovers' : o'.span.Covers source tokens := (h.nested o' (by simp)).covers
  have hhi : o'.span.stop ≤ hi := (h.inside o' (by simp)).2
  have hlt := hcovers.start_lt_stop
  have hlt' := hcovers'.start_lt_stop
  have hjoin : o.span.join o'.span = ⟨o.span.start, o'.span.stop⟩ := by
    rw [Span.join, Nat.min_eq_left (by omega), Nat.max_eq_right (by omega)]
  rw [hjoin]
  refine node ⟨by dsimp only; omega, hcovers'.stop_le, hcovers.starts, hcovers'.stops⟩ ?_ hlo hhi
  refine ⟨h.nested, ?_, h.ordered⟩
  refine List.forall_mem_cons.mpr ⟨⟨Nat.le_refl _, by dsimp only; omega⟩, ?_⟩
  exact List.forall_mem_singleton.mpr ⟨by dsimp only; omega, Nat.le_refl _⟩

end Row

/-! ### Cursors in ordered tokens -/

/-- The tokens lie one behind the other inside the source, and only the end of file is empty. -/
structure Arranged (source : String) (tokens : List Token) : Prop where
  stop_le : ∀ t ∈ tokens, t.span.stop ≤ source.utf8ByteSize
  start_lt_stop : ∀ t ∈ tokens, t.kind ≠ .eof → t.span.start < t.span.stop
  ordered : tokens.Pairwise fun s t => s.span.stop ≤ t.span.start

/-- The cursor stands in arranged tokens, behind the token that was read last. -/
structure Cursor.Orderly (source : String) (tokens : List Token) (c : Cursor) : Prop where
  arranged : Arranged source tokens
  suffix : c.rest <:+ tokens
  behind : ∀ t ∈ c.rest, c.lastEnd ≤ t.span.start
  stops : c.lastEnd = 0 ∨ ∃ t ∈ tokens, t.span.stop = c.lastEnd

section Leads

variable {source : String} {tokens : List Token} {n : Nat} {c d : Cursor}

/-- The last of the tokens, if there is one, is the one that counts. -/
theorem lastStop_append_singleton (stop : Nat) (ts : List Token) (t : Token) :
    lastStop stop (ts ++ [t]) = t.span.stop := by
  rw [lastStop, List.foldl_append]
  rfl

/-- Moving on keeps the order. -/
theorem Cursor.Leads.orderly (h : c.Leads n d) (hc : c.Orderly source tokens) :
    d.Orderly source tokens ∧ c.lastEnd ≤ d.lastEnd := by
  obtain ⟨read, hrest, hstop, hkinds, -⟩ := h
  rcases List.eq_nil_or_concat read with rfl | ⟨init, t, rfl⟩
  · have hrest : c.rest = d.rest := hrest
    have hstop : d.lastEnd = c.lastEnd := hstop
    refine ⟨⟨hc.arranged, hrest ▸ hc.suffix, ?_, hstop ▸ hc.stops⟩, Nat.le_of_eq hstop.symm⟩
    rw [hstop, ← hrest]
    exact hc.behind
  · rw [List.concat_eq_append] at hrest hstop hkinds
    rw [lastStop_append_singleton] at hstop
    have ht : t ∈ c.rest := by simp [hrest]
    have hmem : t ∈ tokens := hc.suffix.mem ht
    have hlt : t.span.start < t.span.stop := hc.arranged.start_lt_stop t hmem (hkinds t (by simp))
    have hle : c.lastEnd ≤ t.span.start := hc.behind t ht
    -- `t` is the last token read, so it stands before all that are left
    have hsuffix : d.rest <:+ c.rest := ⟨_, hrest.symm⟩
    have hordered : c.rest.Pairwise fun s t => s.span.stop ≤ t.span.start :=
      hc.arranged.ordered.sublist hc.suffix.sublist
    rw [hrest] at hordered
    refine ⟨⟨hc.arranged, hsuffix.trans hc.suffix, fun t' ht' => ?_, .inr ⟨t, hmem, hstop.symm⟩⟩,
      by omega⟩
    rw [hstop]
    exact (List.pairwise_append.mp hordered).2.2 t (by simp) t' ht'

/-- Behind at least one token: the first of them starts between the ends of the tokens that were
read last before and after. -/
theorem Cursor.Leads.first (h : c.Leads 1 d) (hc : c.Orderly source tokens) :
    c.peek ∈ tokens ∧ c.lastEnd ≤ c.peek.span.start ∧ c.peek.span.start < d.lastEnd := by
  obtain ⟨read, hrest, hstop, hkinds, hn⟩ := h
  cases read with
  | nil => exact absurd hn (by simp)
  | cons t read =>
    have hpeek : c.peek = t := by rw [Cursor.peek, hrest]; rfl
    have ht : t ∈ c.rest := by simp [hrest]
    have hmem : t ∈ tokens := hc.suffix.mem ht
    have hlt : t.span.start < t.span.stop := hc.arranged.start_lt_stop t hmem (hkinds t (by simp))
    -- what is read after the first token only moves on
    have hafter : t.span.stop ≤ d.lastEnd := by
      have hfirst : c.Leads 1 ⟨read ++ d.rest, t.span.stop, c.recovered⟩ :=
        ⟨[t], hrest, rfl, fun t' ht' => hkinds t' (by simp_all), Nat.le_refl 1⟩
      have hrest : Cursor.Leads 0 ⟨read ++ d.rest, t.span.stop, c.recovered⟩ d :=
        ⟨read, rfl, hstop, fun t' ht' => hkinds t' (by simp_all), Nat.zero_le _⟩
      exact (hrest.orderly (hfirst.orderly hc).1).2
    rw [hpeek]
    exact ⟨hmem, hc.behind t ht, by omega⟩

/-- The end of file is never read. -/
theorem Cursor.Leads.kind_ne_eof (h : c.Leads 1 d) : c.kind ≠ .eof := by
  obtain ⟨read, hrest, -, hkinds, hn⟩ := h
  cases read with
  | nil => exact absurd hn (by simp)
  | cons t read =>
    have hkind : c.kind = t.kind := by rw [Cursor.kind, Cursor.peek, hrest]; rfl
    rw [hkind]
    exact hkinds t List.mem_cons_self

/-- At the end of file nothing more is read. -/
theorem Cursor.Leads.of_eof (h : c.Leads n d) (hk : c.kind = .eof) :
    d.kind = .eof ∧ d.lastEnd = c.lastEnd := by
  obtain ⟨read, hrest, hstop, hkinds, -⟩ := h
  cases read with
  | nil =>
    have hpeek : d.peek = c.peek := by rw [Cursor.peek, Cursor.peek, hrest, hstop]; rfl
    refine ⟨?_, hstop⟩
    rw [Cursor.kind, hpeek]
    exact hk
  | cons t read =>
    have hone : c.Leads 1 d := ⟨t :: read, hrest, hstop, hkinds, Nat.le_add_left 1 _⟩
    exact absurd hk hone.kind_ne_eof

/-- The token read last ends before the next one starts. -/
theorem Cursor.Orderly.lastEnd_le_start (h : c.Orderly source tokens) :
    c.lastEnd ≤ c.peek.span.start := by
  obtain ⟨-, -, hbehind, -⟩ := h
  rcases c with ⟨_ | ⟨t, ts⟩, stop, es⟩
  · exact Nat.le_refl stop
  · exact hbehind t List.mem_cons_self

/-- The next token only moves on. -/
theorem Cursor.Leads.start_le (h : c.Leads n d) (hc : c.Orderly source tokens) :
    c.peek.span.start ≤ d.peek.span.start := by
  have hd := (h.orderly hc).1
  obtain ⟨read, hrest, hstop, hkinds, -⟩ := h
  cases read with
  | nil =>
    have hsame : c.peek = d.peek := by
      rw [Cursor.peek, Cursor.peek, show c.rest = d.rest from hrest,
        show d.lastEnd = c.lastEnd from hstop]
    rw [hsame]
  | cons t read =>
    have hone : c.Leads 1 d := ⟨t :: read, hrest, hstop, hkinds, Nat.le_add_left 1 _⟩
    exact Nat.le_trans (Nat.le_of_lt (hone.first hc).2.2) hd.lastEnd_le_start

/-- From the start of a token to the end of the one that was read last. -/
theorem Cursor.Orderly.covers {start : Nat} (h : c.Orderly source tokens)
    (hstart : ∃ t ∈ tokens, t.span.start = start) (hlt : start < c.lastEnd) :
    Span.Covers source tokens ⟨start, c.lastEnd⟩ := by
  rcases h.stops with hzero | ⟨t, ht, hstop⟩
  · omega
  · have hle := h.arranged.stop_le t ht
    exact ⟨hlt, by dsimp only; omega, hstart, t, ht, hstop⟩

/-- The end of the token that is read. -/
theorem Cursor.lastEnd_advance (hk : c.kind ≠ .eof) : c.peek.span.stop = c.advance.lastEnd := by
  rcases c with ⟨_ | ⟨t, ts⟩, stop, es⟩
  · exact absurd rfl hk
  · have hk : t.kind ≠ .eof := hk
    rw [Cursor.advance]
    dsimp only
    rw [if_neg hk]
    rfl

end Leads

end SmallCpp
