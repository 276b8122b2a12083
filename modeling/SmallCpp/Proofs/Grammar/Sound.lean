import SmallCpp.Proofs.Grammar
import SmallCpp.Proofs.Parser.Ensures

/-!
# What the parser reads is derived by the grammar

By induction on the steps, one case for each function of the parser. Between two operators of the
loop over a level, the operand read so far is derived at some level that is at least that of the
operator that comes next; so the operator may take it as its left operand.
-/

namespace SmallCpp

/-- A place needs none of the levels below the forms after an operand. -/
theorem Derives.of_isPlace {n : Nat} {w : List TokenKind} {e : Expr} (h : Derives n w e)
    (hn : 1 ≤ n) (he : e.isPlace = true) : Derives 8 w e := by
  induction h with
  | @up n w e hn' h ih =>
    rcases Nat.lt_or_ge n 8 with h8 | h8
    · exact ih (by omega) he
    · obtain rfl : n = 8 := by omega
      exact .up (by decide) h
  | assign => cases he
  | binary => cases he
  | unary => cases he
  | stepBefore => cases he
  | stepAfter => cases he
  | index hb hs => exact .index hb hs
  | field id h => exact .field id h
  | call => cases he
  | literal => cases he
  | name id => exact .up (by decide) (.name id)
  | group h => exact .up (by decide) (.group h)

namespace Parser

/-- What was read is derived at a level. -/
def Derived (n : Nat) (c : Cursor) (e : Expr) (d : Cursor) : Prop :=
  ∃ w, c.Passes w d ∧ Derives n w e.bare

/-- The token is no binary operator of at least the level. -/
def Below (m : Nat) (k : TokenKind) : Prop :=
  ∀ op, binaryOp? k = some op → op.level < m

/-- What was read after `wl` is derived with it at some level of binary operators from `m` on or at
the one above, and no operator from `m` on comes next. -/
def DerivedFrom (m : Nat) (wl : List TokenKind) (c : Cursor) (e : Expr) (d : Cursor) : Prop :=
  (∃ w n, c.Passes w d ∧ m ≤ n ∧ 1 ≤ n ∧ n ≤ 7 ∧ Derives n (wl ++ w) e.bare) ∧ Below m d.kind

/-- What was read after `wb` is derived with it as an operand. -/
def DerivedOperand (wb : List TokenKind) (c : Cursor) (e : Expr) (d : Cursor) : Prop :=
  ∃ w, c.Passes w d ∧ Derives 8 (wb ++ w) e.bare

/-- What was read are the words of expressions between commas. -/
def DerivedAll (c : Cursor) (es : List Expr) (d : Cursor) : Prop :=
  ∃ args : List (List TokenKind × Expr), c.Passes (separated (args.map Prod.fst)) d ∧
    es.map Expr.bare = args.map Prod.snd ∧ ∀ arg ∈ args, Derives 0 arg.1 arg.2

/-- What the functions of the parser have read when they succeed within a number of steps. -/
structure ReadsDerived (fuel : Nat) : Prop where
  expression : ∀ c, Ensures c (expression fuel) (Derived 0 c)
  binary : ∀ c m, m ≤ 7 → Ensures c (binary fuel m) (DerivedFrom m [] c)
  binaryRest : ∀ c m n left wl, m ≤ n → 1 ≤ n → n ≤ 7 → Below (n + 1) c.kind →
    Derives n wl left.bare → Ensures c (binaryRest fuel m left) (DerivedFrom m wl c)
  unary : ∀ c, Ensures c (unary fuel) (Derived 7 c)
  postfixRest : ∀ c base wb, Derives 8 wb base.bare →
    Ensures c (postfixRest fuel base) (DerivedOperand wb c)
  argumentList : ∀ c, Ensures c (argumentList fuel) (DerivedAll c)
  arguments : ∀ c, Ensures c (arguments fuel) fun es d => es ≠ [] ∧ DerivedAll c es d
  primary : ∀ c, Ensures c (primary fuel) (Derived 9 c)

variable {fuel : Nat}

/-- An expression: a target with an assignment, or what the binary operators give. A target that is
a place is an operand. -/
theorem ReadsDerived.expression_succ (ih : ReadsDerived fuel) (c : Cursor) :
    Ensures c (Parser.expression (fuel + 1)) (Derived 0 c) := by
  unfold Parser.expression
  refine .bind (ih.binary c 0 (by decide)) ?_
  rintro target d ⟨⟨wt, n, hpass, -, hn, hn', ht⟩, -⟩
  rw [List.nil_append] at ht
  refine .kind ?_
  split
  · exact .pure ⟨wt, hpass, ht.down (by omega) (by omega)⟩
  · next op hop =>
    refine .advance (.ite (fun hplace => ?_) fun _ => .fail _ _)
    rw [← target.isPlace_bare] at hplace
    refine .bind (ih.expression _) ?_
    rintro value d' ⟨wv, hpass', hv⟩
    have hpassOp := Cursor.Passes.advance (symbol_of_assignOp? hop)
    exact .pure ⟨_, hpass.trans (hpassOp.trans hpass'),
      .assign op hplace (ht.of_isPlace hn hplace) hv⟩

/-- Level 7 comes first, then the loop over the operators. -/
theorem ReadsDerived.binary_succ (ih : ReadsDerived fuel) (c : Cursor) (m : Nat) (hm : m ≤ 7) :
    Ensures c (Parser.binary (fuel + 1) m) (DerivedFrom m [] c) := by
  unfold Parser.binary
  refine .bind (ih.unary c) ?_
  rintro left d ⟨wl, hpass, hl⟩
  have hbelow : Below 8 d.kind := by
    intro op _
    rw [op.level_eq_rank]
    exact Nat.lt_succ_of_le (Nat.le_trans op.rank_le_six (by decide))
  refine (ih.binaryRest d m 7 left wl hm (by decide) (by decide) hbelow hl).imp ?_
  rintro e d' ⟨⟨w, n, hpass', hmn, hn, hn', he⟩, hend⟩
  exact ⟨⟨wl ++ w, n, hpass.trans hpass', hmn, hn, hn', he⟩, hend⟩

/-- An operator from `m` on binds what stands on its left, so the loop goes on at the level of that
operator. This is the climbing: the level falls from pass to pass. -/
theorem ReadsDerived.binaryRest_succ (ih : ReadsDerived fuel) (c : Cursor) (m n : Nat)
    (left : Expr) (wl : List TokenKind) (hm : m ≤ n) (hn : 1 ≤ n) (hn' : n ≤ 7)
    (hnext : Below (n + 1) c.kind) (hl : Derives n wl left.bare) :
    Ensures c (Parser.binaryRest (fuel + 1) m left) (DerivedFrom m wl c) := by
  unfold Parser.binaryRest
  have hdone : Derives n (wl ++ []) left.bare := by rwa [List.append_nil]
  refine .kind ?_
  split
  · next hop =>
    refine .pure ⟨⟨[], n, .refl c, hm, hn, hn', hdone⟩, fun op h => ?_⟩
    rw [hop] at h
    cases h
  · next op hop =>
    refine .ite (fun hlevel => .pure ⟨⟨[], n, .refl c, hm, hn, hn', hdone⟩, fun op' h => ?_⟩)
      fun hlevel => .advance ?_
    · rw [hop] at h
      cases h
      exact hlevel
    · -- the operator takes what was read so far, which goes down to its level
      have hmin := op.one_le_rank
      have hmax := op.rank_le_six
      have hmem := op.mem_ofLevel_rank
      rw [← op.level_eq_rank] at hmin hmax hmem
      refine .bind (ih.binary _ _ (by omega)) ?_
      rintro right d ⟨⟨wr, n', hpass, hn₁, -, hn₂, hr⟩, hend⟩
      have hwhole : Derives op.level (wl ++ .symbol op.symbol :: wr)
          (Expr.binary op left right (left.span.join right.span)).bare :=
        .binary hmem (hl.down (by omega) (Nat.le_of_lt_succ (hnext op hop)))
          (hr.down (by omega) hn₁)
      have hpass' := (Cursor.Passes.advance (symbol_of_binaryOp? hop)).trans hpass
      refine (ih.binaryRest d m op.level _ _ (by omega) hmin (by omega) hend hwhole).imp ?_
      rintro e d' ⟨⟨w, n'', hpass'', hmn, hn₁, hn₂, he⟩, hend'⟩
      refine ⟨⟨_, n'', hpass'.trans hpass'', hmn, hn₁, hn₂, ?_⟩, hend'⟩
      rwa [List.append_assoc] at he

/-- A step that succeeds has a place for its target and reads nothing. -/
theorem ensures_stepOf (op : StepOp) (fixity : Fixity) (target : Expr) (start : Nat) (c : Cursor) :
    Ensures c (stepOf op fixity target start) fun e d =>
      d = c ∧ target.bare.isPlace = true ∧ e.bare = .step op fixity target.bare .nowhere :=
  .ite (fun hplace => .lastEnd (.pure ⟨rfl, by rwa [target.isPlace_bare], rfl⟩)) fun _ => .fail _ _

/-- What is read is an operator before an operand, an increment or decrement, or an operand. -/
theorem ReadsDerived.unary_succ (ih : ReadsDerived fuel) (c : Cursor) :
    Ensures c (Parser.unary (fuel + 1)) (Derived 7 c) := by
  unfold Parser.unary
  refine .peek ?_
  split
  · -- an operator before the operand
    next _ _ op hop =>
    have hpass := Cursor.Passes.advance (symbol_of_unaryOp? hop)
    refine .advance (.bind (ih.unary _) ?_)
    rintro operand d ⟨w, hpass', h⟩
    exact .pure ⟨_, hpass.trans hpass', .unary op h⟩
  · -- an increment or decrement before the operand
    next op _ hop =>
    have hpass := Cursor.Passes.advance (symbol_of_stepOp? hop)
    refine .advance (.bind (ih.unary _) ?_)
    rintro target d ⟨w, hpass', h⟩
    refine (ensures_stepOf op .before target _ d).imp ?_
    rintro e _ ⟨rfl, hplace, he⟩
    exact ⟨_, hpass.trans hpass', he ▸ .stepBefore op hplace h⟩
  · -- an operand, with what is added to it
    refine .bind (ih.primary c) ?_
    rintro base d ⟨wb, hpass, hb⟩
    refine (ih.postfixRest d base wb (.up (by decide) hb)).imp ?_
    rintro e d' ⟨w, hpass', he⟩
    exact ⟨_, hpass.trans hpass', .up (by decide) he⟩

/-- To an operand the loop adds one form in each pass. -/
theorem ReadsDerived.postfixRest_succ (ih : ReadsDerived fuel) (c : Cursor) (base : Expr)
    (wb : List TokenKind) (hb : Derives 8 wb base.bare) :
    Ensures c (Parser.postfixRest (fuel + 1) base) (DerivedOperand wb c) := by
  -- whatever form is read first, the loop goes on with a longer operand
  have hloop : ∀ (e : Expr) (w : List TokenKind) (d : Cursor), c.Passes w d →
      Derives 8 (wb ++ w) e.bare → Ensures d (Parser.postfixRest fuel e) (DerivedOperand wb c) := by
    intro e w d hpass he
    refine (ih.postfixRest d e _ he).imp ?_
    rintro e' d' ⟨w', hpass', he'⟩
    refine ⟨w ++ w', hpass.trans hpass', ?_⟩
    rwa [List.append_assoc] at he'
  unfold Parser.postfixRest
  refine .kind ?_
  split
  · -- a subscript
    next hk =>
    refine .advance (.bind (ih.expression _) ?_)
    rintro subscript d ⟨ws, hpass, hs⟩
    refine .bind (.expect _ _) fun close d' hpass' => ?_
    refine hloop _ _ d' ((Cursor.Passes.advance hk).trans (hpass.trans hpass')) ?_
    exact .index hb hs
  · -- a field
    next hk =>
    refine .advance (.bind (.expectName _) fun id d hpass => .lastEnd ?_)
    exact hloop _ _ d ((Cursor.Passes.advance hk).trans hpass) (.field id hb)
  · -- A call. Only a name can be called.
    next hk =>
    split
    · next callee span =>
      refine .advance (.bind (ih.argumentList _) ?_)
      rintro es d ⟨args, hpass, hes, hargs⟩
      refine .bind (.expect _ _) fun close d' hpass' => ?_
      refine hloop _ _ d' ((Cursor.Passes.advance hk).trans (hpass.trans hpass')) ?_
      rw [Expr.bare, Expr.bareAll_eq_map, hes]
      exact .call hb hargs
    · exact .peek (.fail _ _)
  · -- a step after the operand, or nothing more
    split
    · next op hop =>
      refine .advance (.bind (ensures_stepOf op .after base _ _) ?_)
      rintro e _ ⟨rfl, hplace, he⟩
      refine hloop e _ _ (Cursor.Passes.advance (symbol_of_stepOp? hop)) ?_
      exact he ▸ .stepAfter op hplace hb
    · exact .pure ⟨[], .refl c, by rwa [List.append_nil]⟩

/-- What is read are arguments with commas between them. -/
theorem ReadsDerived.arguments_succ (ih : ReadsDerived fuel) (c : Cursor) :
    Ensures c (Parser.arguments (fuel + 1)) fun es d => es ≠ [] ∧ DerivedAll c es d := by
  unfold Parser.arguments
  refine .bind (ih.expression c) ?_
  rintro e d ⟨w, hpass, he⟩
  refine .bind (.accept .comma) fun b d' hb => .ite (fun h => ?_) fun h => .pure ?_
  · rw [if_pos h] at hb
    refine .bind (ih.arguments d') ?_
    rintro es d'' ⟨hne, args, hpass', hes, hargs⟩
    refine .pure ⟨List.cons_ne_nil _ _, (w, e.bare) :: args, ?_, ?_, ?_⟩
    · -- A comma was read, so there is another argument behind it.
      obtain ⟨arg, args, rfl⟩ : ∃ arg args', args = arg :: args' := by
        refine List.exists_cons_of_ne_nil ?_
        rintro rfl
        exact hne (List.map_eq_nil_iff.mp hes)
      rw [List.map_cons, List.map_cons, separated_cons_cons]
      exact hpass.trans (hb.trans hpass')
    · rw [List.map_cons, hes, List.map_cons]
    · exact List.forall_mem_cons.mpr ⟨he, hargs⟩
  · rw [if_neg h] at hb
    obtain ⟨rfl, -⟩ := hb
    exact ⟨List.cons_ne_nil _ _, [(w, e.bare)], by simpa using hpass, rfl, by simpa using he⟩

/-- What is read are arguments, or none before the parenthesis that closes the list. -/
theorem ReadsDerived.argumentList_succ (ih : ReadsDerived fuel) (c : Cursor) :
    Ensures c (Parser.argumentList (fuel + 1)) (DerivedAll c) := by
  unfold Parser.argumentList
  refine .kind (.ite (fun _ => .pure ⟨[], .refl c, rfl, List.forall_mem_nil _⟩) fun _ => ?_)
  exact (ih.arguments c).imp fun _ _ h => h.2

/-- The expression of a single token is derived by it. -/
theorem derives_atom? {t : Token} {e : Expr} (h : atom? t = some e) :
    Derives 9 [t.kind] e.bare ∧ t.kind ≠ .eof := by
  obtain ⟨kind, span⟩ := t
  cases kind with
  | identifier id => cases h; exact ⟨.name id, by simp⟩
  | integer n => cases h; exact ⟨.literal (.int n), by simp⟩
  | character c => cases h; exact ⟨.literal (.char c), by simp⟩
  | keyword word =>
    cases word with
    | trueWord => cases h; exact ⟨.literal (.bool true), by simp⟩
    | falseWord => cases h; exact ⟨.literal (.bool false), by simp⟩
    | _ => cases h
  | symbol | eof => cases h

/-- What is read is a literal, a name or an expression in parentheses. -/
theorem ReadsDerived.primary_succ (ih : ReadsDerived fuel) (c : Cursor) :
    Ensures c (Parser.primary (fuel + 1)) (Derived 9 c) := by
  unfold Parser.primary
  refine .peek ?_
  split
  · next e he =>
    obtain ⟨hderives, hne⟩ := derives_atom? he
    exact .advance (.pure ⟨_, .advance rfl hne, hderives⟩)
  · refine .ite (fun hk => ?_) fun _ => .noExpression
    refine .advance (.bind (ih.expression _) ?_)
    rintro e d ⟨w, hpass, he⟩
    refine .bind (.expect _ _) fun _ d' hpass' => .pure ⟨_, ?_, .group he⟩
    exact (Cursor.Passes.advance hk).trans (hpass.trans hpass')

/-- By induction on the number of steps: each function calls the others with one step less. -/
theorem readsDerived (fuel : Nat) : ReadsDerived fuel := by
  induction fuel with
  | zero =>
    constructor <;> intros
    all_goals exact .unfinished
  | succ fuel ih =>
    exact ⟨ih.expression_succ, ih.binary_succ, ih.binaryRest_succ, ih.unary_succ,
      ih.postfixRest_succ, ih.argumentList_succ, ih.arguments_succ, ih.primary_succ⟩

end Parser

end SmallCpp
