import SmallCpp.Proofs.Grammar.Complete
import SmallCpp.Proofs.Grammar.Sound

/-!
# Printing expressions

`Expr.word` prints an expression to token kinds. Where parentheses go around an operand is left to
a rule, which is given the level at which the operand stands. If the rule puts them wherever an
operand is of a lower level than its place (`Covers`), the grammar derives the expression from its
word. `loose` puts them nowhere else; no word of an expression is shorter than the one it gives.
-/

namespace SmallCpp

namespace Expr

/-- The level of the grammar at which the form of the expression stands. -/
def level : Expr → Nat
  | assign .. => 0
  | binary op .. => op.rank
  | unary .. | step _ .before .. => 7
  | step _ .after .. | call .. | index .. | field .. => 8
  | literal .. | name .. => 9

mutual

/-- Whether every target of an assignment or a step is a place. -/
def placed : Expr → Bool
  | literal .. | name .. => true
  | binary _ left right _ => left.placed && right.placed
  | unary _ operand _ => operand.placed
  | assign _ target value _ => target.isPlace && target.placed && value.placed
  | step _ _ target _ => target.isPlace && target.placed
  | call _ _ args _ => allPlaced args
  | index base subscript _ => base.placed && subscript.placed
  | field base _ _ => base.placed

/-- Whether every target in the expressions is a place. -/
def allPlaced : List Expr → Bool
  | [] => true
  | e :: es => e.placed && allPlaced es

end

end Expr

/-- The word between parentheses if asked for. -/
def enclosed (b : Bool) (w : List TokenKind) : List TokenKind :=
  if b then .symbol .lParen :: (w ++ [.symbol .rParen]) else w

/-- Whether an expression that stands at a level is put between parentheses. -/
abbrev ParenRule := Nat → Expr → Bool

namespace ParenRule

/-- Parentheses stand wherever the expression is of a lower level than its place. -/
def Covers (rule : ParenRule) : Prop :=
  ∀ n e, n ≤ 9 → rule n e = false → n ≤ e.level

/-- Parentheses stand only where precedence and associativity require them. -/
def loose : ParenRule :=
  fun n e => e.level < n

/-- Parentheses only where they are required are enough. -/
theorem covers_loose : loose.Covers := by
  intro n e _ h
  simpa [loose] using h

end ParenRule

namespace Expr

section Word

variable (rule : ParenRule)

mutual

/-- The token kinds of the expression, without parentheses around the whole. -/
def word : Expr → List TokenKind
  | literal lit _ => [lit.kind]
  | name id _ => [.identifier id]
  | binary op left right _ =>
    enclosed (rule op.rank left) left.word ++
      .symbol op.symbol :: enclosed (rule (op.rank + 1) right) right.word
  | unary op operand _ => .symbol op.symbol :: enclosed (rule 7 operand) operand.word
  | assign op target value _ =>
    enclosed (rule 8 target) target.word ++
      .symbol (assignSymbol op) :: enclosed (rule 0 value) value.word
  | step op .before target _ => .symbol op.symbol :: enclosed (rule 7 target) target.word
  | step op .after target _ => enclosed (rule 8 target) target.word ++ [.symbol op.symbol]
  | call callee _ args _ =>
    .identifier callee :: .symbol .lParen :: (separated (words args) ++ [.symbol .rParen])
  | index base subscript _ =>
    enclosed (rule 8 base) base.word ++
      .symbol .lBracket :: (enclosed (rule 0 subscript) subscript.word ++ [.symbol .rBracket])
  | field base id _ => enclosed (rule 8 base) base.word ++ [.symbol .dot, .identifier id]

/-- The token kinds of arguments. -/
def words : List Expr → List (List TokenKind)
  | [] => []
  | e :: es => enclosed (rule 0 e) e.word :: words es

end

/-- The token kinds of an expression that stands at the given level. -/
def wordAt (n : Nat) (e : Expr) : List TokenKind :=
  enclosed (rule n e) (e.word rule)

/-- Each argument stands at level 0. -/
theorem words_eq_map (es : List Expr) : words rule es = es.map (wordAt rule 0) := by
  induction es with
  | nil => rfl
  | cons e es ih => rw [words, ih]; rfl

end Word

variable {rule : ParenRule}

/-- No level is above 9. -/
theorem level_le_nine (e : Expr) : e.level ≤ 9 := by
  cases e with
  | binary op => exact Nat.le_trans op.rank_le_six (by decide)
  | step op fixity => cases fixity <;> simp [level]
  | _ => simp [level]

/-- If an expression is derived at its own level without parentheses, it is derived wherever it
stands with those of the rule. -/
theorem derives_wordAt {n : Nat} {e t : Expr} (hrule : rule.Covers) (hn : n ≤ 9)
    (h : Derives e.level (e.word rule) t) : Derives n (e.wordAt rule n) t := by
  rw [wordAt, enclosed]
  split_ifs with hparen
  · have hgroup := Derives.group (h.down e.level_le_nine (Nat.zero_le _))
    exact hgroup.down le_rfl hn
  · exact h.down e.level_le_nine (hrule n e hn (Bool.eq_false_iff.mpr hparen))

mutual

/-- The grammar derives an expression whose targets are places from its word. -/
theorem derives_word (hrule : rule.Covers) :
    ∀ e : Expr, e.placed = true → Derives e.level (e.word rule) e.bare
  | literal lit _, _ => .literal lit
  | name id _, _ => .name id
  | binary op left right _, h => by
    obtain ⟨hl, hr⟩ := Bool.and_eq_true_iff.mp h
    have hrank := op.rank_le_six
    rw [level]
    -- The right operand stands one level up: operators of one level associate to the left.
    exact .binary op.mem_ofLevel_rank
      (derives_wordAt hrule (by omega) (derives_word hrule left hl))
      (derives_wordAt hrule (by omega) (derives_word hrule right hr))
  | unary op operand _, h =>
    .unary op (derives_wordAt hrule (by decide) (derives_word hrule operand h))
  | assign op target value _, h => by
    obtain ⟨h, hv⟩ := Bool.and_eq_true_iff.mp h
    obtain ⟨hplace, ht⟩ := Bool.and_eq_true_iff.mp h
    rw [← isPlace_bare] at hplace
    exact .assign op hplace (derives_wordAt hrule (by decide) (derives_word hrule target ht))
      (derives_wordAt hrule (by decide) (derives_word hrule value hv))
  | step op .before target _, h => by
    obtain ⟨hplace, ht⟩ := Bool.and_eq_true_iff.mp h
    rw [← isPlace_bare] at hplace
    exact .stepBefore op hplace (derives_wordAt hrule (by decide) (derives_word hrule target ht))
  | step op .after target _, h => by
    obtain ⟨hplace, ht⟩ := Bool.and_eq_true_iff.mp h
    rw [← isPlace_bare] at hplace
    exact .stepAfter op hplace (derives_wordAt hrule (by decide) (derives_word hrule target ht))
  | call callee _ args _, h => by
    have hargs : ∀ arg ∈ args.map fun e => (e.wordAt rule 0, e.bare), Derives 0 arg.1 arg.2 := by
      intro arg harg
      obtain ⟨e, he, rfl⟩ := List.mem_map.mp harg
      exact derives_wordAt hrule (by decide) (derives_words hrule args h e he)
    -- The callee is a name, which is an operand as it is.
    have hname : Derives 8 [.identifier callee] (.name callee .nowhere) :=
      .up (by decide) (.name callee)
    have hcall := Derives.call hname hargs
    rw [List.map_map, List.map_map] at hcall
    rw [word, words_eq_map, bare, bareAll_eq_map]
    exact hcall
  | index base subscript _, h => by
    obtain ⟨hb, hs⟩ := Bool.and_eq_true_iff.mp h
    exact .index (derives_wordAt hrule (by decide) (derives_word hrule base hb))
      (derives_wordAt hrule (by decide) (derives_word hrule subscript hs))
  | field base id _, h =>
    .field id (derives_wordAt hrule (by decide) (derives_word hrule base h))

/-- Each of several expressions is derived from its word, at its own level. -/
theorem derives_words (hrule : rule.Covers) :
    ∀ es : List Expr, allPlaced es = true → ∀ e ∈ es, Derives e.level (e.word rule) e.bare
  | [], _ => List.forall_mem_nil _
  | e :: es, h => by
    obtain ⟨he, hes⟩ := Bool.and_eq_true_iff.mp h
    exact List.forall_mem_cons.mpr ⟨derives_word hrule e he, derives_words hrule es hes⟩

end

/-- What is derived from some word is derived from the printed one. -/
theorem derives_word_of_derives {n : Nat} {w : List TokenKind} {e : Expr} (hrule : rule.Covers)
    (h : Derives n w e) : Derives e.level (e.word rule) e := by
  induction h with
  | up _ _ ih => exact ih
  | assign op hplace _ _ iht ihv =>
    exact .assign op hplace (derives_wordAt hrule (by decide) iht)
      (derives_wordAt hrule (by decide) ihv)
  | @binary _ op _ _ _ _ _ _ _ ihl ihr =>
    have hrank := op.rank_le_six
    rw [level]
    exact .binary op.mem_ofLevel_rank (derives_wordAt hrule (by omega) ihl)
      (derives_wordAt hrule (by omega) ihr)
  | unary op _ ih => exact .unary op (derives_wordAt hrule (by decide) ih)
  | stepBefore op hplace _ ih => exact .stepBefore op hplace (derives_wordAt hrule (by decide) ih)
  | stepAfter op hplace _ ih => exact .stepAfter op hplace (derives_wordAt hrule (by decide) ih)
  | index _ _ ihb ihs =>
    exact .index (derives_wordAt hrule (by decide) ihb) (derives_wordAt hrule (by decide) ihs)
  | field id _ ih => exact .field id (derives_wordAt hrule (by decide) ih)
  | @call callee w args _ _ _ ihargs =>
    have hargs : ∀ arg ∈ args.map fun arg => (arg.2.wordAt rule 0, arg.2),
        Derives 0 arg.1 arg.2 := by
      intro arg harg
      obtain ⟨arg, hmem, rfl⟩ := List.mem_map.mp harg
      exact derives_wordAt hrule (by decide) (ihargs arg hmem)
    have hcall := Derives.call (.up (by decide) (.name callee)) hargs
    rw [List.map_map, List.map_map] at hcall
    rw [word, words_eq_map, List.map_map]
    exact hcall
  | literal lit => exact .literal lit
  | name id => exact .name id
  -- The parentheses of the given word are dropped; the rule puts its own.
  | group _ ih => exact ih

section Tokens

variable {S : TokenKind → Prop} (hsymbol : ∀ s, S (.symbol s))
include hsymbol

/-- Parentheses are symbols, so only the word between them counts. -/
theorem forall_enclosed (b : Bool) {w : List TokenKind} :
    (∀ k ∈ enclosed b w, S k) ↔ ∀ k ∈ w, S k := by
  cases b with
  | false => exact Iff.rfl
  | true =>
    rw [enclosed, if_pos rfl, List.forall_mem_cons, List.forall_mem_append,
      List.forall_mem_singleton]
    exact ⟨fun h => h.2.1, fun h => ⟨hsymbol _, h, hsymbol _⟩⟩

/-- Commas are symbols, so only the words between them count. -/
theorem forall_separated {ws : List (List TokenKind)} :
    (∀ k ∈ separated ws, S k) ↔ ∀ w ∈ ws, ∀ k ∈ w, S k := by
  induction ws with
  | nil => simp
  | cons w ws ih =>
    cases ws with
    | nil => simp
    | cons w' ws =>
      rw [separated_cons_cons, List.forall_mem_append, List.forall_mem_cons, ih,
        List.forall_mem_cons (l := w' :: ws)]
      exact ⟨fun h => ⟨h.1, h.2.2⟩, fun h => ⟨h.1, hsymbol _, h.2⟩⟩

/-- The printed word has the tokens of any other word of the expression, and symbols. -/
theorem forall_word {n : Nat} {w : List TokenKind} {e : Expr} (h : Derives n w e)
    (hw : ∀ k ∈ w, S k) : ∀ k ∈ e.word rule, S k := by
  induction h with
  | up _ _ ih => exact ih hw
  | assign op _ _ _ iht ihv =>
    rw [List.forall_mem_append, List.forall_mem_cons] at hw
    rw [word, List.forall_mem_append, List.forall_mem_cons, forall_enclosed hsymbol,
      forall_enclosed hsymbol]
    exact ⟨iht hw.1, hsymbol _, ihv hw.2.2⟩
  | binary _ _ _ ihl ihr =>
    rw [List.forall_mem_append, List.forall_mem_cons] at hw
    rw [word, List.forall_mem_append, List.forall_mem_cons, forall_enclosed hsymbol,
      forall_enclosed hsymbol]
    exact ⟨ihl hw.1, hsymbol _, ihr hw.2.2⟩
  | unary op _ ih | stepBefore op _ _ ih =>
    rw [List.forall_mem_cons] at hw
    rw [word, List.forall_mem_cons, forall_enclosed hsymbol]
    exact ⟨hsymbol _, ih hw.2⟩
  | stepAfter op _ _ ih | field id _ ih =>
    rw [List.forall_mem_append] at hw
    rw [word, List.forall_mem_append, forall_enclosed hsymbol]
    exact ⟨ih hw.1, hw.2⟩
  | index _ _ ihb ihs =>
    rw [List.forall_mem_append, List.forall_mem_cons, List.forall_mem_append] at hw
    rw [word, List.forall_mem_append, List.forall_mem_cons, List.forall_mem_append,
      forall_enclosed hsymbol, forall_enclosed hsymbol]
    exact ⟨ihb hw.1, hsymbol _, ihs hw.2.2.1, hw.2.2.2⟩
  | @call callee w args _ _ ihcallee ihargs =>
    rw [List.forall_mem_append, List.forall_mem_cons, List.forall_mem_append,
      forall_separated hsymbol, List.forall_mem_map] at hw
    rw [word, List.forall_mem_cons, List.forall_mem_cons, List.forall_mem_append,
      forall_separated hsymbol, words_eq_map, List.map_map, List.forall_mem_map]
    refine ⟨ihcallee hw.1 _ List.mem_cons_self, hsymbol _, fun arg harg => ?_, hw.2.2.2⟩
    exact (forall_enclosed hsymbol _).mpr (ihargs arg harg (hw.2.2.1 arg harg))
  | literal lit => exact hw
  | name id => exact hw
  | group _ ih =>
    rw [List.forall_mem_cons, List.forall_mem_append] at hw
    exact ih hw.2.1

end Tokens

section Bare

variable (hbare : ∀ n e, rule n (bare e) = rule n e)
include hbare

mutual

/-- Spans do not show in the printed word. -/
theorem word_bare : ∀ e : Expr, e.bare.word rule = e.word rule
  | literal .. | name .. => rfl
  | binary op left right _ => by
    simp only [bare, word, hbare, word_bare left, word_bare right]
  | unary op operand _ => by simp only [bare, word, hbare, word_bare operand]
  | assign op target value _ => by
    simp only [bare, word, hbare, word_bare target, word_bare value]
  | step op .before target _ => by simp only [bare, word, hbare, word_bare target]
  | step op .after target _ => by simp only [bare, word, hbare, word_bare target]
  | call callee _ args _ => by simp only [bare, word, words_bareAll args]
  | index base subscript _ => by
    simp only [bare, word, hbare, word_bare base, word_bare subscript]
  | field base id _ => by simp only [bare, word, hbare, word_bare base]

/-- Spans do not show in the printed words of several expressions. -/
theorem words_bareAll : ∀ es : List Expr, words rule (bareAll es) = words rule es
  | [] => rfl
  | e :: es => by simp only [bareAll, words, hbare, word_bare e, words_bareAll es]

end

end Bare

end Expr

/-! ### No word is shorter -/

section Loose

variable {n m : Nat}

/-- Parentheses are two tokens. -/
theorem length_enclosed (b : Bool) (w : List TokenKind) :
    (enclosed b w).length = w.length + if b then 2 else 0 := by
  cases b <;> simp [enclosed]

/-- No parentheses stand around an expression of the level of its place or of a higher one. -/
theorem wordAt_loose {e : Expr} (h : n ≤ e.level) : e.wordAt .loose n = e.word .loose := by
  rw [Expr.wordAt, ParenRule.loose, decide_eq_false (Nat.not_lt.mpr h)]
  rfl

/-- At a higher level a word is at least as long. -/
theorem length_wordAt_mono (e : Expr) (h : n ≤ m) :
    (e.wordAt .loose n).length ≤ (e.wordAt .loose m).length := by
  simp only [Expr.wordAt, ParenRule.loose, length_enclosed, decide_eq_true_eq]
  split_ifs <;> omega

/-- Words between commas are at least as long as other words if each of them is. -/
theorem length_separated_le {α : Type} {f g : α → List TokenKind} {xs : List α}
    (h : ∀ x ∈ xs, (f x).length ≤ (g x).length) :
    (separated (xs.map f)).length ≤ (separated (xs.map g)).length := by
  induction xs with
  | nil => exact le_rfl
  | cons x xs ih =>
    obtain ⟨hx, hxs⟩ := List.forall_mem_cons.mp h
    cases xs with
    | nil => simpa using hx
    | cons y ys =>
      have := ih hxs
      simp only [List.map_cons, separated_cons_cons, List.length_append, List.length_cons] at this ⊢
      omega

/-- With parentheses only where they are required, no word of the expression is shorter. -/
theorem length_wordAt_le {w : List TokenKind} {e : Expr} (h : Derives n w e) :
    (e.wordAt .loose n).length ≤ w.length := by
  induction h with
  | up _ _ ih => exact (length_wordAt_mono _ (Nat.le_succ _)).trans ih
  | assign op _ _ _ iht ihv =>
    rw [wordAt_loose (Nat.zero_le _), Expr.word]
    rw [Expr.wordAt] at iht ihv
    simp only [List.length_append, List.length_cons]
    omega
  | binary hop _ _ ihl ihr =>
    obtain rfl := BinaryOp.mem_ofLevel_iff.mp hop
    rw [wordAt_loose (by exact le_rfl), Expr.word]
    rw [Expr.wordAt] at ihl ihr
    simp only [List.length_append, List.length_cons]
    omega
  | unary op _ ih | stepBefore op _ _ ih =>
    rw [wordAt_loose (by exact le_rfl), Expr.word]
    exact Nat.succ_le_succ ih
  | stepAfter op _ _ ih | field id _ ih =>
    rw [wordAt_loose (by exact le_rfl), Expr.word, List.length_append, List.length_append]
    exact Nat.add_le_add_right ih _
  | index _ _ ihb ihs =>
    rw [wordAt_loose (by exact le_rfl), Expr.word]
    rw [Expr.wordAt] at ihb ihs
    simp only [List.length_append, List.length_cons]
    omega
  | @call callee w args hcallee hargs ihcallee ihargs =>
    have hsep : (separated (args.map (Expr.wordAt .loose 0 ∘ Prod.snd))).length ≤ _ :=
      length_separated_le ihargs
    have hpos := hcallee.length_pos
    rw [wordAt_loose (by exact le_rfl), Expr.word, Expr.words_eq_map, List.map_map]
    simp only [List.length_append, List.length_cons]
    omega
  | literal lit => exact le_rfl
  | name id => exact le_rfl
  | group h ih =>
    rw [wordAt_loose (Nat.zero_le _)] at ih
    simp only [Expr.wordAt, length_enclosed, List.length_cons, List.length_append,
      List.length_nil]
    split_ifs <;> omega

end Loose

/-- The parser of expressions accepts exactly what the grammar derives. Before a token that
continues no expression, it reads the word `w` and gives a tree if and only if `w` derives the tree,
spans aside. An expression whose targets are places, printed with parentheses only where precedence
and associativity require them, is read back; and no word that derives a tree is shorter than the
printed one. Steps in proportion to the length of the word are enough. -/
theorem expression_iff_derives :
    (∀ (c : Cursor) (w rest : List TokenKind) (k : TokenKind) (fuel : Nat) (t : Expr),
      c.kinds = w ++ k :: rest → ¬k.ContinuesExpression → 8 * w.length ≤ fuel →
        ((∃ e d, Parser.expression fuel c = .ok e d ∧ d.kinds = k :: rest ∧ e.bare = t) ↔
          Derives 0 w t)) ∧
    (∀ (t : Expr) (c : Cursor) (rest : List TokenKind) (k : TokenKind) (fuel : Nat),
      t.placed = true → c.kinds = t.wordAt .loose 0 ++ k :: rest → ¬k.ContinuesExpression →
        8 * (t.wordAt .loose 0).length ≤ fuel →
          ∃ e d, Parser.expression fuel c = .ok e d ∧ d.kinds = k :: rest ∧ e.bare = t.bare) ∧
    ∀ (w : List TokenKind) (t : Expr), Derives 0 w t → (t.wordAt .loose 0).length ≤ w.length := by
  have hcomplete : ∀ (c : Cursor) (w rest : List TokenKind) (k : TokenKind) (fuel : Nat) (t : Expr),
      c.kinds = w ++ k :: rest → ¬k.ContinuesExpression → 8 * w.length ≤ fuel → Derives 0 w t →
        ∃ e d, Parser.expression fuel c = .ok e d ∧ d.kinds = k :: rest ∧ e.bare = t := by
    intro c w rest k fuel t hc hk hfuel h
    have hreads : Parser.ReadsExpression w t := Parser.reads_of_derives h
    obtain ⟨e, d, he, hd, -, ht⟩ := hreads fuel (k :: rest) (by omega) hk c hc
    exact ⟨e, d, he, hd, ht⟩
  refine ⟨fun c w rest k fuel t hc hk hfuel => ⟨?_, hcomplete c w rest k fuel t hc hk hfuel⟩, ?_,
    fun w t h => length_wordAt_le h⟩
  · rintro ⟨e, d, he, hd, rfl⟩
    obtain ⟨w', hpass, h⟩ := (Parser.readsDerived fuel).expression c e d he
    have hw : w' ++ k :: rest = w ++ k :: rest := by rw [← hd, ← hpass.1, hd, hc]
    rwa [List.append_cancel_right hw] at h
  · intro t c rest k fuel ht hc hk hfuel
    exact hcomplete c _ rest k fuel _ hc hk hfuel
      (Expr.derives_wordAt ParenRule.covers_loose (by decide)
        (Expr.derives_word ParenRule.covers_loose t ht))

/-- The tokens of
`s[i++] += a || b && c == d < e - f - g * -h(j, (k = 1) - 2) >= m != n && p || q`. -/
def everyLevelWord : List TokenKind :=
  [.identifier "s", .symbol .lBracket, .identifier "i", .symbol .plusPlus, .symbol .rBracket,
    .symbol .plusEq, .identifier "a", .symbol .pipePipe, .identifier "b", .symbol .ampAmp,
    .identifier "c", .symbol .eqEq, .identifier "d", .symbol .lt, .identifier "e", .symbol .minus,
    .identifier "f", .symbol .minus, .identifier "g", .symbol .star, .symbol .minus,
    .identifier "h", .symbol .lParen, .identifier "j", .symbol .comma, .symbol .lParen,
    .identifier "k", .symbol .eq, .integer 1, .symbol .rParen, .symbol .minus, .integer 2,
    .symbol .rParen, .symbol .gtEq, .identifier "m", .symbol .bangEq, .identifier "n",
    .symbol .ampAmp, .identifier "p", .symbol .pipePipe, .identifier "q"]

/-- The tree of `everyLevelWord`: the operators go up through the levels and down again, and at each
level the one on the left belongs to the left operand of the one on the right. -/
def everyLevel : Expr :=
  let var (id : String) : Expr := .name id .nowhere
  let int (n : Int64) : Expr := .literal (.int n) .nowhere
  let bin (op : BinaryOp) (left right : Expr) : Expr := .binary op left right .nowhere
  let call : Expr := .call "h" .nowhere
    [var "j", bin (.arith .sub) (.assign none (var "k") (int 1) .nowhere) (int 2)] .nowhere
  let sum := bin (.arith .sub) (bin (.arith .sub) (var "e") (var "f"))
    (bin (.arith .mul) (var "g") (.unary .neg call .nowhere))
  let ordering := bin (.compare .ge) (bin (.compare .lt) (var "d") sum) (var "m")
  let equality := bin (.compare .ne) (bin (.compare .eq) (var "c") ordering) (var "n")
  let both := bin (.logic .and) (bin (.logic .and) (var "b") equality) (var "p")
  .assign (some .add) (.index (var "s") (.step .increment .after (var "i") .nowhere) .nowhere)
    (bin (.logic .or) (bin (.logic .or) (var "a") both) (var "q")) .nowhere

/-- A cursor before a word with a semicolon and the end of file after it. -/
def Cursor.before (w : List TokenKind) : Cursor :=
  .start ((w ++ [TokenKind.symbol .semi, .eof]).map fun k => ⟨k, .nowhere⟩)

/-- With an operator of every level on both sides of the tighter ones, the tree is the one that is
written out, and no parentheses but those around the assignment are required. -/
theorem expression_iff_derives_everyLevel :
    everyLevel.placed = true ∧ ¬(TokenKind.symbol .semi).ContinuesExpression ∧
      everyLevel.wordAt .loose 0 = everyLevelWord ∧ Derives 0 everyLevelWord everyLevel ∧
      ∃ e d, Parser.expression 328 (.before everyLevelWord) = .ok e d ∧
        d.kinds = [.symbol .semi, .eof] ∧ e.bare = everyLevel := by
  have hk : ¬(TokenKind.symbol .semi).ContinuesExpression := by decide
  have hword : everyLevel.wordAt .loose 0 = everyLevelWord := by decide
  have hkinds : (Cursor.before everyLevelWord).kinds =
      everyLevelWord ++ [.symbol .semi, .eof] := by decide
  have hread := expression_iff_derives.2.1 everyLevel (.before everyLevelWord) [.eof]
    (.symbol .semi) 328 (by decide) (by rw [hword]; exact hkinds) hk (by rw [hword]; decide)
  exact ⟨by decide, hk, hword,
    (expression_iff_derives.1 _ _ [.eof] _ 328 _ hkinds hk (by decide)).mp hread, hread⟩

end SmallCpp
