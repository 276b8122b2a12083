import SmallCpp.Proofs.Printer

/-!
# Printed programs are read back

One lemma for each function of the parser of programs: before a token that does not continue it,
the printed word of a well-formed part is read, and the part comes back up to spans. The steps it
takes are in proportion to the length of the word.
-/

namespace SmallCpp

-- Most proofs below unfold these; their equations are made here, once, and not in each proof.
attribute [local simp] Initializer.word Statement.word Statement.bare Parser.statement

/-- Spans do not change the level at which an expression stands. -/
theorem Expr.level_bare (e : Expr) : e.bare.level = e.level := by
  cases e with
  | step op fixity => cases fixity <;> rfl
  | _ => rfl

/-- Whether the printer puts parentheses does not depend on spans. -/
theorem ParenRule.full_bare (n : Nat) (e : Expr) : full n e.bare = full n e := by
  rw [full, full, e.level_bare]

namespace Expr.MadeOf

variable {S : TokenKind → Prop} {e : Expr}

/-- What can be derived at all is derived from its own printed word, at its own level. -/
theorem derives_word (h : e.MadeOf S) : Derives e.level (e.word .full) e.bare := by
  obtain ⟨w, -, hw⟩ := h
  have hword := derives_word_of_derives ParenRule.covers_full hw
  rwa [level_bare, word_bare ParenRule.full_bare] at hword

/-- The printed word of an expression derives it. -/
theorem derives_printed (h : e.MadeOf S) : Derives 0 e.printed e.bare :=
  derives_wordAt ParenRule.covers_full (by decide) h.derives_word

/-- The word in parentheses, in which a statement prints its expression, derives it too. -/
theorem derives_enclosed (h : e.MadeOf S) : Derives 0 (enclosed true (e.word .full)) e.bare :=
  (Derives.group (h.derives_word.down e.level_le_nine (by omega))).down le_rfl (by omega)

/-- The printed word of an expression is read back. -/
theorem reads (h : e.MadeOf S) : Parser.ReadsExpression e.printed e.bare :=
  Parser.reads_of_derives h.derives_printed

/-- The printed word of an expression starts as an expression does. -/
theorem starts (h : e.MadeOf S) : Starts TokenKind.startsExpression e.printed :=
  h.derives_printed.startsExpression

end Expr.MadeOf

/-- Types are equal up to spans if their bounds are. -/
theorem WrittenType.bare_withBounds {known : List String} {type : WrittenType}
    (h : type.IsBase known) (bounds : List (Option Expr)) :
    (type.withBounds bounds).bare = type.withBounds (bounds.map (Option.map Expr.bare)) := by
  induction bounds with
  | nil =>
    cases type with
    | array => exact h.elim
    | _ => rfl
  | cons bound bounds ih => exact congrArg (array · (bound.map Expr.bare)) ih

namespace Parser

variable {S : TokenKind → Prop} {known : List String} {rest : List TokenKind}

/-- A base type is printed as one token, and known records are recognised by name. -/
theorem accepts_baseType {type : WrittenType} (h : type.IsBase known) :
    Accepts (baseType known) [type.baseKind] rest (·.1 = type) := by
  have hne := type.baseKind_ne (k := .eof) rfl
  unfold baseType
  refine .look .peek fun t ht => ?_
  dsimp only
  rw [show t.kind = type.baseKind from ht]
  cases type with
  | named name => exact .pos h (.token (.advance hne) fun _ _ => .pure rfl)
  | array => exact h.elim
  | _ => exact .token (.advance hne) fun _ _ => .pure rfl

/-- Bounds are read up to a token that opens no further one. -/
theorem accepts_bounds {name : String} {bare : Bool} {dims : List (Option Expr)}
    (hdims : BoundsWellFormed S dims) (hbare : bare = true → dims = [])
    (hrest : rest.headD .eof ≠ .symbol .lBracket) :
    ∀ fuel, 8 * (boundsWord dims).length < fuel →
      Accepts (bounds name bare fuel) (boundsWord dims) rest
        (·.map (Option.map Expr.bare) = dims.map (Option.map Expr.bare)) := by
  induction dims with
  | nil =>
    -- Nothing is left to read, since the next token opens no bound.
    intro fuel hfuel
    obtain ⟨fuel, rfl⟩ : ∃ f, fuel = f + 1 := ⟨fuel - 1, by omega⟩
    unfold bounds
    refine .look .peek fun t ht => .neg ?_ (.pure rfl)
    rw [ht]
    exact hrest
  | cons bound dims ih =>
    intro fuel hfuel
    obtain ⟨fuel, rfl⟩ : ∃ f, fuel = f + 1 := ⟨fuel - 1, by omega⟩
    obtain ⟨hbound, hdims⟩ := List.forall_mem_cons.mp hdims
    -- A reference without parentheses has no bounds, so this is none.
    have hnot : ¬bare = true := fun h => absurd (hbare h) (List.cons_ne_nil _ _)
    have hword : boundsWord (bound :: dims) = .symbol .lBracket ::
        (Expr.printed? bound ++ .symbol .rBracket :: boundsWord dims) := by
      simp [boundsWord]
    rw [hword] at hfuel ⊢
    simp only [List.length_cons, List.length_append] at hfuel
    have hmore := ih hdims (fun h => absurd h hnot) fuel (by omega)
    unfold bounds
    refine .look .peek fun t ht => .pos ht (.token .advance fun _ _ => .neg hnot ?_)
    cases bound with
    | none =>
      refine .token (.accept .rBracket) fun _ hb => .pos hb ?_
      refine .whole hmore fun ds hds => .pure ?_
      exact congrArg (none :: ·) hds
    | some e =>
      have he := hbound e rfl
      refine .look (.decline .rBracket ?_) fun _ hb => .neg (by simp [hb]) ?_
      · rw [List.append_assoc]
        exact he.starts.headD_ne rfl _ _
      · have hread := he.reads fuel (.symbol .rBracket :: boundsWord dims ++ rest)
          (by rw [Expr.printed?] at hfuel; omega)
          (TokenKind.not_continuesExpression_of_closes rfl)
        refine .bind hread fun d hd => .token (.expect .rBracket .boundClose) fun _ _ => ?_
        refine .whole hmore fun ds hds => .pure ?_
        exact congrArg₂ List.cons (congrArg some hd) hds

/-- A plain name, before which neither a parenthesis nor `&` stands. -/
theorem accepts_declaredName (name : String) :
    Accepts declaredName [.identifier name] rest (· = (name, false, false)) := by
  unfold declaredName
  refine .look (.decline .lParen (by simp)) fun _ hb => .neg (by simp [hb]) ?_
  refine .look (.decline .amp (by simp)) fun _ hb => .neg (by simp [hb]) ?_
  exact .token (.expectName name _) fun _ hname => .pure (by rw [hname])

/-- A reference without bounds is marked by `&` alone. -/
theorem accepts_declaredName_reference (name : String) :
    Accepts declaredName [.symbol .amp, .identifier name] rest (· = (name, true, true)) := by
  unfold declaredName
  refine .look (.decline .lParen (by simp)) fun _ hb => .neg (by simp [hb]) ?_
  refine .token (.accept .amp) fun _ hb => .pos hb ?_
  exact .token (.expectName name _) fun _ hname => .pure (by rw [hname])

/-- A reference with bounds stands in parentheses, so that `&` does not go to its elements. -/
theorem accepts_declaredName_enclosed (name : String) :
    Accepts declaredName [.symbol .lParen, .symbol .amp, .identifier name, .symbol .rParen] rest
      (· = (name, true, false)) := by
  unfold declaredName
  refine .token (.accept .lParen) fun _ hb => .pos hb ?_
  refine .token (.expect .amp _) fun _ _ => .token (.expectName name _) fun _ hname => ?_
  exact .token (.expect .rParen _) fun _ _ => .pure (by rw [hname])

/-- A declarator is read up to a token that opens no bound. -/
theorem accepts_declarator {name : String} {byRef : Bool} {dims : List (Option Expr)} {fuel : Nat}
    (hdims : BoundsWellFormed S dims) (hrest : rest.headD .eof ≠ .symbol .lBracket)
    (hfuel : 8 * (declaratorWord name byRef dims).length ≤ fuel) :
    Accepts (declarator fuel) (declaratorWord name byRef dims) rest fun r =>
      r.name = name ∧ r.byRef = byRef ∧
        r.bounds.map (Option.map Expr.bare) = dims.map (Option.map Expr.bare) := by
  -- the three forms of the declared name differ only in the word before the bounds
  have hform : ∀ (w : List TokenKind) (bare : Bool), (bare = true → dims = []) →
      (∀ rest, Accepts declaredName w rest (· = (name, byRef, bare))) →
      8 * (boundsWord dims).length < fuel →
      Accepts (declarator fuel) (w ++ boundsWord dims) rest fun r =>
        r.name = name ∧ r.byRef = byRef ∧
          r.bounds.map (Option.map Expr.bare) = dims.map (Option.map Expr.bare) := by
    intro w bare hbare hname hfuel
    unfold declarator
    refine .look .peek fun _ _ => .bind (hname _) ?_
    rintro _ rfl
    refine .whole (accepts_bounds hdims hbare hrest fuel hfuel) fun ds hds => ?_
    exact .look .lastEnd fun _ _ => .pure ⟨rfl, rfl, hds⟩
  -- With bounds, a reference needs the parentheses.
  cases byRef with
  | false =>
    rw [declaratorWord, List.length_cons] at hfuel
    exact hform _ false (by simp) (fun _ => accepts_declaredName name) (by omega)
  | true =>
    cases dims with
    | nil =>
      rw [declaratorWord, List.length_cons] at hfuel
      have hempty : 8 * (boundsWord []).length < fuel := by
        change 0 < fuel
        omega
      exact hform _ true (fun _ => rfl) (fun _ => accepts_declaredName_reference name) hempty
    | cons bound dims =>
      simp only [declaratorWord, List.length_cons] at hfuel
      exact hform _ false (by simp) (fun _ => accepts_declaredName_enclosed name) (by omega)

/-- The tokens that start an initializer. -/
def startsInitializer (k : TokenKind) : Bool :=
  k = .symbol .lBrace || k.startsExpression

/-- An initializer starts with a brace or as an expression does. -/
theorem starts_initializer {i : Initializer} (h : i.Each (Expr.MadeOf S)) :
    Starts startsInitializer i.word := by
  cases i with
  | expr e =>
    have he : e.MadeOf S := h
    exact he.starts.mono fun k hk => by rw [startsInitializer, hk, Bool.or_true]
  | list items span => exact ⟨_, _, rfl, rfl⟩

/-- Before anything but a closing brace the list of initializers has a first one. -/
theorem initializers_apply (fuel : Nat) {c : Cursor} (hc : startsInitializer c.kind = true) :
    initializers (fuel + 1) c = (do
      let item ← initializer fuel
      if ← accept .comma then
        return item :: (← initializers fuel)
      else
        return [item] : Parser (List Initializer)) c := by
  have hkind : c.kind ≠ .symbol .rBrace := by
    intro h
    rw [h] at hc
    cases hc
  rw [initializers]
  change (if c.kind = .symbol .rBrace then _ else _ : Parser (List Initializer)) c = _
  rw [if_neg hkind]

mutual

/-- An initializer is read up to a token that continues no expression. -/
theorem accepts_initializer : ∀ i : Initializer, i.Each (Expr.MadeOf S) →
    ∀ fuel rest, 8 * i.word.length ≤ fuel → ¬(rest.headD .eof).ContinuesExpression →
      Accepts (initializer fuel) i.word rest (·.bare = i.bare)
  | .expr e, he, fuel, rest, hfuel, hrest => by
    have he : e.MadeOf S := he
    have hlength := he.starts.length_pos
    rw [Initializer.word] at hfuel ⊢
    obtain ⟨fuel, rfl⟩ : ∃ f, fuel = f + 1 := ⟨fuel - 1, by omega⟩
    unfold initializer
    refine .look .peek fun t ht => .neg ?_ ?_
    · rw [ht]
      exact he.starts.headD_ne rfl _ _
    · refine .whole (he.reads fuel _ (by omega) hrest) fun d hd => .pure ?_
      rw [Initializer.bare, hd, Initializer.bare]
  | .list items span, hitems, fuel, rest, hfuel, hrest => by
    rw [Initializer.word, List.length_cons, List.length_append, List.length_singleton,
      Initializer.words_eq_map] at hfuel
    rw [Initializer.word, Initializer.words_eq_map]
    obtain ⟨fuel, rfl⟩ : ∃ f, fuel = f + 1 := ⟨fuel - 1, by omega⟩
    unfold initializer
    refine .look .peek fun t ht => .pos ht (.token .advance fun _ _ => ?_)
    have hread : Accepts (initializers fuel) (separated (items.map Initializer.word))
        (.symbol .rBrace :: rest) (·.map Initializer.bare = items.map Initializer.bare) := by
      cases items with
      | nil =>
        obtain ⟨fuel, rfl⟩ : ∃ f, fuel = f + 1 := ⟨fuel - 1, by omega⟩
        unfold initializers
        exact .onKind rfl (.pos rfl (.pure rfl))
      | cons i is =>
        refine .separated startsInitializer (fun k => ¬k.ContinuesExpression) 0
          (fun fuel c => initializers_apply fuel) ?_ ?_ (by simp) (List.cons_ne_nil _ _)
          (accepts_initializers (i :: is) hitems) fuel (by omega)
        · exact TokenKind.not_continuesExpression_of_closes rfl
        · exact TokenKind.not_continuesExpression_of_closes rfl
    refine .bind hread fun is his => .token (.expect .rBrace _) fun _ _ => .pure ?_
    rw [Initializer.bare, Initializer.bare, Initializer.bareAll_eq_map, his,
      Initializer.bareAll_eq_map]

/-- All initializers of a list are read, each before a comma or the closing brace. -/
theorem accepts_initializers : ∀ is : List Initializer, Initializer.EachIn (Expr.MadeOf S) is →
    ∀ i ∈ is, Starts startsInitializer i.word ∧
      ∀ fuel rest, 8 * i.word.length ≤ fuel → ¬(rest.headD .eof).ContinuesExpression →
        Accepts (initializer fuel) i.word rest (·.bare = i.bare)
  | [], _ => List.forall_mem_nil _
  | i :: is, h => List.forall_mem_cons.mpr
      ⟨⟨starts_initializer h.1, accepts_initializer i h.1⟩, accepts_initializers is h.2⟩

end

/-- A token that continues no expression is none of the symbols that do. -/
theorem ne_of_not_continuesExpression {k : TokenKind} {s : Symbol} (hk : ¬k.ContinuesExpression)
    (hs : (TokenKind.symbol s).ContinuesExpression) : k ≠ .symbol s := by
  rintro rfl
  exact hk hs

/-- The type that a declarator adds bounds to is the declared one, up to spans. -/
theorem bare_of_bounds {type whole : WrittenType} {ds : List (Option Expr)}
    (hbase : type.IsBase known) (hwhole : whole.base = type)
    (hds : ds.map (Option.map Expr.bare) = whole.dims.map (Option.map Expr.bare)) :
    (type.withBounds ds).bare = whole.bare := by
  have hsplit : whole = type.withBounds whole.dims := by rw [← hwhole, whole.withBounds_dims]
  rw [hsplit, WrittenType.bare_withBounds hbase, WrittenType.bare_withBounds hbase, hds]

/-- An initializer is read where an equals sign announces it. -/
theorem accepts_initializer? {init : Option Initializer} {fuel : Nat}
    (hinit : ∀ i ∈ init, i.Each (Expr.MadeOf S)) (hfuel : 8 * (initWord init).length ≤ fuel)
    (hrest : ¬(rest.headD .eof).ContinuesExpression) :
    Accepts (initializer? fuel) (initWord init) rest
      (·.map Initializer.bare = init.map Initializer.bare) := by
  unfold initializer?
  cases init with
  | none =>
    have heq := ne_of_not_continuesExpression hrest (s := .eq) (by decide)
    exact .look (.decline .eq heq) fun _ hb => .neg (by simp [hb]) (.pure rfl)
  | some i =>
    rw [initWord, List.length_cons] at hfuel
    have hread := accepts_initializer i (hinit i rfl) fuel rest (by omega) hrest
    refine .token (.accept .eq) fun _ hb => .pos hb ?_
    exact .whole hread fun d hd => .pure (congrArg some hd)

/-- A variable is read back with its bounds and its initializer. -/
theorem accepts_varDecl {type : WrittenType} {decl : VarDecl} {fuel : Nat}
    (hbase : type.IsBase known) (hdecl : decl.WellFormed S type)
    (hfuel : 8 * decl.word.length ≤ fuel) (hrest : ¬(rest.headD .eof).ContinuesExpression) :
    Accepts (varDecl type fuel) decl.word rest (·.bare = decl.bare) := by
  rw [VarDecl.word] at hfuel ⊢
  rw [List.length_append] at hfuel
  -- After the declarator comes an equals sign, or what follows the variable.
  have hopen : (initWord decl.init ++ rest).headD .eof ≠ .symbol .lBracket := by
    cases decl.init with
    | none => exact ne_of_not_continuesExpression hrest (by decide)
    | some i => simp [initWord]
  unfold varDecl
  refine .bind (accepts_declarator hdecl.bounds hopen (by omega)) ?_
  rintro r ⟨hname, hbyRef, hbounds⟩
  refine .whole (accepts_initializer? hdecl.init (by omega) hrest) fun init hinit => ?_
  refine .look .lastEnd fun _ _ => .pure ?_
  rw [VarDecl.bare, VarDecl.bare, hname, hbyRef, hinit, bare_of_bounds hbase hdecl.type hbounds]

/-- A declarator never starts with a closing parenthesis, so that an empty list of parameters is
told from a list with a first one. -/
theorem starts_declarator (name : String) (byRef : Bool) (dims : List (Option Expr)) :
    Starts (fun k => k ≠ .symbol .rParen) (declaratorWord name byRef dims) := by
  cases byRef with
  | false => exact ⟨_, _, rfl, by simp⟩
  | true => cases dims <;> exact ⟨_, _, rfl, by simp⟩

/-- The variables of a declaration are read with their semicolon. -/
theorem accepts_declarations {type : WrittenType} {decls : List VarDecl} {start fuel : Nat}
    (htype : type.IsVariable known) (hne : decls ≠ [])
    (hdecls : ∀ decl ∈ decls, decl.WellFormed S type)
    (hfuel : 8 * (separated (decls.map VarDecl.word)).length < fuel) :
    Accepts (declarations type start fuel)
      (separated (decls.map VarDecl.word) ++ [.symbol .semi]) rest
      (·.map VarDecl.bare = decls.map VarDecl.bare) := by
  have hread : Accepts (varDecls type fuel) (separated (decls.map VarDecl.word))
      (.symbol .semi :: rest) (·.map VarDecl.bare = decls.map VarDecl.bare) := by
    refine .separated (fun _ => true) (fun k => ¬k.ContinuesExpression) 0
      (fun fuel c _ => by rw [varDecls]) (TokenKind.not_continuesExpression_of_closes rfl) ?_
      (by simp) hne (fun decl hdecl => ⟨?_, fun fuel rest hfuel hrest => ?_⟩) fuel (by omega)
    · exact TokenKind.not_continuesExpression_of_closes rfl
    · exact ((starts_declarator _ _ _).append _).mono fun _ _ => rfl
    · exact accepts_varDecl htype.1 (hdecls decl hdecl) (by omega) hrest
  unfold declarations
  refine .neg (by simp [htype.2]) (.bind hread fun ds hds => ?_)
  exact .token (.expect .semi _) fun _ _ => .pure hds

/-- A type is printed with the token of its base type. -/
theorem baseKind_base (type : WrittenType) : type.base.baseKind = type.baseKind := by
  induction type with
  | array elem bound ih => exact ih
  | _ => rfl

/-- The token of a base type starts a declaration. -/
theorem startsDeclaration_baseKind {type : WrittenType} (h : type.IsBase known) :
    startsDeclaration known type.baseKind = true := by
  cases type with
  | named name => exact decide_eq_true h
  | array => exact h.elim
  | _ => rfl

/-- The printed word of a declaration is the base type and the variables. -/
theorem declarationWord_eq {type : WrittenType} {decls : List VarDecl} (hne : decls ≠ [])
    (hdecls : ∀ decl ∈ decls, decl.WellFormed S type) : declarationWord decls =
      type.baseKind :: (separated (decls.map VarDecl.word) ++ [.symbol .semi]) := by
  obtain ⟨decl, decls, rfl⟩ := List.exists_cons_of_ne_nil hne
  have hdecl := (hdecls decl List.mem_cons_self).type
  rw [declarationWord, ← hdecl, baseKind_base]

/-- A declaration is read back as a statement. -/
theorem accepts_declareStatement {decls : List VarDecl} {span : Span} {fuel : Nat}
    (h : DeclarationWellFormed S known decls)
    (hfuel : 8 * (declarationWord decls).length ≤ fuel + 1) :
    Accepts (declareStatement known fuel) (declarationWord decls) rest
      (·.bare = (Statement.declare decls span).bare) := by
  obtain ⟨hne, type, htype, hdecls⟩ := h
  rw [declarationWord_eq hne hdecls] at hfuel ⊢
  rw [List.length_cons, List.length_append, List.length_singleton] at hfuel
  unfold declareStatement
  refine .token (accepts_baseType htype.1) ?_
  rintro ⟨_, start⟩ rfl
  refine .whole (accepts_declarations htype hne hdecls (by omega)) fun ds hds => ?_
  refine .look .lastEnd fun _ _ => .pure ?_
  rw [Statement.bare, hds, Statement.bare]

/-- A condition is printed in parentheses. -/
theorem accepts_condition {opening : Expected} {cond : Expr} {fuel : Nat} (h : cond.MadeOf S)
    (hfuel : 8 * cond.printed.length ≤ fuel) :
    Accepts (condition opening fuel) (enclosed true cond.printed) rest (·.bare = cond.bare) := by
  unfold condition
  refine .token (.expect .lParen _) fun _ _ => ?_
  have hread := h.reads fuel (.symbol .rParen :: rest) (by omega)
    (TokenKind.not_continuesExpression_of_closes rfl)
  exact .bind hread fun d hd => .token (.expect .rParen _) fun _ _ => .pure hd

/-- The tokens that start a statement: none that ends a block, and no `else`. -/
def startsStatement (k : TokenKind) : Bool :=
  k ≠ .symbol .rBrace && k ≠ .eof && k ≠ .keyword .elseWord

/-- A printed statement starts with no token that would end the statements before it. -/
theorem starts_statement {s : Statement} (h : s.WellFormed S known) :
    Starts startsStatement s.word := by
  cases s with
  | declare decls span =>
    obtain ⟨hne, type, htype, hdecls⟩ := h
    rw [Statement.word, declarationWord_eq hne hdecls]
    refine ⟨_, _, rfl, ?_⟩
    have hbase := htype.1
    cases type with
    | array => exact hbase.elim
    | _ => rfl
  | _ => exact ⟨_, _, rfl, rfl⟩

/-! ### Statements -/

/-- The printed statement is read back before a token that is no `else` it could take. -/
def ReadsPrinted (known : List String) (s : Statement) : Prop :=
  ∀ fuel rest, 8 * s.word.length ≤ fuel →
    (s.isOpen = true → rest.headD .eof ≠ .keyword .elseWord) →
    Accepts (statement known fuel) s.word rest (·.bare = s.bare)

/-- The printed statements are read back before a closing brace. -/
def ReadsAllPrinted (known : List String) (ss : List Statement) : Prop :=
  ∀ fuel rest, 8 * (Statement.wordAll ss).length < fuel →
    Accepts (statements known fuel) (Statement.wordAll ss) (.symbol .rBrace :: rest)
      (Statement.bareAll · = Statement.bareAll ss)

section Statements

variable {span : Span}

/-- A declaration is told from other statements by its first token. -/
theorem readsPrinted_declare {decls : List VarDecl} (h : DeclarationWellFormed S known decls) :
    ReadsPrinted known (.declare decls span) := by
  intro fuel rest hfuel _
  have hread : ∀ {fuel}, 8 * (declarationWord decls).length ≤ fuel + 1 →
      Accepts (declareStatement known fuel) (declarationWord decls) rest
        (·.bare = (Statement.declare decls span).bare) := accepts_declareStatement h
  obtain ⟨hne, type, htype, hdecls⟩ := h
  have hword := declarationWord_eq hne hdecls
  have hkind : (declarationWord decls ++ rest).headD .eof = type.baseKind := by
    rw [hword]
    rfl
  have hlength : 0 < (declarationWord decls).length := by
    rw [hword]
    exact Nat.succ_pos _
  have hstarts := startsDeclaration_baseKind htype.1
  rw [Statement.word] at hfuel ⊢
  obtain ⟨fuel, rfl⟩ : ∃ f, fuel = f + 1 := ⟨fuel - 1, by omega⟩
  unfold statement
  refine .onKind hkind ?_
  -- no base type is a keyword or a symbol of another statement
  cases type with
  | array => exact htype.1.elim
  | _ => exact .pos hstarts (hread hfuel)

/-- What follows an opening parenthesis is no declaration, whatever records are known. -/
theorem readsPrinted_expr {e : Expr} (h : e.MadeOf S) :
    ReadsPrinted known (.expr e span) := by
  intro fuel rest hfuel _
  rw [Statement.word] at hfuel ⊢
  rw [List.length_append, List.length_singleton] at hfuel
  obtain ⟨fuel, rfl⟩ : ∃ f, fuel = f + 1 := ⟨fuel - 1, by omega⟩
  have hreads : ReadsExpression (enclosed true (e.word .full)) e.bare :=
    reads_of_derives h.derives_enclosed
  have hread := hreads fuel (.symbol .semi :: rest) (by omega)
    (TokenKind.not_continuesExpression_of_closes rfl)
  unfold statement
  refine .onKind (k := .symbol .lParen) rfl (.neg (by simp [startsDeclaration]) ?_)
  refine .bind hread fun d hd => .token (.expect .semi _) fun _ _ => .pure ?_
  rw [Statement.bare, hd, Statement.bare]

/-- A conditional without a second branch is read back where no `else` follows. -/
theorem readsPrinted_ifThen {cond : Expr} {thenBranch : Statement} (hcond : cond.MadeOf S)
    (hthen : ReadsPrinted known thenBranch) :
    ReadsPrinted known (.ifThen cond thenBranch span) := by
  intro fuel rest hfuel hopen
  rw [Statement.word] at hfuel ⊢
  rw [List.length_cons, List.length_append, length_enclosed, if_pos rfl] at hfuel
  obtain ⟨fuel, rfl⟩ : ∃ f, fuel = f + 1 := ⟨fuel - 1, by omega⟩
  have helse : rest.headD .eof ≠ .keyword .elseWord := hopen rfl
  have hbranch := hthen fuel rest (by omega) fun _ => helse
  unfold statement
  refine .onKind (k := .keyword .ifWord) rfl (.token .advance fun _ _ => ?_)
  refine .bind (accepts_condition hcond (by omega)) fun c hc => ?_
  refine .whole hbranch fun t ht => .onKind rfl (.neg helse ?_)
  refine .look .lastEnd fun _ _ => .pure ?_
  rw [Statement.bare, hc, ht, Statement.bare]

/-- The `else` goes with this `if`, since the branch before it ends in none that could take it. -/
theorem readsPrinted_ifElse {cond : Expr} {thenBranch elseBranch : Statement}
    (hcond : cond.MadeOf S) (hthen : ReadsPrinted known thenBranch)
    (helse : ReadsPrinted known elseBranch) (hclosed : thenBranch.isOpen = false) :
    ReadsPrinted known (.ifElse cond thenBranch elseBranch span) := by
  intro fuel rest hfuel hopen
  rw [Statement.word] at hfuel ⊢
  rw [List.length_cons, List.length_append, length_enclosed, if_pos rfl, List.length_append,
    List.length_cons] at hfuel
  obtain ⟨fuel, rfl⟩ : ∃ f, fuel = f + 1 := ⟨fuel - 1, by omega⟩
  have hfirst := hthen fuel (.keyword .elseWord :: elseBranch.word ++ rest) (by omega)
    (by simp [hclosed])
  have hsecond := helse fuel rest (by omega) hopen
  unfold statement
  refine .onKind (k := .keyword .ifWord) rfl (.token .advance fun _ _ => ?_)
  refine .bind (accepts_condition hcond (by omega)) fun c hc => ?_
  refine .bind hfirst fun t ht => .onKind rfl (.pos rfl (.token .advance fun _ _ => ?_))
  refine .whole hsecond fun u hu => .look .lastEnd fun _ _ => .pure ?_
  rw [Statement.bare, hc, ht, hu, Statement.bare]

/-- A loop is read back where its body is. -/
theorem readsPrinted_loop {cond : Expr} {body : Statement} (hcond : cond.MadeOf S)
    (hbody : ReadsPrinted known body) : ReadsPrinted known (.loop cond body span) := by
  intro fuel rest hfuel hopen
  rw [Statement.word] at hfuel ⊢
  rw [List.length_cons, List.length_append, length_enclosed, if_pos rfl] at hfuel
  obtain ⟨fuel, rfl⟩ : ∃ f, fuel = f + 1 := ⟨fuel - 1, by omega⟩
  have hread := hbody fuel rest (by omega) hopen
  unfold statement
  refine .onKind (k := .keyword .whileWord) rfl (.token .advance fun _ _ => ?_)
  refine .bind (accepts_condition hcond (by omega)) fun c hc => ?_
  refine .whole hread fun t ht => .look .lastEnd fun _ _ => .pure ?_
  rw [Statement.bare, hc, ht, Statement.bare]

/-- The value of `return` is missing exactly if a semicolon follows. -/
theorem accepts_returnValue? {value : Option Expr} {fuel : Nat} (h : ∀ e ∈ value, e.MadeOf S)
    (hfuel : 8 * (Expr.printed? value).length ≤ fuel + 1) :
    Accepts (returnValue? fuel) (Expr.printed? value) (.symbol .semi :: rest)
      (·.map Expr.bare = value.map Expr.bare) := by
  unfold returnValue?
  cases value with
  | none => exact .onKind rfl (.pos rfl (.pure rfl))
  | some e =>
    have he := h e rfl
    have hread := he.reads fuel (.symbol .semi :: rest) hfuel
      (TokenKind.not_continuesExpression_of_closes rfl)
    refine .onKind rfl (.neg (he.starts.headD_ne rfl _ _) ?_)
    exact .whole hread fun d hd => .pure (congrArg some hd)

/-- A `return` statement is read back with its value. -/
theorem readsPrinted_ret {value : Option Expr} (h : ∀ e ∈ value, e.MadeOf S) :
    ReadsPrinted known (.ret value span) := by
  intro fuel rest hfuel _
  rw [Statement.word] at hfuel ⊢
  rw [List.length_cons, List.length_append] at hfuel
  obtain ⟨fuel, rfl⟩ : ∃ f, fuel = f + 1 := ⟨fuel - 1, by omega⟩
  unfold statement
  refine .onKind (k := .keyword .returnWord) rfl (.token .advance fun _ _ => ?_)
  refine .bind (accepts_returnValue? h (by omega)) fun v hv => ?_
  refine .token (.expect .semi _) fun _ _ => .pure ?_
  rw [Statement.bare, hv, Statement.bare]

/-- The empty statement is its semicolon. -/
theorem readsPrinted_empty : ReadsPrinted known (.empty span) := by
  intro fuel rest hfuel _
  rw [Statement.word] at hfuel ⊢
  rw [List.length_singleton] at hfuel
  obtain ⟨fuel, rfl⟩ : ∃ f, fuel = f + 1 := ⟨fuel - 1, by omega⟩
  unfold statement
  exact .onKind (k := .symbol .semi) rfl (.token .advance fun _ _ => .pure rfl)

/-- A block is read back with its braces. -/
theorem accepts_block {b : Block} {fuel : Nat} (h : ReadsAllPrinted known b.statements)
    (hfuel : 8 * b.word.length ≤ fuel + 1) :
    Accepts (block known fuel) b.word rest (·.bare = b.bare) := by
  rw [Block.word] at hfuel ⊢
  rw [List.length_cons, List.length_append, List.length_singleton] at hfuel
  obtain ⟨fuel, rfl⟩ : ∃ f, fuel = f + 1 := ⟨fuel - 1, by omega⟩
  unfold block
  refine .token (.expect .lBrace _) fun _ _ => .bind (h fuel rest (by omega)) fun ss hss => ?_
  exact .token (.expect .rBrace _) fun _ _ => .pure (congrArg (Block.mk · .nowhere) hss)

/-- A block is read back as a statement. -/
theorem readsPrinted_block {body : List Statement} (h : ReadsAllPrinted known body) :
    ReadsPrinted known (.block body span) := by
  intro fuel rest hfuel _
  have hword : (Statement.block body span).word = Block.word ⟨body, span⟩ := rfl
  have hlength : 0 < (Block.word ⟨body, span⟩).length := Nat.succ_pos _
  rw [hword] at hfuel ⊢
  obtain ⟨fuel, rfl⟩ : ∃ f, fuel = f + 1 := ⟨fuel - 1, by omega⟩
  unfold statement
  refine .onKind (k := .symbol .lBrace) rfl (.whole (accepts_block h hfuel) fun b hb => .pure ?_)
  rw [Statement.bare, Statement.bare]
  exact congrArg (Statement.block ·.statements .nowhere) hb

/-- No statements are printed as nothing, and the closing brace follows. -/
theorem readsAllPrinted_nil : ReadsAllPrinted known [] := by
  intro fuel rest hfuel
  obtain ⟨fuel, rfl⟩ : ∃ f, fuel = f + 1 := ⟨fuel - 1, by omega⟩
  unfold statements
  exact .onKind rfl (.pos rfl (.pure rfl))

/-- No statement starts with `else`, and neither does what closes a block. -/
theorem headD_wordAll_ne {ss : List Statement} (h : Statement.AllWellFormed S known ss) :
    (Statement.wordAll ss ++ .symbol .rBrace :: rest).headD .eof ≠ .keyword .elseWord := by
  cases ss with
  | nil => simp [Statement.wordAll]
  | cons s ss =>
    rw [Statement.wordAll, List.append_assoc]
    exact (starts_statement h.1).headD_ne rfl _ _

/-- A statement is read back before those that follow it. -/
theorem readsAllPrinted_cons {s : Statement} {ss : List Statement} (hwf : s.WellFormed S known)
    (hwfs : Statement.AllWellFormed S known ss) (hs : ReadsPrinted known s)
    (hss : ReadsAllPrinted known ss) : ReadsAllPrinted known (s :: ss) := by
  intro fuel rest hfuel
  rw [Statement.wordAll] at hfuel ⊢
  rw [List.length_append] at hfuel
  have hstarts := starts_statement hwf
  have hlength := hstarts.length_pos
  obtain ⟨fuel, rfl⟩ : ∃ f, fuel = f + 1 := ⟨fuel - 1, by omega⟩
  have hone := hs fuel (Statement.wordAll ss ++ .symbol .rBrace :: rest) (by omega)
    fun _ => headD_wordAll_ne hwfs
  have hmore := hss fuel rest (by omega)
  have hbrace := hstarts.headD_ne (k := .symbol .rBrace) rfl
  have heof := hstarts.headD_ne (k := .eof) rfl
  unfold statements
  -- The statements are not over yet, since none starts with a token that ends them.
  refine .onKind rfl (.neg ?_ ?_)
  · rw [List.append_assoc, decide_eq_false (hbrace _ _), decide_eq_false (heof _ _)]
    decide
  · refine .bind hone.recovering ?_
    rintro _ ⟨t, rfl, ht⟩
    refine .whole hmore fun ts hts => .pure ?_
    exact congrArg₂ List.cons ht hts

end Statements

mutual

/-- Every well-formed statement is read back. -/
theorem readsPrinted : ∀ s : Statement, s.WellFormed S known → ReadsPrinted known s
  | .declare .., h => readsPrinted_declare h
  | .expr .., h => readsPrinted_expr h
  | .ifThen _ thenBranch _, ⟨hcond, hthen⟩ =>
    readsPrinted_ifThen hcond (readsPrinted thenBranch hthen)
  | .ifElse _ thenBranch elseBranch _, ⟨hcond, hthen, helse, hclosed⟩ =>
    readsPrinted_ifElse hcond (readsPrinted thenBranch hthen) (readsPrinted elseBranch helse)
      hclosed
  | .loop _ body _, ⟨hcond, hbody⟩ => readsPrinted_loop hcond (readsPrinted body hbody)
  | .ret .., h => readsPrinted_ret h
  | .block body _, h => readsPrinted_block (readsAllPrinted body h)
  | .empty _, _ => readsPrinted_empty

/-- Every list of well-formed statements is read back. -/
theorem readsAllPrinted : ∀ ss : List Statement, Statement.AllWellFormed S known ss →
    ReadsAllPrinted known ss
  | [], _ => readsAllPrinted_nil
  | s :: ss, ⟨hs, hss⟩ =>
    readsAllPrinted_cons hs hss (readsPrinted s hs) (readsAllPrinted ss hss)

end

end Parser

end SmallCpp
