import SmallCpp.Proofs.Printer.Accepted

/-!
# Printed items are read back

The functions of the parser that read parameters, functions, records and items, each on what is
printed of a well-formed part, and from them the whole token list of a printed program. A record is
known to the items after it when it is read, as it was where the program came from.
-/

namespace SmallCpp

namespace Parser

variable {S : TokenKind → Prop} {known : List String} {rest : List TokenKind}

/-- The tokens that may name the base type of a variable. -/
def startsVariable (k : TokenKind) : Bool :=
  k.startsType && k ≠ .keyword .void

/-- The base type of a variable is named by such a token. -/
theorem startsVariable_baseKind {type : WrittenType} (h : type.base.IsVariable known) :
    startsVariable type.baseKind = true := by
  have hvoid : type.base.baseKind ≠ .keyword .void := by
    obtain ⟨hbase, hvoid⟩ := h
    cases htype : type.base with
    | void => rw [htype] at hvoid; cases hvoid
    | array => rw [htype] at hbase; exact hbase.elim
    | _ => simp [WrittenType.baseKind]
  rw [baseKind_base] at hvoid
  rw [startsVariable, type.startsType_baseKind, decide_eq_true hvoid, Bool.and_true]

/-- No base type is an access specifier. -/
theorem isAccess_baseKind (type : WrittenType) : isAccess type.baseKind = false := by
  induction type with
  | array elem bound ih => exact ih
  | _ => rfl

/-- Bounds that are written are still written when they are read back. -/
theorem any_isNone_eq_false {ds dims : List (Option Expr)}
    (h : ds.map (Option.map Expr.bare) = dims.map (Option.map Expr.bare)) (hdims : none ∉ dims) :
    ds.any Option.isNone = false := by
  rw [List.any_eq_false]
  intro d hd
  have hmem := List.mem_map_of_mem (f := Option.map Expr.bare) hd
  rw [h] at hmem
  obtain ⟨dim, hdim, hbare⟩ := List.mem_map.mp hmem
  cases d with
  | some e => simp
  | none =>
    rw [Option.map_none, Option.map_eq_none_iff] at hbare
    exact absurd (hbare ▸ hdim) hdims

/-- A printed parameter is read as it was. -/
theorem accepts_param {p : Param} {fuel : Nat} (h : p.WellFormed S known)
    (hfuel : 8 * p.word.length ≤ fuel) (hrest : rest.headD .eof ≠ .symbol .lBracket) :
    Accepts (param known fuel) p.word rest (·.bare = p.bare) := by
  rw [Param.word, ← baseKind_base] at hfuel ⊢
  rw [List.length_cons] at hfuel
  unfold param
  refine .token (accepts_baseType h.type.1) ?_
  rintro ⟨_, start⟩ rfl
  refine .neg (by simp [h.type.2]) ?_
  refine .whole (accepts_declarator h.bounds hrest (by omega)) ?_
  rintro d ⟨hname, hbyRef, hbounds⟩
  refine .neg (by simp [any_isNone_eq_false hbounds h.bounded]) (.pure ?_)
  rw [Param.bare, Param.bare, hname, hbyRef, bare_of_bounds h.type.1 rfl hbounds]

/-- The parser takes `void` between parentheses for no parameters only where it stands. -/
theorem accepts_skipLoneVoid (h : rest.headD .eof ≠ .keyword .void) :
    Accepts skipLoneVoid [] rest fun _ => True := by
  unfold skipLoneVoid
  refine .onKind rfl (.look .secondKind fun _ _ => .neg ?_ (.pure trivial))
  rw [List.nil_append, decide_eq_false h, Bool.false_and]
  decide

/-- Parameters are read up to the closing parenthesis. -/
theorem accepts_paramList {ps : List Param} {fuel : Nat} (h : ∀ p ∈ ps, p.WellFormed S known)
    (hfuel : 8 * (separated (ps.map Param.word)).length < fuel) :
    Accepts (paramList known fuel) (separated (ps.map Param.word)) (.symbol .rParen :: rest)
      (·.map Param.bare = ps.map Param.bare) := by
  unfold paramList
  cases ps with
  | nil =>
    refine .look (accepts_skipLoneVoid (by simp)) fun _ _ => ?_
    exact .onKind rfl (.pos rfl (.pure rfl))
  | cons p ps =>
    have hone : ∀ q ∈ p :: ps, Starts startsVariable q.word ∧
        ∀ fuel rest, 8 * q.word.length + 0 ≤ fuel → rest.headD .eof ≠ .symbol .lBracket →
          Accepts (param known fuel) q.word rest (·.bare = q.bare) := fun q hq =>
      ⟨⟨_, _, rfl, startsVariable_baseKind (h q hq).type⟩,
        fun _ _ hfuel hrest => accepts_param (h q hq) hfuel hrest⟩
    have hstarts : Starts startsVariable (separated ((p :: ps).map Param.word)) :=
      starts_separated (hone p List.mem_cons_self).1 _
    have hread : Accepts (params known fuel) (separated ((p :: ps).map Param.word))
        (.symbol .rParen :: rest) (·.map Param.bare = (p :: ps).map Param.bare) :=
      .separated startsVariable (· ≠ .symbol .lBracket) 0 (fun fuel c _ => by rw [params])
        (by simp) (by simp) (by simp) (List.cons_ne_nil _ _) hone fuel hfuel
    -- the base type of the first parameter is not `void`, so there is nothing to skip
    refine .look (accepts_skipLoneVoid (hstarts.headD_ne rfl _ _)) fun _ _ => ?_
    exact .onKind rfl (.neg (hstarts.headD_ne rfl _ _) hread)

/-- A function is read after its result type. -/
theorem accepts_function {decl : FunctionDecl} {start fuel : Nat} (h : decl.WellFormed S known)
    (hfuel : 8 * decl.declaredWord.length ≤ fuel) :
    Accepts (function known decl.returns start fuel) decl.declaredWord rest
      (·.bare = decl.bare) := by
  obtain ⟨name, ps, returns, body, span⟩ := decl
  rw [FunctionDecl.declaredWord] at hfuel ⊢
  dsimp only at hfuel ⊢
  rw [List.length_cons, List.length_cons, List.length_append, List.length_cons] at hfuel
  unfold function
  refine .token (.expectName name _) fun _ hname => .token .advance fun _ _ => ?_
  refine .bind (accepts_paramList h.params (by omega)) fun qs hqs => ?_
  refine .token (.expect .rParen _) fun _ _ => ?_
  rw [hname]
  cases body with
  | none =>
    refine .onKind rfl (.pos rfl (.token .advance fun _ _ => .pure ?_))
    exact congrArg (FunctionDecl.mk name · returns.bare none .nowhere) hqs
  | some b =>
    have hread := readsAllPrinted b.statements (h.body b rfl)
    rw [Option.map_some, Option.getD_some] at hfuel ⊢
    refine .onKind (k := .symbol .lBrace) rfl (.neg (by simp) ?_)
    refine .whole (accepts_block hread (by omega)) fun b' hb' => .pure ?_
    rw [FunctionDecl.bare, FunctionDecl.bare, hqs]
    exact congrArg (FunctionDecl.mk name _ returns.bare · .nowhere) (congrArg some hb')

/-- Behind the base type of a function the parser sees that it is one. -/
theorem accepts_nextIsFunction (decl : FunctionDecl) :
    Accepts nextIsFunction [] (decl.declaredWord ++ rest) (· = true) := by
  unfold nextIsFunction
  refine .onKind rfl (.look .secondKind ?_)
  rintro _ rfl
  exact .pure rfl

/-- A declarator before no parenthesis does not look like a function. -/
theorem accepts_nextIsFunction_declarator (name : String) (byRef : Bool)
    (dims : List (Option Expr)) (hrest : rest.headD .eof ≠ .symbol .lParen) :
    Accepts nextIsFunction [] (declaratorWord name byRef dims ++ rest) (· = false) := by
  unfold nextIsFunction
  cases byRef with
  | false =>
    have hsecond : (boundsWord dims ++ rest).headD .eof ≠ .symbol .lParen := by
      cases dims with
      | nil => exact hrest
      | cons bound dims => simp [boundsWord]
    refine .onKind rfl (.look .secondKind fun k hk => ?_)
    have hk : k ≠ .symbol .lParen := hk ▸ hsecond
    dsimp only [declaratorWord, List.cons_append, List.headD_cons]
    split
    · exact absurd rfl hk
    · exact .pure rfl
  | true => cases dims <;> exact .onKind rfl (.look .secondKind fun _ _ => .pure rfl)

/-- A member on its own is read up to its semicolon. -/
theorem accepts_member {f : FieldDecl} {fuel : Nat} (h : f.WellFormed S known)
    (hfuel : 8 * (declaratorWord f.name false f.type.dims).length < fuel) :
    Accepts (members f.type.base fuel) (declaratorWord f.name false f.type.dims)
      (.symbol .semi :: rest) (·.map FieldDecl.bare = [f.bare]) := by
  obtain ⟨fuel, rfl⟩ : ∃ f, fuel = f + 1 := ⟨fuel - 1, by omega⟩
  unfold members
  refine .whole (accepts_declarator h.bounds (by simp) (by omega)) ?_
  rintro d ⟨hname, hbyRef, hbounds⟩
  refine .neg (by simp [hbyRef]) (.look .peek fun t ht => .neg (by simp [ht]) ?_)
  refine .look (.decline .comma (by simp)) fun _ hb => .neg (by simp [hb]) (.pure ?_)
  rw [List.map_singleton, FieldDecl.bare, FieldDecl.bare, hname,
    bare_of_bounds h.type.1 rfl hbounds]

/-- Members are read up to the closing brace of the record. -/
theorem accepts_fields {fs : List FieldDecl} (h : ∀ f ∈ fs, f.WellFormed S known) :
    ∀ fuel, 8 * (fs.flatMap FieldDecl.word).length < fuel →
      Accepts (fields known fuel) (fs.flatMap FieldDecl.word) (.symbol .rBrace :: rest)
        (·.map FieldDecl.bare = fs.map FieldDecl.bare) := by
  induction fs with
  | nil =>
    intro fuel hfuel
    obtain ⟨fuel, rfl⟩ : ∃ f, fuel = f + 1 := ⟨fuel - 1, by omega⟩
    unfold fields
    exact .onKind rfl (.pos rfl (.pure rfl))
  | cons f fs ih =>
    intro fuel hfuel
    obtain ⟨fuel, rfl⟩ : ∃ f, fuel = f + 1 := ⟨fuel - 1, by omega⟩
    obtain ⟨hf, hfs⟩ := List.forall_mem_cons.mp h
    have hword : (f :: fs).flatMap FieldDecl.word = f.type.base.baseKind ::
        (declaratorWord f.name false f.type.dims ++
          .symbol .semi :: fs.flatMap FieldDecl.word) := by
      simp [FieldDecl.word, baseKind_base]
    rw [hword] at hfuel ⊢
    rw [List.length_cons, List.length_append, List.length_cons] at hfuel
    -- every member is printed as a declaration of its own, so a group has one member
    have hmore := ih hfs fuel (by omega)
    have hbrace := f.type.base.baseKind_ne (k := .symbol .rBrace) rfl
    have heof := f.type.base.baseKind_ne (k := .eof) rfl
    have hsemi := f.type.base.baseKind_ne (k := .symbol .semi) rfl
    unfold fields
    refine .onKind (k := f.type.base.baseKind) rfl (.neg (by simp [hbrace, heof]) ?_)
    refine .neg hsemi (.neg (by simp [isAccess_baseKind]) ?_)
    refine .token (accepts_baseType hf.type.1) ?_
    rintro ⟨_, start⟩ rfl
    refine .look (P := (· = false)) ?_ fun _ hb => .neg (by simp [hb]) ?_
    · rw [List.append_assoc]
      exact accepts_nextIsFunction_declarator _ _ _ (by simp)
    refine .neg (by simp [hf.type.2]) (.bind (accepts_member hf (by omega)) fun group hgroup => ?_)
    refine .token (.expect .semi _) fun _ _ => ?_
    refine .whole hmore fun more hmore => .pure ?_
    rw [List.map_append, hgroup, hmore]
    rfl

/-- A printed record is read as it was. -/
theorem accepts_record {decl : RecordDecl} {fuel : Nat} (h : decl.WellFormed S known)
    (hfuel : 8 * decl.word.length ≤ fuel) :
    Accepts (record known fuel) decl.word rest (·.bare = decl.bare) := by
  rw [RecordDecl.word] at hfuel ⊢
  simp only [List.length_cons, List.length_append] at hfuel
  unfold record
  refine .token .advance fun _ _ => .token (.expectName decl.name _) fun _ hname => ?_
  refine .token (.expect .lBrace _) fun _ _ => ?_
  refine .bind (accepts_fields h.fields fuel (by omega)) fun fs hfs => ?_
  refine .token (.expect .rBrace _) fun _ _ => .token (.expect .semi _) fun _ _ => .pure ?_
  rw [RecordDecl.bare, RecordDecl.bare, hname, hfs]

/-- The base type of a declaration starts no record. -/
theorem baseKind_ne_record (type : WrittenType) :
    ¬(type.baseKind = .keyword .classWord || type.baseKind = .keyword .structWord) = true := by
  have hclass := type.baseKind_ne (k := .keyword .classWord) rfl
  have hstruct := type.baseKind_ne (k := .keyword .structWord) rfl
  simp [hclass, hstruct]

/-- An item is read as an item of its own. -/
theorem accepts_item {i : Item} {fuel : Nat} (h : i.WellFormed S known)
    (hfuel : 8 * i.word.length ≤ fuel) :
    Accepts (item known fuel) i.word rest (·.map Item.bare = [i.bare]) := by
  unfold item
  cases i with
  | record decl =>
    rw [Item.word] at hfuel ⊢
    refine .onKind (k := .keyword .structWord) rfl (.pos rfl ?_)
    refine .whole (accepts_record h hfuel) fun d hd => .pure ?_
    rw [List.map_singleton, Item.bare, hd, Item.bare]
  | function decl =>
    have hdecl : decl.WellFormed S known := h
    rw [Item.word, FunctionDecl.word] at hfuel ⊢
    rw [List.length_cons] at hfuel
    refine .onKind (k := decl.returns.baseKind) rfl (.neg (baseKind_ne_record _) ?_)
    refine .token (accepts_baseType hdecl.returns) ?_
    rintro ⟨_, start⟩ rfl
    refine .look (accepts_nextIsFunction decl) fun _ hb => .pos hb ?_
    refine .whole (accepts_function hdecl (by omega)) fun d hd => .pure ?_
    rw [List.map_singleton, Item.bare, hd, Item.bare]
  | global decl =>
    obtain ⟨type, htype, hdecl⟩ := h
    have hdecls : ∀ d ∈ [decl], d.WellFormed S type := by simpa using hdecl
    have hword := declarationWord_eq (List.cons_ne_nil _ _) hdecls
    rw [Item.word, hword] at hfuel ⊢
    rw [List.length_cons, List.length_append] at hfuel
    refine .onKind (k := type.baseKind) rfl (.neg (baseKind_ne_record _) ?_)
    refine .token (accepts_baseType htype.1) ?_
    rintro ⟨_, start⟩ rfl
    -- What follows the base type of a variable is not taken for a function.
    refine .look (P := (· = false)) ?_ fun _ hb => .neg (by simp [hb]) ?_
    · rw [List.map_singleton, separated_singleton, VarDecl.word, List.append_assoc,
        List.append_assoc]
      refine accepts_nextIsFunction_declarator _ _ _ ?_
      cases decl.init <;> simp [initWord]
    refine .whole (accepts_declarations htype (List.cons_ne_nil _ _) hdecls (by omega)) ?_
    intro ds hds
    refine .pure ?_
    -- A declaration gives one item for each variable, here a single one.
    have hitem : ds.map (Item.bare ∘ .global) = (ds.map VarDecl.bare).map .global := by
      rw [List.map_map]
      rfl
    rw [List.map_map, hitem, hds]
    rfl

/-- Spans do not tell which records items define. -/
theorem definedNames_bare (is : List Item) : definedNames (is.map Item.bare) = definedNames is := by
  rw [definedNames, List.filterMap_map]
  refine congrArg (List.filterMap · is) (funext fun i => ?_)
  cases i <;> rfl

/-- A printed item starts with something other than a semicolon, which would be passed over. -/
theorem starts_item (i : Item) :
    Starts (fun k => k ≠ .eof && k ≠ .symbol .semi) i.word := by
  have htype : ∀ type : WrittenType,
      (type.baseKind ≠ .eof && type.baseKind ≠ .symbol .semi) = true := by
    intro type
    have heof := type.baseKind_ne (k := .eof) rfl
    have hsemi := type.baseKind_ne (k := .symbol .semi) rfl
    simp [heof, hsemi]
  cases i with
  | record decl => exact ⟨_, _, rfl, rfl⟩
  | function decl => exact ⟨_, _, rfl, htype _⟩
  | global decl => exact ⟨_, _, rfl, htype _⟩

/-- Items are read up to the end of file. -/
theorem accepts_items {is : List Item} : ∀ {known : List String}, Item.AllWellFormed S known is →
    ∀ fuel, 8 * (is.flatMap Item.word).length < fuel →
      Accepts (items known fuel) (is.flatMap Item.word) [.eof]
        (·.map Item.bare = is.map Item.bare) := by
  induction is with
  | nil =>
    intro known _ fuel hfuel
    obtain ⟨fuel, rfl⟩ : ∃ f, fuel = f + 1 := ⟨fuel - 1, by omega⟩
    unfold items
    exact .onKind rfl (.pos rfl (.pure rfl))
  | cons i is ih =>
    intro known h fuel hfuel
    obtain ⟨hi, his⟩ := h
    obtain ⟨fuel, rfl⟩ : ∃ f, fuel = f + 1 := ⟨fuel - 1, by omega⟩
    have hstarts := starts_item i
    have hlength := hstarts.length_pos
    rw [List.flatMap_cons, List.length_append] at hfuel
    rw [List.flatMap_cons]
    have hmore := ih his fuel (by omega)
    unfold items
    refine .onKind rfl (.neg ?_ (.look (.decline .semi ?_) fun _ hb => .neg (by simp [hb]) ?_))
    · rw [List.append_assoc]
      exact hstarts.headD_ne rfl _ _
    · rw [List.append_assoc]
      exact hstarts.headD_ne rfl _ _
    refine .bind (accepts_item hi (by omega)).recovering ?_
    rintro _ ⟨group, rfl, hgroup⟩
    -- the records known to the items after this one are the same when it is read back
    have hnames : definedNames group = definedNames [i] := by
      rw [← definedNames_bare group, hgroup]
      exact definedNames_bare [i]
    dsimp only
    rw [hnames]
    refine .whole hmore fun more hmore => .pure ?_
    rw [List.map_append, hgroup, hmore]
    rfl

end Parser

/-- The printed token list of a well-formed program is read as the program. -/
theorem Program.ofTokens_word {S : TokenKind → Prop} {p : Program} (h : p.WellFormed S)
    {tokens : List Token} (htokens : tokens.map Token.kind = p.word ++ [.eof]) :
    ∃ q, Program.ofTokens tokens = .ok q ∧ q.bare = p.bare := by
  have hlength : tokens.length = p.word.length + 1 := by
    rw [← List.length_map (f := Token.kind), htokens, List.length_append, List.length_singleton]
  have hbound : 8 * (p.items.flatMap Item.word).length < stepBound tokens := by
    rw [stepBound, hlength, Program.word]
    omega
  have hread := Parser.accepts_items h (stepBound tokens) hbound
  obtain ⟨is, c, hitems, -, hrecovered, his⟩ := hread (Cursor.start tokens) htokens
  refine ⟨⟨is⟩, ?_, congrArg Program.mk his⟩
  have hnone : c.recovered.isEmpty = true := by rw [hrecovered]; rfl
  rw [ofTokens, hitems]
  dsimp only
  rw [if_pos hnone]

end SmallCpp
