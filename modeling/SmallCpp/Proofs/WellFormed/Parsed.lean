import SmallCpp.Proofs.WellFormed

/-!
# Reading gives well-formed syntax

One lemma for each function of the parser of programs. The functions that call each other, or
themselves, do so with one step less, so the induction is on the steps.
-/

namespace SmallCpp

namespace Parser

variable {S : TokenKind → Prop} {c : Cursor}

/-- An expression that is read can be derived from the tokens of the source. -/
theorem gives_expression (fuel : Nat) : Gives S c (expression fuel) fun e _ => e.MadeOf S :=
  .of_passes ((readsDerived fuel).expression c)

/-- A base type that is read is a basic one or names a record that is known. -/
theorem gives_baseType (known : List String) :
    Gives S c (baseType known) fun r _ => r.1.IsBase known := by
  unfold baseType
  refine .peek ?_
  dsimp only
  split
  · exact .advance (.pure trivial)
  · exact .advance (.pure trivial)
  · exact .advance (.pure trivial)
  · exact .advance (.pure trivial)
  · exact .ite (fun hknown => .advance (.pure hknown)) fun _ => .fail _ _
  · exact .fail _ _

/-- The bounds that are read are well formed. -/
theorem gives_bounds (name : String) (bare : Bool) (fuel : Nat) :
    Gives S c (bounds name bare fuel) fun dims _ => BoundsWellFormed S dims := by
  induction fuel generalizing c with
  | zero => exact .unfinished
  | succ fuel ih =>
    unfold bounds
    refine .peek (.ite (fun _ => .advance (.ite (fun _ => .fail _ _) fun _ => ?_)) fun _ => ?_)
    · refine .bind (.accept _) fun closed d => .ite (fun _ => ?_) fun _ => ?_
      · refine .bind ih fun dims d' => .pure fun hdims _ => ?_
        exact List.forall_mem_cons.mpr ⟨by simp, hdims⟩
      · refine .bind (gives_expression fuel) fun e d' => .bind (.expect _ _) fun _ d'' => ?_
        refine .bind ih fun dims d₃ => .pure fun hdims _ he _ => ?_
        exact List.forall_mem_cons.mpr ⟨by simpa using he, hdims⟩
    · exact .pure (List.forall_mem_nil _)

/-- The declared name is an identifier of the source. -/
theorem gives_declaredName : Gives S c declaredName fun r _ => S (.identifier r.1) := by
  unfold declaredName
  refine .bind (.accept _) fun paren d => .ite (fun _ => ?_) fun _ => ?_
  · refine .bind (.expect _ _) fun _ d' => .bind (.expectName _) fun name d'' => ?_
    exact .bind (.expect _ _) fun _ d₃ => .pure fun _ hname _ _ => hname
  · refine .bind (.accept _) fun amp d' => .ite (fun _ => ?_) fun _ => ?_
    · exact .bind (.expectName _) fun name d'' => .pure fun hname _ _ => hname
    · exact .bind (.expectName _) fun name d'' => .pure fun hname _ _ => hname

/-- A declarator that is read has a name of the source and bounds that are well formed. -/
theorem gives_declarator (fuel : Nat) : Gives S c (declarator fuel) fun r _ =>
    S (.identifier r.name) ∧ BoundsWellFormed S r.bounds := by
  unfold declarator
  refine .peek (.bind gives_declaredName fun named d => ?_)
  refine .bind (gives_bounds _ _ fuel) fun dims d' => .lastEnd (.pure ?_)
  exact fun hdims hname => ⟨hname, hdims⟩

/-- What the two parsers of initializers give, with the same bound on steps. -/
theorem gives_initializers (fuel : Nat) :
    (∀ c, Gives S c (initializer fuel) fun i _ => i.Each (Expr.MadeOf S)) ∧
      ∀ c, Gives S c (initializers fuel) fun is _ => Initializer.EachIn (Expr.MadeOf S) is := by
  induction fuel with
  | zero => exact ⟨fun _ => .unfinished, fun _ => .unfinished⟩
  | succ fuel ih =>
    obtain ⟨ihOne, ihMany⟩ := ih
    refine ⟨fun c => ?_, fun c => ?_⟩
    · unfold initializer
      refine .peek (.ite (fun _ => .advance ?_) fun _ => ?_)
      · refine .bind (ihMany _) fun items d => .bind (.expect _ _) fun _ d' => ?_
        exact .pure fun _ hitems => hitems
      · exact .bind (gives_expression fuel) fun e d => .pure id
    · unfold initializers
      refine .kind (.ite (fun _ => .pure trivial) fun _ => ?_)
      refine .bind (ihOne _) fun item d => .bind (.accept _) fun comma d' => ?_
      refine .ite (fun _ => ?_) fun _ => .pure fun _ hitem => ⟨hitem, trivial⟩
      exact .bind (ihMany _) fun items d'' => .pure fun hitems _ hitem => ⟨hitem, hitems⟩

/-- An initializer that is read is made of expressions of the source. -/
theorem gives_initializer? (fuel : Nat) : Gives S c (initializer? fuel) fun init _ =>
    ∀ i ∈ init, i.Each (Expr.MadeOf S) := by
  unfold initializer?
  refine .bind (.accept _) fun eq d => .ite (fun _ => ?_) fun _ => .pure fun _ => by simp
  refine .bind ((gives_initializers fuel).1 _) fun i d' => .pure fun hi _ => ?_
  simpa using hi

/-- A variable that is read is well formed over its base type. -/
theorem gives_varDecl (known : List String) (type : WrittenType) (fuel : Nat) :
    Gives S c (varDecl type fuel) fun decl _ => type.IsBase known → decl.WellFormed S type := by
  unfold varDecl
  refine .bind (gives_declarator fuel) fun r d => .bind (gives_initializer? fuel) fun init d' => ?_
  refine .lastEnd (.pure fun hinit hr hbase => ?_)
  refine ⟨WrittenType.base_withBounds hbase _, hr.1, ?_, hinit⟩
  rw [WrittenType.dims_withBounds hbase]
  exact hr.2

/-- The variables of a declaration are well formed, and there is at least one. -/
theorem gives_varDecls (known : List String) (type : WrittenType) (fuel : Nat) :
    Gives S c (varDecls type fuel) fun decls _ =>
      decls ≠ [] ∧ (type.IsBase known → ∀ decl ∈ decls, decl.WellFormed S type) := by
  induction fuel generalizing c with
  | zero => exact .unfinished
  | succ fuel ih =>
    unfold varDecls
    refine .bind (gives_varDecl known type fuel) fun decl d => ?_
    refine .bind (.accept _) fun comma d' => .ite (fun _ => ?_) fun _ => .pure fun _ hdecl => ?_
    · refine .bind ih fun decls d'' => .pure fun hdecls _ hdecl => ⟨List.cons_ne_nil _ _, ?_⟩
      exact fun hbase => List.forall_mem_cons.mpr ⟨hdecl hbase, hdecls.2 hbase⟩
    · exact ⟨List.cons_ne_nil _ _, fun hbase => List.forall_mem_singleton.mpr (hdecl hbase)⟩

/-- No variable of a declaration is of type `void`. -/
theorem gives_declarations (known : List String) (type : WrittenType) (start fuel : Nat) :
    Gives S c (declarations type start fuel) fun decls _ => decls ≠ [] ∧
      (type.IsBase known → type.IsVariable known ∧ ∀ decl ∈ decls, decl.WellFormed S type) := by
  unfold declarations
  refine .ite (fun _ => .lastEnd (.fail _ _)) fun hvoid => ?_
  rw [Bool.not_eq_true] at hvoid
  refine .bind (gives_varDecls known type fuel) fun decls d => ?_
  refine .bind (.expect _ _) fun _ d' => .pure fun _ hdecls => ?_
  exact ⟨hdecls.1, fun hbase => ⟨⟨hbase, hvoid⟩, hdecls.2 hbase⟩⟩

/-- A declaration is well formed and takes no `else`. -/
theorem gives_declareStatement (known : List String) (fuel : Nat) :
    Gives S c (declareStatement known fuel) fun s _ =>
      s.WellFormed S known ∧ s.isOpen = false := by
  unfold declareStatement
  refine .bind (gives_baseType known) fun base d => ?_
  refine .bind (gives_declarations known base.1 base.2 fuel) fun decls d' => .lastEnd (.pure ?_)
  exact fun hdecls hbase => ⟨⟨hdecls.1, base.1, hdecls.2 hbase⟩, rfl⟩

/-- A `return` statement is well formed and takes no `else`. -/
theorem gives_returnStatement (known : List String) (fuel : Nat) :
    Gives S c (returnStatement fuel) fun s _ => s.WellFormed S known ∧ s.isOpen = false := by
  have hvalue : ∀ c, Gives S c (returnValue? fuel) fun value _ => ∀ e ∈ value, e.MadeOf S := by
    intro c
    unfold returnValue?
    refine .kind (.ite (fun _ => .pure (by simp)) fun _ => ?_)
    exact .bind (gives_expression fuel) fun e d => .pure fun he => by simpa using he
  unfold returnStatement
  refine .advance (.bind (hvalue _) fun value d => .bind (.expect _ _) fun _ d' => .pure ?_)
  exact fun _ hvalue => ⟨hvalue, rfl⟩

/-- An expression statement is well formed and takes no `else`. -/
theorem gives_expressionStatement (known : List String) (fuel : Nat) :
    Gives S c (expressionStatement fuel) fun s _ => s.WellFormed S known ∧ s.isOpen = false := by
  unfold expressionStatement
  refine .bind (gives_expression fuel) fun e d => .bind (.expect _ _) fun _ d' => .pure ?_
  exact fun _ he => ⟨he, rfl⟩

/-- A condition that is read can be derived from the tokens of the source. -/
theorem gives_condition (opening : Expected) (fuel : Nat) :
    Gives S c (condition opening fuel) fun e _ => e.MadeOf S := by
  unfold condition
  refine .bind (.expect _ _) fun _ d => .bind (gives_expression fuel) fun e d' => ?_
  exact .bind (.expect _ _) fun _ d'' => .pure fun _ he _ => he

/-- What is known of a statement and of the token after it: it does not leave out an `else`. -/
def ReadsStatement (S : TokenKind → Prop) (known : List String) (s : Statement) (d : Cursor) :
    Prop :=
  s.WellFormed S known ∧ (s.isOpen = true → d.kind ≠ .keyword .elseWord)

/-- A statement that takes no `else` may stand before any token. -/
theorem readsStatement_of_closed {known : List String} {s : Statement} {d : Cursor}
    (h : s.WellFormed S known ∧ s.isOpen = false) : ReadsStatement S known s d := by
  refine ⟨h.1, fun hopen => ?_⟩
  rw [h.2] at hopen
  cases hopen

/-- What the three parsers of statements give, with the same bound on steps. -/
theorem gives_statements (known : List String) (fuel : Nat) :
    (∀ c, Gives S c (statement known fuel) (ReadsStatement S known)) ∧
      (∀ c, Gives S c (block known fuel) fun b _ =>
        Statement.AllWellFormed S known b.statements) ∧
      ∀ c, Gives S c (statements known fuel) fun ss _ => Statement.AllWellFormed S known ss := by
  induction fuel with
  | zero => exact ⟨fun _ => .unfinished, fun _ => .unfinished, fun _ => .unfinished⟩
  | succ fuel ih =>
    obtain ⟨ihs, ihb, ihss⟩ := ih
    refine ⟨fun c => ?_, fun c => ?_, fun c => ?_⟩
    · unfold statement
      refine .kind ?_
      split
      · refine .bind (ihb _) fun b d => .pure fun hb => ?_
        exact readsStatement_of_closed ⟨hb, rfl⟩
      · -- an `else` that comes next is read, so the branch before it is not open
        refine .advance (.bind (gives_condition _ fuel) fun cond d => ?_)
        refine .bind (ihs _) fun thenBranch d' => .kind (.ite (fun helse => .advance ?_) ?_)
        · refine .bind (ihs _) fun elseBranch d'' => .lastEnd (.pure fun hb ha hcond => ?_)
          have hclosed : thenBranch.isOpen = false :=
            Bool.eq_false_iff.mpr fun hopen => ha.2 hopen helse
          exact ⟨⟨hcond, ha.1, hb.1, hclosed⟩, hb.2⟩
        · exact fun helse => .lastEnd (.pure fun ha hcond => ⟨⟨hcond, ha.1⟩, fun _ => helse⟩)
      · refine .advance (.bind (gives_condition _ fuel) fun cond d => ?_)
        refine .bind (ihs _) fun body d' => .lastEnd (.pure fun hbody hcond => ?_)
        exact ⟨⟨hcond, hbody.1⟩, hbody.2⟩
      · exact (gives_returnStatement known fuel).imp fun _ _ => readsStatement_of_closed
      · exact .advance (.pure (readsStatement_of_closed ⟨trivial, rfl⟩))
      · refine .ite (fun _ => ?_) fun _ => ?_
        · exact (gives_declareStatement known fuel).imp fun _ _ => readsStatement_of_closed
        · exact (gives_expressionStatement known fuel).imp fun _ _ => readsStatement_of_closed
    · unfold block
      refine .bind (.expect _ _) fun _ d => .bind (ihss _) fun body d' => ?_
      exact .bind (.expect _ _) fun _ d'' => .pure fun _ hbody _ => hbody
    · unfold statements
      refine .kind (.ite (fun _ => .pure trivial) fun _ => ?_)
      refine .bind (.recovering (ihs _)) fun s d => .bind (ihss _) fun ss d' => .pure ?_
      rintro hss ⟨s, rfl, hs⟩
      exact ⟨hs.1, hss⟩

/-- A parameter that is read is well formed. -/
theorem gives_param (known : List String) (fuel : Nat) :
    Gives S c (param known fuel) fun p _ => p.WellFormed S known := by
  unfold param
  refine .bind (gives_baseType known) fun base d => .ite (fun _ => .lastEnd (.fail _ _)) ?_
  intro hvoid
  rw [Bool.not_eq_true] at hvoid
  refine .bind (gives_declarator fuel) fun r d' => .ite (fun _ => .fail _ _) fun hbounded => ?_
  refine .pure fun hr hbase => ?_
  have hdims := WrittenType.dims_withBounds hbase r.bounds
  refine ⟨?_, hr.1, ?_, ?_⟩
  · rw [WrittenType.base_withBounds hbase]
    exact ⟨hbase, hvoid⟩
  · rw [hdims]
    exact hr.2
  · rw [hdims]
    exact fun hmem => hbounded (List.any_eq_true.mpr ⟨none, hmem, rfl⟩)

/-- Several parameters that are read are well formed. -/
theorem gives_params (known : List String) (fuel : Nat) :
    Gives S c (params known fuel) fun ps _ => ∀ p ∈ ps, p.WellFormed S known := by
  induction fuel generalizing c with
  | zero => exact .unfinished
  | succ fuel ih =>
    unfold params
    refine .bind (gives_param known fuel) fun p d => .bind (.accept _) fun comma d' => ?_
    refine .ite (fun _ => ?_) fun _ => .pure fun _ hp => List.forall_mem_singleton.mpr hp
    exact .bind ih fun ps d'' => .pure fun hps _ hp => List.forall_mem_cons.mpr ⟨hp, hps⟩

/-- A list of parameters that is read is well formed. It may be empty or a lone `void`. -/
theorem gives_paramList (known : List String) (fuel : Nat) :
    Gives S c (paramList known fuel) fun ps _ => ∀ p ∈ ps, p.WellFormed S known := by
  have hskip : Gives S c skipLoneVoid fun _ _ => True := by
    unfold skipLoneVoid
    exact .kind (.secondKind (.ite (fun _ => .advance (.pure trivial)) fun _ => .pure trivial))
  unfold paramList
  refine .bind hskip fun _ d => .kind (.ite (fun _ => .pure fun _ => by simp) fun _ => ?_)
  exact (gives_params known fuel).imp fun _ _ hps _ => hps

/-- A function that is read is well formed if its result type is known. -/
theorem gives_function (known : List String) (returns : WrittenType) (start fuel : Nat) :
    Gives S c (function known returns start fuel) fun decl _ =>
      returns.IsBase known → decl.WellFormed S known := by
  unfold function
  refine .bind (.expectName _) fun name d => .advance ?_
  refine .bind (gives_paramList known fuel) fun ps d' => .bind (.expect _ _) fun _ d'' => ?_
  refine .kind (.ite (fun _ => .advance (.pure ?_)) fun _ => ?_)
  · exact fun _ hps hname hreturns => ⟨hreturns, hname, hps, by simp⟩
  · refine .bind ((gives_statements known fuel).2.1 _) fun body d₃ => .pure ?_
    exact fun hbody _ hps hname hreturns => ⟨hreturns, hname, hps, by simpa using hbody⟩

/-- Looking ahead gives nothing. -/
theorem gives_nextIsFunction : Gives S c nextIsFunction fun _ _ => True := by
  unfold nextIsFunction
  refine .kind (.secondKind ?_)
  split
  · exact .pure trivial
  · exact .pure trivial

/-- The members of a group are well formed, if their base type is one of variables. -/
theorem gives_members (known : List String) (type : WrittenType) (fuel : Nat) :
    Gives S c (members type fuel) fun fs _ =>
      type.IsVariable known → ∀ f ∈ fs, f.WellFormed S known := by
  induction fuel generalizing c with
  | zero => exact .unfinished
  | succ fuel ih =>
    unfold members
    refine .bind (gives_declarator fuel) fun r d => .ite (fun _ => .fail _ _) fun _ => ?_
    refine .peek (.ite (fun _ => .fail _ _) fun _ => .bind (.accept _) fun comma d' => ?_)
    have hfield : S (.identifier r.name) ∧ BoundsWellFormed S r.bounds → type.IsVariable known →
        FieldDecl.WellFormed S known ⟨r.name, type.withBounds r.bounds, r.span⟩ := by
      intro hr htype
      refine ⟨?_, hr.1, ?_⟩
      · rwa [WrittenType.base_withBounds htype.1]
      · rw [WrittenType.dims_withBounds htype.1]
        exact hr.2
    refine .ite (fun _ => ?_) fun _ => .pure fun _ hr htype => ?_
    · refine .bind ih fun fs d'' => .pure fun hfs _ hr htype => ?_
      exact List.forall_mem_cons.mpr ⟨hfield hr htype, hfs htype⟩
    · exact List.forall_mem_singleton.mpr (hfield hr htype)

/-- The fields of a record are well formed. -/
theorem gives_fields (known : List String) (fuel : Nat) :
    Gives S c (fields known fuel) fun fs _ => ∀ f ∈ fs, f.WellFormed S known := by
  induction fuel generalizing c with
  | zero => exact .unfinished
  | succ fuel ih =>
    unfold fields
    refine .kind (.ite (fun _ => .pure (List.forall_mem_nil _)) fun _ => ?_)
    refine .ite (fun _ => .advance ih) fun _ => .ite (fun _ => .advance ?_) fun _ => ?_
    · exact .bind (.expect _ _) fun _ d => ih.imp fun _ _ hfs _ => hfs
    · refine .bind (gives_baseType known) fun base d => ?_
      refine .bind gives_nextIsFunction fun isFunction d' => ?_
      refine .ite (fun _ => .peek (.fail _ _)) fun _ => ?_
      refine .ite (fun _ => .peek (.fail _ _)) fun hvoid => ?_
      rw [Bool.not_eq_true] at hvoid
      refine .bind (gives_members known base.1 fuel) fun group d'' => ?_
      refine .bind (.expect _ _) fun _ d₃ => .bind ih fun fs d₄ => .pure ?_
      exact fun hfs _ hgroup _ hbase =>
        List.forall_mem_append.mpr ⟨hgroup ⟨hbase, hvoid⟩, hfs⟩

/-- A record that is read is well formed. -/
theorem gives_record (known : List String) (fuel : Nat) :
    Gives S c (record known fuel) fun decl _ => decl.WellFormed S known := by
  unfold record
  refine .advance (.bind (.expectName _) fun name d => .bind (.expect _ _) fun _ d' => ?_)
  refine .bind (gives_fields known fuel) fun fs d'' => .bind (.expect _ _) fun _ d₃ => ?_
  exact .bind (.expect _ _) fun _ d₄ => .pure fun _ _ hfs _ hname => ⟨hname, hfs⟩

/-- Globals define no record, so the items after them know what the globals know. -/
theorem allWellFormed_globals {known : List String} {decls : List VarDecl} {is : List Item}
    (hdecls : ∀ decl ∈ decls, (Item.global decl).WellFormed S known)
    (his : Item.AllWellFormed S (definedNames (decls.map .global) ++ known) is) :
    Item.AllWellFormed S known (decls.map .global ++ is) := by
  induction decls with
  | nil => exact his
  | cons decl decls ih =>
    obtain ⟨hdecl, hrest⟩ := List.forall_mem_cons.mp hdecls
    exact ⟨hdecl, ih hrest his⟩

/-- An item that is read goes in front of items that know its record. -/
theorem gives_item (known : List String) (fuel : Nat) :
    Gives S c (item known fuel) fun group _ => ∀ is,
      Item.AllWellFormed S (definedNames group ++ known) is →
        Item.AllWellFormed S known (group ++ is) := by
  unfold item
  refine .kind (.ite (fun _ => ?_) fun _ => ?_)
  · exact .bind (gives_record known fuel) fun decl d => .pure fun hdecl is his => ⟨hdecl, his⟩
  · refine .bind (gives_baseType known) fun base d => ?_
    refine .bind gives_nextIsFunction fun isFunction d' => .ite (fun _ => ?_) fun _ => ?_
    · refine .bind (gives_function known base.1 base.2 fuel) fun decl d'' => .pure ?_
      exact fun hdecl _ hbase is his => ⟨hdecl hbase, his⟩
    · refine .bind (gives_declarations known base.1 base.2 fuel) fun decls d'' => .pure ?_
      intro hdecls _ hbase is
      obtain ⟨hvariable, hall⟩ := hdecls.2 hbase
      exact allWellFormed_globals fun decl hdecl => ⟨base.1, hvariable, hall decl hdecl⟩

/-- Items are well formed, each with the records known that were defined before it. -/
theorem gives_items (known : List String) (fuel : Nat) :
    Gives S c (items known fuel) fun is _ => Item.AllWellFormed S known is := by
  induction fuel generalizing known c with
  | zero => exact .unfinished
  | succ fuel ih =>
    unfold items
    refine .kind (.ite (fun _ => .pure trivial) fun _ => ?_)
    refine .bind (.accept _) fun semi d => .ite (fun _ => ?_) fun _ => ?_
    · exact (ih known).imp fun _ _ his _ => his
    · refine .bind (.recovering (gives_item known fuel)) fun group d' => ?_
      split
      · next group =>
        refine .bind (ih _) fun is d'' => .pure ?_
        rintro his ⟨_, ⟨⟩, hgroup⟩ _
        exact hgroup is his
      · refine (ih known).imp ?_
        rintro is _ _ ⟨_, ⟨⟩, _⟩

end Parser

/-- A program that is read from tokens with the property is well formed. -/
theorem Program.wellFormed_of_ofTokens {S : TokenKind → Prop} {tokens : List Token} {p : Program}
    (hS : ∀ t ∈ tokens, S t.kind) (h : Program.ofTokens tokens = .ok p) : p.WellFormed S := by
  unfold Program.ofTokens at h
  split at h
  · next items d hitems =>
    split_ifs at h with hrec
    cases h
    obtain ⟨-, hgives⟩ :=
      Parser.gives_items (S := S) [] _ items d hitems (List.isEmpty_iff.mp hrec)
    refine (hgives ?_).2
    intro k hk
    obtain ⟨t, ht, rfl⟩ := List.mem_map.mp hk
    exact hS t ht
  · cases h

end SmallCpp
