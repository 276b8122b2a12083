import SmallCpp.Proofs.Printer.Accepted

/-!
# What printed programs are made of

A printed program consists of symbols, keywords, and the names and literals of the program. The
lemmas follow the printer and show that every printed token has a property `T`, given that the
tokens of the source have a property `S`. The end of file closes a source but is printed nowhere.
-/

namespace SmallCpp

/-- No expression contains the end of file. -/
theorem Derives.ne_eof {n : Nat} {w : List TokenKind} {e : Expr} (h : Derives n w e) :
    ∀ k ∈ w, k ≠ .eof := by
  induction h with
  | up _ _ ih => exact ih
  | literal lit =>
    rw [List.forall_mem_singleton]
    cases lit with
    | bool b => cases b <;> simp [Literal.kind]
    | _ => simp [Literal.kind]
  | @call _ w args _ _ ih ihargs =>
    have hwords : ∀ k ∈ separated (args.map Prod.fst), k ≠ .eof :=
      (Expr.forall_separated (by simp)).mpr (List.forall_mem_map.mpr ihargs)
    rw [List.forall_mem_append, List.forall_mem_cons, List.forall_mem_append]
    exact ⟨ih, by simp, hwords, by simp⟩
  | _ => simp_all [or_imp]

/-- Programs of source tokens with the property `S` are printed in tokens with the property `T`. -/
structure Printable (S T : TokenKind → Prop) : Prop where
  source : ∀ k, S k → k ≠ .eof → T k
  symbol : ∀ s, T (.symbol s)
  keyword : ∀ w, T (.keyword w)

variable {S T : TokenKind → Prop} {known : List String}

section Declarations

variable (hT : Printable S T)

include hT

/-- An expression is printed in tokens of its derivation and in symbols. -/
theorem Expr.MadeOf.forall_word {e : Expr} (h : e.MadeOf S) : ∀ k ∈ e.word .full, T k := by
  obtain ⟨w, hw, hderives⟩ := h
  have hsource : ∀ k ∈ w, T k := fun k hk => hT.source k (hw k hk) (hderives.ne_eof k hk)
  have hword : ∀ k ∈ e.bare.word .full, T k := Expr.forall_word hT.symbol hderives hsource
  rwa [word_bare ParenRule.full_bare] at hword

/-- An expression is printed so with the parentheses around it, too. -/
theorem Expr.MadeOf.forall_printed {e : Expr} (h : e.MadeOf S) : ∀ k ∈ e.printed, T k :=
  (forall_enclosed hT.symbol _).mpr (h.forall_word hT)

/-- An expression that may be left out is printed as one that is there, or as nothing. -/
theorem forall_printed? {value : Option Expr} (h : ∀ e ∈ value, e.MadeOf S) :
    ∀ k ∈ Expr.printed? value, T k := by
  cases value with
  | none => exact List.forall_mem_nil _
  | some e => exact (h e rfl).forall_printed hT

/-- The bounds of an array are printed in such tokens. -/
theorem forall_boundsWord {dims : List (Option Expr)} (h : BoundsWellFormed S dims) :
    ∀ k ∈ boundsWord dims, T k := by
  rw [boundsWord, List.forall_mem_flatMap]
  intro bound hbound
  rw [List.forall_mem_cons, List.forall_mem_append, List.forall_mem_singleton]
  exact ⟨hT.symbol _, forall_printed? hT (h bound hbound), hT.symbol _⟩

/-- The name of a variable is one of the source, and what stands around it are symbols and bounds.
-/
theorem forall_declaratorWord {name : String} {byRef : Bool} {dims : List (Option Expr)}
    (hname : S (.identifier name)) (hdims : BoundsWellFormed S dims) :
    ∀ k ∈ declaratorWord name byRef dims, T k := by
  have hname : T (.identifier name) := hT.source _ hname (by simp)
  have hbounds := forall_boundsWord hT hdims
  cases byRef with
  | false => exact List.forall_mem_cons.mpr ⟨hname, hbounds⟩
  | true =>
    cases dims with
    | nil =>
      rw [declaratorWord, List.forall_mem_cons, List.forall_mem_singleton]
      exact ⟨hT.symbol _, hname⟩
    | cons bound dims =>
      simp only [declaratorWord, List.forall_mem_cons]
      exact ⟨hT.symbol _, hT.symbol _, hname, hT.symbol _, hbounds⟩

end Declarations

namespace Initializer

mutual

/-- An initializer is printed in such tokens: an expression, or a list of initializers. -/
theorem forall_word (hT : Printable S T) :
    ∀ i : Initializer, i.Each (Expr.MadeOf S) → ∀ k ∈ i.word, T k
  | expr e, h => by
    have he : e.MadeOf S := h
    rw [word]
    exact he.forall_printed hT
  | list items _, h => by
    rw [word, List.forall_mem_cons, List.forall_mem_append, List.forall_mem_singleton,
      Expr.forall_separated hT.symbol]
    exact ⟨hT.symbol _, forall_words hT items h, hT.symbol _⟩

/-- Each of several initializers is printed in such tokens. -/
theorem forall_words (hT : Printable S T) :
    ∀ is : List Initializer, EachIn (Expr.MadeOf S) is → ∀ w ∈ words is, ∀ k ∈ w, T k
  | [], _ => List.forall_mem_nil _
  | i :: is, h => List.forall_mem_cons.mpr ⟨forall_word hT i h.1, forall_words hT is h.2⟩

end

end Initializer

/-- One variable of a declaration is printed in such tokens. -/
theorem VarDecl.WellFormed.forall_word (hT : Printable S T) {type : WrittenType} {decl : VarDecl}
    (h : decl.WellFormed S type) : ∀ k ∈ decl.word, T k := by
  rw [VarDecl.word, List.forall_mem_append]
  refine ⟨forall_declaratorWord hT h.name h.bounds, ?_⟩
  cases hinit : decl.init with
  | none => exact List.forall_mem_nil _
  | some i =>
    rw [initWord, List.forall_mem_cons]
    exact ⟨hT.symbol _, i.forall_word hT (h.init i hinit)⟩

/-- The base of a type is a keyword or a record that the source names. -/
theorem WrittenType.IsBase.forall_baseKind (hT : Printable S T)
    (hknown : ∀ name ∈ known, S (.identifier name)) {type : WrittenType}
    (h : type.IsBase known) : T type.baseKind := by
  cases type with
  | named name => exact hT.source (.identifier name) (hknown name h) (by simp)
  | array => exact h.elim
  | _ => exact hT.keyword _

/-- A declaration of several variables over one base type is printed in such tokens. -/
theorem forall_declarationWord (hT : Printable S T)
    (hknown : ∀ name ∈ known, S (.identifier name)) {decls : List VarDecl}
    (h : DeclarationWellFormed S known decls) : ∀ k ∈ declarationWord decls, T k := by
  obtain ⟨hne, type, htype, hdecls⟩ := h
  rw [Parser.declarationWord_eq hne hdecls, List.forall_mem_cons, List.forall_mem_append,
    List.forall_mem_singleton, Expr.forall_separated hT.symbol, List.forall_mem_map]
  exact ⟨htype.1.forall_baseKind hT hknown, fun decl hdecl => (hdecls decl hdecl).forall_word hT,
    hT.symbol _⟩

namespace Statement

mutual

/-- A statement is printed in such tokens, by recursion on the statements in it. -/
theorem forall_word (hT : Printable S T) (hknown : ∀ name ∈ known, S (.identifier name)) :
    ∀ s : Statement, s.WellFormed S known → ∀ k ∈ s.word, T k
  | declare decls _, h => by
    have hdecls : DeclarationWellFormed S known decls := h
    rw [word]
    exact forall_declarationWord hT hknown hdecls
  | expr e _, h => by
    have he : e.MadeOf S := h
    rw [word, List.forall_mem_append, List.forall_mem_singleton, Expr.forall_enclosed hT.symbol]
    exact ⟨he.forall_word hT, hT.symbol _⟩
  | ifThen cond thenBranch _, ⟨hcond, hthen⟩ => by
    rw [word, List.forall_mem_cons, List.forall_mem_append, Expr.forall_enclosed hT.symbol]
    exact ⟨hT.keyword _, hcond.forall_printed hT, forall_word hT hknown thenBranch hthen⟩
  | ifElse cond thenBranch elseBranch _, ⟨hcond, hthen, helse, _⟩ => by
    rw [word, List.forall_mem_cons, List.forall_mem_append, Expr.forall_enclosed hT.symbol,
      List.forall_mem_append, List.forall_mem_cons]
    exact ⟨hT.keyword _, hcond.forall_printed hT, forall_word hT hknown thenBranch hthen,
      hT.keyword _, forall_word hT hknown elseBranch helse⟩
  | loop cond body _, ⟨hcond, hbody⟩ => by
    rw [word, List.forall_mem_cons, List.forall_mem_append, Expr.forall_enclosed hT.symbol]
    exact ⟨hT.keyword _, hcond.forall_printed hT, forall_word hT hknown body hbody⟩
  | ret value _, h => by
    rw [word, List.forall_mem_cons, List.forall_mem_append, List.forall_mem_singleton]
    exact ⟨hT.keyword _, forall_printed? hT h, hT.symbol _⟩
  | block body _, h => by
    rw [word, List.forall_mem_cons, List.forall_mem_append, List.forall_mem_singleton]
    exact ⟨hT.symbol _, forall_wordAll hT hknown body h, hT.symbol _⟩
  | empty _, _ => by
    rw [word, List.forall_mem_singleton]
    exact hT.symbol _

/-- Several statements are printed in such tokens, one after the other. -/
theorem forall_wordAll (hT : Printable S T) (hknown : ∀ name ∈ known, S (.identifier name)) :
    ∀ ss : List Statement, AllWellFormed S known ss → ∀ k ∈ wordAll ss, T k
  | [], _ => List.forall_mem_nil _
  | s :: ss, h => by
    rw [wordAll, List.forall_mem_append]
    exact ⟨forall_word hT hknown s h.1, forall_wordAll hT hknown ss h.2⟩

end

end Statement

section Items

variable (hT : Printable S T) (hknown : ∀ name ∈ known, S (.identifier name))

include hT hknown

/-- A parameter is printed in such tokens. -/
theorem Param.WellFormed.forall_word {p : Param} (h : p.WellFormed S known) :
    ∀ k ∈ p.word, T k := by
  rw [Param.word, ← Parser.baseKind_base, List.forall_mem_cons]
  exact ⟨h.type.1.forall_baseKind hT hknown, forall_declaratorWord hT h.name h.bounds⟩

/-- A function is printed in such tokens, with a body or without. -/
theorem FunctionDecl.WellFormed.forall_word {decl : FunctionDecl} (h : decl.WellFormed S known) :
    ∀ k ∈ decl.word, T k := by
  have hparams : ∀ k ∈ separated (decl.params.map Param.word), T k := by
    rw [Expr.forall_separated hT.symbol, List.forall_mem_map]
    exact fun p hp => (h.params p hp).forall_word hT hknown
  have hbody : ∀ k ∈ (decl.body.map Block.word).getD [.symbol .semi], T k := by
    cases hb : decl.body with
    | none => exact List.forall_mem_singleton.mpr (hT.symbol _)
    | some b =>
      rw [Option.map_some, Option.getD_some, Block.word, List.forall_mem_cons,
        List.forall_mem_append, List.forall_mem_singleton]
      exact ⟨hT.symbol _, Statement.forall_wordAll hT hknown _ (h.body b hb), hT.symbol _⟩
  rw [FunctionDecl.word, FunctionDecl.declaredWord, List.forall_mem_cons, List.forall_mem_cons,
    List.forall_mem_cons, List.forall_mem_append, List.forall_mem_cons]
  exact ⟨h.returns.forall_baseKind hT hknown, hT.source _ h.name (by simp), hT.symbol _, hparams,
    hT.symbol _, hbody⟩

/-- A record is printed in such tokens. -/
theorem RecordDecl.WellFormed.forall_word {decl : RecordDecl} (h : decl.WellFormed S known) :
    ∀ k ∈ decl.word, T k := by
  have hfields : ∀ k ∈ decl.fields.flatMap FieldDecl.word, T k := by
    rw [List.forall_mem_flatMap]
    intro f hf
    have hwf := h.fields f hf
    rw [FieldDecl.word, ← Parser.baseKind_base, List.forall_mem_cons, List.forall_mem_append,
      List.forall_mem_singleton]
    exact ⟨hwf.type.1.forall_baseKind hT hknown, forall_declaratorWord hT hwf.name hwf.bounds,
      hT.symbol _⟩
  rw [RecordDecl.word, List.forall_mem_cons, List.forall_mem_cons, List.forall_mem_cons,
    List.forall_mem_append, List.forall_mem_cons, List.forall_mem_singleton]
  exact ⟨hT.keyword _, hT.source _ h.name (by simp), hT.symbol _, hfields, hT.symbol _,
    hT.symbol _⟩

/-- An item of any kind is printed in such tokens. -/
theorem Item.WellFormed.forall_word {i : Item} (h : i.WellFormed S known) :
    ∀ k ∈ i.word, T k := by
  cases i with
  | function decl => exact FunctionDecl.WellFormed.forall_word hT hknown h
  | record decl => exact RecordDecl.WellFormed.forall_word hT hknown h
  | global decl =>
    obtain ⟨type, htype, hdecl⟩ := h
    have hdecls : ∀ d ∈ [decl], d.WellFormed S type := by simpa using hdecl
    exact forall_declarationWord hT hknown ⟨List.cons_ne_nil _ _, type, htype, hdecls⟩

end Items

/-- A record that an item defines has a name of the source. -/
theorem Item.WellFormed.definedNames {i : Item} (h : i.WellFormed S known) :
    ∀ name ∈ Parser.definedNames [i], S (.identifier name) := by
  cases i with
  | record decl =>
    have hdecl : decl.WellFormed S known := h
    exact List.forall_mem_singleton.mpr hdecl.name
  | _ => exact List.forall_mem_nil _

/-- Every token of a printed program has the property. -/
theorem Program.WellFormed.forall_word (hT : Printable S T) {p : Program} (h : p.WellFormed S) :
    ∀ k ∈ p.word, T k := by
  -- the records that are known grow along the items, and all have names of the source
  have hitems : ∀ {is : List Item} {known : List String}, Item.AllWellFormed S known is →
      (∀ name ∈ known, S (.identifier name)) → ∀ k ∈ is.flatMap Item.word, T k := by
    intro is
    induction is with
    | nil => exact fun _ _ => List.forall_mem_nil _
    | cons i is ih =>
      intro known h hknown
      rw [List.flatMap_cons, List.forall_mem_append]
      exact ⟨h.1.forall_word hT hknown,
        ih h.2 (List.forall_mem_append.mpr ⟨h.1.definedNames, hknown⟩)⟩
  exact hitems h (List.forall_mem_nil _)

end SmallCpp
