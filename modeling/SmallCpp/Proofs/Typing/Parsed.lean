import SmallCpp.Proofs.Typing.Declarations
import SmallCpp.Proofs.WellFormed.Parsed

/-!
# A program that is read declares no `void`

The grammar has `void` where a base type may stand, but variables and members of that type are
refused while reading. So it is one of the things that make a program well formed, and nothing has
to be known of the parser but that it reads well-formed programs (`Program.holds_of_parse`).
-/

namespace SmallCpp

variable {S : TokenKind → Prop} {known : List String}

/-- A variable of a declaration whose base type is not `void`. -/
theorem VarDecl.WellFormed.holds {base : WrittenType} {decl : VarDecl}
    (h : decl.WellFormed S base) (hbase : base.IsVariable known) : decl.Holds := by
  refine WrittenType.isVoid_of_base ?_
  rw [h.type]
  exact hbase.2

namespace Statement

mutual

/-- The variables that a well-formed statement declares, at any depth. -/
theorem eachDecl_of_wellFormed :
    ∀ s : Statement, s.WellFormed S known → s.EachDecl VarDecl.Holds
  | declare _ _, ⟨_, _, hbase, hdecls⟩ => fun decl hdecl => (hdecls decl hdecl).holds hbase
  | ifThen _ thenBranch _, h => eachDecl_of_wellFormed thenBranch h.2
  | ifElse _ thenBranch elseBranch _, h =>
    ⟨eachDecl_of_wellFormed thenBranch h.2.1, eachDecl_of_wellFormed elseBranch h.2.2.1⟩
  | loop _ body _, h => eachDecl_of_wellFormed body h.2
  | block body _, h => eachDeclIn_of_allWellFormed body h
  | expr .., _ | ret .., _ | empty _, _ => trivial

/-- The variables that well-formed statements declare, at any depth. -/
theorem eachDeclIn_of_allWellFormed :
    ∀ ss : List Statement, AllWellFormed S known ss → EachDeclIn VarDecl.Holds ss
  | [], _ => trivial
  | s :: ss, h => ⟨eachDecl_of_wellFormed s h.1, eachDeclIn_of_allWellFormed ss h.2⟩

end

end Statement

/-- An item declares its variables in the body of a function, as members or as a global. -/
theorem Item.WellFormed.holds {i : Item} (h : i.WellFormed S known) : i.Holds := by
  cases i with
  | function decl => exact fun b hb => Statement.eachDeclIn_of_allWellFormed _ (h.body b hb)
  | record decl =>
    exact fun f hf => WrittenType.isVoid_of_base (h.fields f hf).type.2
  | global decl =>
    obtain ⟨base, hbase, hdecl⟩ := h
    exact hdecl.holds hbase

/-- What the items before an item define does not matter here. -/
theorem Item.AllWellFormed.holds {is : List Item} (h : Item.AllWellFormed S known is) :
    ∀ i ∈ is, i.Holds := by
  induction is generalizing known with
  | nil => exact List.forall_mem_nil _
  | cons i is ih => exact List.forall_mem_cons.mpr ⟨h.1.holds, ih h.2⟩

/-- A program that is read from a source declares no `void` variable or member. -/
theorem Program.holds_of_parse {source : String} {p : Program} (h : parse source = .ok p) :
    p.Holds := by
  rw [parse] at h
  cases hscan : scan source with
  | error errors =>
    rw [hscan] at h
    cases h
  | ok tokens =>
    rw [hscan] at h
    have hwf : p.WellFormed fun _ => True := wellFormed_of_ofTokens (fun _ _ => trivial) h
    exact hwf.holds

end SmallCpp
