import SmallCpp.Program

/-!
# Syntax without spans

Two pieces of syntax are equal up to spans if they are equal once all spans in them are the same
one. `bare` replaces every span by `Span.nowhere`.
-/

namespace SmallCpp

/-- The span that all places are replaced by. -/
def Span.nowhere : Span :=
  ⟨0, 0⟩

namespace Expr

mutual

/-- The expression without its spans. -/
def bare : Expr → Expr
  | literal lit _ => literal lit .nowhere
  | name id _ => name id .nowhere
  | binary op left right _ => binary op left.bare right.bare .nowhere
  | unary op operand _ => unary op operand.bare .nowhere
  | assign op target value _ => assign op target.bare value.bare .nowhere
  | step op fixity target _ => step op fixity target.bare .nowhere
  | call callee _ args _ => call callee .nowhere (bareAll args) .nowhere
  | index base subscript _ => index base.bare subscript.bare .nowhere
  | field base id _ => field base.bare id .nowhere

/-- Expressions without their spans. -/
def bareAll : List Expr → List Expr
  | [] => []
  | e :: es => e.bare :: bareAll es

end

/-- Several expressions without spans are each of them without. -/
theorem bareAll_eq_map (es : List Expr) : bareAll es = es.map bare := by
  induction es with
  | nil => rfl
  | cons e es ih => rw [bareAll, ih, List.map_cons]

/-- Spans do not tell what names storage. -/
@[simp] theorem isPlace_bare (e : Expr) : e.bare.isPlace = e.isPlace := by
  induction e using isPlace.induct with
  | case1 => rfl
  | case2 base subscript span ih => simpa only [bare, isPlace] using ih
  | case3 base id span ih => simpa only [bare, isPlace] using ih
  | case4 e hname hindex hfield =>
    cases e with
    | name id span => exact absurd rfl (hname id span)
    | index base subscript span => exact absurd rfl (hindex base subscript span)
    | field base id span => exact absurd rfl (hfield base id span)
    | _ => rfl

end Expr

/-- The type without the spans in its bounds. -/
def WrittenType.bare : WrittenType → WrittenType
  | array elem bound => array elem.bare (bound.map Expr.bare)
  | type => type

namespace Initializer

mutual

/-- The initializer without its spans. -/
def bare : Initializer → Initializer
  | expr e => expr e.bare
  | list items _ => list (bareAll items) .nowhere

/-- Initializers without their spans. -/
def bareAll : List Initializer → List Initializer
  | [] => []
  | i :: is => i.bare :: bareAll is

end

/-- Several initializers without spans are each of them without. -/
theorem bareAll_eq_map (is : List Initializer) : bareAll is = is.map bare := by
  induction is with
  | nil => rfl
  | cons i is ih => rw [bareAll, ih, List.map_cons]

end Initializer

/-- The declared variable without spans. -/
def VarDecl.bare (decl : VarDecl) : VarDecl :=
  ⟨decl.name, decl.type.bare, decl.byRef, decl.init.map Initializer.bare, .nowhere⟩

namespace Statement

mutual

/-- The statement without its spans. -/
def bare : Statement → Statement
  | declare decls _ => declare (decls.map VarDecl.bare) .nowhere
  | expr e _ => expr e.bare .nowhere
  | ifThen cond thenBranch _ => ifThen cond.bare thenBranch.bare .nowhere
  | ifElse cond thenBranch elseBranch _ =>
    ifElse cond.bare thenBranch.bare elseBranch.bare .nowhere
  | loop cond body _ => loop cond.bare body.bare .nowhere
  | ret value _ => ret (value.map Expr.bare) .nowhere
  | block body _ => block (bareAll body) .nowhere
  | empty _ => empty .nowhere

/-- Statements without their spans. -/
def bareAll : List Statement → List Statement
  | [] => []
  | s :: ss => s.bare :: bareAll ss

end

end Statement

/-- The block without spans. -/
def Block.bare (b : Block) : Block :=
  ⟨Statement.bareAll b.statements, .nowhere⟩

/-- The parameter without spans. -/
def Param.bare (p : Param) : Param :=
  ⟨p.name, p.type.bare, p.byRef, .nowhere⟩

/-- The function without spans. -/
def FunctionDecl.bare (decl : FunctionDecl) : FunctionDecl :=
  ⟨decl.name, decl.params.map Param.bare, decl.returns.bare, decl.body.map Block.bare, .nowhere⟩

/-- The member without spans. -/
def FieldDecl.bare (f : FieldDecl) : FieldDecl :=
  ⟨f.name, f.type.bare, .nowhere⟩

/-- The record without spans. -/
def RecordDecl.bare (decl : RecordDecl) : RecordDecl :=
  ⟨decl.name, decl.fields.map FieldDecl.bare, .nowhere⟩

/-- The item without spans. -/
def Item.bare : Item → Item
  | function decl => function decl.bare
  | record decl => record decl.bare
  | global decl => global decl.bare

/-- The program without spans. -/
def Program.bare (p : Program) : Program :=
  ⟨p.items.map Item.bare⟩

end SmallCpp
