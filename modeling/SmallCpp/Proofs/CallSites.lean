import SmallCpp.CallCheck
import Mathlib.Tactic.Common

/-!
# The calls of a program

A `CallSite` is a call as it stands in the source. `Program.callSites` lists those of a program, in
the order in which the check of calls comes to them: the calls in an argument before the call.
The check looks at one call site after another and at nothing else (`Program.callErrors_eq`), so
that what it says of a program follows from what it says of each call.
-/

namespace SmallCpp

/-- A call in the source. -/
structure CallSite where
  /-- The name of the function. -/
  callee : String
  /-- Where the name stands. -/
  calleeSpan : Span
  /-- The arguments in order. -/
  args : List Expr
  /-- Where the call stands. -/
  span : Span

/-- The call as an expression. -/
def CallSite.toExpr (site : CallSite) : Expr :=
  .call site.callee site.calleeSpan site.args site.span

namespace Expr

mutual

/-- The calls in an expression. -/
def callSites : Expr → List CallSite
  | literal .. | name .. => []
  | binary _ left right _ => left.callSites ++ right.callSites
  | unary _ operand _ => operand.callSites
  | assign _ target value _ => target.callSites ++ value.callSites
  | step _ _ target _ => target.callSites
  | call callee calleeSpan args span => callSitesIn args ++ [⟨callee, calleeSpan, args, span⟩]
  | index base subscript _ => base.callSites ++ subscript.callSites
  | field base _ _ => base.callSites

/-- The calls in several expressions. -/
def callSitesIn : List Expr → List CallSite
  | [] => []
  | e :: es => e.callSites ++ callSitesIn es

end

end Expr

namespace Initializer

mutual

/-- The calls in an initializer. -/
def callSites : Initializer → List CallSite
  | expr e => e.callSites
  | list items _ => callSitesIn items

/-- The calls in several initializers. -/
def callSitesIn : List Initializer → List CallSite
  | [] => []
  | i :: is => i.callSites ++ callSitesIn is

end

end Initializer

/-- The calls in a variable's initializer. -/
def VarDecl.callSites (decl : VarDecl) : List CallSite :=
  match decl.init with
  | some init => init.callSites
  | none => []

namespace Statement

mutual

/-- The calls in a statement. -/
def callSites : Statement → List CallSite
  | declare decls _ => decls.flatMap VarDecl.callSites
  | expr e _ => e.callSites
  | ifThen cond thenBranch _ => cond.callSites ++ thenBranch.callSites
  | ifElse cond thenBranch elseBranch _ =>
    cond.callSites ++ thenBranch.callSites ++ elseBranch.callSites
  | loop cond body _ => cond.callSites ++ body.callSites
  | ret (some e) _ => e.callSites
  | ret none _ => []
  | block body _ => callSitesIn body
  | empty _ => []

/-- The calls in several statements. -/
def callSitesIn : List Statement → List CallSite
  | [] => []
  | s :: ss => s.callSites ++ callSitesIn ss

end

end Statement

/-- The calls in an item. -/
def Item.callSites : Item → List CallSite
  | function decl =>
    match decl.body with
    | some body => Statement.callSitesIn body.statements
    | none => []
  | global decl => decl.callSites
  | record _ => []

namespace Program

variable (p : Program)

/-- The calls in a program. -/
def callSites : List CallSite :=
  p.items.flatMap Item.callSites

/-- The errors of a call, its arguments apart. -/
def errorsAt (site : CallSite) : List CallError :=
  p.errorsOfCall site.callee site.calleeSpan site.args site.span

mutual

/-- The errors inside an expression are those of its calls. -/
theorem errorsInExpr_eq : ∀ e : Expr, p.errorsInExpr e = e.callSites.flatMap p.errorsAt
  | .literal .. | .name .. => by simp only [errorsInExpr, Expr.callSites, List.flatMap_nil]
  | .binary _ left right _ | .index left right _ | .assign _ left right _ => by
    rw [errorsInExpr, Expr.callSites, List.flatMap_append, errorsInExpr_eq left,
      errorsInExpr_eq right]
  | .unary _ e _ | .step _ _ e _ | .field e _ _ => by
    rw [errorsInExpr, Expr.callSites, errorsInExpr_eq e]
  | .call callee calleeSpan args span => by
    rw [errorsInExpr, Expr.callSites, List.flatMap_append, List.flatMap_singleton,
      errorsInExprs_eq args, errorsAt]

/-- The errors in several expressions are those at their calls. -/
theorem errorsInExprs_eq : ∀ es : List Expr,
    p.errorsInExprs es = (Expr.callSitesIn es).flatMap p.errorsAt
  | [] => by rw [errorsInExprs, Expr.callSitesIn, List.flatMap_nil]
  | e :: es => by
    rw [errorsInExprs, Expr.callSitesIn, List.flatMap_append, errorsInExpr_eq e,
      errorsInExprs_eq es]

end

mutual

/-- The errors in an initializer are those at its calls. -/
theorem errorsInInit_eq : ∀ i : Initializer, p.errorsInInit i = i.callSites.flatMap p.errorsAt
  | .expr e => by rw [errorsInInit, Initializer.callSites, errorsInExpr_eq]
  | .list items _ => by rw [errorsInInit, Initializer.callSites, errorsInInits_eq items]

/-- The errors in several initializers are those at their calls. -/
theorem errorsInInits_eq : ∀ is : List Initializer,
    p.errorsInInits is = (Initializer.callSitesIn is).flatMap p.errorsAt
  | [] => by rw [errorsInInits, Initializer.callSitesIn, List.flatMap_nil]
  | i :: is => by
    rw [errorsInInits, Initializer.callSitesIn, List.flatMap_append, errorsInInit_eq i,
      errorsInInits_eq is]

end

/-- The errors in a declaration are those at its calls. -/
theorem errorsInDecl_eq (decl : VarDecl) :
    p.errorsInDecl decl = decl.callSites.flatMap p.errorsAt := by
  rw [errorsInDecl, VarDecl.callSites]
  cases decl.init with
  | none => rfl
  | some init => exact p.errorsInInit_eq init

mutual

/-- The errors inside a statement are those of its calls. -/
theorem errorsInStatement_eq : ∀ s : Statement,
    p.errorsInStatement s = s.callSites.flatMap p.errorsAt
  | .declare decls _ => by
    rw [errorsInStatement, Statement.callSites, List.flatMap_assoc]
    exact congrArg (decls.flatMap ·) (funext p.errorsInDecl_eq)
  | .expr e _ | .ret (some e) _ => by
    rw [errorsInStatement, Statement.callSites, errorsInExpr_eq]
  | .ifThen cond thenBranch _ => by
    rw [errorsInStatement, Statement.callSites, List.flatMap_append, errorsInExpr_eq,
      errorsInStatement_eq thenBranch]
  | .ifElse cond thenBranch elseBranch _ => by
    rw [errorsInStatement, Statement.callSites, List.flatMap_append, List.flatMap_append,
      errorsInExpr_eq, errorsInStatement_eq thenBranch, errorsInStatement_eq elseBranch]
  | .loop cond body _ => by
    rw [errorsInStatement, Statement.callSites, List.flatMap_append, errorsInExpr_eq,
      errorsInStatement_eq body]
  | .ret none _ | .empty _ => by rw [errorsInStatement, Statement.callSites, List.flatMap_nil]
  | .block body _ => by rw [errorsInStatement, Statement.callSites, errorsInStatements_eq body]

/-- The errors in several statements are those at their calls. -/
theorem errorsInStatements_eq : ∀ ss : List Statement,
    p.errorsInStatements ss = (Statement.callSitesIn ss).flatMap p.errorsAt
  | [] => by rw [errorsInStatements, Statement.callSitesIn, List.flatMap_nil]
  | s :: ss => by
    rw [errorsInStatements, Statement.callSitesIn, List.flatMap_append, errorsInStatement_eq s,
      errorsInStatements_eq ss]

end

/-- The errors in an item are those at its calls. -/
theorem errorsInItem_eq (item : Item) :
    p.errorsInItem item = item.callSites.flatMap p.errorsAt := by
  cases item with
  | function decl =>
    rw [errorsInItem, Item.callSites]
    cases decl.body with
    | none => rfl
    | some body => exact p.errorsInStatements_eq body.statements
  | record decl => rfl
  | global decl => exact p.errorsInDecl_eq decl

/-- The errors of a program are the error of its entry function and those of its calls. -/
theorem callErrors_eq (entry : String) :
    p.callErrors entry = p.entryErrors entry ++ p.callSites.flatMap p.errorsAt := by
  rw [callErrors, callSites, List.flatMap_assoc]
  exact congrArg (p.entryErrors entry ++ p.items.flatMap ·) (funext p.errorsInItem_eq)

end Program

end SmallCpp
