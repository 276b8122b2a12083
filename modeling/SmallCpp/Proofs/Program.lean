import SmallCpp.Program
import Mathlib.Tactic.Common

/-!
# Parts of a program

The declarations of a program are its items of a kind. A function may be declared more than once:
its first declaration and the one that carries its body are the two that count. A property may be
asked of each variable that a statement declares, however deeply nested.
-/

namespace SmallCpp

namespace Program

variable {p : Program}

/-- The functions of a program are items of it. -/
theorem mem_functions {decl : FunctionDecl} (h : decl ∈ p.functions) :
    .function decl ∈ p.items := by
  obtain ⟨item, hitem, heq⟩ := List.mem_filterMap.mp h
  cases item <;> cases heq
  exact hitem

/-- The records of a program are items of it. -/
theorem mem_records {decl : RecordDecl} (h : decl ∈ p.records) : .record decl ∈ p.items := by
  obtain ⟨item, hitem, heq⟩ := List.mem_filterMap.mp h
  cases item <;> cases heq
  exact hitem

/-- The global variables of a program are items of it. -/
theorem mem_globals {decl : VarDecl} (h : decl ∈ p.globals) : .global decl ∈ p.items := by
  obtain ⟨item, hitem, heq⟩ := List.mem_filterMap.mp h
  cases item <;> cases heq
  exact hitem

end Program

/-- The first declaration of a name. -/
def firstDecl? (decls : List FunctionDecl) (name : String) : Option FunctionDecl :=
  decls.find? (·.name == name)

/-- The body of a name, which some declaration of it carries. -/
def bodyOf? (decls : List FunctionDecl) (name : String) : Option Block :=
  decls.findSome? fun decl => if decl.name == name then decl.body else none

/-- One declaration more is the first of its name if there was none. -/
theorem firstDecl?_append (decls : List FunctionDecl) (decl : FunctionDecl) (name : String) :
    firstDecl? (decls ++ [decl]) name =
      (firstDecl? decls name).or (if decl.name == name then some decl else none) := by
  rw [firstDecl?, List.find?_append, List.find?_singleton]
  rfl

/-- The body of one declaration more is that of its name if there was none. -/
theorem bodyOf?_append (decls : List FunctionDecl) (decl : FunctionDecl) (name : String) :
    bodyOf? (decls ++ [decl]) name =
      (bodyOf? decls name).or (if decl.name == name then decl.body else none) := by
  rw [bodyOf?, List.findSome?_append, List.findSome?_singleton]
  rfl

/-- The body of a name is the body of a declaration of that name. -/
theorem exists_of_bodyOf? {decls : List FunctionDecl} {name : String} {b : Block}
    (h : bodyOf? decls name = some b) : ∃ decl ∈ decls, decl.name = name ∧ decl.body = some b := by
  obtain ⟨decl, hmem, hdecl⟩ := List.exists_of_findSome?_eq_some h
  split_ifs at hdecl with hname
  exact ⟨decl, hmem, beq_iff_eq.mp hname, hdecl⟩

mutual

/-- Each variable declared inside a statement has a property. -/
def Statement.EachDecl (P : VarDecl → Prop) : Statement → Prop
  | .declare decls _ => ∀ decl ∈ decls, P decl
  | .ifThen _ thenBranch _ => thenBranch.EachDecl P
  | .ifElse _ thenBranch elseBranch _ => thenBranch.EachDecl P ∧ elseBranch.EachDecl P
  | .loop _ body _ => body.EachDecl P
  | .block body _ => Statement.EachDeclIn P body
  | .expr .. | .ret .. | .empty _ => True

/-- Each variable declared inside several statements has a property. -/
def Statement.EachDeclIn (P : VarDecl → Prop) : List Statement → Prop
  | [] => True
  | s :: ss => s.EachDecl P ∧ Statement.EachDeclIn P ss

end

end SmallCpp
