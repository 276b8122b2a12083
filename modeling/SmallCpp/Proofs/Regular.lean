import SmallCpp.Proofs.Grammar.Printing
import SmallCpp.Proofs.WellFormed.Parsed

/-!
# Regular programs

The expressions, statements and types of a program, however deeply they stand in it, and what is
required of them in a regular program: what is assigned to is a place, nothing that holds a value is
`void`, a named type is a record that is defined before, and an `else` belongs to the nearest `if`.
Every program that is read from a source is regular (`Program.regular_of_parse`), since it is well
formed and parts of what is well formed are well formed.
-/

namespace SmallCpp

namespace Expr

/-- What an assignment or a step writes to. -/
def target? : Expr → Option Expr
  | assign _ target _ _ | step _ _ target _ => some target
  | _ => none

mutual

/-- The expression and all expressions in it. -/
def parts : Expr → List Expr
  | literal lit s => [literal lit s]
  | name id s => [name id s]
  | binary op left right s => binary op left right s :: (left.parts ++ right.parts)
  | unary op operand s => unary op operand s :: operand.parts
  | assign op target value s => assign op target value s :: (target.parts ++ value.parts)
  | step op fixity target s => step op fixity target s :: target.parts
  | call callee cs args s => call callee cs args s :: partsIn args
  | index base subscript s => index base subscript s :: (base.parts ++ subscript.parts)
  | field base id s => field base id s :: base.parts

/-- All expressions in several expressions. -/
def partsIn : List Expr → List Expr
  | [] => []
  | e :: es => e.parts ++ partsIn es

end

/-- What the expression itself writes to is a place. -/
def WritesPlace (e : Expr) : Prop :=
  ∀ target, e.target? = some target → target.isPlace = true

mutual

/-- All targets are places if that holds of each expression inside. -/
theorem placed_iff : ∀ e : Expr, e.placed = true ↔ ∀ part ∈ e.parts, part.WritesPlace
  | literal .. | name .. => by simp [placed, parts, WritesPlace, target?]
  | binary _ left right _ | index left right _ | assign _ left right _ => by
    simp [placed, parts, WritesPlace, target?, placed_iff left, placed_iff right, or_imp,
      forall_and, and_assoc]
  | unary _ e _ | field e _ _ | step _ _ e _ => by
    simp [placed, parts, WritesPlace, target?, placed_iff e]
  | call _ _ args _ => by simp [placed, parts, WritesPlace, target?, allPlaced_iff args]

/-- All targets in several expressions are places if that holds of each expression inside. -/
theorem allPlaced_iff : ∀ es : List Expr,
    allPlaced es = true ↔ ∀ part ∈ partsIn es, part.WritesPlace
  | [] => by simp [allPlaced, partsIn]
  | e :: es => by
    simp [allPlaced, partsIn, WritesPlace, placed_iff e, allPlaced_iff es, or_imp, forall_and]

end

/-- The targets in several expressions are places if those in each are. -/
theorem allPlaced_eq_all (es : List Expr) : allPlaced es = es.all placed := by
  induction es with
  | nil => rfl
  | cons e es ih => rw [allPlaced, ih, List.all_cons]

mutual

/-- Spans do not tell what is a target. -/
theorem placed_bare : ∀ e : Expr, e.bare.placed = e.placed
  | literal .. | name .. => rfl
  | binary _ left right _ | index left right _ => by
    rw [bare, placed, placed, placed_bare left, placed_bare right]
  | unary _ e _ | field e _ _ => by rw [bare, placed, placed, placed_bare e]
  | assign _ target value _ => by
    rw [bare, placed, placed, isPlace_bare, placed_bare target, placed_bare value]
  | step _ _ target _ => by rw [bare, placed, placed, isPlace_bare, placed_bare target]
  | call _ _ args _ => by rw [bare, placed, placed, allPlaced_bareAll args]

/-- Spans play no part in whether the targets in several expressions are places. -/
theorem allPlaced_bareAll : ∀ es : List Expr, allPlaced (bareAll es) = allPlaced es
  | [] => rfl
  | e :: es => by rw [bareAll, allPlaced, allPlaced, placed_bare e, allPlaced_bareAll es]

end

/-- The grammar has places only for targets. -/
theorem placed_of_derives {n : Nat} {w : List TokenKind} {e : Expr} (h : Derives n w e) :
    e.placed = true := by
  induction h with
  | up _ _ ih => exact ih
  -- The grammar asks for a place where something is written to.
  | assign op hplace _ _ iht ihv => rw [placed, hplace, iht, ihv]; rfl
  | binary op _ _ ihl ihr => rw [placed, ihl, ihr]; rfl
  | unary op _ ih => exact ih
  | stepBefore op hplace _ ih => rw [placed, hplace, ih]; rfl
  | stepAfter op hplace _ ih => rw [placed, hplace, ih]; rfl
  | index _ _ ihb ihs => rw [placed, ihb, ihs]; rfl
  | field id _ ih => exact ih
  -- Every argument is derived from a word of its own.
  | call _ _ _ ih =>
    rw [placed, allPlaced_eq_all, List.all_eq_true]
    intro arg harg
    obtain ⟨wa, hwa, rfl⟩ := List.mem_map.mp harg
    exact ih wa hwa
  | literal lit => rfl
  | name id => rfl
  | group _ ih => exact ih

/-- An expression that the grammar derives has places for its targets. -/
theorem MadeOf.placed {S : TokenKind → Prop} {e : Expr} (h : e.MadeOf S) : e.placed = true := by
  obtain ⟨w, -, hw⟩ := h
  rw [← placed_bare]
  exact placed_of_derives hw

end Expr

/-! ## The parts of a program -/

namespace Initializer

mutual

/-- The expressions of an initializer. -/
def exprs : Initializer → List Expr
  | expr e => [e]
  | list items _ => exprsIn items

/-- The expressions of several initializers. -/
def exprsIn : List Initializer → List Expr
  | [] => []
  | i :: is => i.exprs ++ exprsIn is

end

mutual

/-- A property of all expressions of an initializer, however deeply they stand in it. -/
theorem each_iff {P : Expr → Prop} : ∀ i : Initializer, i.Each P ↔ ∀ e ∈ i.exprs, P e
  | expr e => by rw [Each, exprs, List.forall_mem_singleton]
  | list items _ => by rw [Each, exprs, eachIn_iff items]

/-- What holds of several initializers holds of each expression in them. -/
theorem eachIn_iff {P : Expr → Prop} :
    ∀ is : List Initializer, EachIn P is ↔ ∀ e ∈ exprsIn is, P e
  | [] => by simp [EachIn, exprsIn]
  | i :: is => by rw [EachIn, exprsIn, each_iff i, eachIn_iff is, List.forall_mem_append]

end

end Initializer

/-- The bounds that are written in a type. -/
def WrittenType.bounds (type : WrittenType) : List Expr :=
  type.dims.filterMap id

/-- The expressions of a variable's initializer. -/
def VarDecl.initExprs (decl : VarDecl) : List Expr :=
  match decl.init with
  | some init => init.exprs
  | none => []

namespace Statement

mutual

/-- The statement and all statements in it. -/
def parts : Statement → List Statement
  | declare decls s => [declare decls s]
  | expr e s => [expr e s]
  | ifThen cond thenBranch s => ifThen cond thenBranch s :: thenBranch.parts
  | ifElse cond thenBranch elseBranch s =>
    ifElse cond thenBranch elseBranch s :: (thenBranch.parts ++ elseBranch.parts)
  | loop cond body s => loop cond body s :: body.parts
  | ret value s => [ret value s]
  | block body s => block body s :: partsIn body
  | empty s => [empty s]

/-- All statements in several statements. -/
def partsIn : List Statement → List Statement
  | [] => []
  | s :: ss => s.parts ++ partsIn ss

end

/-- The variables that the statement itself declares. -/
def decls : Statement → List VarDecl
  | declare decls _ => decls
  | _ => []

/-- The expressions of the statement itself, apart from those of its variables. -/
def exprs : Statement → List Expr
  | expr e _ | ifThen e _ _ | ifElse e _ _ _ | loop e _ _ => [e]
  | ret value _ => value.toList
  | declare .. | block .. | empty _ => []

end Statement

namespace Item

/-- The statements in an item. -/
def statements : Item → List Statement
  | function decl =>
    match decl.body with
    | some body => Statement.partsIn body.statements
    | none => []
  | record _ | global _ => []

/-- The variables that an item declares. -/
def vars : Item → List VarDecl
  | global decl => [decl]
  | item => item.statements.flatMap Statement.decls

/-- The parameters of an item. -/
def params : Item → List Param
  | function decl => decl.params
  | record _ | global _ => []

/-- The types of the variables, parameters and fields in an item. -/
def heldTypes : Item → List WrittenType
  | record decl => decl.fields.map (·.type)
  | item => item.vars.map (·.type) ++ item.params.map (·.type)

/-- All types that are written in an item. -/
def types : Item → List WrittenType
  | function decl => decl.returns :: (function decl).heldTypes
  | item => item.heldTypes

/-- The expressions in an item, apart from expressions in other expressions. -/
def exprs (item : Item) : List Expr :=
  item.types.flatMap WrittenType.bounds ++ item.vars.flatMap VarDecl.initExprs ++
    item.statements.flatMap Statement.exprs

end Item

/-- A regular program. -/
structure Program.Regular (p : Program) : Prop where
  /-- Assignments and steps write to places. -/
  targets : ∀ item ∈ p.items, ∀ e ∈ item.exprs, ∀ part ∈ e.parts, part.WritesPlace
  /-- No variable, parameter or field is `void`. -/
  held : ∀ item ∈ p.items, ∀ type ∈ item.heldTypes, type.isVoid = false
  /-- No array is one of `void`. -/
  elements : ∀ item ∈ p.items, ∀ type ∈ item.types, type.dims ≠ [] → type.base.isVoid = false
  /-- Every bound of a parameter is written. -/
  bounded : ∀ item ∈ p.items, ∀ param ∈ item.params, none ∉ param.type.dims
  /-- A named type is a record that is defined by an item before. -/
  defined : ∀ before item after, p.items = before ++ item :: after → ∀ type ∈ item.types,
    ∀ name, type.base = .named name → ∃ decl, .record decl ∈ before ∧ decl.name = name
  /-- A branch before an `else` does not end in an `if` without one. -/
  closed : ∀ item ∈ p.items, ∀ s ∈ item.statements, ∀ cond thenBranch elseBranch span,
    s = .ifElse cond thenBranch elseBranch span → thenBranch.isOpen = false

/-! ## Well-formed programs are regular -/

section

variable {S : TokenKind → Prop} {known : List String}

/-- A base type has no array layers. -/
theorem WrittenType.IsBase.base_eq {type : WrittenType} (h : type.IsBase known) :
    type.base = type ∧ type.dims = [] := by
  cases type with
  | array elem bound => exact h.elim
  | _ => exact ⟨rfl, rfl⟩

/-- The bounds of a well-formed type have places for their targets. -/
theorem BoundsWellFormed.placed {type : WrittenType} (h : BoundsWellFormed S type.dims) :
    ∀ e ∈ type.bounds, e.placed = true := by
  intro e he
  obtain ⟨bound, hbound, heq⟩ := List.mem_filterMap.mp he
  exact (h bound hbound e heq).placed

/-- The expressions in the initializer of a well-formed variable have places for their targets. -/
theorem VarDecl.WellFormed.placed {base : WrittenType} {decl : VarDecl}
    (h : decl.WellFormed S base) : ∀ e ∈ decl.initExprs, e.placed = true := by
  intro e he
  rw [initExprs] at he
  cases hinit : decl.init with
  | none =>
    rw [hinit] at he
    cases he
  | some init =>
    rw [hinit] at he
    exact ((Initializer.each_iff init).mp (h.init init hinit) e he).placed

namespace Statement

mutual

/-- The statements in a well-formed statement are well formed. -/
theorem WellFormed.of_mem_parts : ∀ {s : Statement}, s.WellFormed S known →
    ∀ part ∈ s.parts, part.WellFormed S known
  -- A statement without statements in it is its only part.
  | declare .., h | expr .., h | ret .., h | empty _, h => by
    rw [parts, List.forall_mem_singleton]
    exact h
  | ifThen _ thenBranch _, h | loop _ thenBranch _, h => by
    rw [parts, List.forall_mem_cons]
    exact ⟨h, WellFormed.of_mem_parts h.2⟩
  | ifElse _ thenBranch elseBranch _, h => by
    rw [parts, List.forall_mem_cons, List.forall_mem_append]
    exact ⟨h, WellFormed.of_mem_parts h.2.1, WellFormed.of_mem_parts h.2.2.1⟩
  | block body _, h => by
    rw [parts, List.forall_mem_cons]
    exact ⟨h, AllWellFormed.of_mem_partsIn h⟩

/-- The statements in well-formed statements are well formed. -/
theorem AllWellFormed.of_mem_partsIn : ∀ {ss : List Statement}, AllWellFormed S known ss →
    ∀ part ∈ partsIn ss, part.WellFormed S known
  | [], _ => List.forall_mem_nil _
  | _ :: _, h => by
    rw [partsIn, List.forall_mem_append]
    exact ⟨WellFormed.of_mem_parts h.1, AllWellFormed.of_mem_partsIn h.2⟩

end

/-- The expressions of a well-formed statement have places for their targets. -/
theorem WellFormed.placed {s : Statement} (h : s.WellFormed S known) :
    ∀ e ∈ s.exprs, e.placed = true := by
  cases s with
  | expr e span => exact List.forall_mem_singleton.mpr (Expr.MadeOf.placed h)
  | ifThen cond _ _ => exact List.forall_mem_singleton.mpr h.1.placed
  | ifElse cond _ _ _ => exact List.forall_mem_singleton.mpr h.1.placed
  | loop cond _ _ => exact List.forall_mem_singleton.mpr h.1.placed
  | ret value span =>
    intro e he
    exact (h e (Option.mem_toList.mp he)).placed
  | declare _ _ => exact List.forall_mem_nil _
  | block _ _ => exact List.forall_mem_nil _
  | empty _ => exact List.forall_mem_nil _

/-- The variables of a well-formed statement are well formed over a base type that is known. -/
theorem WellFormed.decls {s : Statement} (h : s.WellFormed S known) : ∀ decl ∈ s.decls,
    ∃ base : WrittenType, base.IsVariable known ∧ decl.WellFormed S base := by
  cases s with
  | declare decls span =>
    obtain ⟨-, base, hbase, hdecls⟩ := h
    exact fun decl hdecl => ⟨base, hbase, hdecls decl hdecl⟩
  | _ => exact List.forall_mem_nil _

end Statement

/-- What holds of every type that is written in a well-formed item. -/
structure WrittenType.WellFormed (S : TokenKind → Prop) (known : List String)
    (type : WrittenType) : Prop where
  base : type.base.IsBase known
  bounds : BoundsWellFormed S type.dims
  elements : type.dims ≠ [] → type.base.isVoid = false

/-- A type over a base type of variables is well formed, and is not `void` itself. -/
theorem WrittenType.IsVariable.wellFormed {type : WrittenType} (h : type.base.IsVariable known)
    (hbounds : BoundsWellFormed S type.dims) :
    type.WellFormed S known ∧ type.isVoid = false :=
  ⟨⟨h.1, hbounds, fun _ => h.2⟩, isVoid_of_base h.2⟩

namespace Item.WellFormed

variable {item : Item}

/-- The statements in a well-formed item are well formed. -/
theorem statements (h : item.WellFormed S known) : ∀ s ∈ item.statements, s.WellFormed S known := by
  cases item with
  | function decl =>
    rw [Item.statements]
    cases hbody : decl.body with
    | none => exact List.forall_mem_nil _
    | some body => exact (FunctionDecl.WellFormed.body h body hbody).of_mem_partsIn
  | record decl => exact List.forall_mem_nil _
  | global decl => exact List.forall_mem_nil _

/-- The variables in a well-formed item are well formed over a base type that is known. -/
theorem vars (h : item.WellFormed S known) : ∀ decl ∈ item.vars,
    ∃ base : WrittenType, base.IsVariable known ∧ decl.WellFormed S base := by
  cases item with
  | global decl => exact List.forall_mem_singleton.mpr h
  | function decl =>
    intro var hvar
    obtain ⟨s, hs, hvar⟩ := List.mem_flatMap.mp hvar
    exact (h.statements s hs).decls var hvar
  | record decl => exact List.forall_mem_nil _

/-- The parameters of a well-formed item are well formed. -/
theorem params (h : item.WellFormed S known) : ∀ param ∈ item.params, param.WellFormed S known := by
  cases item with
  | function decl => exact FunctionDecl.WellFormed.params h
  | record decl => exact List.forall_mem_nil _
  | global decl => exact List.forall_mem_nil _

/-- What holds a value in a well-formed item has a well-formed type other than `void`. -/
theorem heldTypes (h : item.WellFormed S known) :
    ∀ type ∈ item.heldTypes, type.WellFormed S known ∧ type.isVoid = false := by
  have hvars : ∀ type ∈ item.vars.map (·.type) ++ item.params.map (·.type),
      type.WellFormed S known ∧ type.isVoid = false := by
    rw [List.forall_mem_append, List.forall_mem_map, List.forall_mem_map]
    constructor
    · intro decl hdecl
      obtain ⟨base, hbase, hdecl⟩ := h.vars decl hdecl
      rw [← hdecl.type] at hbase
      exact hbase.wellFormed hdecl.bounds
    · intro param hparam
      have hparam := h.params param hparam
      exact hparam.type.wellFormed hparam.bounds
  -- A record holds its fields, any other item its variables and parameters.
  cases item with
  | record decl =>
    rw [Item.heldTypes, List.forall_mem_map]
    intro f hf
    have hf := RecordDecl.WellFormed.fields h f hf
    exact hf.type.wellFormed hf.bounds
  | function decl => exact hvars
  | global decl => exact hvars

/-- Every type that is written in a well-formed item is well formed. -/
theorem types (h : item.WellFormed S known) : ∀ type ∈ item.types, type.WellFormed S known := by
  have hheld : ∀ type ∈ item.heldTypes, type.WellFormed S known :=
    fun type htype => (h.heldTypes type htype).1
  cases item with
  | function decl =>
    rw [Item.types, List.forall_mem_cons]
    have hreturns := FunctionDecl.WellFormed.returns h
    obtain ⟨hbase, hdims⟩ := hreturns.base_eq
    -- The result of a function is a base type, so it has no bounds.
    refine ⟨⟨?_, ?_, fun hne => absurd hdims hne⟩, hheld⟩
    · rw [hbase]
      exact hreturns
    · rw [hdims]
      exact List.forall_mem_nil _
  | record decl => exact hheld
  | global decl => exact hheld

/-- All expressions in a well-formed item have places for their targets. -/
theorem placed (h : item.WellFormed S known) : ∀ e ∈ item.exprs, e.placed = true := by
  rw [Item.exprs, List.forall_mem_append, List.forall_mem_append]
  refine ⟨⟨?_, ?_⟩, ?_⟩
  · -- a bound of a type
    intro e he
    obtain ⟨type, htype, he⟩ := List.mem_flatMap.mp he
    exact (h.types type htype).bounds.placed e he
  · -- an expression of a variable's initializer
    intro e he
    obtain ⟨decl, hdecl, he⟩ := List.mem_flatMap.mp he
    obtain ⟨base, -, hwell⟩ := h.vars decl hdecl
    exact hwell.placed e he
  · -- an expression of a statement
    intro e he
    obtain ⟨s, hs, he⟩ := List.mem_flatMap.mp he
    exact (h.statements s hs).placed e he

end Item.WellFormed

/-- An item is well formed where only records from before it are known. -/
theorem Item.AllWellFormed.exists_known {before after : List Item} {item : Item}
    (h : AllWellFormed S known (before ++ item :: after)) :
    ∃ known', item.WellFormed S known' ∧
      ∀ name ∈ known', name ∈ known ∨ ∃ decl, .record decl ∈ before ∧ decl.name = name := by
  induction before generalizing known with
  | nil => exact ⟨known, h.1, fun name hname => .inl hname⟩
  | cons first before ih =>
    obtain ⟨known', hitem, hknown'⟩ := ih h.2
    refine ⟨known', hitem, fun name hname => ?_⟩
    rcases hknown' name hname with hmem | ⟨decl, hdecl, hname⟩
    · rcases List.mem_append.mp hmem with hmem | hmem
      · -- The name is that of the record that stands first.
        cases first with
        | record decl =>
          have hname : name = decl.name := List.mem_singleton.mp hmem
          exact .inr ⟨decl, List.mem_cons_self, hname.symm⟩
        | function decl => cases hmem
        | global decl => cases hmem
      · exact .inl hmem
    · exact .inr ⟨decl, List.mem_cons_of_mem _ hdecl, hname⟩

/-- A well-formed program is regular: each of the six requirements is one on its items. -/
theorem Program.WellFormed.regular {p : Program} (h : p.WellFormed S) : p.Regular := by
  have hitem : ∀ item ∈ p.items, ∃ known, item.WellFormed S known := by
    intro item hmem
    obtain ⟨before, after, hsplit⟩ := List.append_of_mem hmem
    unfold WellFormed at h
    rw [hsplit] at h
    obtain ⟨known, hknown, -⟩ := h.exists_known
    exact ⟨known, hknown⟩
  refine ⟨fun item hmem e he => ?_, fun item hmem type htype => ?_, fun item hmem type htype => ?_,
    fun item hmem param hparam => ?_, fun before item after hsplit type htype name hname => ?_,
    fun item hmem s hs cond thenBranch elseBranch span heq => ?_⟩
  · -- targets
    obtain ⟨known, hknown⟩ := hitem item hmem
    exact (Expr.placed_iff e).mp (hknown.placed e he)
  · -- variables, parameters and fields
    obtain ⟨known, hknown⟩ := hitem item hmem
    exact (hknown.heldTypes type htype).2
  · -- elements of arrays
    obtain ⟨known, hknown⟩ := hitem item hmem
    exact (hknown.types type htype).elements
  · -- bounds of parameters
    obtain ⟨known, hknown⟩ := hitem item hmem
    exact (hknown.params param hparam).bounded
  · -- Named types. What is known to an item is what the records before it define.
    unfold WellFormed at h
    rw [hsplit] at h
    obtain ⟨known, hknown, hbefore⟩ := h.exists_known
    have hbase := (hknown.types type htype).base
    rw [hname] at hbase
    exact (hbefore name hbase).resolve_left List.not_mem_nil
  · -- dangling `else`
    obtain ⟨known, hknown⟩ := hitem item hmem
    have hs := hknown.statements s hs
    rw [heq] at hs
    exact hs.2.2.2

end

/-- Every program that is read from a source is regular. -/
theorem Program.regular_of_parse {source : String} {p : Program} (h : parse source = .ok p) :
    p.Regular := by
  rw [parse] at h
  split at h
  · rename_i tokens _
    have hwell : p.WellFormed fun _ => True := wellFormed_of_ofTokens (fun _ _ => trivial) h
    exact hwell.regular
  · cases h

end SmallCpp
