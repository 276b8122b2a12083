import SmallCpp.Proofs.Discipline
import SmallCpp.Proofs.FunctionTable
import SmallCpp.Proofs.Regular
import SmallCpp.Proofs.Typing.Declarations

/-!
# Runs of regular programs

In a regular program every type that is resolved is known, since its record is defined before any
type that names it is resolved, and no array is one of `void`. Storage is asked only of expressions
that are places. So a run never ends by an error of a program that is not well formed, whether the
calls of the program have been checked or not.
-/

namespace SmallCpp

variable {σ α : Type}

/-! ## Types -/

/-- A type that can be resolved: its record is known, and it is no array of `void`. -/
structure WrittenType.Resolvable (types : TypeTable) (type : WrittenType) : Prop where
  known : ∀ name, type.base = .named name → (types.layout? name).isSome = true
  elements : type.dims ≠ [] → type.base.isVoid = false

namespace TypeTable

variable {t t' : TypeTable}

/-- A type that can be resolved raises nothing but ordinary errors, those of its bounds. -/
theorem neverIllFormed_resolve {type : WrittenType} (h : type.Resolvable t) (count : Option Nat) :
    NeverIllFormed (t.resolve count type) := by
  induction type generalizing count with
  | named name =>
    obtain ⟨layout, hlayout⟩ := Option.isSome_iff_exists.mp (h.known name rfl)
    rw [resolve, hlayout]
    exact .ok _
  | array elem bound ih =>
    have hvoid : elem.base.isVoid = false := h.elements (List.cons_ne_nil _ _)
    have helem : elem.Resolvable t := ⟨h.known, fun _ => hvoid⟩
    refine (ordinary_outerLength count bound).neverIllFormed.bind fun n => ?_
    intro e he
    -- The element type resolves to something other than `void`.
    cases hresolve : t.resolve none elem with
    | error e' =>
      rw [hresolve] at he
      cases he
      exact ih helem none e hresolve
    | ok T =>
      have hT : T ≠ .void := resolve_ne_void hresolve (WrittenType.isVoid_of_base hvoid)
      rw [hresolve] at he
      dsimp only [bind, Except.bind] at he
      rw [if_neg hT] at he
      cases he
  | _ => exact .ok _

/-- A record whose members have types that can be resolved. -/
theorem neverIllFormed_define {decl : RecordDecl} (h : ∀ f ∈ decl.fields, f.type.Resolvable t) :
    NeverIllFormed (t.define decl) := by
  have hlayout : ∀ (fields : List FieldDecl), (∀ f ∈ fields, f.type.Resolvable t) →
      ∀ done, NeverIllFormed (t.layoutOf decl.name done fields) := by
    intro fields
    induction fields with
    | nil => exact fun _ _ => .ok _
    | cons field rest ih =>
      intro hfields done
      rw [List.forall_mem_cons] at hfields
      exact .ite (.error rfl) ((neverIllFormed_resolve hfields.1 none).bind fun T => ih hfields.2 _)
  exact .ite (.error rfl) ((hlayout decl.fields h []).bind fun _ => .ok _)

/-- A record that is defined is known, and so are those defined before. -/
theorem isSome_layout?_of_define {decl : RecordDecl} (h : t.define decl = .ok t') (name : String) :
    (t'.layout? name).isSome = true ↔ (t.layout? name).isSome = true ∨ decl.name = name := by
  rw [define] at h
  split_ifs at h
  obtain ⟨layout, -, h⟩ := Except.bind_eq_ok h
  cases h
  rw [layout?, List.lookup_append, Option.isSome_or, Bool.or_eq_true, layout?]
  refine or_congr_right ?_
  rw [List.lookup_cons, List.lookup_nil]
  cases hname : name == decl.name with
  | true => exact ⟨fun _ => (beq_iff_eq.mp hname).symm, fun _ => rfl⟩
  | false =>
    have hne : decl.name ≠ name := (ne_of_beq_false hname).symm
    exact ⟨fun h => absurd h Bool.false_ne_true, fun h => absurd h hne⟩

/-- The known records are those known before and those defined. -/
theorem isSome_layout?_of_defineAll {decls : List RecordDecl} (h : t.defineAll decls = .ok t')
    (name : String) : (t'.layout? name).isSome = true ↔
      (t.layout? name).isSome = true ∨ ∃ decl ∈ decls, decl.name = name := by
  induction decls generalizing t with
  | nil =>
    cases h
    simp
  | cons decl rest ih =>
    rw [defineAll] at h
    split at h
    · rename_i t₁ hdefine
      rw [ih h, isSome_layout?_of_define hdefine, List.exists_mem_cons_iff, or_assoc]
    · cases h

end TypeTable

namespace FunctionTable

/-- Functions whose parameters and results have types that can be resolved. -/
theorem neverIllFormed_build {types : TypeTable} {p : Program}
    (h : ∀ decl ∈ p.functions, ∀ type ∈ (Item.function decl).types, type.Resolvable types) :
    NeverIllFormed (build types p) := by
  have hparams : ∀ params : List Param, (∀ param ∈ params, param.type.Resolvable types) →
      NeverIllFormed (Signature.resolveParams types params) := by
    intro params hparams
    induction params with
    | nil => exact .ok _
    | cons param params ih =>
      rw [List.forall_mem_cons] at hparams
      exact (TypeTable.neverIllFormed_resolve hparams.1 none).bind fun T =>
        (ih hparams.2).bind fun _ => .ok _
  have hregister : ∀ t, ∀ decl ∈ p.functions, NeverIllFormed (register types t decl) := by
    intro t decl hdecl
    have htypes := List.forall_mem_cons.mp (h decl hdecl)
    have hsignature : NeverIllFormed (Signature.resolve types decl) := by
      refine (hparams decl.params fun param hparam => ?_).bind fun _ =>
        (TypeTable.neverIllFormed_resolve htypes.1 none).bind fun _ => .ok _
      exact htypes.2 _ (List.mem_append_right _ (List.mem_map_of_mem hparam))
    -- What else is refused, the name of a primitive or a second shape, is well formed.
    refine .ite (.error rfl) (hsignature.bind fun s => ?_)
    split
    · exact .ok _
    · exact .ite (.ok _) (.error rfl)
  exact (Raises.foldlM hregister _).bind fun _ =>
    .foldlM (fun t decl _ => (ordinary_bind t decl).neverIllFormed) _

end FunctionTable

/-! ## Tasks -/

/-- A variable whose type can be resolved and whose initial value writes to places only. -/
structure VarDecl.Regular (types : TypeTable) (decl : VarDecl) : Prop where
  type : decl.type.Resolvable types
  init : ∀ e ∈ decl.initExprs, e.placed = true

/-- A statement that is regular itself, whatever stands in it. -/
structure Statement.Regular (types : TypeTable) (s : Statement) : Prop where
  exprs : ∀ e ∈ s.exprs, e.placed = true
  decls : ∀ decl ∈ s.decls, decl.Regular types

/-- A task works on regular parts of the source, and asks for storage where there is some. -/
def Task.Regular (types : TypeTable) : Task → Prop
  | eval e | argument _ _ e => e.placed = true
  | place e => e.isPlace = true ∧ e.placed = true
  | call _ args | arguments _ _ args => Expr.allPlaced args = true
  | invoke entry _ => ∀ b, entry.body = some b →
    ∀ s ∈ Statement.partsIn b.statements, s.Regular types
  | build init _ => ∀ e ∈ init.exprs, e.placed = true
  | buildElems items _ | buildFields items _ => ∀ e ∈ Initializer.exprsIn items, e.placed = true
  | declareVar decl => decl.Regular types
  | declareVars decls => ∀ decl ∈ decls, decl.Regular types
  | exec s => ∀ part ∈ s.parts, part.Regular types
  | repeatWhile cond body => cond.placed = true ∧ ∀ part ∈ body.parts, part.Regular types
  | execAll ss => ∀ part ∈ Statement.partsIn ss, part.Regular types

/-- The discipline of regular tasks: nothing ill formed is found. -/
def regularity (types : TypeTable) : Discipline σ Unit where
  grows _ _ := True
  inv _ _ := True
  ready _ t := t.Regular types
  yields _ _ _ := True
  allowed e := e.isIllFormed = false
  grows_refl _ := trivial
  grows_trans _ _ := trivial
  begun _ _ := trivial
  ended _ _ := trivial
  failed _ _ _ := trivial

namespace regularity

variable {types : TypeTable} {ctx : Context σ} {w : Unit} {Q : Unit → α → Prop}

/-- Ordinary errors are allowed. -/
theorem lift {r : Except RuntimeError α} (h : Ordinary r) :
    (regularity types).Ensures ctx w (Script.lift r) fun _ a => r = .ok a :=
  .lift h.neverIllFormed

/-- No answer to a question is an error of an ill-formed program. -/
theorem query (q : Query α) :
    (regularity types).Ensures ctx w (Script.query q) fun _ _ => True :=
  .query (fun _ _ _ _ => trivial) fun _ e _ h => (q.stores_answer _).neverIllFormed e h

/-- No refusal of an effect is one either. -/
theorem effect (f : Effect) :
    (regularity types).Ensures ctx w (Script.effect f) fun _ _ => True :=
  .effect (fun _ _ _ _ => ⟨(), trivial, trivial, trivial⟩) fun _ _ _ h =>
    (Effect.stores_of_refuses h).2

/-- Entering and leaving an enclosure raises nothing. -/
theorem enclosed (k : Enclosure) {inner : Script α}
    (h : (regularity types).Ensures ctx w inner Q) :
    (regularity types).Ensures ctx w (Script.enclosed k inner) Q :=
  .enclosed (fun _ _ => trivial) h fun w' _ _ _ => ⟨w', trivial, trivial, fun _ => id⟩

/-- A condition decides between two ways to go on. -/
theorem condition {e : Expr} {s t : Script α} (he : e.placed = true)
    (hs : (regularity types).Ensures ctx () s Q) (ht : (regularity types).Ensures ctx () t Q) :
    (regularity types).Ensures ctx w
      (do if ← Script.lift (← Script.task (.eval e)).asBool then s else t) Q :=
  .condition he (fun v => v.ordinary_asBool.neverIllFormed) (fun _ _ => hs) fun _ _ => ht

/-- An expression asks storage only of expressions that are places. -/
theorem eval {e : Expr} (h : e.placed = true) :
    (regularity types).Ensures ctx w (Script.eval e) fun _ _ => True := by
  cases e with
  | literal lit => exact .pure trivial
  | name id => exact query _
  | binary op left right =>
    obtain ⟨hl, hr⟩ := Bool.and_eq_true_iff.mp h
    have truth : (regularity types).Ensures ctx ()
        (do return Value.bool (← Script.lift (← Script.task (.eval right)).asBool))
        fun _ _ => True :=
      .bind (.task hr) fun _ c _ _ => .bind (lift c.ordinary_asBool) fun _ _ _ _ => .pure trivial
    rcases op with op | op | ⟨⟨⟩⟩
    · refine .bind (.task hl) fun _ l _ _ => .bind (.task hr) fun _ r _ _ => ?_
      exact (lift (op.ordinary_apply l r)).imp fun _ _ _ _ => trivial
    · refine .bind (.task hl) fun _ l _ _ => .bind (.task hr) fun _ r _ _ => ?_
      exact (lift (op.ordinary_apply l r)).imp fun _ _ _ _ => trivial
    · exact condition hl truth (.pure trivial)
    · exact condition hl (.pure trivial) truth
  | unary op operand =>
    refine .bind (.task h) fun _ v _ _ => ?_
    exact (lift (op.ordinary_apply v)).imp fun _ _ _ _ => trivial
  | assign op target value =>
    obtain ⟨h, hvalue⟩ := Bool.and_eq_true_iff.mp h
    -- The target is a place, so that the task that asks for its storage is regular.
    have htarget : target.isPlace = true ∧ target.placed = true := Bool.and_eq_true_iff.mp h
    refine .bind (.task hvalue) fun _ rhs _ _ => .bind (.task htarget) fun _ q _ _ => ?_
    refine .bind (P := fun _ _ => True) ?_ fun _ new _ _ => .bind (effect _) fun _ _ _ _ => query _
    cases op with
    | none => exact .pure trivial
    | some op =>
      refine .bind (query _) fun _ held _ _ => ?_
      exact (lift (op.ordinary_apply held rhs)).imp fun _ _ _ _ => trivial
  | step op fixity target =>
    have htarget : target.isPlace = true ∧ target.placed = true := Bool.and_eq_true_iff.mp h
    refine .bind (.task htarget) fun _ q _ _ => .bind (query _) fun _ old _ _ => ?_
    refine .bind (lift (op.arith.ordinary_apply old (.int 1))) fun _ new _ _ => ?_
    refine .bind (effect _) fun _ _ _ _ => ?_
    cases fixity with
    | before => exact query _
    | after => exact .pure trivial
  | call callee calleeSpan args span => exact .task h
  | index base subscript =>
    refine .ite (fun hplace => .bind (.task ⟨hplace, h⟩) fun _ q _ _ => query _) fun _ => ?_
    obtain ⟨hbase, hsubscript⟩ := Bool.and_eq_true_iff.mp h
    refine .bind (.task hbase) fun _ v _ _ => .bind (.task hsubscript) fun _ i _ _ => ?_
    refine .bind (lift i.ordinary_asInt) fun _ n _ _ => ?_
    exact (lift (v.ordinary_element n)).imp fun _ _ _ _ => trivial
  | field base id =>
    refine .ite (fun hplace => .bind (.task ⟨hplace, h⟩) fun _ q _ _ => query _) fun _ => ?_
    refine .bind (.task h) fun _ v _ _ => ?_
    exact (lift (v.ordinary_member id)).imp fun _ _ _ _ => trivial

/-- The only task that may ask for storage where there is none gets a place. -/
theorem place {e : Expr} (hplace : e.isPlace = true) (h : e.placed = true) :
    (regularity types).Ensures ctx w (Script.place e) fun _ _ => True := by
  cases e with
  | name id => exact query _
  | index base subscript =>
    obtain ⟨hbase, hsubscript⟩ := Bool.and_eq_true_iff.mp h
    refine .bind (.task ⟨hplace, hbase⟩) fun _ q _ _ => .bind (.task hsubscript) fun _ i _ _ => ?_
    exact .bind (lift i.ordinary_asInt) fun _ n _ _ => query _
  | field base id => exact .bind (.task ⟨hplace, h⟩) fun _ q _ _ => query _
  | _ => cases hplace

/-- The bodies of the functions that may be called are regular. -/
def Callable (ctx : Context σ) : Prop :=
  ∀ name entry, ctx.functions.get name = .ok entry → ∀ b, entry.body = some b →
    ∀ s ∈ Statement.partsIn b.statements, s.Regular ctx.types

/-- A call by name enters a function with a regular body. -/
theorem call (hctx : Callable ctx) (callee : String) {args : List Expr}
    (h : Expr.allPlaced args = true) :
    (regularity ctx.types).Ensures ctx w (Script.call ctx callee args) fun _ _ => True := by
  unfold Script.call
  cases Primitive.ofName? callee with
  | some q =>
    rcases args with _ | ⟨arg, _ | ⟨_, _⟩⟩
    · exact .fail rfl
    · have harg : arg.placed = true := (Bool.and_eq_true_iff.mp h).1
      exact .bind (.task harg) fun _ v _ _ => .bind (effect _) fun _ _ _ _ => .pure trivial
    · exact .fail rfl
  | none =>
    refine .bind (lift (ctx.functions.ordinary_get callee)) fun _ entry _ hentry => ?_
    refine .ite (fun _ => .bind (.task h) fun _ bound _ _ => ?_) fun _ => .fail rfl
    exact .task (hctx callee entry hentry)

/-- The arguments of a call are evaluated in order. -/
theorem arguments (function : String) (params : List ParamSignature) {args : List Expr}
    (h : Expr.allPlaced args = true) :
    (regularity types).Ensures ctx w (Script.arguments function params args) fun _ _ => True := by
  rcases params with _ | ⟨p, ps⟩
  · exact .pure trivial
  · rcases args with _ | ⟨arg, rest⟩
    · exact .pure trivial
    · obtain ⟨harg, hrest⟩ := Bool.and_eq_true_iff.mp h
      exact .bind (.task harg) fun _ _ _ _ => .bind (.task hrest) fun _ _ _ _ => .pure trivial

/-- An argument for a reference is asked for storage only if it is a place. -/
theorem argument (function : String) (p : ParamSignature) {arg : Expr} (h : arg.placed = true) :
    (regularity types).Ensures ctx w (Script.argument function p arg) fun _ _ => True := by
  refine .ite (fun _ => ?_) fun _ => .ite (fun hplace => ?_) fun _ => .fail rfl
  · refine .bind (.task h) fun _ v _ _ => ?_
    exact .bind (lift (v.ordinary_convert p.type)) fun _ _ _ _ => .pure trivial
  · refine .bind (.task ⟨hplace, h⟩) fun _ _ _ _ => .bind (query _) fun _ _ _ _ => ?_
    exact .ite (fun _ => .pure trivial) fun _ => .fail rfl

/-- Declaring parameters resolves no type. -/
theorem declareArguments (params : List ParamSignature) (args : List Argument) :
    (regularity types).Ensures ctx w (Script.declareArguments params args) fun _ _ => True := by
  induction params generalizing w args with
  | nil => exact .pure trivial
  | cons p params ih =>
    cases args with
    | nil => exact .pure trivial
    | cons arg args =>
      refine .bind (P := fun _ _ => True) ?_ fun _ _ _ _ => ih args
      cases arg <;> exact effect _

/-- A regular body is executed. -/
theorem invoke {entry : FunctionEntry} (h : ∀ b, entry.body = some b →
    ∀ s ∈ Statement.partsIn b.statements, s.Regular types) (args : List Argument) :
    (regularity types).Ensures ctx w (Script.invoke ctx entry args) fun _ _ => True := by
  rw [Script.invoke]
  cases hbody : entry.body with
  | none => exact .fail rfl
  | some body =>
    have hrun : (regularity types).Ensures ctx () (do
        Script.declareArguments entry.signature.params args
        Script.task (.execAll body.statements)) fun _ _ => True :=
      .bind (declareArguments _ _) fun _ _ _ _ => .task (h body hbody)
    refine .bind (effect _) fun _ _ _ _ => .bind (enclosed _ hrun) fun _ flow _ _ => ?_
    exact (lift (entry.signature.ordinary_finish _ flow)).imp fun _ _ _ _ => trivial

/-- An initializer evaluates expressions and resolves no type. -/
theorem build {init : Initializer} (h : ∀ e ∈ init.exprs, e.placed = true) (T : ValueType) :
    (regularity types).Ensures ctx w (Script.build init T) fun _ _ => True := by
  cases init with
  | expr e =>
    have he : e.placed = true := h e List.mem_cons_self
    refine .bind (.task he) fun _ v _ _ => ?_
    exact (lift (v.ordinary_convert T)).imp fun _ _ _ _ => trivial
  | list items span =>
    cases T with
    | array elem length =>
      exact .ite (fun _ => .fail rfl) fun _ => .bind (.task h) fun _ _ _ _ => .pure trivial
    | record name layout =>
      exact .ite (fun _ => .fail rfl) fun _ => .bind (.task h) fun _ _ _ _ => .pure trivial
    | _ =>
      rcases items with _ | ⟨item, _ | ⟨_, _⟩⟩
      · exact .pure trivial
      · exact .task (List.forall_mem_append.mp h).1
      · exact .fail rfl

/-- The initializers of an array evaluate expressions and resolve no type. -/
theorem buildElems {items : List Initializer}
    (h : ∀ e ∈ Initializer.exprsIn items, e.placed = true) (T : ValueType) :
    (regularity types).Ensures ctx w (Script.buildElems items T) fun _ _ => True := by
  cases items with
  | nil => exact .pure trivial
  | cons item rest =>
    obtain ⟨hitem, hrest⟩ := List.forall_mem_append.mp h
    exact .bind (.task hitem) fun _ _ _ _ => .bind (.task hrest) fun _ _ _ _ => .pure trivial

/-- The initializers of a record evaluate expressions and resolve no type. -/
theorem buildFields {items : List Initializer}
    (h : ∀ e ∈ Initializer.exprsIn items, e.placed = true) (layout : Layout) :
    (regularity types).Ensures ctx w (Script.buildFields items layout) fun _ _ => True := by
  rcases items with _ | ⟨item, rest⟩
  · exact .pure trivial
  · rcases layout with _ | ⟨field, fields⟩
    · exact .pure trivial
    · obtain ⟨hitem, hrest⟩ := List.forall_mem_append.mp h
      exact .bind (.task hitem) fun _ _ _ _ => .bind (.task hrest) fun _ _ _ _ => .pure trivial

/-- The type of a variable can be resolved, and a reference is bound only to a place. -/
theorem declareVar {decl : VarDecl} (h : decl.Regular ctx.types) :
    (regularity types).Ensures ctx w (Script.declareVar ctx decl) fun _ _ => True := by
  have hinit := h.init
  unfold VarDecl.initExprs at hinit
  refine .bind (.lift (TypeTable.neverIllFormed_resolve h.type _)) fun _ T _ _ => ?_
  refine .ite (fun _ => ?_) fun _ => ?_
  · rcases hsome : decl.init with _ | ⟨target | _⟩
    · exact .fail rfl
    · rw [hsome] at hinit
      have htarget : target.placed = true := hinit target List.mem_cons_self
      refine .ite (fun hplace => .bind (.task ⟨hplace, htarget⟩) fun _ q _ _ => ?_)
        fun _ => .fail rfl
      exact .bind (query _) fun _ _ _ _ => .ite (fun _ => effect _) fun _ => .fail rfl
    · exact .fail rfl
  · rcases hsome : decl.init with _ | init
    · exact effect _
    · rw [hsome] at hinit
      exact .bind (.task hinit) fun _ v _ _ => effect _

/-- Variables are declared in order. -/
theorem declareVars {decls : List VarDecl} (h : ∀ decl ∈ decls, decl.Regular types) :
    (regularity types).Ensures ctx w (Script.declareVars decls) fun _ _ => True := by
  cases decls with
  | nil => exact .pure trivial
  | cons decl rest =>
    rw [List.forall_mem_cons] at h
    exact .bind (enclosed _ (.task h.1)) fun _ _ _ _ => .task h.2

/-- A regular statement executes its parts. -/
theorem exec {s : Statement} (h : ∀ part ∈ s.parts, part.Regular types) :
    (regularity types).Ensures ctx w (Script.exec s) fun _ _ => True := by
  refine enclosed _ ?_
  cases s with
  | declare decls =>
    have hself := List.forall_mem_singleton.mp h
    exact .bind (.task hself.decls) fun _ _ _ _ => .pure trivial
  | expr e =>
    have hself := List.forall_mem_singleton.mp h
    have he : e.placed = true := hself.exprs e List.mem_cons_self
    exact .bind (.task he) fun _ _ _ _ => .pure trivial
  | ifThen cond thenBranch =>
    obtain ⟨hself, hthen⟩ := List.forall_mem_cons.mp h
    have hcond : cond.placed = true := hself.exprs cond List.mem_cons_self
    exact condition hcond (enclosed _ (.task hthen)) (.pure trivial)
  | ifElse cond thenBranch elseBranch =>
    obtain ⟨hself, hbranches⟩ := List.forall_mem_cons.mp h
    obtain ⟨hthen, helse⟩ := List.forall_mem_append.mp hbranches
    have hcond : cond.placed = true := hself.exprs cond List.mem_cons_self
    exact condition hcond (enclosed _ (.task hthen)) (enclosed _ (.task helse))
  | loop cond body =>
    obtain ⟨hself, hbody⟩ := List.forall_mem_cons.mp h
    have hcond : cond.placed = true := hself.exprs cond List.mem_cons_self
    exact .task ⟨hcond, hbody⟩
  | ret value =>
    have hself := List.forall_mem_singleton.mp h
    cases value with
    | none => exact .pure trivial
    | some e =>
      have he : e.placed = true := hself.exprs e List.mem_cons_self
      exact .bind (.task he) fun _ _ _ _ => .pure trivial
  | block body => exact enclosed _ (.task (List.forall_mem_cons.mp h).2)
  | empty => exact .pure trivial

/-- One round of a loop evaluates the condition and executes the body. -/
theorem repeatWhile {cond : Expr} {body : Statement} (hcond : cond.placed = true)
    (h : ∀ part ∈ body.parts, part.Regular types) :
    (regularity types).Ensures ctx w (Script.repeatWhile cond body) fun _ _ => True := by
  refine condition hcond (.bind (enclosed _ (.task h)) fun _ flow _ _ => ?_) (.pure trivial)
  cases flow with
  | normal => exact .task ⟨hcond, h⟩
  | returned v => exact .pure trivial

/-- Statements in order are executed one by one. -/
theorem execAll {ss : List Statement} (h : ∀ part ∈ Statement.partsIn ss, part.Regular types) :
    (regularity types).Ensures ctx w (Script.execAll ss) fun _ _ => True := by
  cases ss with
  | nil => exact .pure trivial
  | cons s rest =>
    obtain ⟨hs, hrest⟩ := List.forall_mem_append.mp h
    refine .bind (.task hs) fun _ flow _ _ => ?_
    cases flow with
    | normal => exact .task hrest
    | returned v => exact .pure trivial

/-- Every regular task hands on regular tasks, and finds nothing ill formed. -/
theorem script (hctx : Callable ctx) (t : Task) (w : Unit) (h : t.Regular ctx.types) :
    (regularity ctx.types).Ensures ctx w (t.script ctx) fun _ _ => True := by
  cases t with
  | eval e => exact eval h
  | place e => exact place h.1 h.2
  | call callee args => exact call hctx callee h
  | arguments function params args => exact arguments function params h
  | argument function p arg => exact argument function p h
  | invoke entry args => exact invoke h args
  | build init T => exact build h T
  | buildElems items T => exact buildElems h T
  | buildFields items layout => exact buildFields h layout
  | declareVar decl => exact declareVar h
  | declareVars decls => exact declareVars h
  | exec s => exact exec h
  | repeatWhile cond body => exact repeatWhile h.1 h.2
  | execAll ss => exact execAll h

/-- A program declares regular globals and calls a function with a regular body. -/
theorem program (hctx : Callable ctx) {p : Program}
    (hglobals : ∀ decl ∈ p.globals, decl.Regular ctx.types) :
    (regularity ctx.types).Ensures ctx w (p.script ctx) fun _ _ => True := by
  refine .bind (.task hglobals) fun _ _ _ _ => ?_
  refine .bind (lift (ctx.functions.ordinary_get _)) fun _ entry _ hentry => ?_
  refine .ite (fun _ => .bind (.task (hctx _ entry hentry)) fun _ v _ _ => ?_) fun _ => .fail rfl
  cases v with
  | void => exact .pure trivial
  | _ => exact (lift (Value.ordinary_asInt _)).imp fun _ _ _ _ => trivial

end regularity

/-! ## Programs -/

namespace Program.Regular

variable {p : Program}

/-- Where the records before an item are known, the types in the item can be resolved. -/
theorem resolvable (h : p.Regular) {before after : List Item} {item : Item}
    (hsplit : p.items = before ++ item :: after) {types : TypeTable}
    (hknown : ∀ decl, .record decl ∈ before → (types.layout? decl.name).isSome = true) :
    ∀ type ∈ item.types, type.Resolvable types := by
  intro type htype
  have hmem : item ∈ p.items := by
    rw [hsplit]
    exact List.mem_append_right _ List.mem_cons_self
  refine ⟨fun name hname => ?_, h.elements item hmem type htype⟩
  obtain ⟨decl, hdecl, rfl⟩ := h.defined before item after hsplit type htype name hname
  exact hknown decl hdecl

/-- Where all records are defined, all types can be resolved. -/
theorem resolvable_of_defineAll (h : p.Regular) {types : TypeTable}
    (htypes : TypeTable.empty.defineAll p.records = .ok types) {item : Item}
    (hmem : item ∈ p.items) :
    ∀ type ∈ item.types, type.Resolvable types := by
  obtain ⟨before, after, hsplit⟩ := List.append_of_mem hmem
  refine h.resolvable hsplit fun decl hdecl => ?_
  rw [TypeTable.isSome_layout?_of_defineAll htypes]
  refine .inr ⟨decl, List.mem_filterMap.mpr ⟨.record decl, ?_, rfl⟩, rfl⟩
  rw [hsplit]
  exact List.mem_append_left _ hdecl

/-- The expressions of an item write to places only. -/
theorem placed (h : p.Regular) {item : Item} (hmem : item ∈ p.items) :
    ∀ e ∈ item.exprs, e.placed = true :=
  fun e he => (Expr.placed_iff e).mpr (h.targets item hmem e he)

/-- Where all records are defined, the variables of an item are regular. -/
theorem vars (h : p.Regular) {types : TypeTable}
    (htypes : TypeTable.empty.defineAll p.records = .ok types) {item : Item}
    (hmem : item ∈ p.items) :
    ∀ decl ∈ item.vars, decl.Regular types := by
  intro decl hdecl
  have htype : decl.type ∈ item.types := by
    have hheld : decl.type ∈ item.heldTypes := by
      cases item with
      | record _ => cases hdecl
      | function _ => exact List.mem_append_left _ (List.mem_map_of_mem hdecl)
      | global _ => exact List.mem_append_left _ (List.mem_map_of_mem hdecl)
    cases item with
    | function _ => exact List.mem_cons_of_mem _ hheld
    | record _ => exact hheld
    | global _ => exact hheld
  refine ⟨h.resolvable_of_defineAll htypes hmem decl.type htype, fun e he => ?_⟩
  refine h.placed hmem e (List.mem_append_left _ (List.mem_append_right _ ?_))
  exact List.mem_flatMap.mpr ⟨decl, hdecl, he⟩

/-- Where all records are defined, the statements of an item are regular. -/
theorem statements (h : p.Regular) {types : TypeTable}
    (htypes : TypeTable.empty.defineAll p.records = .ok types) {item : Item}
    (hmem : item ∈ p.items) :
    ∀ s ∈ item.statements, s.Regular types := by
  intro s hs
  refine ⟨fun e he => ?_, fun decl hdecl => ?_⟩
  · exact h.placed hmem e (List.mem_append_right _ (List.mem_flatMap.mpr ⟨s, hs, he⟩))
  · cases item with
    | function _ => exact h.vars htypes hmem decl (List.mem_flatMap.mpr ⟨s, hs, hdecl⟩)
    | record _ => cases hs
    | global _ => cases hs

/-- The bodies in the table of functions are those of the program. -/
theorem callable (h : p.Regular) {options : RunOptions} {sink : Sink σ} {ctx : Context σ}
    (hctx : p.context options sink = .ok ctx) : regularity.Callable ctx := by
  obtain ⟨types, functions, htypes, hbuild, rfl⟩ := Program.exists_of_context hctx
  intro name entry hentry b hb
  rw [(FunctionTable.lists_build hbuild).body_eq name entry
    (FunctionTable.get_eq_ok_iff.mp hentry)] at hb
  obtain ⟨decl, hmem, -, hbody⟩ := exists_of_bodyOf? hb
  have hstatements := h.statements htypes (Program.mem_functions hmem)
  rw [Item.statements, hbody] at hstatements
  exact hstatements

/-- A regular program that cannot start has nothing ill formed. -/
theorem context (h : p.Regular) {options : RunOptions} {sink : Sink σ} {stop : Stop}
    (hctx : p.context options sink = .error stop) : stop.Is (·.isIllFormed = false) := by
  rcases Program.exists_of_context_error hctx with
    ⟨before, decl, after, types, e, hrecords, htypes, hdefine, rfl⟩ |
    ⟨types, e, htypes, hbuild, rfl⟩
  · -- The records before are defined when the fields of a record are resolved.
    obtain ⟨items, rest, hitems, rfl, hrest⟩ := List.filterMap_eq_append_iff.mp hrecords
    obtain ⟨others, item, after', rfl, hothers, hitem, rfl⟩ := List.filterMap_eq_cons_iff.mp hrest
    rw [← List.append_assoc] at hitems
    have hknown : ∀ decl', .record decl' ∈ items ++ others →
        (types.layout? decl'.name).isSome = true := by
      intro decl' hmem
      rw [TypeTable.isSome_layout?_of_defineAll htypes]
      rcases List.mem_append.mp hmem with hmem | hmem
      · exact .inr ⟨decl', List.mem_filterMap.mpr ⟨_, hmem, rfl⟩, rfl⟩
      · cases hothers _ hmem
    have hresolvable := h.resolvable hitems hknown
    cases item with
    | record decl =>
      cases hitem
      exact TypeTable.neverIllFormed_define (List.forall_mem_map.mp hresolvable) e hdefine
    | function _ => cases hitem
    | global _ => cases hitem
  · refine FunctionTable.neverIllFormed_build (fun decl hdecl => ?_) e hbuild
    exact h.resolvable_of_defineAll htypes (Program.mem_functions hdecl)

/-- A run of a regular program finds nothing ill formed. -/
theorem isIllFormed_of_run (h : p.Regular) {options : RunOptions} {sink : Sink σ} {fuel : Nat}
    {s : σ} {stop : Stop} (hrun : (p.run options sink fuel s).1 = .error stop) :
    stop.Is (·.isIllFormed = false) := by
  cases hctx : p.context options sink with
  | error stop' =>
    rw [Program.run, hctx] at hrun
    cases hrun
    exact h.context hctx
  | ok ctx =>
    have hcallable := h.callable hctx
    have hglobals : ∀ decl ∈ p.globals, decl.Regular ctx.types := by
      obtain ⟨types, functions, htypes, -, rfl⟩ := Program.exists_of_context hctx
      intro decl hdecl
      exact h.vars htypes (Program.mem_globals hdecl) decl List.mem_cons_self
    have hobeyed : (regularity ctx.types).Obeyed (Task.record ctx fuel) :=
      Discipline.obeyed_record (regularity.script hcallable) fuel
    have hends :=
      regularity.program (w := ()) hcallable hglobals _ hobeyed (Recorded.start s) trivial
    obtain ⟨y, hr⟩ := Program.exists_record_of_run hctx hrun
    exact Discipline.allowed_of_error hends hr

end Program.Regular

/-- Every program that is read from a source is regular, and so no run of it ends with an unknown
type, with an array of `void`, or with something that names no storage where storage is needed. -/
theorem regular_and_run_of_parse {source : String} {p : Program}
    (h : Program.parse source = .ok p) :
    p.Regular ∧ ∀ (options : RunOptions) (sink : Sink σ) (fuel : Nat) (s : σ) (e : RuntimeError)
      (span : Option Span), (p.run options sink fuel s).1 = .error (.fault e span) →
      (∀ name, e ≠ .unknownType name) ∧ (∀ what, e ≠ .typeMismatch (.notStorage what)) ∧
        e ≠ .typeMismatch .arrayOfVoid := by
  have hregular := Program.regular_of_parse h
  refine ⟨hregular, fun options sink fuel s e span hrun => ?_⟩
  have hwell : e.isIllFormed = false := hregular.isIllFormed_of_run hrun
  refine ⟨?_, ?_, ?_⟩
  · rintro name rfl
    cases hwell
  · rintro what rfl
    cases hwell
  · rintro rfl
    cases hwell

/-- A source with two records, a step, assignments through a reference and both forms of `if`. -/
def pairSource : String :=
  "struct A { int x[2]; }; struct B { A a; }; B b; void f(int &r) { if (r) r++; else r = 2; }
  int main() { if (1) if (b.a.x[0]) f(b.a.x[0]); else f(b.a.x[1]); return b.a.x[1]; }"

/-- A program with a record inside a record and a dangling `else` is regular, and it runs. -/
theorem regular_and_run_pairSource : ∃ p, Program.parse pairSource = .ok p ∧ p.Regular ∧
    (p.run {} Sink.recording 100 #[]).1 = .ok 2 ∧
    ∀ fuel e span, (p.run {} Sink.recording fuel #[]).1 = .error (.fault e span) →
      ∀ name, e ≠ .unknownType name := by
  have hrun : ((Program.parse pairSource).map fun p =>
      decide ((p.run {} Sink.recording 100 #[]).1 = .ok 2)).toOption = some true := by
    decide +kernel
  obtain ⟨p, hp⟩ := Except.exists_of_isOk (r := Program.parse pairSource) (by decide +kernel)
  rw [hp] at hrun
  obtain ⟨hregular, hnever⟩ := regular_and_run_of_parse (σ := Array Event) hp
  exact ⟨p, hp, hregular, of_decide_eq_true (Option.some.inj hrun),
    fun fuel e span h => (hnever {} Sink.recording fuel #[] e span h).1⟩

end SmallCpp
