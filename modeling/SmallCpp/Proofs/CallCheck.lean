import SmallCpp.Interpret
import SmallCpp.Proofs.Discipline
import SmallCpp.Proofs.FunctionTable

/-!
# The check of calls is sound

In a program without call errors every call that is evaluated finds its callee, has as many
arguments as parameters, and passes storage wherever a reference is asked for. The checker looks at
the first declaration of a name, and so does the table of functions:
`FunctionTable.accepts_of_check` compares the two. `fitting` is the discipline under which only
checked calls are evaluated.
-/

namespace SmallCpp

/-! ## Callers and the table of functions -/

/-- A call fits its callee: it has one argument for each parameter, and storage for each
reference. -/
def FunctionTable.Accepts (t : FunctionTable) (callee : String) (args : List Expr) : Prop :=
  match Primitive.ofName? callee with
  | some _ => args.length = 1
  | none => ∃ entry, t.get callee = .ok entry ∧ entry.signature.params.length = args.length ∧
      ∀ pa ∈ entry.signature.params.zip args, pa.1.byRef = true → pa.2.isPlace = true

/-- A name has a body if some declaration of it does. -/
theorem isSome_bodyOf? (decls : List FunctionDecl) (name : String) :
    (bodyOf? decls name).isSome = decls.any fun decl => decl.name == name && decl.body.isSome := by
  rw [Bool.eq_iff_iff, bodyOf?, List.findSome?_isSome_iff, List.any_eq_true]
  refine exists_congr fun decl => and_congr_right fun _ => ?_
  cases decl.name == name <;> simp

/-- The table and the checker see the same shape of a function. -/
theorem FunctionTable.exists_of_callShape? {types : TypeTable} {p : Program} {t : FunctionTable}
    (ht : build types p = .ok t) {name : String} {shape : CallShape}
    (h : p.callShape? name = some shape) :
    ∃ entry, t.get name = .ok entry ∧ entry.signature.params.map (·.byRef) = shape.byRef ∧
      entry.body.isSome = shape.defined := by
  obtain ⟨first, hfirst, rfl⟩ := Option.map_eq_some_iff.mp h
  have hlists := lists_build ht
  obtain ⟨entry, hentry, hsignature⟩ := hlists.exists_entry hfirst
  refine ⟨entry, get_eq_ok_iff.mpr hentry, ?_, ?_⟩
  · have hparams := congrArg (List.map Prod.snd) (Signature.params_of_resolve hsignature)
    rw [List.map_map, List.map_map] at hparams
    exact hparams
  · rw [hlists.body_eq name entry hentry, isSome_bodyOf?]

/-- The checker knows the shape of every function of the table. -/
theorem FunctionTable.exists_callShape? {types : TypeTable} {p : Program} {t : FunctionTable}
    (ht : build types p = .ok t) {name : String} {entry : FunctionEntry}
    (hentry : t.get name = .ok entry) :
    ∃ shape, p.callShape? name = some shape ∧ entry.signature.params.map (·.byRef) = shape.byRef ∧
      entry.body.isSome = shape.defined := by
  obtain ⟨first, hfirst, -⟩ := (lists_build ht).exists_first (get_eq_ok_iff.mp hentry)
  obtain ⟨shape, hshape⟩ : ∃ shape, p.callShape? name = some shape :=
    ⟨_, Option.map_eq_some_iff.mpr ⟨first, hfirst, rfl⟩⟩
  obtain ⟨entry', hentry', hbyRef, hdefined⟩ := exists_of_callShape? ht hshape
  obtain rfl : entry = entry' := Except.ok.inj (hentry.symm.trans hentry')
  exact ⟨shape, hshape, hbyRef, hdefined⟩

/-- A call without errors fits the function that the table holds for it. -/
theorem FunctionTable.accepts_of_check {types : TypeTable} {p : Program} {t : FunctionTable}
    (ht : build types p = .ok t) {callee : String} {calleeSpan span : Span} {args : List Expr}
    (h : p.errorsOfCall callee calleeSpan args span = []) : t.Accepts callee args := by
  unfold Program.errorsOfCall at h
  unfold Accepts
  cases hprimitive : Primitive.ofName? callee with
  | some q =>
    rw [hprimitive] at h
    dsimp only at h ⊢
    split_ifs at h with hone
    exact hone
  | none =>
    rw [hprimitive] at h
    dsimp only at h ⊢
    cases hshape : p.callShape? callee with
    | none => rw [hshape] at h; cases h
    | some shape =>
      rw [hshape] at h
      dsimp only at h
      obtain ⟨entry, hentry, hbyRef, -⟩ := exists_of_callShape? ht hshape
      split_ifs at h with hlength
      rw [← hbyRef, List.length_map] at hlength
      refine ⟨entry, hentry, hlength, fun pa hpa href => ?_⟩
      rw [List.filterMap_eq_nil_iff] at h
      -- The checker pairs arguments with the way they are passed, the table with whole parameters.
      have hmem : (true, pa.2) ∈ shape.byRef.zip args := by
        rw [← hbyRef, List.zip_map_left, ← href]
        exact List.mem_map_of_mem hpa
      simpa using h _ hmem

/-! ## Only checked calls are evaluated -/

variable {σ : Type}

/-- The body has no call errors, and only another function than the entry may lack one. -/
structure FunctionEntry.Checked (p : Program) (entry : String) (e : FunctionEntry) : Prop where
  body : ∀ b, e.body = some b → p.errorsInStatements b.statements = []
  defined : e.body = none → e.signature.name ≠ entry

/-- A task works on parts of the source without call errors. -/
def Task.Checked (p : Program) (ctx : Context σ) : Task → Prop
  | eval e | place e => p.errorsInExpr e = []
  | call callee args => ctx.functions.Accepts callee args ∧ p.errorsInExprs args = []
  | arguments _ params args =>
    p.errorsInExprs args = [] ∧
      ∀ pa ∈ params.zip args, pa.1.byRef = true → pa.2.isPlace = true
  | argument _ q arg => p.errorsInExpr arg = [] ∧ (q.byRef = true → arg.isPlace = true)
  | invoke e _ => e.Checked p ctx.options.entry
  | build init _ => p.errorsInInit init = []
  | buildElems items _ | buildFields items _ => p.errorsInInits items = []
  | declareVar decl => p.errorsInDecl decl = []
  | declareVars decls => ∀ decl ∈ decls, p.errorsInDecl decl = []
  | exec s => p.errorsInStatement s = []
  | repeatWhile cond body => p.errorsInExpr cond = [] ∧ p.errorsInStatement body = []
  | execAll ss => p.errorsInStatements ss = []

/-- Every call that has begun fits its callee. -/
def History.Fitting (t : FunctionTable) (h : History σ) : Prop :=
  ∀ callee args m, (.begun (.call callee args), m) ∈ h → t.Accepts callee args

/-- A history stays fitting if the call that begins, if any, fits its callee. -/
theorem History.Fitting.cons {t : FunctionTable} {h : History σ} {k : Moment} {m : Machine σ}
    (hh : h.Fitting t)
    (hk : ∀ callee args, k = .begun (.call callee args) → t.Accepts callee args) :
    History.Fitting t ((k, m) :: h) := by
  intro callee args m' hmem
  rcases List.mem_cons.mp hmem with heq | hmem
  · cases heq
    exact hk callee args rfl
  · exact hh callee args m' hmem

/-- The errors of calls that a checked program may still end with: a function other than the entry
lacks a body, or the entry has parameters, for which a run has no arguments. -/
inductive RuntimeError.LeftOver (t : FunctionTable) (entry : String) : RuntimeError → Prop
  | undefined {name : String} (hname : name ≠ entry) : LeftOver t entry (.undefinedFunction name)
  | arity {e : FunctionEntry} (he : t.get entry = .ok e) (hparams : e.signature.params ≠ []) :
    LeftOver t entry (.arityMismatch entry e.signature.params.length 0)

/-- An error that is no error of a call, or one of those left over. -/
def RuntimeError.Fitting (t : FunctionTable) (entry : String) (e : RuntimeError) : Prop :=
  e.isMisfit = true → e.LeftOver t entry

/-- An error that is none of calls is always allowed. -/
theorem RuntimeError.fitting_of_not_misfit {t : FunctionTable} {entry : String} {e : RuntimeError}
    (h : e.isMisfit = false) : e.Fitting t entry := by
  intro hmisfit
  rw [h] at hmisfit
  cases hmisfit

/-- The discipline of checked calls. -/
def fitting (p : Program) (ctx : Context σ) : Discipline σ Unit where
  grows _ _ := True
  inv _ x := x.history.Fitting ctx.functions
  ready _ t := t.Checked p ctx
  yields _ _ _ := True
  allowed e := e.Fitting ctx.functions ctx.options.entry
  grows_refl _ := trivial
  grows_trans _ _ := trivial
  begun hx ht := hx.cons fun callee args heq => by cases heq; exact ht.1
  ended hx _ := hx.cons nofun
  failed hx _ _ := hx.cons nofun

namespace fitting

variable {p : Program} {ctx : Context σ} {w : Unit} {α : Type}

/-- Ordinary errors are allowed. -/
theorem lift {r : Except RuntimeError α} (h : Ordinary r) :
    (fitting p ctx).Ensures ctx w (Script.lift r) fun _ a => r = .ok a :=
  .lift fun e he => RuntimeError.fitting_of_not_misfit (h.neverMisfit e he)

/-- No answer to a question is an error of a call. -/
theorem query (q : Query α) :
    (fitting p ctx).Ensures ctx w (Script.query q) fun _ _ => True :=
  .query (fun _ _ _ _ => trivial) fun _ e _ h =>
    RuntimeError.fitting_of_not_misfit ((q.stores_answer _).neverMisfit e h)

/-- No refusal of an effect is an error of a call. -/
theorem effect (f : Effect) :
    (fitting p ctx).Ensures ctx w (Script.effect f) fun _ _ => True :=
  .effect (fun _ _ hx _ => ⟨(), trivial, hx.cons nofun, trivial⟩) fun _ _ _ h =>
    RuntimeError.fitting_of_not_misfit (Effect.stores_of_refuses h).1

/-- Entering and leaving an enclosure begins no call. -/
theorem enclosed (k : Enclosure) {inner : Script α} {Q : Unit → α → Prop}
    (h : (fitting p ctx).Ensures ctx w inner Q) :
    (fitting p ctx).Ensures ctx w (Script.enclosed k inner) Q :=
  .enclosed (fun _ hx => hx.cons nofun) h fun w' _ _ hy => ⟨w', trivial, hy.cons nofun, fun _ => id⟩

/-- An error that is none of calls may be raised. -/
theorem fail {e : RuntimeError} {Q : Unit → α → Prop} (h : e.isMisfit = false) :
    (fitting p ctx).Ensures ctx w (Script.fail e) Q :=
  .fail (RuntimeError.fitting_of_not_misfit h)

/-- A condition without call errors decides between two ways to go on. -/
theorem condition {e : Expr} {s t : Script α} {Q : Unit → α → Prop} (he : p.errorsInExpr e = [])
    (hs : (fitting p ctx).Ensures ctx () s Q) (ht : (fitting p ctx).Ensures ctx () t Q) :
    (fitting p ctx).Ensures ctx w
      (do if ← Script.lift (← Script.task (.eval e)).asBool then s else t) Q :=
  .condition he
    (fun v e h => RuntimeError.fitting_of_not_misfit (v.ordinary_asBool.neverMisfit e h))
    (fun _ _ => hs) fun _ _ => ht

/-- What a program's check says of the context in which the program runs. -/
structure Checks (p : Program) (ctx : Context σ) : Prop where
  /-- A call without errors fits its callee. -/
  accepts : ∀ callee calleeSpan args span, p.errorsOfCall callee calleeSpan args span = [] →
    ctx.functions.Accepts callee args
  /-- The bodies have no call errors. -/
  bodies : ∀ name e, ctx.functions.get name = .ok e → e.Checked p ctx.options.entry
  /-- The initial values of globals have no call errors. -/
  globals : ∀ decl ∈ p.globals, p.errorsInDecl decl = []
  /-- The entry function has a body. -/
  entry : ∃ e, ctx.functions.get ctx.options.entry = .ok e ∧ e.body.isSome = true

/-- An expression without call errors evaluates only checked calls. -/
theorem eval (hctx : Checks p ctx) {e : Expr} (h : p.errorsInExpr e = []) :
    (fitting p ctx).Ensures ctx w (Script.eval e) fun _ _ => True := by
  cases e with
  | literal lit => exact .pure trivial
  | name id => exact query _
  | binary op left right =>
    rw [Program.errorsInExpr, List.append_eq_nil_iff] at h
    have truth : (fitting p ctx).Ensures ctx ()
        (do return Value.bool (← Script.lift (← Script.task (.eval right)).asBool))
        fun _ _ => True :=
      .bind (.task h.2) fun _ c _ _ => .bind (lift c.ordinary_asBool) fun _ _ _ _ => .pure trivial
    -- The right operand of `&&` and `||` may be left out of the run, but it has been checked.
    rcases op with op | op | ⟨⟨⟩⟩
    · refine .bind (.task h.1) fun _ l _ _ => .bind (.task h.2) fun _ r _ _ => ?_
      exact (lift (op.ordinary_apply l r)).imp fun _ _ _ _ => trivial
    · refine .bind (.task h.1) fun _ l _ _ => .bind (.task h.2) fun _ r _ _ => ?_
      exact (lift (op.ordinary_apply l r)).imp fun _ _ _ _ => trivial
    · exact condition h.1 truth (.pure trivial)
    · exact condition h.1 (.pure trivial) truth
  | unary op operand =>
    rw [Program.errorsInExpr] at h
    refine .bind (.task h) fun _ v _ _ => ?_
    exact (lift (op.ordinary_apply v)).imp fun _ _ _ _ => trivial
  | assign op target value =>
    rw [Program.errorsInExpr, List.append_eq_nil_iff] at h
    -- The right side is evaluated first, and checked second.
    refine .bind (.task h.2) fun _ rhs _ _ => .bind (.task h.1) fun _ q _ _ => ?_
    refine .bind (P := fun _ _ => True) ?_ fun _ new _ _ => .bind (effect _) fun _ _ _ _ => query _
    cases op with
    | none => exact .pure trivial
    | some op =>
      refine .bind (query _) fun _ held _ _ => ?_
      exact (lift (op.ordinary_apply held rhs)).imp fun _ _ _ _ => trivial
  | step op fixity target =>
    rw [Program.errorsInExpr] at h
    refine .bind (.task h) fun _ q _ _ => .bind (query _) fun _ old _ _ => ?_
    refine .bind (lift (op.arith.ordinary_apply old (.int 1))) fun _ new _ _ => ?_
    refine .bind (effect _) fun _ _ _ _ => ?_
    cases fixity with
    | before => exact query _
    | after => exact .pure trivial
  | call callee calleeSpan args span =>
    rw [Program.errorsInExpr, List.append_eq_nil_iff] at h
    exact .task ⟨hctx.accepts callee calleeSpan args span h.2, h.1⟩
  | index base subscript =>
    refine .ite (fun _ => .bind (.task h) fun _ q _ _ => query _) fun _ => ?_
    rw [Program.errorsInExpr, List.append_eq_nil_iff] at h
    refine .bind (.task h.1) fun _ v _ _ => .bind (.task h.2) fun _ i _ _ => ?_
    refine .bind (lift i.ordinary_asInt) fun _ n _ _ => ?_
    exact (lift (v.ordinary_element n)).imp fun _ _ _ _ => trivial
  | field base id =>
    refine .ite (fun _ => .bind (.task h) fun _ q _ _ => query _) fun _ => ?_
    rw [Program.errorsInExpr] at h
    refine .bind (.task h) fun _ v _ _ => ?_
    exact (lift (v.ordinary_member id)).imp fun _ _ _ _ => trivial

/-- An expression that names storage and has no call errors evaluates only checked calls. -/
theorem place {e : Expr} (h : p.errorsInExpr e = []) :
    (fitting p ctx).Ensures ctx w (Script.place e) fun _ _ => True := by
  cases e with
  | name id => exact query _
  | index base subscript =>
    rw [Program.errorsInExpr, List.append_eq_nil_iff] at h
    refine .bind (.task h.1) fun _ q _ _ => .bind (.task h.2) fun _ i _ _ => ?_
    exact .bind (lift i.ordinary_asInt) fun _ n _ _ => query _
  | field base id =>
    rw [Program.errorsInExpr] at h
    exact .bind (.task h) fun _ q _ _ => query _
  | _ => exact fail rfl

/-- A checked call finds its callee and has as many arguments as parameters. -/
theorem call (hctx : Checks p ctx) {callee : String} {args : List Expr}
    (hargs : ctx.functions.Accepts callee args) (h : p.errorsInExprs args = []) :
    (fitting p ctx).Ensures ctx w (Script.call ctx callee args) fun _ _ => True := by
  unfold FunctionTable.Accepts at hargs
  unfold Script.call
  cases hprimitive : Primitive.ofName? callee with
  | some q =>
    rw [hprimitive] at hargs
    obtain ⟨arg, rfl⟩ := List.length_eq_one_iff.mp hargs
    rw [Program.errorsInExprs, List.append_eq_nil_iff] at h
    exact .bind (.task h.1) fun _ v _ _ => .bind (effect _) fun _ _ _ _ => .pure trivial
  | none =>
    rw [hprimitive] at hargs
    obtain ⟨e, he, hlength, hplaces⟩ := hargs
    -- The callee that the evaluator finds is the one that accepts the arguments.
    refine .bind (lift (ctx.functions.ordinary_get callee)) fun _ e' _ he' => ?_
    obtain rfl : e = e' := Except.ok.inj (he.symm.trans he')
    refine .ite (fun _ => ?_) fun hne => absurd hlength hne
    exact .bind (.task ⟨h, hplaces⟩) fun _ bound _ _ => .task (hctx.bodies callee e he)

/-- The arguments of a checked call are checked, and those for references name storage. -/
theorem arguments {function : String} {params : List ParamSignature} {args : List Expr}
    (h : p.errorsInExprs args = [])
    (hplaces : ∀ pa ∈ params.zip args, pa.1.byRef = true → pa.2.isPlace = true) :
    (fitting p ctx).Ensures ctx w (Script.arguments function params args) fun _ _ => True := by
  rw [Script.arguments.eq_def]
  split
  · rw [Program.errorsInExprs, List.append_eq_nil_iff] at h
    rw [List.zip_cons_cons, List.forall_mem_cons] at hplaces
    refine .bind (.task ⟨h.1, hplaces.1⟩) fun _ _ _ _ => ?_
    exact .bind (.task ⟨h.2, hplaces.2⟩) fun _ _ _ _ => .pure trivial
  · exact .pure trivial

/-- An argument for a reference names storage, so it is not refused as a temporary. -/
theorem argument {function : String} {q : ParamSignature} {arg : Expr}
    (h : p.errorsInExpr arg = []) (hplace : q.byRef = true → arg.isPlace = true) :
    (fitting p ctx).Ensures ctx w (Script.argument function q arg) fun _ _ => True := by
  refine .ite (fun _ => ?_) fun href => .ite (fun _ => ?_) fun hno => ?_
  · refine .bind (.task h) fun _ v _ _ => ?_
    exact .bind (lift (v.ordinary_convert q.type)) fun _ _ _ _ => .pure trivial
  · refine .bind (.task h) fun _ _ _ _ => .bind (query _) fun _ _ _ _ => ?_
    exact .ite (fun _ => .pure trivial) fun _ => fail rfl
  · -- A temporary for a reference is what the check has ruled out.
    rw [Bool.not_eq_true, Bool.not_eq_false'] at href
    exact absurd (hplace href) hno

/-- Declaring parameters evaluates no call. -/
theorem declareArguments (params : List ParamSignature) (args : List Argument) :
    (fitting p ctx).Ensures ctx w (Script.declareArguments params args) fun _ _ => True := by
  induction params generalizing w args with
  | nil => exact .pure trivial
  | cons q params ih =>
    cases args with
    | nil => exact .pure trivial
    | cons arg args =>
      refine .bind (P := fun _ _ => True) ?_ fun _ _ _ _ => ih args
      cases arg <;> exact effect _

/-- A checked body is executed, or the function is another than the entry and has none. -/
theorem invoke {e : FunctionEntry} (h : e.Checked p ctx.options.entry) (args : List Argument) :
    (fitting p ctx).Ensures ctx w (Script.invoke ctx e args) fun _ _ => True := by
  rw [Script.invoke]
  split
  · -- Functions that are only declared may be called; the entry function is not one of them.
    rename_i hnone
    exact .fail fun _ => .undefined (h.defined hnone)
  · rename_i body hbody
    refine .bind (effect _) fun _ _ _ _ => ?_
    refine .bind
      (enclosed _ (.bind (declareArguments _ _) fun _ _ _ _ => .task (h.body body hbody)))
      fun _ flow _ _ => ?_
    exact (lift (e.signature.ordinary_finish _ flow)).imp fun _ _ _ _ => trivial

/-- An initializer without call errors evaluates only checked calls. -/
theorem build {init : Initializer} (h : p.errorsInInit init = []) (T : ValueType) :
    (fitting p ctx).Ensures ctx w (Script.build init T) fun _ _ => True := by
  cases init with
  | expr e =>
    rw [Program.errorsInInit] at h
    refine .bind (.task h) fun _ v _ _ => ?_
    exact (lift (v.ordinary_convert T)).imp fun _ _ _ _ => trivial
  | list items span =>
    rw [Program.errorsInInit] at h
    cases T with
    | array elem length =>
      exact .ite (fun _ => fail rfl) fun _ => .bind (.task h) fun _ _ _ _ => .pure trivial
    | record name layout =>
      exact .ite (fun _ => fail rfl) fun _ => .bind (.task h) fun _ _ _ _ => .pure trivial
    | _ =>
      cases items with
      | nil => exact .pure trivial
      | cons item rest =>
        cases rest with
        | nil =>
          rw [Program.errorsInInits, List.append_eq_nil_iff] at h
          exact .task h.1
        | cons => exact fail rfl

/-- The initializers of an array without call errors evaluate only checked calls. -/
theorem buildElems {items : List Initializer} (h : p.errorsInInits items = []) (T : ValueType) :
    (fitting p ctx).Ensures ctx w (Script.buildElems items T) fun _ _ => True := by
  cases items with
  | nil => exact .pure trivial
  | cons item rest =>
    rw [Program.errorsInInits, List.append_eq_nil_iff] at h
    exact .bind (.task h.1) fun _ _ _ _ => .bind (.task h.2) fun _ _ _ _ => .pure trivial

/-- The initializers of a record without call errors evaluate only checked calls. -/
theorem buildFields {items : List Initializer} (h : p.errorsInInits items = [])
    (layout : Layout) :
    (fitting p ctx).Ensures ctx w (Script.buildFields items layout) fun _ _ => True := by
  rw [Script.buildFields.eq_def]
  split
  · rw [Program.errorsInInits, List.append_eq_nil_iff] at h
    exact .bind (.task h.1) fun _ _ _ _ => .bind (.task h.2) fun _ _ _ _ => .pure trivial
  · exact .pure trivial

/-- The initializer of a variable without call errors evaluates only checked calls. -/
theorem declareVar {decl : VarDecl} (h : p.errorsInDecl decl = []) :
    (fitting p ctx).Ensures ctx w (Script.declareVar ctx decl) fun _ _ => True := by
  refine .bind (.lift fun e he => RuntimeError.fitting_of_not_misfit
    ((ctx.types.declares_resolve _ decl.type).neverMisfit e he)) fun _ T _ _ => ?_
  rw [Program.errorsInDecl] at h
  cases hinit : decl.init with
  | none =>
    exact .ite (fun _ => fail rfl) fun _ => effect _
  | some init =>
    rw [hinit] at h
    refine .ite (fun _ => ?_) fun _ => .bind (.task h) fun _ v _ _ => effect _
    cases init with
    | list items span => exact fail rfl
    | expr target =>
      dsimp only at h
      rw [Program.errorsInInit] at h
      refine .ite (fun _ => ?_) fun _ => fail rfl
      refine .bind (.task h) fun _ q _ _ => .bind (query _) fun _ actual _ _ => ?_
      exact .ite (fun _ => effect _) fun _ => fail rfl

/-- Several variables without call errors evaluate only checked calls. -/
theorem declareVars {decls : List VarDecl} (h : ∀ decl ∈ decls, p.errorsInDecl decl = []) :
    (fitting p ctx).Ensures ctx w (Script.declareVars decls) fun _ _ => True := by
  cases decls with
  | nil => exact .pure trivial
  | cons decl rest =>
    rw [List.forall_mem_cons] at h
    exact .bind (enclosed _ (.task h.1)) fun _ _ _ _ => .task h.2

/-- A statement without call errors evaluates only checked calls. -/
theorem exec {s : Statement} (h : p.errorsInStatement s = []) :
    (fitting p ctx).Ensures ctx w (Script.exec s) fun _ _ => True := by
  refine enclosed _ ?_
  cases s with
  | declare decls =>
    rw [Program.errorsInStatement, List.flatMap_eq_nil_iff] at h
    exact .bind (.task h) fun _ _ _ _ => .pure trivial
  | expr e =>
    rw [Program.errorsInStatement] at h
    exact .bind (.task h) fun _ _ _ _ => .pure trivial
  | ifThen cond thenBranch =>
    rw [Program.errorsInStatement, List.append_eq_nil_iff] at h
    exact condition h.1 (enclosed _ (.task h.2)) (.pure trivial)
  | ifElse cond thenBranch elseBranch =>
    rw [Program.errorsInStatement, List.append_eq_nil_iff, List.append_eq_nil_iff] at h
    exact condition h.1.1 (enclosed _ (.task h.1.2)) (enclosed _ (.task h.2))
  | loop cond body =>
    rw [Program.errorsInStatement, List.append_eq_nil_iff] at h
    exact .task h
  | ret value =>
    cases value with
    | none => exact .pure trivial
    | some e =>
      rw [Program.errorsInStatement] at h
      exact .bind (.task h) fun _ _ _ _ => .pure trivial
  | block body =>
    rw [Program.errorsInStatement] at h
    exact enclosed _ (.task h)
  | empty => exact .pure trivial

/-- One round of a loop without call errors evaluates only checked calls. -/
theorem repeatWhile {cond : Expr} {body : Statement} (hcond : p.errorsInExpr cond = [])
    (h : p.errorsInStatement body = []) :
    (fitting p ctx).Ensures ctx w (Script.repeatWhile cond body) fun _ _ => True := by
  refine condition hcond ?_ (.pure trivial)
  refine .bind (enclosed _ (.task h)) fun _ flow _ _ => ?_
  cases flow with
  | normal => exact .task ⟨hcond, h⟩
  | returned v => exact .pure trivial

/-- Statements without call errors, in order, evaluate only checked calls. -/
theorem execAll {ss : List Statement} (h : p.errorsInStatements ss = []) :
    (fitting p ctx).Ensures ctx w (Script.execAll ss) fun _ _ => True := by
  cases ss with
  | nil => exact .pure trivial
  | cons s rest =>
    rw [Program.errorsInStatements, List.append_eq_nil_iff] at h
    refine .bind (.task h.1) fun _ flow _ _ => ?_
    cases flow with
    | normal => exact .task h.2
    | returned v => exact .pure trivial

/-- Every task that works on checked parts of the source evaluates only checked calls. -/
theorem script (hctx : Checks p ctx) (t : Task) (w : Unit) (h : t.Checked p ctx) :
    (fitting p ctx).Ensures ctx w (t.script ctx) fun _ _ => True := by
  cases t with
  | eval e => exact eval hctx h
  | place e => exact place h
  | call callee args => exact call hctx h.1 h.2
  | arguments function params args => exact arguments h.1 h.2
  | argument function q arg => exact argument h.1 h.2
  | invoke e args => exact invoke h args
  | build init T => exact build h T
  | buildElems items T => exact buildElems h T
  | buildFields items layout => exact buildFields h layout
  | declareVar decl => exact declareVar h
  | declareVars decls => exact declareVars h
  | exec s => exact exec h
  | repeatWhile cond body => exact repeatWhile h.1 h.2
  | execAll ss => exact execAll h

/-- A checked program ends with a wrong number of arguments only if its entry function has
parameters. -/
theorem program (hctx : Checks p ctx) :
    (fitting p ctx).Ensures ctx w (p.script ctx) fun _ _ => True := by
  refine .bind (.task hctx.globals) fun _ _ _ _ => ?_
  refine .bind (lift (ctx.functions.ordinary_get _)) fun _ e _ he => ?_
  refine .ite (fun _ => ?_) fun hparams => ?_
  · refine .bind (.task (hctx.bodies _ e he)) fun _ v _ _ => ?_
    cases v with
    | void => exact .pure trivial
    | _ => exact (lift (Value.ordinary_asInt _)).imp fun _ _ _ _ => trivial
  · rw [FunctionTable.name_of_get he]
    exact .fail fun _ => .arity he (by rwa [List.isEmpty_iff] at hparams)

/-- A program without call errors runs in a context that has been checked. -/
theorem checks_of_callErrors {options : RunOptions} {sink : Sink σ}
    (hctx : p.context options sink = .ok ctx) (h : p.callErrors options.entry = []) :
    Checks p ctx := by
  obtain ⟨types, functions, -, hbuild, rfl⟩ := Program.exists_of_context hctx
  rw [Program.callErrors, List.append_eq_nil_iff, List.flatMap_eq_nil_iff] at h
  obtain ⟨hentry, hitems⟩ := h
  -- The entry function is declared, and some declaration of it has a body.
  obtain ⟨main, hmain, hbody⟩ : ∃ e, functions.get options.entry = .ok e ∧
      e.body.isSome = true := by
    rw [Program.entryErrors] at hentry
    split at hentry
    · rename_i shape hshape
      split_ifs at hentry with hdefined
      obtain ⟨e, he, -, hbody⟩ := FunctionTable.exists_of_callShape? hbuild hshape
      exact ⟨e, he, by rw [hbody, hdefined]⟩
    · cases hentry
  refine ⟨fun callee calleeSpan args span => FunctionTable.accepts_of_check hbuild,
    fun name e he => ⟨fun b hb => ?_, fun hnone hname => ?_⟩,
    fun decl hdecl => hitems _ (Program.mem_globals hdecl), main, hmain, hbody⟩
  · have hlists := FunctionTable.lists_build hbuild
    rw [hlists.body_eq name e (FunctionTable.get_eq_ok_iff.mp he)] at hb
    obtain ⟨decl, hmem, -, hbody⟩ := exists_of_bodyOf? hb
    have hitem := hitems _ (Program.mem_functions hmem)
    rw [Program.errorsInItem, hbody] at hitem
    exact hitem
  · rw [FunctionTable.name_of_get he] at hname
    subst hname
    obtain rfl : e = main := Except.ok.inj (he.symm.trans hmain)
    rw [hnone] at hbody
    cases hbody

/-- A run in a checked context ends as the discipline says. -/
theorem ends (hctx : Checks p ctx) (fuel : Nat) (s : σ) :
    Ends (p.record ctx fuel (Recorded.start s)) ((fitting p ctx).Reaches () fun _ _ => True)
      ((fitting p ctx).Stops ()) :=
  program hctx _ (Discipline.obeyed_record (script hctx) fuel) (Recorded.start s) nofun

end fitting

/-! ## Checked programs -/

/-- The calls of a run fit their callees. -/
structure Program.CallsFit (p : Program) (options : RunOptions) (sink : Sink σ) (fuel : Nat)
    (s : σ) : Prop where
  /-- Every call that is evaluated finds its callee, which takes as many arguments, and passes
  storage for each reference. -/
  calls : ∀ ctx, p.context options sink = .ok ctx →
    (p.history options sink fuel s).Fitting ctx.functions
  /-- The entry function is known and has a body. -/
  entry : ∀ ctx, p.context options sink = .ok ctx →
    ∃ e, ctx.functions.get options.entry = .ok e ∧ e.body.isSome = true
  /-- The run does not end with the entry function undefined. -/
  defined : ∀ span, (p.run options sink fuel s).1 ≠
    .error (.fault (.undefinedFunction options.entry) span)
  /-- It does not end with a temporary for a reference. -/
  storage : ∀ param function span, (p.run options sink fuel s).1 ≠
    .error (.fault (.typeMismatch (.temporaryArgument param function)) span)
  /-- It ends with a wrong number of arguments only if the entry function has parameters. -/
  arity : ∀ name expected received span, (p.run options sink fuel s).1 =
      .error (.fault (.arityMismatch name expected received) span) →
    name = options.entry ∧ received = 0 ∧ 0 < expected ∧
      ∃ ctx e, p.context options sink = .ok ctx ∧ ctx.functions.get options.entry = .ok e ∧
        e.signature.params.length = expected

/-- The error with which a checked program ends is no error of a call, or one of those left
over. -/
theorem Program.leftOver_of_run {p : Program} {options : RunOptions} {sink : Sink σ} {fuel : Nat}
    {s : σ} (h : p.callErrors options.entry = []) {e : RuntimeError} {span : Option Span}
    (hrun : (p.run options sink fuel s).1 = .error (.fault e span)) (he : e.isMisfit = true) :
    ∃ ctx, p.context options sink = .ok ctx ∧ e.LeftOver ctx.functions options.entry := by
  cases hctx : p.context options sink with
  | error stop =>
    rw [run, hctx] at hrun
    cases hrun
    have hfits := (declares_context hctx).2
    rw [he] at hfits
    cases hfits
  | ok ctx =>
    have hends := fitting.ends (fitting.checks_of_callErrors hctx h) fuel s
    obtain ⟨y, hr⟩ := exists_record_of_run hctx hrun
    have hfits := Discipline.allowed_of_error hends hr
    obtain ⟨types, functions, -, -, rfl⟩ := exists_of_context hctx
    exact ⟨_, rfl, hfits he⟩

/-- The check of calls is sound: in every run of a program that passes it, from the entry function
that it was checked for, the calls fit their callees. -/
theorem callsFit_of_checkSource {source : String} {p : Program} (options : RunOptions)
    (h : checkSource source options.entry = .ok p) (sink : Sink σ) (fuel : Nat) (s : σ) :
    p.CallsFit options sink fuel s := by
  have hcheck : p.callErrors options.entry = [] := by
    obtain ⟨q, -, h⟩ := Except.bind_eq_ok h
    split at h
    · rename_i hnil
      cases h
      exact hnil
    · cases h
  refine ⟨fun ctx hctx => ?_, fun ctx hctx => ?_, fun span hrun => ?_,
    fun param function span hrun => ?_, fun name expected received span hrun => ?_⟩
  · have hends := fitting.ends (fitting.checks_of_callErrors hctx hcheck) fuel s
    obtain ⟨_, -, hfinal⟩ := Discipline.inv_finalState hends
    rw [Program.history, hctx]
    exact hfinal
  · have hentry := (fitting.checks_of_callErrors hctx hcheck).entry
    obtain ⟨types, functions, -, -, rfl⟩ := Program.exists_of_context hctx
    exact hentry
  · obtain ⟨ctx, -, hleft⟩ := Program.leftOver_of_run hcheck hrun rfl
    cases hleft with
    | undefined hname => exact hname rfl
  · obtain ⟨ctx, -, hleft⟩ := Program.leftOver_of_run hcheck hrun rfl
    cases hleft
  · obtain ⟨ctx, hctx, hleft⟩ := Program.leftOver_of_run hcheck hrun rfl
    cases hleft with
    | @arity e he hparams =>
      exact ⟨rfl, rfl, List.length_pos_iff.mpr hparams, ctx, e, hctx, he, rfl⟩

/-- A source in which a function with a reference is called before it is defined. -/
def bumpSource : String :=
  "int bump(int &x, int by); int main() { int a[2]; print_int(bump(a[1], 3)); return a[1]; }
  int bump(int &x, int by) { x = x + by; return x; }"

/-- A program whose function is declared twice, takes a reference and is called on an element. -/
theorem callsFit_bumpSource :
    ∃ p, checkSource bumpSource "main" = .ok p ∧ p.CallsFit {} Sink.recording 100 #[] := by
  obtain ⟨p, hp⟩ := Except.exists_of_isOk (r := checkSource bumpSource "main") (by decide +kernel)
  exact ⟨p, hp, callsFit_of_checkSource {} hp Sink.recording 100 #[]⟩

end SmallCpp
