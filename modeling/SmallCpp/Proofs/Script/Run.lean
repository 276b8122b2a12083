import SmallCpp.Proofs.Script

/-!
# Running scripts

A script is run by answering its questions from the environment, applying its effects to the machine
and handing its tasks to the evaluator. The lemmas `run_eval` to `run_execAll` compare this,
function by function, with one step of the evaluator; `Task.run_succ` puts them together, and
`Program.execute_eq` does the same for a whole program.
-/

namespace SmallCpp

variable {σ α β : Type}

/-- Has an effect on the machine. -/
def Effect.run (ctx : Context σ) : Effect → Exec σ Unit
  | write p v => Exec.write p v
  | declare name _ v => Exec.declare name v
  | declareAlias name _ p => Exec.declareAlias name p
  | print p arg => do
    let _ ← Exec.primitive p ctx.sink arg
  | checkDepth => do
    Exec.checkDepth ctx.options (← get).env.depth

/-- Runs a part inside an enclosure. -/
def Enclosure.around : Enclosure → Exec σ α → Exec σ α
  | scope => Exec.inScope
  | frame function => Exec.inFrame function
  | located span => Exec.locating span

/-- Runs a script, given how to run the tasks that it hands on. -/
def Script.run (ctx : Context σ) (perform : (t : Task) → Exec σ t.Result) :
    {α : Type} → Script α → Exec σ α
  | _, .done a => pure a
  | _, .fail e => Exec.fail e
  | _, .ask q next => do
    let b ← Exec.ask q.answer
    (next b).run ctx perform
  | _, .act f next => do
    f.run ctx
    next.run ctx perform
  | _, .perform t next => do
    let r ← perform t
    (next r).run ctx perform
  | _, .within w inner next => do
    let b ← w.around (inner.run ctx perform)
    (next b).run ctx perform

/-- Runs a task with the given bound on nested steps. -/
def Task.run (ctx : Context σ) (fuel : Nat) : (t : Task) → Exec σ t.Result
  | eval e => Exec.eval ctx fuel e
  | place e => Exec.place ctx fuel e
  | call callee args => Exec.call ctx fuel callee args
  | arguments function params args => Exec.arguments ctx fuel function params args
  | argument function p arg => Exec.argument ctx fuel function p arg
  | invoke entry args => Exec.invoke ctx fuel entry args
  | build init type => Exec.build ctx fuel init type
  | buildElems items type => Exec.buildElems ctx fuel items type
  | buildFields items layout => Exec.buildFields ctx fuel items layout
  | declareVar decl => Exec.declareVar ctx fuel decl
  | declareVars decls => Exec.declareVars ctx fuel decls
  | exec s => Exec.exec ctx fuel s
  | repeatWhile cond body => Exec.repeatWhile ctx fuel cond body
  | execAll ss => Exec.execAll ctx fuel ss

namespace Script

variable (ctx : Context σ) (perform : (t : Task) → Exec σ t.Result)

/-- A script that is done yields its result. -/
@[simp] theorem run_pure (a : α) : (pure a : Script α).run ctx perform = pure a := rfl

/-- A script that fails raises its error. -/
@[simp] theorem run_fail (e : RuntimeError) :
    (fail e : Script α).run ctx perform = Exec.fail e := rfl

/-- One script after another is run as one computation after another. -/
@[simp] theorem run_bind (s : Script α) (f : α → Script β) :
    (s >>= f).run ctx perform = s.run ctx perform >>= fun a => (f a).run ctx perform := by
  -- In each case the rest of the script is run later than its first step, so that `bind_assoc`
  -- moves the second script inwards.
  induction s with
  | done a => rfl
  | fail e => rfl
  | ask q next ih =>
    change (ask q fun b => next b >>= f).run ctx perform = _
    simp only [run, ih, bind_assoc]
  | act e next ih =>
    change (act e (next >>= f)).run ctx perform = _
    simp only [run, ih, bind_assoc]
  | perform t next ih =>
    change (Script.perform t fun r => next r >>= f).run ctx perform = _
    simp only [run, ih, bind_assoc]
  | within w inner next _ ih =>
    change (within w inner fun b => next b >>= f).run ctx perform = _
    simp only [run, ih, bind_assoc]

/-- A question is answered from the environment. -/
@[simp] theorem run_query (q : Query β) :
    (query q).run ctx perform = Exec.ask q.answer := bind_pure _

/-- An effect is applied to the machine. -/
@[simp] theorem run_effect (f : Effect) : (effect f).run ctx perform = f.run ctx := bind_pure _

/-- A task is handed to the evaluator. -/
@[simp] theorem run_task (t : Task) :
    run ctx perform (α := no_index t.Result) (task t) = perform t := bind_pure _

/-- A part in an enclosure is run inside it. -/
@[simp] theorem run_enclosed (w : Enclosure) (inner : Script β) :
    (enclosed w inner).run ctx perform = w.around (inner.run ctx perform) := bind_pure _

/-- A computation on values is done at once. -/
@[simp] theorem run_lift (r : Except RuntimeError α) :
    (lift r).run ctx perform = Exec.lift r := by
  cases r <;> rfl

/-- A branch is run as it is taken. -/
@[simp] theorem run_ite (c : Prop) [Decidable c] (s t : Script α) :
    (if c then s else t).run ctx perform =
      if c then s.run ctx perform else t.run ctx perform := by
  split <;> rfl

end Script

/-- Without steps left, every task stops at once. -/
theorem Task.run_zero (ctx : Context σ) (t : Task) : t.run ctx 0 = throw .outOfFuel := by
  cases t <;> simp only [run, Exec.eval, Exec.place, Exec.call, Exec.arguments, Exec.argument,
    Exec.invoke, Exec.build, Exec.buildElems, Exec.buildFields, Exec.declareVar, Exec.declareVars,
    Exec.exec, Exec.repeatWhile, Exec.execAll]

/-! ## One step of the evaluator -/

section

variable (ctx : Context σ) (fuel : Nat)

/-- One step of an expression. -/
theorem run_eval (e : Expr) :
    (Script.eval e).run ctx (Task.run ctx fuel) = Exec.eval ctx (fuel + 1) e := by
  rw [Exec.eval.eq_def]
  cases e with
  | literal => simp [Script.eval]
  | name => simp [Script.eval, Query.answer]
  | binary op left right =>
    rcases op with op | op | ⟨⟨⟩⟩ <;> simp [Script.eval, Task.run]
  | unary => simp [Script.eval, Task.run]
  | assign op =>
    cases op <;> simp [Script.eval, Script.eval.combined, Exec.combined, Task.run, Effect.run,
      Query.answer]
  | step op fixity =>
    cases fixity <;> simp [Script.eval, Task.run, Effect.run, Query.answer]
  | call => simp [Script.eval, Task.run]
  | index => simp [Script.eval, Task.run, Query.answer]
  | field => simp [Script.eval, Task.run, Query.answer]

/-- One step of an expression that names storage. -/
theorem run_place (e : Expr) :
    (Script.place e).run ctx (Task.run ctx fuel) = Exec.place ctx (fuel + 1) e := by
  rw [Exec.place.eq_def]
  cases e with
  | name => simp [Script.place, Query.answer]
  | index => simp [Script.place, Task.run, Query.answer]
  | field => simp [Script.place, Task.run, Query.answer]
  | _ => rfl

/-- A primitive that prints its argument yields nothing. -/
theorem run_print (p : Primitive) (v : Value) :
    (do (Effect.print p v).run ctx; pure Value.void) = Exec.primitive p ctx.sink v := by
  funext m
  simp only [Effect.run, bind, EStateM.bind, Exec.primitive, Primitive.invoke, pure, EStateM.pure]
  -- The value that the primitive yields is lost in the effect; it is always `void`.
  cases p.event v with
  | error e => rfl
  | ok event =>
    dsimp only
    rcases ctx.sink.emit event m.sink with ⟨⟨⟩, s⟩ | _ <;> rfl

/-- One step of a call by name. -/
theorem run_call (callee : String) (args : List Expr) :
    (Script.call ctx callee args).run ctx (Task.run ctx fuel) =
      Exec.call ctx (fuel + 1) callee args := by
  rw [Exec.call.eq_def]
  cases h : Primitive.ofName? callee with
  | none => simp [Script.call, h, Task.run]
  | some p =>
    match args with
    | [] => simp [Script.call, h]
    | [arg] => simp [Script.call, h, Task.run, ← run_print]
    | _ :: _ :: _ => simp [Script.call, h]

/-- One step of the arguments of a call. -/
theorem run_arguments (function : String) (params : List ParamSignature) (args : List Expr) :
    (Script.arguments function params args).run ctx (Task.run ctx fuel) =
      Exec.arguments ctx (fuel + 1) function params args := by
  rw [Exec.arguments.eq_def]
  cases params <;> cases args <;> simp [Script.arguments, Task.run]

/-- One step of an argument. -/
theorem run_argument (function : String) (p : ParamSignature) (arg : Expr) :
    (Script.argument function p arg).run ctx (Task.run ctx fuel) =
      Exec.argument ctx (fuel + 1) function p arg := by
  rw [Exec.argument.eq_def]
  simp [Script.argument, Task.run, Query.answer, Exec.clash]

/-- The parameters of a call are declared in order, without a step of the evaluator. -/
theorem run_declareArguments (perform : (t : Task) → Exec σ t.Result)
    (params : List ParamSignature) (args : List Argument) :
    (Script.declareArguments params args).run ctx perform = Exec.declareArguments params args := by
  induction params generalizing args with
  | nil => rfl
  | cons p ps ih =>
    cases args with
    | nil => rfl
    | cons arg args =>
      cases arg <;> simp [Script.declareArguments, Script.declareArgument, Exec.declareArguments,
        Exec.declareArgument, Effect.run, ih]

/-- One step of a function on arguments that are ready. -/
theorem run_invoke (entry : FunctionEntry) (args : List Argument) :
    (Script.invoke ctx entry args).run ctx (Task.run ctx fuel) =
      Exec.invoke ctx (fuel + 1) entry args := by
  rw [Exec.invoke.eq_def]
  cases h : entry.body with
  | none => simp [Script.invoke, h]
  | some body =>
    simp [Script.invoke, h, Task.run, Effect.run, Enclosure.around, run_declareArguments]

/-- One step of an initializer. -/
theorem run_build (init : Initializer) (type : ValueType) :
    (Script.build init type).run ctx (Task.run ctx fuel) =
      Exec.build ctx (fuel + 1) init type := by
  rw [Exec.build.eq_def]
  cases init with
  | expr => simp [Script.build, Task.run]
  | list items =>
    cases type with
    | array => simp [Script.build, Task.run, Exec.clash]
    | record => simp [Script.build, Task.run, Exec.clash]
    | _ => rcases items with _ | ⟨_, _ | _⟩ <;> simp [Script.build, Task.run, Exec.clash]

/-- One step of the initializers of an array. -/
theorem run_buildElems (items : List Initializer) (type : ValueType) :
    (Script.buildElems items type).run ctx (Task.run ctx fuel) =
      Exec.buildElems ctx (fuel + 1) items type := by
  rw [Exec.buildElems.eq_def]
  cases items <;> simp [Script.buildElems, Task.run]

/-- One step of the initializers of a record. -/
theorem run_buildFields (items : List Initializer) (layout : Layout) :
    (Script.buildFields items layout).run ctx (Task.run ctx fuel) =
      Exec.buildFields ctx (fuel + 1) items layout := by
  rw [Exec.buildFields.eq_def]
  cases items <;> cases layout <;> simp [Script.buildFields, Task.run]

/-- One step of a variable's declaration. -/
theorem run_declareVar (decl : VarDecl) :
    (Script.declareVar ctx decl).run ctx (Task.run ctx fuel) =
      Exec.declareVar ctx (fuel + 1) decl := by
  rw [Exec.declareVar.eq_def]
  rcases decl with ⟨name, type, _ | _, _ | ⟨_ | _⟩, span⟩ <;>
    simp [Script.declareVar, Task.run, Effect.run, Query.answer, Exec.clash]

/-- One step of several declarations. -/
theorem run_declareVars (decls : List VarDecl) :
    (Script.declareVars decls).run ctx (Task.run ctx fuel) =
      Exec.declareVars ctx (fuel + 1) decls := by
  rw [Exec.declareVars.eq_def]
  cases decls <;> simp [Script.declareVars, Task.run, Enclosure.around]

/-- One step of a statement. -/
theorem run_exec (s : Statement) :
    (Script.exec s).run ctx (Task.run ctx fuel) = Exec.exec ctx (fuel + 1) s := by
  rw [Exec.exec.eq_def]
  cases s with
  | ret value => cases value <;> simp [Script.exec, Task.run, Enclosure.around]
  | _ => simp [Script.exec, Task.run, Enclosure.around]

/-- One step of a loop, which is one round. -/
theorem run_repeatWhile (cond : Expr) (body : Statement) :
    (Script.repeatWhile cond body).run ctx (Task.run ctx fuel) =
      Exec.repeatWhile ctx (fuel + 1) cond body := by
  rw [Exec.repeatWhile.eq_def]
  simp only [Script.repeatWhile, Script.run_bind, Script.run_task, Script.run_lift,
    Script.run_ite, Script.run_enclosed, Script.run_pure]
  -- What follows depends on how the body ends, which is known only after both binds.
  refine bind_congr fun c => bind_congr fun b => ?_
  split
  · refine bind_congr fun flow => ?_
    cases flow <;> simp [Task.run]
  · rfl

/-- One step of statements in order. -/
theorem run_execAll (ss : List Statement) :
    (Script.execAll ss).run ctx (Task.run ctx fuel) = Exec.execAll ctx (fuel + 1) ss := by
  rw [Exec.execAll.eq_def]
  cases ss with
  | nil => rfl
  | cons s rest =>
    simp only [Script.execAll, Script.run_bind, Script.run_task]
    refine bind_congr fun flow => ?_
    cases flow <;> simp [Task.run]

end

/-- A task with one more step is its script with every task that it hands on run with one step
less. -/
theorem Task.run_succ (ctx : Context σ) (fuel : Nat) (t : Task) :
    t.run ctx (fuel + 1) = (t.script ctx).run ctx (Task.run ctx fuel) := by
  cases t with
  | eval e => exact (run_eval ctx fuel e).symm
  | place e => exact (run_place ctx fuel e).symm
  | call callee args => exact (run_call ctx fuel callee args).symm
  | arguments function params args => exact (run_arguments ctx fuel function params args).symm
  | argument function p arg => exact (run_argument ctx fuel function p arg).symm
  | invoke entry args => exact (run_invoke ctx fuel entry args).symm
  | build init type => exact (run_build ctx fuel init type).symm
  | buildElems items type => exact (run_buildElems ctx fuel items type).symm
  | buildFields items layout => exact (run_buildFields ctx fuel items layout).symm
  | declareVar decl => exact (run_declareVar ctx fuel decl).symm
  | declareVars decls => exact (run_declareVars ctx fuel decls).symm
  | exec s => exact (run_exec ctx fuel s).symm
  | repeatWhile cond body => exact (run_repeatWhile ctx fuel cond body).symm
  | execAll ss => exact (run_execAll ctx fuel ss).symm

/-- A program is executed as its script says. -/
theorem Program.execute_eq (p : Program) (ctx : Context σ) (fuel : Nat) :
    p.execute ctx fuel = (p.script ctx).run ctx (Task.run ctx fuel) := by
  simp only [execute, script, Script.run_bind, Script.run_task, Script.run_lift, Script.run_ite,
    Script.run_fail]
  refine bind_congr fun _ => bind_congr fun entry => ?_
  split
  · refine bind_congr fun v => ?_
    cases v <;> simp
  · rfl

end SmallCpp
