import SmallCpp.Proofs.Discipline
import SmallCpp.Proofs.Environment

/-!
# Where places come from

Evaluation gets hold of a place only by looking up a name, and goes on from there to its parts. It
writes to places that it holds, and binds names to them or to new storage. A `Provenance` tells
which places may be held, in such a way that all these steps keep to it. Then every task keeps to it
(`Provenance.obeyed_record`), and so does every state of a program's run
(`Provenance.inv_of_reaches`).
-/

namespace SmallCpp

variable {σ W : Type}

/-- Which places may be held, relative to a world that grows while a task runs. -/
structure Provenance (W : Type) where
  /-- How the world may grow. -/
  grows : W → W → Prop
  /-- What holds of the environment. -/
  inv : W → Environment → Prop
  /-- Names may be looked up and declared. -/
  running : W → Prop
  /-- A place may be held. -/
  held : W → Place → Prop
  /-- The world inside a new frame. -/
  inner : W → W
  grows_refl : ∀ w, grows w w
  grows_trans : ∀ {u v w}, grows u v → grows v w → grows u w
  running_mono : ∀ {w w'}, grows w w' → running w → running w'
  held_mono : ∀ {w w' p}, grows w w' → held w p → held w' p
  lookup : ∀ {w env name p}, inv w env → running w → env.lookup name = .ok p → held w p
  extend : ∀ {w p} step, held w p → held w (p.extend step)
  setCell : ∀ {w env p v new}, inv w env → held w p → env.store.updated p v = .ok new →
    inv w (env.setCell p.cell new)
  bindNew : ∀ {w env} name v, inv w env → running w →
    ∃ w', grows w w' ∧ inv w' (env.bindNew name v)
  bindAlias : ∀ {w env p} name, inv w env → running w → held w p →
    ∃ w', grows w w' ∧ inv w' (env.bind name ⟨p, .alias⟩)
  enter : ∀ {w env}, inv w env → running w → inv w env.enter
  leave : ∀ {w env}, inv w env → running w → inv w env.leave
  pushFrame : ∀ {w env} function, inv w env → inv (inner w) (env.pushFrame function)
  running_inner : ∀ w, running (inner w)
  held_inner : ∀ {w p}, held w p → held (inner w) p
  popFrame : ∀ {w w' env}, grows (inner w) w' → inv w' env →
    ∃ v, grows w v ∧ inv v env.popFrame

namespace Provenance

variable (P : Provenance W)

/-- An argument may be passed on. -/
def given (w : W) : Argument → Prop
  | .value _ => True
  | .reference p => P.held w p

/-- What a task needs: a call on arguments that are ready starts a frame of its own. -/
def Ready (w : W) : Task → Prop
  | .invoke _ args => ∀ arg ∈ args, P.given w arg
  | _ => P.running w

/-- The places that a task yields may be held. -/
def Yields (w : W) : (t : Task) → t.Result → Prop
  | .place _, p => P.held w p
  | .argument .., arg => P.given w arg
  | .arguments .., args => ∀ arg ∈ args, P.given w arg
  | _, _ => True

/-- The environment is as it has to be, and was so at every moment before. -/
structure Kept (w : W) (x : Recorded σ) : Prop where
  env : P.inv w x.machine.env
  history : ∀ km ∈ x.history, ∃ v, P.inv v km.2.env

variable {P} {w : W}

/-- A move to an environment that is as it has to be keeps what is kept. -/
theorem Kept.move {w' : W} {x : Recorded σ} {m : Machine σ} (hx : P.Kept w x)
    (hm : P.inv w' m.env) (k : Moment) : P.Kept w' (x.move m k) :=
  ⟨hm, List.forall_mem_cons.mpr ⟨⟨w', hm⟩, hx.history⟩⟩

/-- An argument may still be passed on when the world has grown. -/
theorem given_mono {w' : W} {arg : Argument} (h : P.grows w w') (harg : P.given w arg) :
    P.given w' arg := by
  cases arg with
  | value v => exact trivial
  | reference p => exact P.held_mono h harg

/-- An argument of the caller may be passed on in the callee's frame. -/
theorem given_inner {arg : Argument} (harg : P.given w arg) : P.given (P.inner w) arg := by
  cases arg with
  | value v => exact trivial
  | reference p => exact P.held_inner harg

variable (P) in
/-- The discipline of a provenance. Any error may be raised. -/
def discipline : Discipline σ W where
  grows := P.grows
  inv := P.Kept
  ready := P.Ready
  yields := P.Yields
  allowed _ := True
  grows_refl := P.grows_refl
  grows_trans := P.grows_trans
  begun h _ := h.move h.env _
  ended h _ := h.move h.env _
  failed h henv _ := h.move (henv ▸ h.env) _

/-! ## Questions, effects and enclosures -/

variable {α : Type} {ctx : Context σ} {p : Place}

/-- A computation on values gets hold of no place. -/
theorem lift (r : Except RuntimeError α) :
    P.discipline.Ensures ctx w (Script.lift r) fun _ a => r = .ok a :=
  .lift fun _ _ => trivial

/-- What is read is no place. -/
theorem query (q : Query α) : P.discipline.Ensures ctx w (Script.query q) fun _ _ => True :=
  .query (fun _ _ _ _ => trivial) fun _ _ _ _ => trivial

/-- The place of a name that is in sight may be held. -/
theorem query_lookup (hw : P.running w) (name : String) :
    P.discipline.Ensures ctx w (Script.query (.lookup name)) P.held :=
  .query (fun _ _ hx h => P.lookup hx.env hw h) fun _ _ _ _ => trivial

/-- An element of a place that is held may be held. -/
theorem query_element (hp : P.held w p) (i : Int64) :
    P.discipline.Ensures ctx w (Script.query (.element p i)) P.held := by
  refine .query (fun x q _ h => ?_) fun _ _ _ _ => trivial
  obtain ⟨step, rfl⟩ := Store.extend_of_element h
  exact P.extend step hp

/-- A member of a place that is held may be held. -/
theorem query_member (hp : P.held w p) (id : String) :
    P.discipline.Ensures ctx w (Script.query (.member p id)) P.held := by
  refine .query (fun x q _ h => ?_) fun _ _ _ _ => trivial
  obtain ⟨step, rfl⟩ := Store.extend_of_member h
  exact P.extend step hp

/-- A place that is held may be written to. -/
theorem write (hp : P.held w p) (v : Value) :
    P.discipline.Ensures ctx w (Script.effect (.write p v)) fun _ _ => True := by
  refine .effect ?_ fun _ _ _ _ => trivial
  rintro x m hx ⟨new, hnew, rfl⟩
  exact ⟨w, P.grows_refl w, hx.move (P.setCell hx.env hp hnew) _, trivial⟩

/-- A declaration makes new storage for its name. -/
theorem declare (hw : P.running w) (name : String) (T : ValueType) (v : Value) :
    P.discipline.Ensures ctx w (Script.effect (.declare name T v)) fun _ _ => True := by
  refine .effect ?_ fun _ _ _ _ => trivial
  rintro x m hx ⟨-, rfl⟩
  obtain ⟨w', hgrows, henv⟩ := P.bindNew name v hx.env hw
  exact ⟨w', hgrows, hx.move henv _, trivial⟩

/-- A reference binds its name to a place that is held. -/
theorem declareAlias (hw : P.running w) (name : String) (T : ValueType) (hp : P.held w p) :
    P.discipline.Ensures ctx w (Script.effect (.declareAlias name T p)) fun _ _ => True := by
  refine .effect ?_ fun _ _ _ _ => trivial
  rintro x m hx ⟨-, rfl⟩
  obtain ⟨w', hgrows, henv⟩ := P.bindAlias name hx.env hw hp
  exact ⟨w', hgrows, hx.move henv _, trivial⟩

/-- Output leaves the environment as it is. -/
theorem print (f : Primitive) (v : Value) :
    P.discipline.Ensures ctx w (Script.effect (.print f v)) fun _ _ => True := by
  refine .effect ?_ fun _ _ _ _ => trivial
  intro x m hx henv
  have henv : m.env = x.machine.env := henv
  exact ⟨w, P.grows_refl w, hx.move (henv ▸ hx.env) _, trivial⟩

/-- Counting the running calls leaves the environment as it is. -/
theorem checkDepth : P.discipline.Ensures ctx w (Script.effect .checkDepth) fun _ _ => True := by
  refine .effect ?_ fun _ _ _ _ => trivial
  rintro x m hx rfl
  exact ⟨w, P.grows_refl w, hx.move hx.env _, trivial⟩

variable {inner : Script α} {Q : W → α → Prop}

/-- A part in a scope of its own keeps to the provenance. -/
theorem inScope (hw : P.running w) (h : P.discipline.Ensures ctx w inner Q) :
    P.discipline.Ensures ctx w (Script.enclosed .scope inner) Q := by
  refine .enclosed (fun x hx => hx.move (P.enter hx.env hw) _) h fun w' y hgrows hy => ?_
  exact ⟨w', hgrows, hy.move (P.leave hy.env (P.running_mono hgrows hw)) _, fun _ => id⟩

/-- Noting a place in the source leaves the environment as it is. -/
theorem located (span : Span) (h : P.discipline.Ensures ctx w inner Q) :
    P.discipline.Ensures ctx w (Script.enclosed (.located span) inner) Q :=
  .enclosed (fun _ hx => hx.move hx.env _) h fun w' _ hgrows hy =>
    ⟨w', hgrows, hy.move hy.env _, fun _ => id⟩

/-- Places do not leave a frame. -/
theorem inFrame (function : String)
    (h : P.discipline.Ensures ctx (P.inner w) inner fun _ _ => True) :
    P.discipline.Ensures ctx w (Script.enclosed (.frame function) inner) fun _ _ => True := by
  refine .enclosed (fun x hx => hx.move (P.pushFrame function hx.env) _) h
    fun w' y hgrows hy => ?_
  obtain ⟨v, hv, henv⟩ := P.popFrame hgrows hy.env
  exact ⟨v, hv, hy.move henv _, fun _ => id⟩

/-! ## The tasks -/

/-- One script after another, where names may be looked up all the time. -/
theorem bind {β : Type} {R : W → α → Prop} {Q : W → β → Prop} {s : Script α} {f : α → Script β}
    (hw : P.running w) (hs : P.discipline.Ensures ctx w s R)
    (hf : ∀ w' a, P.grows w w' → P.running w' → R w' a → P.discipline.Ensures ctx w' (f a) Q) :
    P.discipline.Ensures ctx w (s >>= f) Q :=
  .bind hs fun w' a hgrows => hf w' a hgrows (P.running_mono hgrows hw)

/-- The value of an expression is turned into a result. -/
theorem evalThen (hw : P.running w) (e : Expr) (f : Value → Except RuntimeError α) :
    P.discipline.Ensures ctx w (do Script.lift (f (← Script.task (.eval e)))) fun _ _ => True :=
  .bind (.task hw) fun _ v _ _ => (lift (f v)).imp fun _ _ _ _ => trivial

/-- The values of two expressions are turned into a result. -/
theorem evalBoth (hw : P.running w) (e e' : Expr) (f : Value → Value → Except RuntimeError α) :
    P.discipline.Ensures ctx w (do
      let l ← Script.task (.eval e)
      let r ← Script.task (.eval e')
      Script.lift (f l r)) fun _ _ => True :=
  bind hw (.task hw) fun _ l _ hw _ => evalThen hw e' (f l)

/-- The value of an expression decides between two ways to go on. -/
theorem condition (hw : P.running w) (e : Expr) {s t : Script α}
    (hs : ∀ w', P.running w' → P.discipline.Ensures ctx w' s Q)
    (ht : ∀ w', P.running w' → P.discipline.Ensures ctx w' t Q) :
    P.discipline.Ensures ctx w
      (do if ← Script.lift (← Script.task (.eval e)).asBool then s else t) Q :=
  .condition hw (fun _ _ _ => trivial) (fun w' h => hs w' (P.running_mono h hw)) fun w' h =>
    ht w' (P.running_mono h hw)

/-- The value of an expression is turned into a truth value. -/
theorem truth (hw : P.running w) (e : Expr) :
    P.discipline.Ensures ctx w
      (do return Value.bool (← Script.lift (← Script.task (.eval e)).asBool)) fun _ _ => True :=
  .bind (.task hw) fun _ c _ _ => .bind (lift c.asBool) fun _ _ _ _ => .pure trivial

/-- The value that an assignment stores is got while its place is held. -/
theorem combined (op : Option ArithOp) (hp : P.held w p) (rhs : Value) :
    P.discipline.Ensures ctx w (Script.eval.combined op p rhs) fun w' _ => P.held w' p := by
  cases op with
  | none => exact .pure hp
  | some arith =>
    refine .bind (query _) fun _ held hgrows _ => ?_
    exact (lift _).imp fun _ _ hgrows' _ => P.held_mono hgrows' (P.held_mono hgrows hp)

/-- An expression writes to places that it has got hold of. -/
theorem eval (hw : P.running w) (e : Expr) :
    P.discipline.Ensures ctx w (Script.eval e) fun _ _ => True := by
  cases e with
  | literal lit => exact .pure trivial
  | name id => exact query _
  | binary op left right =>
    rcases op with op | op | ⟨⟨⟩⟩
    · exact evalBoth hw left right op.apply
    · exact evalBoth hw left right op.apply
    · -- The right operand of `&&` or `||` is evaluated in one of the two cases only.
      exact condition hw left (fun _ hw => truth hw right) fun _ _ => .pure trivial
    · exact condition hw left (fun _ _ => .pure trivial) fun _ hw => truth hw right
  | unary op operand => exact evalThen hw operand op.apply
  | assign op target value =>
    -- The place is got after the right side has run, and held until the write.
    refine bind hw (.task hw) fun _ rhs _ hw _ => bind hw (.task hw) fun _ p _ _ hp => ?_
    refine .bind (combined op hp rhs) fun _ new _ hp => ?_
    exact .bind (write hp new) fun _ _ _ _ => query _
  | step op fixity target =>
    refine bind hw (.task hw) fun _ p _ _ hp => .bind (query _) fun _ old hgrows _ => ?_
    refine .bind (lift _) fun _ new hgrows' _ => ?_
    refine .bind (write (P.held_mono hgrows' (P.held_mono hgrows hp)) new) fun _ _ _ _ => ?_
    cases fixity with
    | before => exact query _
    | after => exact .pure trivial
  | call callee span args => exact .task hw
  | index base subscript =>
    -- An element of storage is read from its place, one of a temporary from the value.
    refine .ite (fun _ => bind hw (.task hw) fun _ p _ _ _ => query _) fun _ => ?_
    refine bind hw (.task hw) fun _ v _ hw _ => bind hw (.task hw) fun _ i _ _ _ => ?_
    exact .bind (lift i.asInt) fun _ n _ _ => (lift (v.element n)).imp fun _ _ _ _ => trivial
  | field base id =>
    refine .ite (fun _ => bind hw (.task hw) fun _ p _ _ _ => query _) fun _ => ?_
    exact evalThen hw base (·.member id)

/-- An expression that names storage yields a place that may be held. -/
theorem place (hw : P.running w) (e : Expr) :
    P.discipline.Ensures ctx w (Script.place e) P.held := by
  cases e with
  | name id => exact query_lookup hw id
  | index base subscript =>
    refine bind hw (.task hw) fun _ p _ hw hp => bind hw (.task hw) fun _ i hgrows _ _ => ?_
    refine .bind (lift i.asInt) fun _ n hgrows' _ => ?_
    exact query_element (P.held_mono hgrows' (P.held_mono hgrows hp)) n
  | field base id => exact bind hw (.task hw) fun _ p _ _ hp => query_member hp id
  | _ => exact .fail trivial

/-- A call by name passes on the arguments that it has evaluated. -/
theorem call (hw : P.running w) (callee : String) (args : List Expr) :
    P.discipline.Ensures ctx w (Script.call ctx callee args) fun _ _ => True := by
  rw [Script.call]
  split
  · -- A primitive prints its argument; other functions are called on arguments that are ready.
    rename_i f _
    split
    · exact .bind (.task hw) fun _ v _ _ => .bind (print f v) fun _ _ _ _ => .pure trivial
    · exact .fail trivial
  · refine bind hw (lift _) fun _ entry _ hw _ => ?_
    refine .ite (fun _ => ?_) fun _ => .fail trivial
    exact .bind (.task hw) fun _ bound _ hbound => .task hbound

/-- The arguments of a call may all be passed on. -/
theorem arguments (hw : P.running w) (function : String) (params : List ParamSignature)
    (args : List Expr) :
    P.discipline.Ensures ctx w (Script.arguments function params args) fun w' bound =>
      ∀ arg ∈ bound, P.given w' arg := by
  rw [Script.arguments.eq_def]
  split
  · refine bind hw (.task hw) fun _ first _ hw hfirst => ?_
    refine bind hw (.task hw) fun _ rest hgrows _ hrest => .pure ?_
    exact List.forall_mem_cons.mpr ⟨given_mono hgrows hfirst, hrest⟩
  · exact .pure nofun

/-- An argument is a value, or a reference to a place that may be held. -/
theorem argument (hw : P.running w) (function : String) (param : ParamSignature) (arg : Expr) :
    P.discipline.Ensures ctx w (Script.argument function param arg) P.given := by
  refine .ite (fun _ => ?_) fun _ => .ite (fun _ => ?_) fun _ => .fail trivial
  · exact .bind (.task hw) fun _ v _ _ => .bind (lift _) fun _ _ _ _ => .pure trivial
  · refine bind hw (.task hw) fun _ target _ _ htarget => ?_
    refine .bind (query _) fun _ actual hgrows _ => ?_
    exact .ite (fun _ => .pure (P.held_mono hgrows htarget)) fun _ => .fail trivial

/-- Parameters are declared as names of new storage, or of the places that were passed. -/
theorem declareArguments (hw : P.running w) (params : List ParamSignature) (args : List Argument)
    (h : ∀ arg ∈ args, P.given w arg) :
    P.discipline.Ensures ctx w (Script.declareArguments params args) fun _ _ => True := by
  induction params generalizing w args with
  | nil => exact .pure trivial
  | cons param params ih =>
    cases args with
    | nil => exact .pure trivial
    | cons arg args =>
      rw [List.forall_mem_cons] at h
      -- The world grows with each parameter; the arguments that are left may still be passed.
      refine bind (R := fun _ _ => True) hw ?_ fun _ _ hgrows hw _ =>
        ih hw args fun a ha => given_mono hgrows (h.2 a ha)
      cases arg with
      | value v => exact declare hw param.name param.type v
      | reference q => exact declareAlias hw param.name param.type h.1

/-- A call on arguments that are ready needs nothing of the caller but the arguments. -/
theorem invoke (entry : FunctionEntry) (args : List Argument) (h : ∀ arg ∈ args, P.given w arg) :
    P.discipline.Ensures ctx w (Script.invoke ctx entry args) fun _ _ => True := by
  rw [Script.invoke]
  split
  · exact .fail trivial
  · rename_i body _
    refine .bind checkDepth fun w' _ hgrows _ => ?_
    -- The parameters are declared in the callee's frame already.
    have hinner : P.discipline.Ensures ctx (P.inner w') (do
        Script.declareArguments entry.signature.params args
        Script.task (.execAll body.statements)) fun _ _ => True := by
      refine bind (P.running_inner w') (declareArguments (P.running_inner w') _ args ?_)
        fun _ _ _ hw _ => .task hw
      exact fun arg harg => given_inner (given_mono hgrows (h arg harg))
    refine .bind (inFrame entry.signature.name hinner) fun _ flow _ _ => ?_
    exact (lift _).imp fun _ _ _ _ => trivial

/-- An initializer yields a value and no place. -/
theorem build (hw : P.running w) (init : Initializer) (T : ValueType) :
    P.discipline.Ensures ctx w (Script.build init T) fun _ _ => True := by
  cases init with
  | expr e => exact evalThen hw e (·.convert T)
  | list items span =>
    cases T with
    | array elem length =>
      refine .ite (fun _ => .fail trivial) fun _ => ?_
      exact .bind (.task hw) fun _ _ _ _ => .pure trivial
    | record name layout =>
      refine .ite (fun _ => .fail trivial) fun _ => ?_
      exact .bind (.task hw) fun _ _ _ _ => .pure trivial
    | _ =>
      match items with
      | [] => exact .pure trivial
      | [item] => exact .task hw
      | _ :: _ :: _ => exact .fail trivial

/-- The elements of an array are values. -/
theorem buildElems (hw : P.running w) (items : List Initializer) (T : ValueType) :
    P.discipline.Ensures ctx w (Script.buildElems items T) fun _ _ => True := by
  cases items with
  | nil => exact .pure trivial
  | cons item rest =>
    exact bind hw (.task hw) fun _ _ _ hw _ => .bind (.task hw) fun _ _ _ _ => .pure trivial

/-- The fields of a record are values. -/
theorem buildFields (hw : P.running w) (items : List Initializer) (layout : Layout) :
    P.discipline.Ensures ctx w (Script.buildFields items layout) fun _ _ => True := by
  rw [Script.buildFields.eq_def]
  split
  · exact bind hw (.task hw) fun _ _ _ hw _ => .bind (.task hw) fun _ _ _ _ => .pure trivial
  · exact .pure trivial

/-- A variable is a name of new storage, or of a place that its initializer names. -/
theorem declareVar (hw : P.running w) (decl : VarDecl) :
    P.discipline.Ensures ctx w (Script.declareVar ctx decl) fun _ _ => True := by
  refine bind hw (lift _) fun _ T _ hw _ => .ite (fun _ => ?_) fun _ => ?_
  · -- A reference needs an initializer that names storage.
    split
    · refine .ite (fun _ => ?_) fun _ => .fail trivial
      refine bind hw (.task hw) fun _ p _ hw hp => bind hw (query _) fun _ actual hgrows hw _ => ?_
      refine .ite (fun _ => ?_) fun _ => .fail trivial
      exact declareAlias hw decl.name T (P.held_mono hgrows hp)
    · exact .fail trivial
  · split
    · exact bind hw (.task hw) fun _ v _ hw _ => declare hw decl.name T v
    · exact declare hw decl.name T T.zero

/-- Variables are declared in order. -/
theorem declareVars (hw : P.running w) (decls : List VarDecl) :
    P.discipline.Ensures ctx w (Script.declareVars decls) fun _ _ => True := by
  cases decls with
  | nil => exact .pure trivial
  | cons decl rest => exact bind hw (located _ (.task hw)) fun _ _ _ hw _ => .task hw

/-- A statement keeps to the provenance in every branch, each of which has a scope of its own. -/
theorem exec (hw : P.running w) (s : Statement) :
    P.discipline.Ensures ctx w (Script.exec s) fun _ _ => True := by
  refine located _ ?_
  cases s with
  | declare decls => exact .bind (.task hw) fun _ _ _ _ => .pure trivial
  | expr e => exact .bind (.task hw) fun _ _ _ _ => .pure trivial
  | ifThen cond thenBranch =>
    exact condition hw cond (fun _ hw => inScope hw (.task hw)) fun _ _ => .pure trivial
  | ifElse cond thenBranch elseBranch =>
    exact condition hw cond (fun _ hw => inScope hw (.task hw)) fun _ hw => inScope hw (.task hw)
  | loop cond body => exact .task hw
  | ret value =>
    cases value with
    | none => exact .pure trivial
    | some e => exact .bind (.task hw) fun _ _ _ _ => .pure trivial
  | block body => exact inScope hw (.task hw)
  | empty => exact .pure trivial

/-- One round of a loop keeps to the provenance. -/
theorem repeatWhile (hw : P.running w) (cond : Expr) (body : Statement) :
    P.discipline.Ensures ctx w (Script.repeatWhile cond body) fun _ _ => True := by
  refine condition hw cond (fun _ hw => ?_) fun _ _ => .pure trivial
  refine bind hw (inScope hw (.task hw)) fun _ flow _ hw _ => ?_
  cases flow with
  | normal => exact .task hw
  | returned v => exact .pure trivial

/-- Statements keep to the provenance in order. -/
theorem execAll (hw : P.running w) (ss : List Statement) :
    P.discipline.Ensures ctx w (Script.execAll ss) fun _ _ => True := by
  cases ss with
  | nil => exact .pure trivial
  | cons s rest =>
    refine bind hw (.task hw) fun _ flow _ hw _ => ?_
    cases flow with
    | normal => exact .task hw
    | returned v => exact .pure trivial

/-- Every task keeps to the provenance up to the tasks that it hands on. -/
theorem script (t : Task) (w : W) (h : P.Ready w t) :
    P.discipline.Ensures ctx w (t.script ctx) fun w' r => P.Yields w' t r := by
  cases t with
  | eval e => exact eval h e
  | place e => exact place h e
  | call callee args => exact call h callee args
  | arguments function params args => exact arguments h function params args
  | argument function param arg => exact argument h function param arg
  | invoke entry args => exact invoke entry args h
  | build init T => exact build h init T
  | buildElems items T => exact buildElems h items T
  | buildFields items layout => exact buildFields h items layout
  | declareVar decl => exact declareVar h decl
  | declareVars decls => exact declareVars h decls
  | exec s => exact exec h s
  | repeatWhile cond body => exact repeatWhile h cond body
  | execAll ss => exact execAll h ss

/-! ## Runs -/

variable (P) (ctx) in
/-- Every task keeps to the provenance. -/
theorem obeyed_record (fuel : Nat) : P.discipline.Obeyed (Task.record ctx fuel) :=
  Discipline.obeyed_record script fuel

variable (ctx) in
/-- A task, run from a state that is as it has to be, ends in such a state. -/
theorem inv_run {m : Machine σ} {t : Task} (hm : P.inv w m.env) (ht : P.Ready w t) (fuel : Nat) :
    ∃ w', P.grows w w' ∧ P.inv w' (finalState (t.run ctx fuel m)).env := by
  have hends := P.obeyed_record ctx fuel t w ⟨m, []⟩ ⟨hm, nofun⟩ ht
  obtain ⟨w', hgrows, hkept⟩ := Discipline.inv_finalState hends
  have henv := hkept.env
  rw [machine_finalState, Task.forget_record] at henv
  exact ⟨w', hgrows, henv⟩

/-- A program declares its globals and calls its entry function, which has no arguments. -/
theorem program (hw : P.running w) (prog : Program) :
    P.discipline.Ensures ctx w (prog.script ctx) fun _ _ => True := by
  refine .bind (.task hw) fun _ _ _ _ => .bind (lift _) fun _ entry _ _ => ?_
  refine .ite (fun _ => ?_) fun _ => .fail trivial
  refine .bind (.task nofun) fun _ v _ _ => ?_
  cases v with
  | void => exact .pure trivial
  | _ => exact (lift _).imp fun _ _ _ _ => trivial

/-- Every state of a program's run is as it has to be, if the empty environment is. -/
theorem inv_of_reaches {prog : Program} {options : RunOptions} {sink : Sink σ} {fuel : Nat} {s : σ}
    {m : Machine σ} (hstart : P.inv w Environment.empty) (hw : P.running w)
    (hm : prog.Reaches options sink fuel s m) : ∃ v, P.inv v m.env := by
  obtain ⟨k, hm⟩ := hm
  rw [Program.history] at hm
  split at hm
  · cases hm
  · -- The state stands in the history of a run that starts with the empty environment.
    rename_i ctx _
    have hprogram : P.discipline.Ensures ctx w (prog.script ctx) fun _ _ => True := program hw prog
    have hends := hprogram _ (P.obeyed_record ctx fuel) (Recorded.start s) ⟨hstart, nofun⟩
    obtain ⟨_, -, hkept⟩ := Discipline.inv_finalState hends
    exact hkept.history (k, m) hm

end Provenance

end SmallCpp
