import SmallCpp.Proofs.Discipline
import SmallCpp.Proofs.Typing.Declarations
import SmallCpp.Proofs.Typing.Environment

/-!
# Every task keeps the types

`typing` is the discipline under which the environment agrees with the declarations at every moment
of a run. The world is the row of the types of the cells. What a task yields is of the type that
belongs to it: an expression yields a sound value, an expression that names storage a place with a
type, an initializer a value of the type that it is for, and a call a value of its declared result
type.
-/

namespace SmallCpp

variable {σ : Type}

/-- An argument fits its parameter. -/
def Argument.Fits (types : List ValueType) (p : ParamSignature) : Argument → Prop
  | .value v => v.HasType p.type
  | .reference place => place.HasType types p.type

/-- An argument still fits when cells have been added. -/
theorem Argument.Fits.mono {types types' : List ValueType} {p : ParamSignature} {arg : Argument}
    (h : arg.Fits types p) (hpre : types <+: types') : arg.Fits types' p := by
  cases arg with
  | value v => exact h
  | reference place => exact Place.HasType.mono h hpre

namespace Task

/-- What a task needs to keep the types. -/
def Ready (types : List ValueType) : Task → Prop
  | invoke entry args =>
    entry.Holds ∧ ∀ pa ∈ entry.signature.params.zip args, pa.2.Fits types pa.1
  | build _ T | buildElems _ T => T.Storable
  | buildFields _ layout => ∀ f ∈ layout, f.2.Storable
  | declareVar decl => decl.Holds
  | declareVars decls => ∀ decl ∈ decls, decl.Holds
  | exec s | repeatWhile _ s => s.EachDecl VarDecl.Holds
  | execAll ss => Statement.EachDeclIn VarDecl.Holds ss
  | eval _ | place _ | call .. | arguments .. | argument .. => True

/-- What a task yields is of the type that belongs to it. -/
def Yields (types : List ValueType) : (t : Task) → t.Result → Prop
  | eval _, v | call .., v => v.Sound
  | place _, p => ∃ T, p.HasType types T
  | arguments _ params _, args => ∀ pa ∈ params.zip args, pa.2.Fits types pa.1
  | argument _ p _, arg => arg.Fits types p
  | invoke entry _, v => v.Returned entry.signature.returns
  | build _ T, v => v.HasType T
  | buildElems items T, vs => vs.length = items.length ∧ ∀ v ∈ vs, v.HasType T
  | buildFields _ layout, vs => List.Forall₂ (fun v f => v.HasType f.2) vs layout
  | declareVar _, _ | declareVars _, _ => True
  | exec _, flow | repeatWhile .., flow | execAll _, flow => flow.Sound

end Task

/-- What a moment of a well-typed run may be. -/
def Moment.Sound (types : List ValueType) : Moment → Prop
  | .ended t r => t.Yields types r
  | .failed stop => stop.Is (·.isLost = false)
  | _ => True

/-- At every moment of a history the environment agrees with the declarations made by then. -/
def History.Sound : History σ → Prop
  | [] => True
  | (k, m) :: past =>
    m.env.Typed (declared ((k, m) :: past)) ∧ k.Sound (declared ((k, m) :: past)).cells ∧
      Sound past

/-- A run that has kept the types so far. -/
structure Recorded.Sound (x : Recorded σ) : Prop where
  /-- The environment agrees with the declarations. -/
  env : x.machine.env.Typed x.history.declared
  /-- So it did at every moment before. -/
  history : x.history.Sound

/-- A move to an environment that agrees with the declarations keeps the run sound. -/
theorem Recorded.Sound.move {x : Recorded σ} {m : Machine σ} {k : Moment} (hx : x.Sound)
    (hm : m.env.Typed (k.declare x.history.declared))
    (hk : k.Sound (k.declare x.history.declared).cells) : (x.move m k).Sound :=
  ⟨hm, hm, hk, hx.history⟩

/-- The discipline of types. -/
def typing : Discipline σ (List ValueType) where
  grows types types' := types <+: types'
  inv types x := x.history.declared.cells = types ∧ x.Sound
  ready types t := t.Ready types
  yields types t r := t.Yields types r
  allowed e := e.isLost = false
  grows_refl := List.prefix_refl
  grows_trans := List.IsPrefix.trans
  begun h _ := ⟨h.1, h.2.move h.2.env trivial⟩
  ended h hyields := ⟨h.1, h.2.move h.2.env (h.1 ▸ hyields)⟩
  failed h henv he := ⟨h.1, h.2.move (henv ▸ h.2.env) he⟩

namespace typing

variable {ctx : Context σ} {types : List ValueType}

/-! ## Questions, effects and enclosures -/

/-- Ordinary errors are allowed. -/
theorem lift {α : Type} {r : Except RuntimeError α} (h : Ordinary r) :
    typing.Ensures ctx types (Script.lift r) fun _ a => r = .ok a :=
  .lift h.neverLost

/-- The value of a name is sound. -/
theorem get (id : String) :
    typing.Ensures ctx types (Script.query (.get id)) fun _ v => v.Sound :=
  .query (fun _ v hx h => (hx.2.env.get id).2 v h) fun _ e hx h => (hx.2.env.get id).1 e h

/-- The place of a name has a type. -/
theorem lookup (id : String) :
    typing.Ensures ctx types (Script.query (.lookup id)) fun types p => ∃ T, p.HasType types T :=
  .query (fun _ p hx h => hx.1 ▸ (hx.2.env.lookup id).2 p h) fun _ e hx h =>
    (hx.2.env.lookup id).1 e h

variable {p : Place} {T : ValueType}

/-- What is read at a place has the place's type. -/
theorem read (hp : p.HasType types T) :
    typing.Ensures ctx types (Script.query (.read p)) fun _ v => v.HasType T :=
  .query (fun _ _ hx h => hx.2.env.store.hasType_of_read (hx.1 ▸ hp) h) fun _ e hx h =>
    hx.2.env.store.neverLost_read (hx.1 ▸ hp) e h

/-- The type that is found at a place is the place's. -/
theorem typeAt (hp : p.HasType types T) :
    typing.Ensures ctx types (Script.query (.typeAt p)) fun types' U => p.HasType types' U :=
  .query
    (fun _ U hx h => by
      have hT : .ok T = Except.ok U := (hx.2.env.store.typeAt (hx.1 ▸ hp)).symm.trans h
      cases hT
      exact hp)
    fun _ e hx h => by
      have hT := (hx.2.env.store.typeAt (hx.1 ▸ hp)).symm.trans h
      cases hT

/-- An element of a place has a type. -/
theorem element (hp : p.HasType types T) (i : Int64) :
    typing.Ensures ctx types (Script.query (.element p i))
      fun types q => ∃ U, q.HasType types U :=
  .query (fun _ q hx h => hx.1 ▸ (hx.2.env.store.element (hx.1 ▸ hp)).2 q h) fun _ e hx h =>
    (hx.2.env.store.element (hx.1 ▸ hp)).1 e h

/-- A member of a place has a type. -/
theorem member (hp : p.HasType types T) (id : String) :
    typing.Ensures ctx types (Script.query (.member p id))
      fun types q => ∃ U, q.HasType types U :=
  .query (fun _ q hx h => hx.1 ▸ (hx.2.env.store.member (hx.1 ▸ hp)).2 q h) fun _ e hx h =>
    (hx.2.env.store.member (hx.1 ▸ hp)).1 e h

/-- A write converts the value to the place's type and adds no cell. -/
theorem write {v : Value} (hp : p.HasType types T) (hv : v.Sound) :
    typing.Ensures ctx types (Script.effect (.write p v)) fun types' _ => types' = types := by
  refine .effect ?_ fun x e hx h => (hx.2.env.store.updated (hx.1 ▸ hp) hv).1 e h
  rintro x m ⟨rfl, hx⟩ ⟨held, hheld, rfl⟩
  have hset := (hx.env.store.updated hp hv).2 held hheld
  exact ⟨_, List.prefix_refl _, ⟨rfl, hx.move (hx.env.setCell hset) trivial⟩, rfl⟩

/-- A declaration adds a cell of the declared type. -/
theorem declare {v : Value} (name : String) (hv : v.HasType T) :
    typing.Ensures ctx types (Script.effect (.declare name T v)) fun _ _ => True := by
  refine .effect ?_ fun x e _ h => by rw [h]; rfl
  rintro x m ⟨rfl, hx⟩ ⟨-, rfl⟩
  exact ⟨_, (Moment.changed (.declare name T v)).cells_declare _,
    ⟨rfl, hx.move (hx.env.bindNew name hv) trivial⟩, trivial⟩

/-- A reference binds its name to a place of the declared type and adds no cell. -/
theorem declareAlias (name : String) (hp : p.HasType types T) :
    typing.Ensures ctx types (Script.effect (.declareAlias name T p)) fun _ _ => True := by
  refine .effect ?_ fun x e _ h => by rw [h]; rfl
  rintro x m ⟨rfl, hx⟩ ⟨-, rfl⟩
  exact ⟨_, (Moment.changed (.declareAlias name T p)).cells_declare _,
    ⟨rfl, hx.move (hx.env.bind name hp) trivial⟩, trivial⟩

/-- Output does nothing to cells. -/
theorem print (p : Primitive) (arg : Value) :
    typing.Ensures ctx types (Script.effect (.print p arg)) fun _ _ => True := by
  refine .effect ?_ ?_
  · rintro x m ⟨rfl, hx⟩ henv
    have henv : m.env = x.machine.env := henv
    exact ⟨_, List.prefix_refl _, ⟨rfl, hx.move (henv ▸ hx.env) trivial⟩, trivial⟩
  · -- Besides a wrong argument, the sink may refuse the output; neither follows a path.
    rintro x e - (h | ⟨reason, rfl⟩)
    · exact (p.ordinary_event arg).neverLost e h
    · rfl

/-- Counting the running calls does nothing to cells. -/
theorem checkDepth : typing.Ensures ctx types (Script.effect .checkDepth) fun _ _ => True := by
  refine .effect ?_ ?_
  · rintro x m ⟨rfl, hx⟩ rfl
    exact ⟨_, List.prefix_refl _, ⟨rfl, hx.move hx.env trivial⟩, trivial⟩
  · rintro x e - ⟨limit, rfl⟩
    rfl

/-- Entering and leaving scopes and frames does nothing to cells. -/
theorem enclosed {α : Type} {Q : List ValueType → α → Prop} {inner : Script α} (k : Enclosure)
    (h : typing.Ensures ctx types inner Q) :
    typing.Ensures ctx types (Script.enclosed k inner) Q := by
  refine .enclosed ?_ h ?_
  · rintro x ⟨rfl, hx⟩
    cases k with
    | scope => exact ⟨Declared.cells_enter _, hx.move hx.env.enter trivial⟩
    | frame f => exact ⟨rfl, hx.move (hx.env.pushFrame f) trivial⟩
    | located span => exact ⟨rfl, hx.move hx.env trivial⟩
  · rintro types' y hgrows ⟨rfl, hy⟩
    refine ⟨_, hgrows, ?_, fun _ => id⟩
    cases k with
    | scope => exact ⟨Declared.cells_leave _, hy.move hy.env.leave trivial⟩
    | frame f => exact ⟨rfl, hy.move hy.env.popFrame trivial⟩
    | located span => exact ⟨rfl, hy.move hy.env trivial⟩

/-! ## The tasks -/

/-- The value of an expression decides between two ways to go on. -/
theorem condition {α : Type} {Q : List ValueType → α → Prop} (e : Expr) {s t : Script α}
    (hs : ∀ types', types <+: types' → typing.Ensures ctx types' s Q)
    (ht : ∀ types', types <+: types' → typing.Ensures ctx types' t Q) :
    typing.Ensures ctx types
      (do if ← Script.lift (← Script.task (.eval e)).asBool then s else t) Q :=
  .condition trivial (fun v => v.ordinary_asBool.neverLost) hs ht

/-- The value of an expression, as a truth value. -/
theorem truth (e : Expr) :
    typing.Ensures ctx types
      (do return Value.bool (← Script.lift (← Script.task (.eval e)).asBool)) fun _ v =>
        v.Sound :=
  .bind (.task trivial) fun _ c _ _ => .bind (lift c.ordinary_asBool) fun _ b _ _ =>
    .pure (Value.sound_bool b)

/-- The value that an assignment stores is sound, and its place keeps its type meanwhile. -/
theorem combined {p : Place} {T : ValueType} {rhs : Value} (op : Option ArithOp)
    (hp : p.HasType types T) (hrhs : rhs.Sound) :
    typing.Ensures ctx types (Script.eval.combined op p rhs) fun types' v =>
      p.HasType types' T ∧ v.Sound := by
  cases op with
  | none => exact .pure ⟨hp, hrhs⟩
  | some arith =>
    refine .bind (read hp) fun _ held hgrows _ => ?_
    exact (lift (arith.ordinary_apply held rhs)).imp fun _ v hgrows' h =>
      ⟨hp.mono (hgrows.trans hgrows'), arith.sound_of_apply h⟩

/-- An expression yields a sound value. -/
theorem eval (e : Expr) :
    typing.Ensures ctx types (Script.eval e) fun _ v => v.Sound := by
  cases e with
  | literal lit => cases lit <;> exact .pure (.inr ⟨_, by constructor⟩)
  | name id => exact get id
  | binary op left right =>
    rcases op with op | op | ⟨⟨⟩⟩
    · refine .bind (.task trivial) fun _ l _ _ => .bind (.task trivial) fun _ r _ _ => ?_
      exact (lift (op.ordinary_apply l r)).imp fun _ _ _ => op.sound_of_apply
    · refine .bind (.task trivial) fun _ l _ _ => .bind (.task trivial) fun _ r _ _ => ?_
      exact (lift (op.ordinary_apply l r)).imp fun _ _ _ => op.sound_of_apply
    · -- `&&` and `||` yield truth values whether or not the right operand is evaluated.
      exact condition left (fun _ _ => truth right) fun _ _ => .pure (Value.sound_bool _)
    · exact condition left (fun _ _ => .pure (Value.sound_bool _)) fun _ _ => truth right
  | unary op operand =>
    refine .bind (.task trivial) fun _ v _ _ => ?_
    exact (lift (op.ordinary_apply v)).imp fun _ _ _ => op.sound_of_apply
  | assign op target value =>
    refine .bind (.task trivial) fun _ rhs _ hrhs => ?_
    refine .bind (.task trivial) fun _ p _ ⟨T, hp⟩ => ?_
    refine .bind (combined op hp hrhs) fun _ new _ ⟨hp, hnew⟩ => ?_
    refine .bind (write hp hnew) fun _ _ _ h => ?_
    subst h
    exact (read hp).imp fun _ _ _ hv => hv.sound
  | step op fixity target =>
    -- Nothing from here to the write adds a cell; the rules do not tell, so `hp` is carried along.
    refine .bind (.task trivial) fun _ p _ ⟨T, hp⟩ => ?_
    refine .bind (read hp) fun _ old hgrows hold => ?_
    refine .bind (lift (op.arith.ordinary_apply old (.int 1))) fun _ new hgrows' hnew => ?_
    refine .bind (write (hp.mono (hgrows.trans hgrows')) (ArithOp.sound_of_apply hnew))
      fun _ _ _ h => ?_
    subst h
    cases fixity with
    | before => exact (read (hp.mono (hgrows.trans hgrows'))).imp fun _ _ _ hv => hv.sound
    | after => exact .pure hold.sound
  | call callee span args => exact .task trivial
  | index base subscript =>
    refine .ite (fun _ => ?_) fun _ => ?_
    · -- An element of storage is read from its place, one of a temporary from the value.
      refine .bind (.task trivial) fun _ p _ ⟨T, hp⟩ => ?_
      exact (read hp).imp fun _ _ _ hv => hv.sound
    · refine .bind (.task trivial) fun _ v _ hv => .bind (.task trivial) fun _ i _ _ => ?_
      refine .bind (lift i.ordinary_asInt) fun _ n _ _ => ?_
      exact (lift (v.ordinary_element n)).imp fun _ _ _ h => Value.sound_of_element hv h
  | field base id =>
    refine .ite (fun _ => ?_) fun _ => ?_
    · refine .bind (.task trivial) fun _ p _ ⟨T, hp⟩ => ?_
      exact (read hp).imp fun _ _ _ hv => hv.sound
    · refine .bind (.task trivial) fun _ v _ hv => ?_
      exact (lift (v.ordinary_member id)).imp fun _ _ _ h => Value.sound_of_member hv h

/-- An expression that names storage yields a place with a type. -/
theorem place (e : Expr) :
    typing.Ensures ctx types (Script.place e) fun types p => ∃ T, p.HasType types T := by
  cases e with
  | name id => exact lookup id
  | index base subscript =>
    refine .bind (.task trivial) fun _ p _ ⟨T, hp⟩ => .bind (.task trivial) fun _ i hgrows _ => ?_
    refine .bind (lift i.ordinary_asInt) fun _ n hgrows' _ => ?_
    exact element (hp.mono (hgrows.trans hgrows')) n
  | field base id =>
    exact .bind (.task trivial) fun _ p _ ⟨T, hp⟩ => member hp id
  | _ => exact .fail rfl

/-- The functions that may be called have bodies without `void` variables. -/
def Callable (ctx : Context σ) : Prop :=
  ∀ name entry, ctx.functions.get name = .ok entry → entry.Holds

/-- A call by name yields a sound value. -/
theorem call (hctx : Callable ctx) (callee : String) (args : List Expr) :
    typing.Ensures ctx types (Script.call ctx callee args) fun _ v => v.Sound := by
  rw [Script.call]
  split
  · -- A primitive yields nothing, which is sound; a function yields what it declares.
    rename_i p _
    split
    · exact .bind (.task trivial) fun _ v _ _ => .bind (print p v) fun _ _ _ _ => .pure (.inl rfl)
    · exact .fail rfl
  · refine .bind (lift (ctx.functions.ordinary_get callee)) fun _ entry _ hentry => ?_
    refine .ite (fun _ => ?_) fun _ => .fail rfl
    refine .bind (.task trivial) fun _ bound _ hbound => ?_
    exact .imp (.task ⟨hctx callee entry hentry, hbound⟩) fun _ _ _ hv => hv.sound

/-- Each argument fits its parameter. There may be fewer arguments than parameters. -/
theorem arguments (function : String) (params : List ParamSignature) (args : List Expr) :
    typing.Ensures ctx types (Script.arguments function params args) fun types bound =>
      ∀ pa ∈ params.zip bound, pa.2.Fits types pa.1 := by
  rw [Script.arguments.eq_def]
  split
  · refine .bind (.task trivial) fun _ first _ hfirst => ?_
    refine .bind (.task trivial) fun _ rest hgrows hrest => .pure ?_
    rw [List.zip_cons_cons]
    exact List.forall_mem_cons.mpr ⟨hfirst.mono hgrows, hrest⟩
  · refine .pure ?_
    rw [List.zip_nil_right]
    nofun

/-- A value is converted to the parameter's type; a reference has to be of that type. -/
theorem argument (function : String) (p : ParamSignature) (arg : Expr) :
    typing.Ensures ctx types (Script.argument function p arg) fun types a => a.Fits types p := by
  refine .ite (fun _ => ?_) fun _ => .ite (fun _ => ?_) fun _ => .fail rfl
  · refine .bind (.task trivial) fun _ v _ hv => ?_
    exact .bind (lift (v.ordinary_convert p.type)) fun _ w _ hw =>
      .pure (Value.hasType_of_convert hv hw)
  · refine .bind (.task trivial) fun _ target _ ⟨T, htarget⟩ => ?_
    refine .bind (typeAt htarget) fun _ actual _ hactual => ?_
    refine .ite (fun heq => .pure ?_) fun _ => .fail rfl
    rw [heq] at hactual
    exact hactual

/-- Parameters are declared with arguments that fit. -/
theorem declareArguments (params : List ParamSignature) (args : List Argument)
    (h : ∀ pa ∈ params.zip args, pa.2.Fits types pa.1) :
    typing.Ensures ctx types (Script.declareArguments params args) fun _ _ => True := by
  induction params generalizing types args with
  | nil => exact .pure trivial
  | cons p ps ih =>
    cases args with
    | nil => exact .pure trivial
    | cons arg args =>
      rw [List.zip_cons_cons, List.forall_mem_cons] at h
      refine .bind (P := fun _ _ => True) ?_ fun _ _ hgrows _ =>
        ih args fun pa hpa => (h.2 pa hpa).mono hgrows
      cases arg with
      | value v => exact declare p.name h.1
      | reference place => exact declareAlias p.name h.1

/-- A call yields what its result type asks for. -/
theorem invoke {entry : FunctionEntry} {args : List Argument} (hentry : entry.Holds)
    (hargs : ∀ pa ∈ entry.signature.params.zip args, pa.2.Fits types pa.1) :
    typing.Ensures ctx types (Script.invoke ctx entry args) fun _ v =>
      v.Returned entry.signature.returns := by
  rw [Script.invoke]
  split
  · exact .fail rfl
  · rename_i body hbody
    refine .bind checkDepth fun _ _ hgrows _ => ?_
    -- The parameters are declared inside the frame, with cells that may have been added since.
    refine .bind (enclosed _ (.bind (declareArguments _ _ fun pa hpa => (hargs pa hpa).mono hgrows)
      fun _ _ _ _ => .task (hentry body hbody))) fun _ flow _ hflow => ?_
    exact (lift (entry.signature.ordinary_finish _ flow)).imp fun _ _ _ h =>
      Signature.returned_of_finish hflow h

/-- A list of initializers for a place without parts. -/
theorem scalar {T : ValueType} (hT : T.Storable) (items : List Initializer) :
    typing.Ensures ctx types
      (match items with
      | [] => pure T.zero
      | [item] => Script.task (.build item T)
      | _ => Script.fail (.typeMismatch (.tooManyInitializers items.length T)))
      fun _ v => v.HasType T := by
  match items with
  | [] => exact .pure hT.zero_hasType
  | [item] => exact .task hT
  | _ :: _ :: _ => exact .fail rfl

/-- An initializer yields a value of the type that it is for. -/
theorem build {T : ValueType} (hT : T.Storable) (init : Initializer) :
    typing.Ensures ctx types (Script.build init T) fun _ v => v.HasType T := by
  cases init with
  | expr e =>
    refine .bind (.task trivial) fun _ v _ hv => ?_
    exact (lift (v.ordinary_convert T)).imp fun _ _ _ h => Value.hasType_of_convert hv h
  | list items span =>
    -- A list fills an array or a record from the front; anything else takes at most one item.
    cases hT with
    | @array elem length hpos helem =>
      refine .ite (fun _ => .fail rfl) fun hfit => ?_
      refine .bind (.task helem) fun _ values _ hvalues => .pure ?_
      obtain ⟨hlength, hall⟩ := hvalues
      refine .array ?_ hpos fun v hv => ?_
      · rw [List.length_append, List.length_replicate, hlength]
        omega
      · rcases List.mem_append.mp hv with hv | hv
        · exact hall v hv
        · rw [List.eq_of_mem_replicate hv]
          exact helem.zero_hasType
    | @record name layout hfields =>
      refine .ite (fun _ => .fail rfl) fun _ => ?_
      refine .bind (.task hfields) fun _ values _ hvalues => .pure ?_
      refine .record hvalues.length_eq fun i v f hv hf => ?_
      -- Values and fields are paired up by their positions.
      obtain ⟨hi, rfl⟩ := List.getElem?_eq_some_iff.mp hv
      obtain ⟨hj, rfl⟩ := List.getElem?_eq_some_iff.mp hf
      exact (List.forall₂_iff_get.mp hvalues).2 i hi hj
    | int => exact scalar .int items
    | bool => exact scalar .bool items
    | char => exact scalar .char items

/-- There is one element for each initializer, of the element type. -/
theorem buildElems {T : ValueType} (hT : T.Storable) (items : List Initializer) :
    typing.Ensures ctx types (Script.buildElems items T) fun _ vs =>
      vs.length = items.length ∧ ∀ v ∈ vs, v.HasType T := by
  cases items with
  | nil => exact .pure ⟨rfl, nofun⟩
  | cons item rest =>
    refine .bind (.task hT) fun _ v _ hv => .bind (.task hT) fun _ vs _ hvs => .pure ?_
    obtain ⟨hlength, hall⟩ := hvs
    exact ⟨by rw [List.length_cons, List.length_cons, hlength],
      List.forall_mem_cons.mpr ⟨hv, hall⟩⟩

/-- There is one value for each field of the record: initializers that are missing are filled up
with zeros. -/
theorem buildFields {layout : Layout} (hlayout : ∀ f ∈ layout, f.2.Storable)
    (items : List Initializer) :
    typing.Ensures ctx types (Script.buildFields items layout) fun _ vs =>
      List.Forall₂ (fun v f => v.HasType f.2) vs layout := by
  rw [Script.buildFields.eq_def]
  split
  · rw [List.forall_mem_cons] at hlayout
    refine .bind (.task hlayout.1) fun _ v _ hv => .bind (.task hlayout.2) fun _ vs _ hvs => ?_
    exact .pure (.cons hv hvs)
  · refine .pure ?_
    rw [ValueType.zeros_eq_map, List.forall₂_map_left_iff, List.forall₂_same]
    exact fun f hf => (hlayout f hf).zero_hasType

/-- A variable is declared with its resolved type. -/
theorem declareVar (htypes : ctx.types.Storable) {decl : VarDecl} (hdecl : decl.Holds) :
    typing.Ensures ctx types (Script.declareVar ctx decl) fun _ _ => True := by
  refine .bind (.lift (ctx.types.declares_resolve _ decl.type).neverLost) fun _ T _ hT => ?_
  -- The declaration is not of type `void`, so that its type is one of variables.
  have hstorable : T.Storable := htypes.resolve hT (TypeTable.resolve_ne_void hT hdecl)
  refine .ite (fun _ => ?_) fun _ => ?_
  · -- A reference takes over the type of the place that it is bound to, which is the declared one.
    split
    · refine .ite (fun _ => ?_) fun _ => .fail rfl
      refine .bind (.task trivial) fun _ p _ ⟨U, hp⟩ => ?_
      refine .bind (typeAt hp) fun _ actual _ hactual => ?_
      exact .ite (fun heq => declareAlias decl.name (heq ▸ hactual)) fun _ => .fail rfl
    · exact .fail rfl
  · split
    · exact .bind (.task hstorable) fun _ v _ hv => declare decl.name hv
    · exact declare decl.name hstorable.zero_hasType

/-- Variables are declared in order. -/
theorem declareVars {decls : List VarDecl} (h : ∀ decl ∈ decls, decl.Holds) :
    typing.Ensures ctx types (Script.declareVars decls) fun _ _ => True := by
  cases decls with
  | nil => exact .pure trivial
  | cons decl rest =>
    rw [List.forall_mem_cons] at h
    exact .bind (enclosed _ (.task h.1)) fun _ _ _ _ => .task h.2

/-- A statement ends normally or returns a sound value. -/
theorem exec {s : Statement} (h : s.EachDecl VarDecl.Holds) :
    typing.Ensures ctx types (Script.exec s) fun _ flow => flow.Sound := by
  refine enclosed _ ?_
  cases s with
  | declare decls => exact .bind (.task h) fun _ _ _ _ => .pure trivial
  | expr e => exact .bind (.task trivial) fun _ _ _ _ => .pure trivial
  | ifThen cond thenBranch =>
    exact condition cond (fun _ _ => enclosed _ (.task h)) fun _ _ => .pure trivial
  | ifElse cond thenBranch elseBranch =>
    exact condition cond (fun _ _ => enclosed _ (.task h.1)) fun _ _ => enclosed _ (.task h.2)
  | loop cond body => exact .task h
  | ret value =>
    cases value with
    | none => exact .pure (.inl rfl)
    | some e => exact .bind (.task trivial) fun _ v _ hv => .pure hv
  | block body => exact enclosed _ (.task h)
  | empty => exact .pure trivial

/-- One round of a loop ends normally or returns a sound value. -/
theorem repeatWhile {body : Statement} (h : body.EachDecl VarDecl.Holds) (cond : Expr) :
    typing.Ensures ctx types (Script.repeatWhile cond body) fun _ flow => flow.Sound := by
  refine condition cond (fun _ _ => ?_) fun _ _ => .pure trivial
  refine .bind (enclosed _ (.task h)) fun _ flow _ hflow => ?_
  cases flow with
  | normal => exact .task h
  | returned v => exact .pure hflow

/-- Statements end normally or return a sound value. -/
theorem execAll {ss : List Statement} (h : Statement.EachDeclIn VarDecl.Holds ss) :
    typing.Ensures ctx types (Script.execAll ss) fun _ flow => flow.Sound := by
  cases ss with
  | nil => exact .pure trivial
  | cons s rest =>
    refine .bind (.task h.1) fun _ flow _ hflow => ?_
    cases flow with
    | normal => exact .task h.2
    | returned v => exact .pure hflow

/-- Every task keeps the types, if the tables hold nothing that is declared `void`. -/
theorem script (htypes : ctx.types.Storable) (hctx : Callable ctx) (t : Task)
    (types : List ValueType) (h : t.Ready types) :
    typing.Ensures ctx types (t.script ctx) fun types' r => t.Yields types' r := by
  cases t with
  | eval e => exact eval e
  | place e => exact place e
  | call callee args => exact call hctx callee args
  | arguments function params args => exact arguments function params args
  | argument function p arg => exact argument function p arg
  | invoke entry args => exact invoke h.1 h.2
  | build init T => exact build h init
  | buildElems items T => exact buildElems h items
  | buildFields items layout => exact buildFields h items
  | declareVar decl => exact declareVar htypes h
  | declareVars decls => exact declareVars h
  | exec s => exact exec h
  | repeatWhile cond body => exact repeatWhile h cond
  | execAll ss => exact execAll h

end typing

end SmallCpp
