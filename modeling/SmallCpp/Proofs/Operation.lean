import SmallCpp.Proofs.Environment

/-!
# Sequences of operations

An environment is worked with by declaring names, by looking names up, by going from a place to its
parts, by reading and writing at places, and by entering and leaving blocks and calls. `Operation`
has one constructor for each of these, and `Environment.afterAll` is the environment after a
sequence of them. An operation that fails changes nothing, and the next one is made on the same
environment.
`Operation.Changes` says what an operation that succeeds makes of the environment.
-/

namespace SmallCpp

/-- What can be done with an environment and with places in its store. -/
inductive Operation
  | declare (name : String) (v : Value)
  | declareAlias (name : String) (p : Place)
  | assign (name : String) (v : Value)
  | lookup (name : String)
  | element (p : Place) (index : Int64)
  | member (p : Place) (id : String)
  | read (p : Place)
  | write (p : Place) (v : Value)
  | enter
  | leave
  | pushFrame (function : String)
  | popFrame
deriving Repr

namespace Operation

/-- The environment that the operation leads to; a question leaves it as it is. -/
def apply : Operation → Environment → Except RuntimeError Environment
  | declare name v, env => env.declare name v
  | declareAlias name p, env => env.declareAlias name p
  | assign name v, env => env.assign name v
  | lookup name, env => (env.lookup name).map fun _ => env
  | element p index, env => (env.store.element p index).map fun _ => env
  | member p id, env => (env.store.member p id).map fun _ => env
  | read p, env => (env.store.read p).map fun _ => env
  | write p v, env => env.write p v
  | enter, env => .ok env.enter
  | leave, env => .ok env.leave
  | pushFrame function, env => .ok (env.pushFrame function)
  | popFrame, env => .ok env.popFrame

/-- What an operation that succeeds makes of the environment. -/
def Changes : Operation → Environment → Environment → Prop
  | declare name v, env, env' => env.declares name = false ∧ env' = env.bindNew name v
  | declareAlias name p, env, env' =>
    env.declares name = false ∧ env' = env.bind name ⟨p, .alias⟩
  | assign name v, env, env' =>
    ∃ p held, env.lookup name = .ok p ∧ env.store.updated p v = .ok held ∧
      env' = env.setCell p.cell held
  | write p v, env, env' =>
    ∃ held, env.store.updated p v = .ok held ∧ env' = env.setCell p.cell held
  | lookup _, env, env' | element _ _, env, env' | member _ _, env, env' | read _, env, env' =>
    env' = env
  | enter, env, env' => env' = env.enter
  | leave, env, env' => env' = env.leave
  | pushFrame function, env, env' => env' = env.pushFrame function
  | popFrame, env, env' => env' = env.popFrame

variable {op : Operation} {env env' : Environment}

/-- An operation that succeeds changes what it says. -/
theorem changes_of_apply (h : op.apply env = .ok env') : op.Changes env env' := by
  cases op with
  | declare name v | declareAlias name p =>
    have h : (if env.declares name then _ else _) = _ := h
    split_ifs at h with hnew
    cases h
    exact ⟨Bool.eq_false_iff.mpr hnew, rfl⟩
  | assign name v =>
    obtain ⟨p, hp, h⟩ := Except.bind_eq_ok h
    obtain ⟨held, hheld, h⟩ := Except.map_eq_ok h
    exact ⟨p, held, hp, hheld, h.symm⟩
  | write p v =>
    obtain ⟨held, hheld, h⟩ := Except.map_eq_ok h
    exact ⟨held, hheld, h.symm⟩
  | lookup _ | element _ _ | member _ _ | read _ =>
    obtain ⟨_, -, h⟩ := Except.map_eq_ok h
    exact h.symm
  | enter | leave | pushFrame _ | popFrame => exact (Except.ok.inj h).symm

end Operation

namespace Environment

/-- The environment after an operation, which changes nothing if it fails. -/
def after (env : Environment) (op : Operation) : Environment :=
  match op.apply env with
  | .ok env' => env'
  | .error _ => env

/-- The environment after operations, one by one. -/
def afterAll (env : Environment) (ops : List Operation) : Environment :=
  ops.foldl after env

variable (env : Environment)

/-- No operations leave the environment as it is. -/
@[simp] theorem afterAll_nil : env.afterAll [] = env := rfl

/-- The first operation comes before the others. -/
@[simp] theorem afterAll_cons (op : Operation) (ops : List Operation) :
    env.afterAll (op :: ops) = (env.after op).afterAll ops := rfl

/-- Two sequences are one after the other. -/
@[simp] theorem afterAll_append (ops ops' : List Operation) :
    env.afterAll (ops ++ ops') = (env.afterAll ops).afterAll ops' :=
  List.foldl_append

/-- An operation fails and changes nothing, or it succeeds. -/
theorem after_cases (op : Operation) : env.after op = env ∨ op.Changes env (env.after op) := by
  unfold after
  cases h : op.apply env with
  | ok env' => exact .inr (Operation.changes_of_apply h)
  | error e => exact .inl rfl

/-- What every operation keeps, a sequence keeps. -/
theorem afterAll_invariant {P : Environment → Prop} {env : Environment} (ops : List Operation)
    (hstep : ∀ (env : Environment) (op : Operation), P env → P (env.after op)) (h : P env) :
    P (env.afterAll ops) := by
  induction ops generalizing env with
  | nil => exact h
  | cons op ops ih => exact ih (hstep env op h)

end Environment

end SmallCpp
