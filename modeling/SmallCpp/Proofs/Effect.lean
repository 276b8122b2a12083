import SmallCpp.Proofs.Script.Run

/-!
# What an effect does

`Effect.Changes` says what an effect that succeeds makes of the machine, and `Effect.Refuses` why
one fails. A failed effect leaves the environment as it was: a write converts before it stores, and
a declaration looks for the name before it takes storage.
-/

namespace SmallCpp

variable {σ : Type}

/-- A write changes one cell, or fails and changes nothing. -/
theorem Exec.write_apply (p : Place) (v : Value) (m : Machine σ) :
    write p v m =
      match m.env.store.updated p v with
      | .ok held => .ok () { m with env := m.env.setCell p.cell held }
      | .error e => .error (.fault e none) m := by
  simp only [write, bind, EStateM.bind, ask]
  cases m.env.store.updated p v <;> rfl

namespace Effect

/-- What an effect that succeeds makes of the machine. -/
def Changes : Effect → Machine σ → Machine σ → Prop
  | write p v, m, m' =>
    ∃ held, m.env.store.updated p v = .ok held ∧ m' = { m with env := m.env.setCell p.cell held }
  | declare name _ v, m, m' =>
    m.env.declares name = false ∧ m' = { m with env := m.env.bindNew name v }
  | declareAlias name _ p, m, m' =>
    m.env.declares name = false ∧ m' = { m with env := m.env.bind name ⟨p, .alias⟩ }
  | print _ _, m, m' => m'.env = m.env
  | checkDepth, m, m' => m' = m

/-- Why an effect fails. -/
def Refuses : Effect → Environment → RuntimeError → Prop
  | write p v, env, e => env.store.updated p v = .error e
  | declare name _ _, _, e | declareAlias name _ _, _, e => e = .duplicateDeclaration name
  | print p arg, _, e => p.event arg = .error e ∨ ∃ reason, e = .output reason
  | checkDepth, _, e => ∃ limit, e = .callDepthExceeded limit

/-- Whether an effect hands an event to the sink. -/
def prints : Effect → Bool
  | print _ _ => true
  | _ => false

/-- What an effect other than printing makes of the environment, under a limit on the calls. -/
def onEnv (limit : Option Nat) : Effect → Environment → Except RuntimeError Environment
  | write p v, env => env.write p v
  | declare name _ v, env => env.declare name v
  | declareAlias name _ p, env => env.declareAlias name p
  | print _ _, env => .ok env
  | checkDepth, env =>
    match limit with
    | some n => if n ≤ env.depth then .error (.callDepthExceeded n) else .ok env
    | none => .ok env

variable {ctx : Context σ} {f : Effect} {m m' : Machine σ}

/-- The effect of a write is the write. -/
theorem run_write (p : Place) (v : Value) :
    (write p v).run ctx m =
      match m.env.store.updated p v with
      | .ok held => .ok () { m with env := m.env.setCell p.cell held }
      | .error e => .error (.fault e none) m :=
  Exec.write_apply p v m

/-- A declaration changes the environment unless the current scope has the name already. -/
theorem declaring_apply (name : String) (g : Environment → Environment) :
    Exec.declaring name g m =
      if m.env.declares name then .error (.fault (.duplicateDeclaration name) none) m
      else .ok () { m with env := g m.env } := by
  change (if m.env.declares name then Exec.fail (.duplicateDeclaration name) else Exec.change g) m =
    _
  split_ifs <;> rfl

/-- To print changes the sink only, also if it fails. -/
theorem run_print_apply (p : Primitive) (arg : Value) :
    (print p arg).run ctx m =
      match p.invoke ctx.sink arg m.sink with
      | .ok _ s => .ok () { m with sink := s }
      | .error e s => .error (.fault e none) { m with sink := s } := by
  simp only [run, bind, EStateM.bind, Exec.primitive]
  cases p.invoke ctx.sink arg m.sink <;> rfl

/-- The check of the depth changes nothing. -/
theorem run_checkDepth :
    checkDepth.run ctx m =
      match ctx.options.maxCallDepth with
      | some limit =>
        if limit ≤ m.env.depth then .error (.fault (.callDepthExceeded limit) none) m else .ok () m
      | none => .ok () m := by
  change Exec.checkDepth ctx.options m.env.depth m = _
  rw [Exec.checkDepth]
  cases ctx.options.maxCallDepth with
  | none => rfl
  | some limit =>
    dsimp only
    split_ifs <;> rfl

/-- An effect other than printing leaves the sink alone and does not depend on it. -/
theorem run_silent (hf : f.prints = false) :
    f.run ctx m =
      match f.onEnv ctx.options.maxCallDepth m.env with
      | .ok env => .ok () { m with env }
      | .error e => .error (.fault e none) m := by
  cases f with
  | write p v =>
    rw [run_write, onEnv, Environment.write]
    cases m.env.store.updated p v <;> rfl
  | declare name T v =>
    change Exec.declaring name _ m = _
    rw [declaring_apply, onEnv, Environment.declare]
    split_ifs <;> rfl
  | declareAlias name T p =>
    change Exec.declaring name _ m = _
    rw [declaring_apply, onEnv, Environment.declareAlias]
    split_ifs <;> rfl
  | print p arg => cases hf
  | checkDepth =>
    rw [run_checkDepth]
    cases ctx.options.maxCallDepth with
    | none => rfl
    | some n =>
      simp only [onEnv]
      split_ifs <;> rfl

/-- An effect that succeeds changes the machine as it says. -/
theorem changes_of_run (h : f.run ctx m = .ok () m') : f.Changes m m' := by
  cases f with
  | write p v =>
    rw [run_write] at h
    cases hheld : m.env.store.updated p v with
    | ok held => rw [hheld] at h; cases h; exact ⟨held, hheld, rfl⟩
    | error e => rw [hheld] at h; cases h
  | declare name T v | declareAlias name T p =>
    change Exec.declaring name _ m = _ at h
    rw [declaring_apply] at h
    split_ifs at h with hnew
    cases h
    exact ⟨Bool.eq_false_iff.mpr hnew, rfl⟩
  | print p arg =>
    rw [run_print_apply] at h
    cases hp : p.invoke ctx.sink arg m.sink <;> rw [hp] at h <;> cases h
    rfl
  | checkDepth =>
    rw [run_checkDepth] at h
    split at h
    · split_ifs at h
      cases h
      rfl
    · cases h
      rfl

/-- An effect that fails leaves the environment as it was. -/
theorem refuses_of_run {stop : Stop} (h : f.run ctx m = .error stop m') :
    m'.env = m.env ∧ ∃ e, stop = .fault e none ∧ f.Refuses m.env e := by
  -- Only printing may fail after a change, and then it is the sink that has changed.
  cases f with
  | write p v =>
    rw [run_write] at h
    cases hheld : m.env.store.updated p v with
    | ok held => rw [hheld] at h; cases h
    | error e => rw [hheld] at h; cases h; exact ⟨rfl, e, rfl, hheld⟩
  | declare name T v | declareAlias name T p =>
    change Exec.declaring name _ m = _ at h
    rw [declaring_apply] at h
    split_ifs at h with hnew
    cases h
    exact ⟨rfl, _, rfl, rfl⟩
  | print p arg =>
    rw [run_print_apply, Primitive.invoke] at h
    cases hevent : p.event arg with
    | error e => rw [hevent] at h; cases h; exact ⟨rfl, e, rfl, .inl hevent⟩
    | ok event =>
      rw [hevent] at h
      dsimp only at h
      cases hemit : ctx.sink.emit event m.sink with
      | ok _ s => rw [hemit] at h; cases h
      | error reason s => rw [hemit] at h; cases h; exact ⟨rfl, _, rfl, .inr ⟨reason, rfl⟩⟩
  | checkDepth =>
    rw [run_checkDepth] at h
    split at h
    · rename_i limit _
      split_ifs at h
      cases h
      exact ⟨rfl, _, rfl, limit, rfl⟩
    · cases h

end Effect

end SmallCpp
