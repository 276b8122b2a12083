import SmallCpp.Proofs.Lockstep
import SmallCpp.Proofs.Ownership

/-!
# A call does not see its callers

Names are looked up in the latest frame and among the globals. So what a call does depends on the
global names, on what is stored, on the sink and on how many calls are running, but not on the names
that its callers have: between two machines that differ only in these, every call has the same
outcome (`alike_invoke_of_agree`). `Environment.atop` puts frames of callers under those that an
environment has, and every operation of the environment commutes with it.
-/

namespace SmallCpp

variable {σ : Type}

namespace Environment

/-- The environment with the frames of callers below its own. -/
def atop (env : Environment) (callers : List Frame) : Environment :=
  { env with frames := env.frames ++ callers }

section

variable {env : Environment} (h : env.frames ≠ []) (callers : List Frame)
include h

/-- The callers' frames are not searched for names. -/
theorem visibleScopes_atop : (env.atop callers).visibleScopes = env.visibleScopes := by
  obtain ⟨frame, frames, hframes⟩ := List.exists_cons_of_ne_nil h
  simp only [visibleScopes, atop, hframes, List.cons_append]

/-- Whether a name is declared in the innermost scope does not depend on the callers. -/
theorem declares_atop (name : String) : (env.atop callers).declares name = env.declares name := by
  obtain ⟨⟨function, scopes⟩, frames, hframes⟩ := List.exists_cons_of_ne_nil h
  cases scopes <;> simp only [declares, currentScope, atop, hframes, List.cons_append]

/-- A name is bound in the latest frame. -/
theorem bind_atop (name : String) (b : Binding) :
    (env.atop callers).bind name b = (env.bind name b).atop callers := by
  obtain ⟨⟨function, scopes⟩, frames, hframes⟩ := List.exists_cons_of_ne_nil h
  cases scopes <;> simp only [bind, atop, hframes, List.cons_append]

/-- A name with a new cell is bound in the latest frame. -/
theorem bindNew_atop (name : String) (v : Value) :
    (env.atop callers).bindNew name v = (env.bindNew name v).atop callers :=
  have hstore : ({ env with store := (env.store.alloc v).2 } : Environment).frames ≠ [] := h
  bind_atop hstore callers name _

/-- A block is entered in the latest frame. -/
theorem enter_atop : (env.atop callers).enter = env.enter.atop callers := by
  obtain ⟨frame, frames, hframes⟩ := List.exists_cons_of_ne_nil h
  simp only [enter, atop, hframes, List.cons_append]

/-- A block is left in the latest frame. -/
theorem leave_atop : (env.atop callers).leave = env.leave.atop callers := by
  obtain ⟨⟨function, scopes⟩, frames, hframes⟩ := List.exists_cons_of_ne_nil h
  rcases scopes with _ | ⟨scope, _ | _⟩ <;>
    simp only [leave, atop, hframes, List.cons_append]

/-- The frame that ends is the latest. -/
theorem popFrame_atop : (env.atop callers).popFrame = env.popFrame.atop callers := by
  obtain ⟨frame, frames, hframes⟩ := List.exists_cons_of_ne_nil h
  simp only [popFrame, atop, hframes, List.cons_append, List.tail_cons]

/-- A name means the same whatever the callers are. -/
theorem lookup_atop (name : String) : (env.atop callers).lookup name = env.lookup name := by
  simp only [lookup, binding, visibleScopes_atop h]

/-- Questions are answered the same whatever the callers are. -/
theorem answer_atop {α : Type} (q : Query α) : q.answer (env.atop callers) = q.answer env := by
  cases q with
  | get id =>
    change (env.atop callers).lookup id >>= env.store.read = _
    rw [lookup_atop h]
    rfl
  | lookup id => exact lookup_atop h callers id
  | _ => rfl

end

/-- To enter a block starts no call. -/
theorem length_frames_enter (env : Environment) :
    env.enter.frames.length = env.frames.length :=
  congrArg Outline.depth env.outline_enter

/-- To leave a block ends no call. -/
theorem length_frames_leave (env : Environment) :
    env.leave.frames.length = env.frames.length :=
  congrArg Outline.depth env.outline_leave

end Environment

namespace Machine

/-- The machine with the frames of callers below its own. -/
def atop (m : Machine σ) (callers : List Frame) : Machine σ :=
  { m with env := m.env.atop callers }

/-- Two machines that differ at most in the frames of the callers. Above these stand the same `n`
frames. -/
def AgreeAbove (callers callers' : List Frame) (n : Nat) (m m' : Machine σ) : Prop :=
  ∃ core : Machine σ, core.env.frames.length = n ∧ m = core.atop callers ∧ m' = core.atop callers'

/-- Two machines that have stored the same, with the same global names, the same state of the sink
and equally many running calls. What the running calls have declared may differ. -/
structure Agree (m m' : Machine σ) : Prop where
  store : m.env.store = m'.env.store
  globals : m.env.globals = m'.env.globals
  sink : m.sink = m'.sink
  depth : m.env.depth = m'.env.depth

end Machine

namespace Machine.AgreeAbove

variable {callers callers' : List Frame} {n : Nat} {m m' : Machine σ}

/-- The number of running calls is all that is asked about the callers. -/
theorem checkDepth (ctx : Context σ) (hcallers : callers.length = callers'.length)
    (h : AgreeAbove callers callers' n m m') :
    Alike (AgreeAbove callers callers' n) (Effect.checkDepth.run ctx m)
      (Effect.checkDepth.run ctx m') := by
  have hdepth : m.env.depth = m'.env.depth := by
    obtain ⟨core, -, rfl, rfl⟩ := h
    simp only [Environment.depth, atop, Environment.atop, List.length_append, hcallers]
  rw [Effect.run_checkDepth, Effect.run_checkDepth, hdepth]
  cases ctx.options.maxCallDepth with
  | none => exact .ok h
  | some limit =>
    dsimp only
    split_ifs
    · exact .error rfl h
    · exact .ok h

/-- A call that starts puts the same frame on both sides. -/
theorem pushFrame (function : String) (h : AgreeAbove callers callers' n m m') :
    AgreeAbove callers callers' (n + 1) ((Enclosure.frame function).enter m)
      ((Enclosure.frame function).enter m') := by
  obtain ⟨core, hcore, rfl, rfl⟩ := h
  exact ⟨(Enclosure.frame function).enter core, congrArg (· + 1) hcore, rfl, rfl⟩

/-- A call that ends takes the frame from both sides. As there is one above the callers, it is not
theirs. -/
theorem popFrame (function : String) (h : AgreeAbove callers callers' (n + 1) m m') :
    AgreeAbove callers callers' n ((Enclosure.frame function).leave m)
      ((Enclosure.frame function).leave m') := by
  obtain ⟨core, hcore, rfl, rfl⟩ := h
  have hne : core.env.frames ≠ [] := List.ne_nil_of_length_eq_add_one hcore
  refine ⟨(Enclosure.frame function).leave core, ?_, ?_, ?_⟩
  · exact List.length_tail.trans (by rw [hcore]; rfl)
  · simp only [Enclosure.leave, Machine.atop, Environment.popFrame_atop hne]
  · simp only [Enclosure.leave, Machine.atop, Environment.popFrame_atop hne]

/-- A declaration fails or succeeds on both sides, if what it makes of the environment does not
depend on the callers. -/
theorem declaring {name : String} {g : Environment → Environment}
    (hg : ∀ (env : Environment) (callers : List Frame), env.frames ≠ [] →
      g (env.atop callers) = (g env).atop callers)
    (hlength : ∀ env : Environment, (g env).frames.length = env.frames.length)
    (h : AgreeAbove callers callers' (n + 1) m m') :
    Alike (AgreeAbove callers callers' (n + 1)) (Exec.declaring name g m)
      (Exec.declaring name g m') := by
  obtain ⟨core, hcore, rfl, rfl⟩ := h
  have hne : core.env.frames ≠ [] := List.ne_nil_of_length_eq_add_one hcore
  have hdeclares := Environment.declares_atop hne
  rw [Effect.declaring_apply, Effect.declaring_apply]
  simp only [atop, hdeclares]
  split_ifs
  · exact .error rfl ⟨core, hcore, rfl, rfl⟩
  · rw [hg core.env callers hne, hg core.env callers' hne]
    exact .ok ⟨{ core with env := g core.env }, (hlength _).trans hcore, rfl, rfl⟩

/-- An effect has alike outcomes above equally many callers. -/
theorem effect (ctx : Context σ) (hcallers : callers.length = callers'.length) (f : Effect)
    (h : AgreeAbove callers callers' (n + 1) m m') :
    Alike (AgreeAbove callers callers' (n + 1)) (f.run ctx m) (f.run ctx m') := by
  cases f with
  | write p v =>
    obtain ⟨core, hcore, rfl, rfl⟩ := h
    rw [Effect.run_write, Effect.run_write]
    simp only [atop, Environment.atop]
    cases core.env.store.updated p v with
    | error e => exact .error rfl ⟨core, hcore, rfl, rfl⟩
    | ok held => exact .ok ⟨{ core with env := core.env.setCell p.cell held }, hcore, rfl, rfl⟩
  | declare name T v =>
    exact h.declaring (fun _ callers hne => Environment.bindNew_atop hne callers name v)
      fun env => Environment.length_frames_bind _ name _
  | declareAlias name T p =>
    exact h.declaring (fun _ callers hne => Environment.bind_atop hne callers name _)
      fun env => env.length_frames_bind name _
  | print p arg =>
    obtain ⟨core, hcore, rfl, rfl⟩ := h
    rw [Effect.run_print_apply, Effect.run_print_apply]
    simp only [atop]
    cases p.invoke ctx.sink arg core.sink with
    | ok _ s => exact .ok ⟨{ core with sink := s }, hcore, rfl, rfl⟩
    | error e s => exact .error rfl ⟨{ core with sink := s }, hcore, rfl, rfl⟩
  | checkDepth => exact h.checkDepth ctx hcallers

end Machine.AgreeAbove

/-- Runs above equally many callers go in step. The world is the number of frames above those of
the callers, less one. -/
def aboveCallers (ctx : Context σ) {callers callers' : List Frame}
    (hcallers : callers.length = callers'.length) : Lockstep ctx ctx Nat where
  rel n := Machine.AgreeAbove callers callers' (n + 1)
  stop := Eq
  inner
    | .frame _, n => n + 1
    | _, n => n
  stop_refl _ := rfl
  stop_mark k _ _ := congrArg k.mark
  answer_eq q := by
    rintro ⟨core, hcore, rfl, rfl⟩
    have hne : core.env.frames ≠ [] := List.ne_nil_of_length_eq_add_one hcore
    exact (Environment.answer_atop hne callers q).trans
      (Environment.answer_atop hne callers' q).symm
  effect f h := h.effect ctx hcallers f
  enter k h := by
    cases k with
    | scope =>
      -- The block is entered in the latest frame, which stands above the callers.
      obtain ⟨core, hcore, rfl, rfl⟩ := h
      have hne : core.env.frames ≠ [] := List.ne_nil_of_length_eq_add_one hcore
      refine ⟨Enclosure.scope.enter core, (core.env.length_frames_enter).trans hcore, ?_, ?_⟩
      · simp only [Enclosure.enter, Machine.atop, Environment.enter_atop hne]
      · simp only [Enclosure.enter, Machine.atop, Environment.enter_atop hne]
    | frame function => exact h.pushFrame function
    | located span => exact h
  leave k h := by
    cases k with
    | scope =>
      obtain ⟨core, hcore, rfl, rfl⟩ := h
      have hne : core.env.frames ≠ [] := List.ne_nil_of_length_eq_add_one hcore
      refine ⟨Enclosure.scope.leave core, (core.env.length_frames_leave).trans hcore, ?_, ?_⟩
      · simp only [Enclosure.leave, Machine.atop, Environment.leave_atop hne]
      · simp only [Enclosure.leave, Machine.atop, Environment.leave_atop hne]
    | frame function => exact h.popFrame function
    | located span => exact h

/-- A call sees nothing of its callers. From two machines that agree on storage, global names, sink
and the number of running calls, a call of any function with any arguments yields the same result or
stops by the same fault at the same place in the source, and leaves the same storage, global names
and sink behind it. -/
theorem alike_invoke_of_agree (ctx : Context σ) (fuel : Nat) (entry : FunctionEntry)
    (args : List Argument) {m m' : Machine σ} (h : m.Agree m') :
    Alike (fun n n' => n.Agree n' ∧ n.env.frames = m.env.frames ∧ n'.env.frames = m'.env.frames)
      (Exec.invoke ctx fuel entry args m) (Exec.invoke ctx fuel entry args m') := by
  obtain ⟨⟨store, globals, callers⟩, s⟩ := m
  obtain ⟨⟨_, _, callers'⟩, _⟩ := m'
  obtain ⟨rfl, rfl, rfl, hcallers⟩ := h
  have hstart : Machine.AgreeAbove callers callers' 0
      ⟨⟨store, globals, callers⟩, s⟩ ⟨⟨store, globals, callers'⟩, s⟩ :=
    ⟨⟨⟨store, globals, []⟩, s⟩, rfl, rfl, rfl⟩
  suffices hrun : Alike (Machine.AgreeAbove callers callers' 0)
      ((Task.invoke entry args).run ctx fuel ⟨⟨store, globals, callers⟩, s⟩)
      ((Task.invoke entry args).run ctx fuel ⟨⟨store, globals, callers'⟩, s⟩) by
    refine hrun.mono ?_
    rintro _ _ ⟨core, hcore, rfl, rfl⟩
    have hframes : core.env.frames = [] := List.length_eq_zero_iff.mp hcore
    refine ⟨⟨rfl, rfl, rfl, ?_⟩, ?_, ?_⟩ <;>
      simp only [Machine.atop, Environment.atop, Environment.depth, hframes, List.nil_append]
    exact hcallers
  cases fuel with
  | zero =>
    rw [Task.run_zero]
    exact .error rfl hstart
  | succ fuel =>
    rw [Task.run_succ, Task.script, Script.invoke]
    split
    · exact .error rfl hstart
    · -- Before and after the call's own frame, only the number of callers matters.
      simp only [Script.run_bind, Script.run_effect, Script.run_enclosed, Script.run_lift]
      refine .bind (hstart.checkDepth ctx hcallers) fun _ n n' hn => ?_
      refine .bind (.around ?_ (fun _ _ => congrArg _) fun _ _ => .popFrame _)
        fun flow n n' hn => ?_
      · rw [← Script.run_bind]
        exact Lockstep.alike_script _ ((aboveCallers ctx hcallers).keeps fuel) _ (hn.pushFrame _)
      · cases entry.signature.finish ctx.options.entry flow with
        | ok v => exact .ok hn
        | error e => exact .error rfl hn

/-- The function `int peek() { return secret; }`. -/
def peek : FunctionEntry :=
  ⟨⟨"peek", [], .int, ⟨0, 0⟩⟩, some ⟨[.ret (some (.name "secret" ⟨0, 0⟩)) ⟨0, 0⟩], ⟨0, 0⟩⟩⟩

/-- The function `int outer() { int secret = 1; return peek(); }`. -/
def outer : FunctionEntry :=
  ⟨⟨"outer", [], .int, ⟨0, 0⟩⟩, some ⟨[
    .declare [⟨"secret", .int, false, some (.expr (.literal (.int 1) ⟨0, 0⟩)), ⟨0, 0⟩⟩] ⟨0, 0⟩,
    .ret (some (.call "peek" ⟨0, 0⟩ [] ⟨0, 0⟩)) ⟨0, 0⟩], ⟨0, 0⟩⟩⟩

/-- A machine in a call of a function with the given local names; one cell has been made. -/
def inCall (function : String) (names : Scope) : Machine (Array Event) :=
  ⟨⟨⟨#[.int 4]⟩, [], [⟨function, [names]⟩]⟩, #[]⟩

/-- Neither the variable of a caller nor that of a caller's caller is found in `peek`. -/
theorem alike_invoke_outer :
    let ctx : Context (Array Event) := ⟨TypeTable.empty, ⟨[peek, outer]⟩, {}, Sink.recording⟩
    let m := inCall "main" [("secret", ⟨⟨0, []⟩, .owned⟩)]
    let m' := inCall "other" []
    m.Agree m' ∧
      Alike (fun n n' => n.Agree n' ∧ n.env.frames = m.env.frames ∧ n'.env.frames = m'.env.frames)
        (Exec.invoke ctx 20 outer [] m) (Exec.invoke ctx 20 outer [] m') ∧
      ∃ n, Exec.invoke ctx 20 outer [] m =
        .error (.fault (.unknownIdentifier "secret") (some ⟨0, 0⟩)) n := by
  intro ctx m m'
  have hagree : m.Agree m' := ⟨rfl, rfl, rfl, rfl⟩
  exact ⟨hagree, alike_invoke_of_agree ctx 20 outer [] hagree, _, rfl⟩

end SmallCpp
