import SmallCpp.Proofs.Except
import SmallCpp.Proofs.Script.Run

/-!
# Histories

A recorded run keeps, beside the machine, everything that has happened so far, each time with the
machine as it was just after it. Recording makes no difference to the run: `Task.forget_record` and
`Program.forget_record` say that a recorded run without its history is the run itself. Every state
that a run passes through stands in its history, the states at which it fails and those inside calls
and blocks included. So a property of all states of a run is a property of its history.
-/

namespace SmallCpp

variable {σ τ α β : Type}

/-- Something that happens in a run. -/
inductive Moment
  /-- A task begins. -/
  | begun (t : Task)
  /-- A task ends with a result. -/
  | ended (t : Task) (r : t.Result)
  /-- The machine has changed by an effect. -/
  | changed (f : Effect)
  /-- An enclosure is entered. -/
  | opened (w : Enclosure)
  /-- An enclosure is left, after a result or a stop. -/
  | closed (w : Enclosure)
  /-- The run stops here; what follows is only the way out. -/
  | failed (stop : Stop)

/-- What has happened in a run, the latest first, with the machine just after it. -/
abbrev History (σ : Type) := List (Moment × Machine σ)

/-- A run in progress with its history. -/
structure Recorded (σ : Type) where
  /-- The machine as it is. -/
  machine : Machine σ
  /-- What has happened so far. -/
  history : History σ

namespace Recorded

/-- Goes on to a machine by what has just happened. -/
def move (x : Recorded σ) (m : Machine σ) (k : Moment) : Recorded σ :=
  ⟨m, (k, m) :: x.history⟩

/-- Notes what has just happened, which leaves the machine as it is. -/
def note (x : Recorded σ) (k : Moment) : Recorded σ :=
  x.move x.machine k

/-- After a move the machine is the new one. -/
@[simp] theorem machine_move (x : Recorded σ) (m : Machine σ) (k : Moment) :
    (x.move m k).machine = m := rfl

/-- A note leaves the machine as it is. -/
@[simp] theorem machine_note (x : Recorded σ) (k : Moment) :
    (x.note k).machine = x.machine := rfl

end Recorded

/-- Executing a part of a program while recording it. -/
abbrev Recording (σ : Type) := EStateM Stop (Recorded σ)

namespace Enclosure

/-- Enters an enclosure. -/
def enter : Enclosure → Machine σ → Machine σ
  | scope, m => { m with env := m.env.enter }
  | frame function, m => { m with env := m.env.pushFrame function }
  | located _, m => m

/-- Leaves an enclosure. -/
def leave : Enclosure → Machine σ → Machine σ
  | scope, m => { m with env := m.env.leave }
  | frame _, m => { m with env := m.env.popFrame }
  | located _, m => m

/-- What becomes of a stop on the way out of an enclosure. -/
def mark : Enclosure → Stop → Stop
  | located span, .fault e none => .fault e (some span)
  | _, stop => stop

/-- The place in the source that an enclosure stands for. -/
def span? : Enclosure → Option Span
  | located span => some span
  | _ => none

/-- On the way out of an enclosure an error stays what it is; it gets the place of the enclosure if
it has none yet. -/
theorem mark_fault (k : Enclosure) (e : RuntimeError) (span : Option Span) :
    k.mark (.fault e span) = .fault e (span.or k.span?) := by
  cases k <;> cases span <;> rfl

/-- To enter an enclosure prints nothing. -/
theorem sink_enter (k : Enclosure) (m : Machine σ) : (k.enter m).sink = m.sink := by
  cases k <;> rfl

/-- To leave an enclosure prints nothing. -/
theorem sink_leave (k : Enclosure) (m : Machine σ) : (k.leave m).sink = m.sink := by
  cases k <;> rfl

/-- What an enclosure makes of the environment does not depend on the sink. -/
theorem env_enter (k : Enclosure) {m : Machine σ} {m' : Machine τ} (h : m.env = m'.env) :
    (k.enter m).env = (k.enter m').env := by
  cases k <;> simp only [enter, h]

/-- What is left of the environment behind an enclosure does not depend on the sink. -/
theorem env_leave (k : Enclosure) {m : Machine σ} {m' : Machine τ} (h : m.env = m'.env) :
    (k.leave m).env = (k.leave m').env := by
  cases k <;> simp only [leave, h]

/-- A part inside an enclosure runs from the machine inside it, and leaves it in any case. -/
theorem around_apply (w : Enclosure) (x : Exec σ α) (m : Machine σ) :
    w.around x m =
      match x (w.enter m) with
      | .ok a m' => .ok a (w.leave m')
      | .error stop m' => .error (w.mark stop) (w.leave m') := by
  cases w with
  | scope =>
    simp only [around, Exec.inScope, Exec.afterwards, enter, leave, mark]
    cases x ⟨m.env.enter, m.sink⟩ <;> rfl
  | frame function =>
    simp only [around, Exec.inFrame, Exec.afterwards, enter, leave, mark]
    cases x ⟨m.env.pushFrame function, m.sink⟩ <;> rfl
  | located span =>
    simp only [around, Exec.locating, enter, leave]
    rcases x m with ⟨a, m'⟩ | ⟨⟨e, _ | s⟩ | _, m'⟩ <;> rfl

end Enclosure

/-- Runs a script and records it, given how to run and record the tasks that it hands on. -/
def Script.record (ctx : Context σ) (perform : (t : Task) → Recording σ t.Result) :
    {α : Type} → Script α → Recording σ α
  | _, .done a => pure a
  | _, .fail e => fun x => .error (.fault e none) (x.note (.failed (.fault e none)))
  | _, .ask q next => fun x =>
    -- A question that is answered leaves no trace.
    match q.answer x.machine.env with
    | .ok b => (next b).record ctx perform x
    | .error e => .error (.fault e none) (x.note (.failed (.fault e none)))
  | _, .act f next => fun x =>
    match f.run ctx x.machine with
    | .ok () m => next.record ctx perform (x.move m (.changed f))
    | .error stop m => .error stop (x.move m (.failed stop))
  | _, .perform t next => fun x =>
    -- The task notes by itself when it begins, ends and fails.
    match perform t x with
    | .ok r y => (next r).record ctx perform y
    | .error stop y => .error stop y
  | _, .within w inner next => fun x =>
    -- The enclosure is left after a result and after a stop.
    match inner.record ctx perform (x.move (w.enter x.machine) (.opened w)) with
    | .ok b y => (next b).record ctx perform (y.move (w.leave y.machine) (.closed w))
    | .error stop y => .error (w.mark stop) (y.move (w.leave y.machine) (.closed w))

/-- One recorded script after another. -/
theorem Script.record_bind (ctx : Context σ) (perform : (t : Task) → Recording σ t.Result)
    (s : Script α) (f : α → Script β) (x : Recorded σ) :
    (s >>= f).record ctx perform x =
      match s.record ctx perform x with
      | .ok a y => (f a).record ctx perform y
      | .error stop y => .error stop y := by
  induction s generalizing x with
  | done a => rfl
  | fail e => rfl
  | ask q next ih =>
    change (ask q fun b => next b >>= f).record ctx perform x = _
    simp only [record]
    cases q.answer x.machine.env with
    | ok b => exact ih b f x
    | error e => rfl
  | act g next ih =>
    change (act g (next >>= f)).record ctx perform x = _
    simp only [record]
    cases g.run ctx x.machine with
    | ok _ m => exact ih f _
    | error stop m => rfl
  | perform t next ih =>
    change (Script.perform t fun r => next r >>= f).record ctx perform x = _
    simp only [record]
    cases perform t x with
    | ok r y => exact ih r f y
    | error stop y => rfl
  | within w inner next _ ih =>
    change (within w inner fun b => next b >>= f).record ctx perform x = _
    simp only [record]
    cases inner.record ctx perform (x.move (w.enter x.machine) (.opened w)) with
    | ok b y => exact ih b f _
    | error stop y => rfl

/-- A task that is handed on is performed. -/
theorem Script.record_task (ctx : Context σ) (perform : (t : Task) → Recording σ t.Result)
    (t : Task) (x : Recorded σ) :
    Script.record ctx perform (α := no_index t.Result) (task t) x = perform t x := by
  simp only [task, record]
  cases perform t x <;> rfl

/-- Runs a task and records it. -/
def Task.record (ctx : Context σ) : Nat → (t : Task) → Recording σ t.Result
  | 0, _ => throw .outOfFuel
  | fuel + 1, t => fun x =>
    match (t.script ctx).record ctx (record ctx fuel) (x.note (.begun t)) with
    | .ok r y => .ok r (y.note (.ended t r))
    | .error stop y => .error stop y

/-- A task notes its beginning and, if it comes to a result, its end. -/
theorem Task.record_succ (ctx : Context σ) (fuel : Nat) (t : Task) (x : Recorded σ) :
    t.record ctx (fuel + 1) x =
      match (t.script ctx).record ctx (record ctx fuel) (x.note (.begun t)) with
      | .ok r y => .ok r (y.note (.ended t r))
      | .error stop y => .error stop y := rfl

/-- Executes a program and records it. -/
def Program.record (p : Program) (ctx : Context σ) (fuel : Nat) : Recording σ Int64 :=
  (p.script ctx).record ctx (Task.record ctx fuel)

/-! ## Recording makes no difference -/

/-- The outcome of a recorded run without its history. -/
def forget : EStateM.Result Stop (Recorded σ) α → EStateM.Result Stop (Machine σ) α
  | .ok a x => .ok a x.machine
  | .error stop x => .error stop x.machine

/-- A recorded script is the script, if its tasks are. -/
theorem Script.forget_record (ctx : Context σ) (perform : (t : Task) → Recording σ t.Result)
    (perform' : (t : Task) → Exec σ t.Result)
    (h : ∀ t x, forget (perform t x) = perform' t x.machine) (s : Script α) (x : Recorded σ) :
    forget (s.record ctx perform x) = s.run ctx perform' x.machine := by
  -- On the script; the history differs from one step to the next, so `x` is general.
  induction s generalizing x with
  | done a => rfl
  | fail e => rfl
  | ask q next ih =>
    simp only [record, run, EStateM.bind_apply, Exec.ask]
    cases q.answer x.machine.env with
    | ok b => exact ih b x
    | error e => rfl
  | act f next ih =>
    simp only [record, run, EStateM.bind_apply]
    cases f.run ctx x.machine with
    | ok _ m => exact ih _
    | error stop m => rfl
  | perform t next ih =>
    simp only [record, run, EStateM.bind_apply, ← h t x]
    cases perform t x with
    | ok r y => exact ih r y
    | error stop y => rfl
  | within w inner next ihi ih =>
    have hin := ihi (x.move (w.enter x.machine) (.opened w))
    simp only [record, run, EStateM.bind_apply, Enclosure.around_apply]
    rw [Recorded.machine_move] at hin
    rw [← hin]
    cases inner.record ctx perform (x.move (w.enter x.machine) (.opened w)) with
    | ok b y => exact ih b _
    | error stop y => rfl

/-- A recorded task is the task. -/
theorem Task.forget_record (ctx : Context σ) (fuel : Nat) (t : Task) (x : Recorded σ) :
    forget (t.record ctx fuel x) = t.run ctx fuel x.machine := by
  induction fuel generalizing t x with
  | zero => rw [Task.run_zero]; rfl
  | succ fuel ih =>
    have hs := Script.forget_record ctx _ _ ih (t.script ctx) (x.note (.begun t))
    rw [Recorded.machine_note] at hs
    rw [Task.run_succ, record_succ, ← hs]
    cases (t.script ctx).record ctx (record ctx fuel) (x.note (.begun t)) <;> rfl

/-- A recorded execution of a program is its execution. -/
theorem Program.forget_record (p : Program) (ctx : Context σ) (fuel : Nat) (x : Recorded σ) :
    forget (p.record ctx fuel x) = p.execute ctx fuel x.machine := by
  rw [Program.execute_eq]
  exact Script.forget_record ctx _ _ (Task.forget_record ctx fuel) (p.script ctx) x

/-! ## The history of a program's run -/

/-- Where a run ends, with a result or by a stop. -/
def finalState : EStateM.Result Stop σ α → σ
  | .ok _ x => x
  | .error _ x => x

/-- A part in an enclosure ends where the enclosure is left. -/
theorem Enclosure.finalState_around (k : Enclosure) (x : Exec σ α) (m : Machine σ) :
    finalState (k.around x m) = k.leave (finalState (x (k.enter m))) := by
  rw [around_apply]
  cases x (k.enter m) <;> rfl

/-- The machine at the end of a recorded run is the one at the end of the run. -/
theorem machine_finalState (r : EStateM.Result Stop (Recorded σ) α) :
    (finalState r).machine = finalState (forget r) := by
  cases r <;> rfl

/-- Before a run: no storage, no names, nothing has happened. -/
def Recorded.start (s : σ) : Recorded σ :=
  ⟨⟨Environment.empty, s⟩, []⟩

/-- The history of a program's run; a program that cannot start has none. -/
def Program.history (p : Program) (options : RunOptions) (sink : Sink σ) (fuel : Nat) (s : σ) :
    History σ :=
  match p.context options sink with
  | .error _ => []
  | .ok ctx => (finalState (p.record ctx fuel (Recorded.start s))).history

/-- A program can start if its records and its functions can be collected. -/
theorem Program.exists_of_context {p : Program} {options : RunOptions} {sink : Sink σ}
    {ctx : Context σ} (h : p.context options sink = .ok ctx) :
    ∃ types functions, TypeTable.empty.defineAll p.records = .ok types ∧
      FunctionTable.build types p = .ok functions ∧ ctx = ⟨types, functions, options, sink⟩ := by
  obtain ⟨types, htypes, h⟩ := Except.bind_eq_ok h
  split at h
  · rename_i functions hfunctions
    cases h
    exact ⟨types, functions, htypes, hfunctions, rfl⟩
  · cases h

/-- The first record that cannot be defined ends the definition of all, and is named by the
fault. -/
theorem TypeTable.exists_of_defineAll {t : TypeTable} {decls : List RecordDecl} {stop : Stop}
    (h : t.defineAll decls = .error stop) :
    ∃ before decl after types e, decls = before ++ decl :: after ∧
      t.defineAll before = .ok types ∧ types.define decl = .error e ∧
      stop = .fault e (some decl.span) := by
  induction decls generalizing t with
  | nil => cases h
  | cons decl rest ih =>
    rw [defineAll] at h
    cases hdefine : t.define decl with
    | error e =>
      rw [hdefine] at h
      cases h
      exact ⟨[], decl, rest, t, e, rfl, rfl, hdefine, rfl⟩
    | ok t' =>
      rw [hdefine] at h
      obtain ⟨before, bad, after, types, e, rfl, hbefore, hbad, hstop⟩ := ih h
      refine ⟨decl :: before, bad, after, types, e, rfl, ?_, hbad, hstop⟩
      rw [defineAll, hdefine]
      exact hbefore

/-- A program cannot start if a record cannot be defined or the functions cannot be collected. -/
theorem Program.exists_of_context_error {p : Program} {options : RunOptions} {sink : Sink σ}
    {stop : Stop} (h : p.context options sink = .error stop) :
    (∃ before decl after types e, p.records = before ++ decl :: after ∧
      TypeTable.empty.defineAll before = .ok types ∧ types.define decl = .error e ∧
      stop = .fault e (some decl.span)) ∨
    ∃ types e, TypeTable.empty.defineAll p.records = .ok types ∧
      FunctionTable.build types p = .error e ∧ stop = .fault e none := by
  rw [context] at h
  cases htypes : TypeTable.empty.defineAll p.records with
  | error stop' =>
    rw [htypes] at h
    cases h
    exact .inl (TypeTable.exists_of_defineAll htypes)
  | ok types =>
    rw [htypes] at h
    dsimp only [bind, Except.bind] at h
    cases hbuild : FunctionTable.build types p with
    | error e =>
      rw [hbuild] at h
      cases h
      exact .inr ⟨types, e, rfl, hbuild, rfl⟩
    | ok functions =>
      rw [hbuild] at h
      cases h

/-- A program that can start runs as it is recorded. -/
theorem Program.run_eq_record {p : Program} {options : RunOptions} {sink : Sink σ}
    {ctx : Context σ} (h : p.context options sink = .ok ctx) (fuel : Nat) (s : σ) :
    p.run options sink fuel s =
      match p.record ctx fuel (Recorded.start s) with
      | .ok n x => (.ok n, x.machine.sink)
      | .error stop x => (.error stop, x.machine.sink) := by
  have hrecord := p.forget_record ctx fuel (Recorded.start s)
  rw [Program.run, h]
  dsimp only
  rw [show (⟨Environment.empty, s⟩ : Machine σ) = (Recorded.start s).machine from rfl, ← hrecord]
  cases p.record ctx fuel (Recorded.start s) <;> rfl

/-- A run that stops is recorded as one that stops. -/
theorem Program.exists_record_of_run {p : Program} {options : RunOptions} {sink : Sink σ}
    {ctx : Context σ} (hctx : p.context options sink = .ok ctx) {fuel : Nat} {s : σ} {stop : Stop}
    (h : (p.run options sink fuel s).1 = .error stop) :
    ∃ x, p.record ctx fuel (Recorded.start s) = .error stop x := by
  rw [run_eq_record hctx] at h
  cases hr : p.record ctx fuel (Recorded.start s) with
  | ok n x =>
    rw [hr] at h
    cases h
  | error stop' x =>
    rw [hr] at h
    cases h
    exact ⟨x, rfl⟩

/-- A run passes through a machine if that machine stands in its history. -/
def Program.Reaches (p : Program) (options : RunOptions) (sink : Sink σ) (fuel : Nat) (s : σ)
    (m : Machine σ) : Prop :=
  ∃ k, (k, m) ∈ p.history options sink fuel s

end SmallCpp
