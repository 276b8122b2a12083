import SmallCpp.Proofs.FunctionTable
import SmallCpp.Proofs.Lockstep

/-!
# Runs in two contexts

The evaluator reads the table of functions in calls by name only, and it reads less than the table
holds: never where a function stands, and of a function without a body the names of the parameters
are read for messages only. `Context.Alike` says what two contexts have to share, depending on what
is seen of a stop (`Stop.View`). `Context.Alike.run` says that tasks are run alike in such contexts,
and `Context.Alike.run_program` says it of programs.
-/

namespace SmallCpp

variable {σ α β γ : Type}

/-! ## What is seen of a stop -/

/-- What is seen of a stop: the kind of its error, and where it stands. -/
def Stop.kind : Stop → Option (String × Option Span)
  | .fault e span => some (e.kind, span)
  | .outOfFuel => none

/-- A way to look at stops. Two stops that look the same still do so when an enclosure has marked
them. -/
structure Stop.View (γ : Type) where
  see : Stop → γ
  see_mark : ∀ (k : Enclosure) s s', see s = see s' → see (k.mark s) = see (k.mark s')

namespace Stop.View

/-- All of the stop is seen. -/
def whole : Stop.View Stop :=
  ⟨id, fun k _ _ h => congrArg k.mark h⟩

/-- Who sees all of the stop sees the result as it is. -/
theorem mapError_whole (r : Except Stop α) : r.mapError whole.see = r := by
  cases r <;> rfl

/-- The kind of the error is seen and where it stands, but not the message. -/
def kind : Stop.View (Option (String × Option Span)) where
  see := Stop.kind
  see_mark k s s' h := by
    -- Whether an enclosure marks a stop depends on whether it has a place, which is seen.
    rcases s with ⟨e, span⟩ | _ <;> rcases s' with ⟨e', span'⟩ | _
    · simp only [Stop.kind, Option.some_inj, Prod.mk.injEq] at h
      rw [Enclosure.mark_fault, Enclosure.mark_fault, Stop.kind, Stop.kind, h.1, h.2]
    · cases h
    · cases h
    · rfl

/-- Errors of one kind look the same, whatever their messages say. -/
def HidesMessages (v : Stop.View γ) : Prop :=
  ∀ (e e' : RuntimeError) (span : Option Span), e.kind = e'.kind →
    v.see (.fault e span) = v.see (.fault e' span)

/-- Who sees only the kind of an error does not see its message. -/
theorem hidesMessages_kind : kind.HidesMessages := by
  intro e e' span h
  change some (e.kind, span) = some (e'.kind, span)
  rw [h]

end Stop.View

/-- Two parts of a program that are executed alike from every machine: they yield the same result or
stop in ways that look the same, and leave the same machine. -/
def Exec.Alike (v : Stop.View γ) (x y : Exec σ α) : Prop :=
  ∀ m, AlikeUpTo (fun s s' => v.see s = v.see s') Eq (x m) (y m)

namespace Exec.Alike

variable {v : Stop.View γ} {x y z : Exec σ α}

/-- A computation looks like itself. -/
theorem refl (x : Exec σ α) : Exec.Alike v x x := by
  intro m
  cases x m with
  | ok a n => exact .ok rfl
  | error stop n => exact .error rfl rfl

/-- Equal computations look alike. -/
theorem of_eq (h : x = y) : Exec.Alike v x y := h ▸ refl x

/-- What looks like a third by way of a second looks like it. -/
theorem trans (hxy : Exec.Alike v x y) (hyz : Exec.Alike v y z) : Exec.Alike v x z := by
  intro m
  have h := hxy m
  have h' := hyz m
  generalize x m = r at h
  generalize y m = r' at h h'
  generalize z m = r'' at h'
  cases h with
  | ok hm => cases hm; exact h'
  | error hstop hm =>
    cases h' with
    | error hstop' hm' => exact .error (hstop.trans hstop') (hm.trans hm')

/-- Errors of one kind look alike to one who does not read messages. -/
theorem fail (hv : v.HidesMessages) {e e' : RuntimeError} (h : e.kind = e'.kind) :
    Exec.Alike v (Exec.fail e : Exec σ α) (Exec.fail e') :=
  fun _ => .error (hv e e' none h) rfl

/-- One after another, with the same result between them and on the same machine. -/
theorem bind {f g : α → Exec σ β} (hxy : Exec.Alike v x y)
    (hfg : ∀ a, Exec.Alike v (f a) (g a)) : Exec.Alike v (x >>= f) (y >>= g) := by
  refine fun m => .bind (hxy m) ?_
  rintro a n _ rfl
  exact hfg a n

/-- A branch on something that both know. -/
theorem ite {c : Prop} [Decidable c] {x' y' : Exec σ α} (h : c → Exec.Alike v x y)
    (h' : ¬c → Exec.Alike v x' y') : Exec.Alike v (if c then x else x') (if c then y else y') := by
  split_ifs with hc
  · exact h hc
  · exact h' hc

end Exec.Alike

/-! ## Functions that are called alike -/

/-- How a parameter is passed: everything about it but its name. -/
def ParamSignature.passing (p : ParamSignature) : ValueType × Bool :=
  (p.type, p.byRef)

/-- Parameters are given by their names and by how they are passed. -/
theorem ParamSignature.eq_of_map {ps ps' : List ParamSignature}
    (hnames : ps.map (·.name) = ps'.map (·.name))
    (hpassing : ps.map (·.passing) = ps'.map (·.passing)) : ps = ps' := by
  induction ps generalizing ps' with
  | nil =>
    cases ps' with
    | nil => rfl
    | cons p' ps' => cases hnames
  | cons p ps ih =>
    cases ps' with
    | nil => cases hnames
    | cons p' ps' =>
      rw [List.map_cons, List.map_cons, List.cons.injEq] at hnames hpassing
      obtain ⟨hname, hnames⟩ := hnames
      obtain ⟨hpass, hpassing⟩ := hpassing
      obtain ⟨htype, hbyRef⟩ := Prod.mk.inj hpass
      have hp : p = p' := by
        cases p
        cases p'
        cases hname
        cases htype
        cases hbyRef
        rfl
      rw [hp, ih hnames hpassing]

/-- The function without the place of its first declaration. -/
def FunctionEntry.unplaced (e : FunctionEntry) : FunctionEntry :=
  { e with signature := { e.signature with span := ⟨0, 0⟩ } }

/-- Functions are the same but for the place of the first declaration if all the rest is. -/
theorem FunctionEntry.unplaced_eq_iff {e e' : FunctionEntry} :
    e.unplaced = e'.unplaced ↔ e.signature.name = e'.signature.name ∧
      e.signature.params = e'.signature.params ∧ e.signature.returns = e'.signature.returns ∧
      e.body = e'.body := by
  obtain ⟨⟨name, params, returns, span⟩, body⟩ := e
  obtain ⟨⟨name', params', returns', span'⟩, body'⟩ := e'
  simp only [unplaced, FunctionEntry.mk.injEq, Signature.mk.injEq, and_true, and_assoc]

/-- Where a function stands has no part in its call. -/
theorem Task.run_invoke_unplaced (ctx : Context σ) (fuel : Nat) (e : FunctionEntry)
    (args : List Argument) :
    Task.run ctx fuel (.invoke e.unplaced args) = Task.run ctx fuel (.invoke e args) := by
  cases fuel with
  | zero => rw [Task.run_zero, Task.run_zero]
  | succ fuel => rw [Task.run_succ, Task.run_succ]; rfl

/-- Two functions that are called alike: they differ in their places only, or messages are not seen,
both have no body, and they differ in the names of parameters and in what they return. -/
inductive FunctionEntry.Alike (v : Stop.View γ) : FunctionEntry → FunctionEntry → Prop
  | moved {e e' : FunctionEntry} (h : e.unplaced = e'.unplaced) : Alike v e e'
  | undefined {e e' : FunctionEntry} (hv : v.HidesMessages)
    (hname : e.signature.name = e'.signature.name)
    (hparams : e.signature.params.map (·.passing) = e'.signature.params.map (·.passing))
    (hbody : e.body = none) (hbody' : e'.body = none) : Alike v e e'

section

variable {v : Stop.View γ} (ctx : Context σ) (fuel : Nat) (function : String)

/-- The name of a parameter appears only in the messages about its argument. -/
theorem argument_alike (hv : v.HidesMessages) {p p' : ParamSignature} (h : p.passing = p'.passing)
    (arg : Expr) : Exec.Alike v (Exec.argument ctx fuel function p arg)
      (Exec.argument ctx fuel function p' arg) := by
  obtain ⟨htype, href⟩ := Prod.mk.inj h
  cases fuel with
  | zero =>
    rw [Exec.argument, Exec.argument]
    exact .refl _
  | succ fuel =>
    rw [Exec.argument, Exec.argument, htype, href]
    refine .ite (fun _ => .refl _) fun _ => .ite (fun _ => ?_) fun _ => .fail hv rfl
    refine .bind (.refl _) fun target => .bind (.refl _) fun actual => ?_
    exact .ite (fun _ => .refl _) fun _ => .fail hv rfl

/-- The names of parameters appear only in the messages about the arguments. -/
theorem arguments_alike (hv : v.HidesMessages) {params params' : List ParamSignature}
    (h : params.map (·.passing) = params'.map (·.passing)) (args : List Expr) :
    Exec.Alike v (Exec.arguments ctx fuel function params args)
      (Exec.arguments ctx fuel function params' args) := by
  -- Each step of the evaluator takes one parameter off the list.
  induction fuel generalizing params params' args with
  | zero =>
    rw [Exec.arguments, Exec.arguments]
    exact .refl _
  | succ fuel ih =>
    cases params with
    | nil =>
      cases params' with
      | nil => exact .refl _
      | cons p' params' => cases h
    | cons p params =>
      cases params' with
      | nil => cases h
      | cons p' params' =>
        rw [List.map_cons, List.map_cons, List.cons.injEq] at h
        cases args with
        | nil =>
          rw [Exec.arguments.eq_def, Exec.arguments.eq_def]
          exact .refl _
        | cons arg args =>
          rw [Exec.arguments, Exec.arguments]
          exact .bind (argument_alike ctx fuel function hv h.1 arg) fun _ =>
            .bind (ih h.2 args) fun _ => .refl _

end

namespace FunctionEntry.Alike

variable {v : Stop.View γ} {e e' : FunctionEntry}

/-- Functions that are called alike have one name. -/
theorem name_eq (h : e.Alike v e') : e.signature.name = e'.signature.name := by
  cases h with
  | moved h => exact (unplaced_eq_iff.mp h).1
  | undefined _ hname => exact hname

/-- Functions that are called alike pass their parameters in the same way. -/
theorem passing_eq (h : e.Alike v e') :
    e.signature.params.map (·.passing) = e'.signature.params.map (·.passing) := by
  cases h with
  | moved h => rw [(unplaced_eq_iff.mp h).2.1]
  | undefined _ _ hparams => exact hparams

/-- Functions that are called alike have equally many parameters. -/
theorem length_eq (h : e.Alike v e') : e.signature.params.length = e'.signature.params.length := by
  have hlength := congrArg List.length h.passing_eq
  rwa [List.length_map, List.length_map] at hlength

/-- Arguments are evaluated alike for the parameters of the two functions. -/
theorem arguments (h : e.Alike v e') (ctx : Context σ) (fuel : Nat) (function : String)
    (args : List Expr) :
    Exec.Alike v (Exec.arguments ctx fuel function e.signature.params args)
      (Exec.arguments ctx fuel function e'.signature.params args) := by
  cases h with
  | moved h => rw [(unplaced_eq_iff.mp h).2.1]; exact .refl _
  | undefined hv _ hparams => exact arguments_alike ctx fuel function hv hparams args

/-- The two functions are entered alike: a function without a body is never entered. -/
theorem invoke (h : e.Alike v e') (ctx : Context σ) (fuel : Nat) (args : List Argument) :
    Exec.Alike v (Exec.invoke ctx fuel e args) (Exec.invoke ctx fuel e' args) := by
  cases h with
  | moved h =>
    have hrun := Task.run_invoke_unplaced ctx fuel e args
    rw [h, Task.run_invoke_unplaced] at hrun
    exact .of_eq hrun.symm
  | undefined _ hname _ hbody hbody' =>
    cases fuel with
    | zero =>
      rw [Exec.invoke, Exec.invoke]
      exact .refl _
    | succ fuel =>
      rw [Exec.invoke, Exec.invoke, hbody, hbody', hname]
      exact .refl _

end FunctionEntry.Alike

/-! ## Contexts -/

/-- Two contexts whose functions are called alike. -/
structure Context.Alike (v : Stop.View γ) (ctx ctx' : Context σ) : Prop where
  types : ctx.types = ctx'.types
  options : ctx.options = ctx'.options
  sink : ctx.sink = ctx'.sink
  functions : ∀ name, Option.Rel (FunctionEntry.Alike v) (ctx.functions.find? name)
    (ctx'.functions.find? name)

namespace Context.Alike

variable {v : Stop.View γ} {ctx ctx' : Context σ}

/-- A name is found in both contexts or in neither. -/
theorem get (h : ctx.Alike v ctx') (name : String) :
    (∃ e e', ctx.functions.get name = .ok e ∧ ctx'.functions.get name = .ok e' ∧ e.Alike v e') ∨
      ctx.functions.get name = .error (.unknownIdentifier name) ∧
        ctx'.functions.get name = .error (.unknownIdentifier name) := by
  have hfind := h.functions name
  rw [FunctionTable.get, FunctionTable.get]
  cases hf : ctx.functions.find? name <;> cases hf' : ctx'.functions.find? name <;>
    rw [hf, hf'] at hfind <;> cases hfind
  · exact .inr ⟨rfl, rfl⟩
  · rename_i e e' he
    exact .inl ⟨e, e', rfl, rfl, he⟩

/-- Runs from the same machine stay in step: they have the same machine throughout. -/
def lockstep (h : ctx.Alike v ctx') : Lockstep ctx ctx' Unit where
  rel _ := Eq
  stop s s' := v.see s = v.see s'
  inner _ w := w
  stop_refl _ := rfl
  stop_mark := v.see_mark
  answer_eq q hm := by rw [hm]
  effect {_ m m'} f hm := by
    have heffect : f.run ctx = f.run ctx' := by
      cases f <;> simp only [Effect.run, h.sink, h.options]
    rw [hm, heffect]
    exact Exec.Alike.refl (v := v) (f.run ctx') m'
  enter k hm := congrArg k.enter hm
  leave k hm := congrArg k.leave hm

/-- A call by name goes alike in both contexts, if the tasks that it hands on do. -/
theorem call (h : ctx.Alike v ctx') {fuel : Nat}
    (ih : ∀ t : Task, Exec.Alike v (t.run ctx fuel) (t.run ctx' fuel)) (callee : String)
    (args : List Expr) :
    Exec.Alike v (Exec.call ctx (fuel + 1) callee args)
      (Exec.call ctx' (fuel + 1) callee args) := by
  rw [Exec.call, Exec.call, h.sink]
  cases Primitive.ofName? callee with
  | some p =>
    rcases args with _ | ⟨arg, _ | ⟨_, _⟩⟩
    · exact .refl _
    · exact .bind (ih (.eval arg)) fun _ => .refl _
    · exact .refl _
  | none =>
    rcases h.get callee with ⟨e, e', he, he', halike⟩ | ⟨he, he'⟩
    · rw [he, he']
      dsimp only [Exec.lift]
      rw [pure_bind, pure_bind, halike.length_eq, halike.name_eq]
      refine .ite (fun _ => ?_) fun _ => .refl _
      -- The arguments and the callee change one after the other: first the context, then the entry.
      refine .bind ?_ fun bound => ?_
      · exact (ih (.arguments e'.signature.name e.signature.params args)).trans
          (halike.arguments ctx' fuel _ args)
      · exact (ih (.invoke e bound)).trans (halike.invoke ctx' fuel bound)
    · rw [he, he']
      exact .refl _

/-- Every task is run alike in both contexts. -/
theorem run (h : ctx.Alike v ctx') (fuel : Nat) (t : Task) :
    Exec.Alike v (t.run ctx fuel) (t.run ctx' fuel) := by
  have hkeeps : h.lockstep.Keeps fuel := by
    refine h.lockstep.keeps_of_call h.types h.options ?_ fuel
    rintro fuel ih callee args w m _ rfl
    exact h.call (fun t n => ih t w n n rfl) callee args m
  exact fun m => hkeeps t () m m rfl

/-- Programs with the same globals are executed alike in both contexts. -/
theorem execute (h : ctx.Alike v ctx') {p q : Program} (hglobals : p.globals = q.globals)
    (fuel : Nat) : Exec.Alike v (p.execute ctx fuel) (q.execute ctx' fuel) := by
  rw [Program.execute, Program.execute, hglobals, h.options]
  refine .bind (h.run fuel (.declareVars q.globals)) fun _ => ?_
  -- A run has no arguments for the entry function, so only the number of its parameters counts.
  rcases h.get ctx'.options.entry with ⟨e, e', he, he', halike⟩ | ⟨he, he'⟩
  · have hempty := congrArg List.isEmpty halike.passing_eq
    rw [List.isEmpty_map, List.isEmpty_map] at hempty
    rw [he, he']
    dsimp only [Exec.lift]
    rw [pure_bind, pure_bind, halike.length_eq, halike.name_eq, hempty]
    refine .ite (fun _ => ?_) fun _ => .refl _
    refine .bind ?_ fun v => .refl _
    exact (h.run fuel (.invoke e [])).trans (halike.invoke ctx' fuel [])
  · rw [he, he']
    exact .refl _

/-- Programs with the same globals that start in such contexts yield the same result or stop in ways
that look the same, and have the same output. -/
theorem run_program (h : ctx.Alike v ctx') {p q : Program} {options : RunOptions} {sink : Sink σ}
    (hp : p.context options sink = .ok ctx) (hq : q.context options sink = .ok ctx')
    (hglobals : p.globals = q.globals) (fuel : Nat) (s : σ) :
    (p.run options sink fuel s).1.mapError v.see = (q.run options sink fuel s).1.mapError v.see ∧
      (p.run options sink fuel s).2 = (q.run options sink fuel s).2 := by
  have hexecute := h.execute hglobals fuel ⟨Environment.empty, s⟩
  rw [Program.run, Program.run, hp, hq]
  dsimp only
  generalize p.execute ctx fuel ⟨Environment.empty, s⟩ = r at hexecute ⊢
  generalize q.execute ctx' fuel ⟨Environment.empty, s⟩ = r' at hexecute ⊢
  cases hexecute with
  | ok hm =>
    cases hm
    exact ⟨rfl, rfl⟩
  | error hstop hm =>
    cases hm
    exact ⟨congrArg Except.error hstop, rfl⟩

end Context.Alike

end SmallCpp
