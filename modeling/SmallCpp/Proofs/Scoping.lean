import SmallCpp.Proofs.Effect
import SmallCpp.Proofs.History

/-!
# Scopes are left as they were entered

Whatever a part of a program does, and however it ends, the names of the run are afterwards what
they were before, but for names that the part itself declares in the innermost scope. The reason is
in the scripts: a declaration acts on the scope in which its script runs, and everything else that a
script declares stands between entering and leaving a scope or a frame. `Script.Declares` reads this
off a script, `Task.script_declares` off the script of each task, and `Task.addsOnly_run` is the
result for all runs.
-/

namespace SmallCpp

variable {σ α β : Type}

/-! ## Which names a script declares -/

/-- The names that a statement declares in the scope in which it stands. -/
def Statement.declared : Statement → List String
  | declare decls _ => decls.map VarDecl.name
  | _ => []

/-- The name that an effect declares, if it is a declaration. -/
def Effect.declared : Effect → List String
  | declare name _ _ | declareAlias name _ _ => [name]
  | _ => []

/-- The names that a task declares in the scope in which it runs. -/
def Task.declared : Task → List String
  | declareVar decl => [decl.name]
  | declareVars decls => decls.map VarDecl.name
  | exec s => s.declared
  | execAll ss => ss.flatMap Statement.declared
  | _ => []

/-- Whether names that are declared inside an enclosure end with it. -/
def Enclosure.shields : Enclosure → Bool
  | scope | frame _ => true
  | located _ => false

/-- In the scope in which it runs, a script declares only such names. -/
def Script.Declares (N : String → Prop) : {α : Type} → Script α → Prop
  | _, .done _ | _, .fail _ => True
  | _, .ask _ next => ∀ b, (next b).Declares N
  | _, .act f next => (∀ name ∈ f.declared, N name) ∧ next.Declares N
  | _, .perform t next => (∀ name ∈ t.declared, N name) ∧ ∀ r, (next r).Declares N
  | _, .within k inner next => (k.shields = false → inner.Declares N) ∧ ∀ b, (next b).Declares N

namespace Script.Declares

variable {N : String → Prop}

/-- Any script declares just some names. -/
theorem any (s : Script α) : s.Declares fun _ => True := by
  induction s with
  | done a => exact trivial
  | fail e => exact trivial
  | ask q next ih => exact ih
  | act f next ih => exact ⟨fun _ _ => trivial, ih⟩
  | perform t next ih => exact ⟨fun _ _ => trivial, ih⟩
  | within k inner next ihi ih => exact ⟨fun _ => ihi, ih⟩

/-- A result declares nothing. -/
theorem pure (a : α) : (pure a : Script α).Declares N :=
  trivial

/-- An error declares nothing. -/
theorem fail (e : RuntimeError) : (Script.fail e : Script α).Declares N :=
  trivial

/-- One script after another declares the names of both. -/
theorem bind {s : Script α} {f : α → Script β} (hs : s.Declares N) (hf : ∀ a, (f a).Declares N) :
    (s >>= f).Declares N := by
  induction s with
  | done a => exact hf a
  | fail e => exact trivial
  | ask q next ih => exact fun b => ih b (hs b) hf
  | act g next ih => exact ⟨hs.1, ih hs.2 hf⟩
  | perform t next ih => exact ⟨hs.1, fun r => ih r (hs.2 r) hf⟩
  | within k inner next _ ih => exact ⟨hs.1, fun b => ih b (hs.2 b) hf⟩

/-- Either branch may declare names. -/
theorem ite {c : Prop} [Decidable c] {s t : Script α} (hs : s.Declares N) (ht : t.Declares N) :
    (if c then s else t).Declares N := by
  split_ifs
  · exact hs
  · exact ht

/-- A question declares nothing. -/
theorem query (q : Query α) : (Script.query q).Declares N :=
  fun _ => trivial

/-- A computation on values declares nothing. -/
theorem lift (r : Except RuntimeError α) : (Script.lift r).Declares N := by
  cases r <;> exact trivial

/-- An effect declares its own name. -/
theorem effect {f : Effect} (h : ∀ name ∈ f.declared, N name) : (Script.effect f).Declares N :=
  ⟨h, trivial⟩

/-- A task declares its own names. -/
theorem task {t : Task} (h : ∀ name ∈ t.declared, N name) :
    Declares N (α := no_index t.Result) (Script.task t) :=
  ⟨h, fun _ => trivial⟩

/-- A task without declared names declares nothing. -/
theorem silent {t : Task} (h : t.declared = []) :
    Declares N (α := no_index t.Result) (Script.task t) :=
  task (h ▸ List.forall_mem_nil N)

/-- An effect without declared names declares nothing. -/
theorem mute {f : Effect} (h : f.declared = []) : (Script.effect f).Declares N :=
  effect (h ▸ List.forall_mem_nil N)

/-- What stands in an enclosure counts unless the enclosure ends its names. -/
theorem enclosed {k : Enclosure} {inner : Script α} (h : k.shields = false → inner.Declares N) :
    (Script.enclosed k inner).Declares N :=
  ⟨h, fun _ => trivial⟩

/-- In a scope of its own a script declares what it likes. -/
theorem inScope (inner : Script α) : (Script.enclosed .scope inner).Declares N :=
  enclosed fun h => Bool.noConfusion h

/-- An expression that is a condition declares nothing; the branches may. -/
theorem condition (e : Expr) {s t : Script α} (hs : s.Declares N) (ht : t.Declares N) :
    (do if ← Script.lift (← Script.task (.eval e)).asBool then s else t).Declares N :=
  bind (silent rfl) fun _ => bind (lift _) fun _ => ite hs ht

/-- The truth value of an expression. -/
theorem truth (e : Expr) :
    (do return Value.bool (← Script.lift (← Script.task (.eval e)).asBool)).Declares N :=
  bind (silent rfl) fun _ => bind (lift _) fun _ => pure _

end Script.Declares

namespace Script

variable {N : String → Prop} (ctx : Context σ)

/-! ## The scripts of the tasks -/

/-- An expression declares nothing. -/
theorem eval_declares (e : Expr) : (eval e).Declares N := by
  cases e with
  | literal lit => exact .pure _
  | name id => exact .query _
  | binary op left right =>
    -- Neither operand of a binary operator declares anything, whether or not the right one is
    -- evaluated.
    rcases op with op | op | ⟨⟨⟩⟩
    · exact .bind (.silent rfl) fun _ => .bind (.silent rfl) fun _ => .lift _
    · exact .bind (.silent rfl) fun _ => .bind (.silent rfl) fun _ => .lift _
    · exact .condition left (.truth right) (.pure _)
    · exact .condition left (.pure _) (.truth right)
  | unary op operand => exact .bind (.silent rfl) fun _ => .lift _
  | assign op target value =>
    refine .bind (.silent rfl) fun rhs => .bind (.silent rfl) fun p => .bind ?_ fun new =>
      .bind (.mute rfl) fun _ => .query _
    cases op with
    | none => exact .pure _
    | some arith => exact .bind (.query _) fun _ => .lift _
  | step op fixity target =>
    refine .bind (.silent rfl) fun p => .bind (.query _) fun old => .bind (.lift _) fun new =>
      .bind (.mute rfl) fun _ => ?_
    cases fixity with
    | before => exact .query _
    | after => exact .pure _
  | call callee span args => exact .silent rfl
  | index base subscript =>
    refine .ite (.bind (.silent rfl) fun _ => .query _) ?_
    exact .bind (.silent rfl) fun _ => .bind (.silent rfl) fun _ => .bind (.lift _) fun _ => .lift _
  | field base id =>
    refine .ite (.bind (.silent rfl) fun _ => .query _) ?_
    exact .bind (.silent rfl) fun _ => .lift _

/-- An expression that names storage declares nothing. -/
theorem place_declares (e : Expr) : (place e).Declares N := by
  cases e with
  | name id => exact .query _
  | index base subscript =>
    exact .bind (.silent rfl) fun _ => .bind (.silent rfl) fun _ => .bind (.lift _) fun _ =>
      .query _
  | field base id => exact .bind (.silent rfl) fun _ => .query _
  | _ => exact .fail _

/-- A call by name declares nothing; the frame of the callee is a matter of `invoke`. -/
theorem call_declares (callee : String) (args : List Expr) :
    (call ctx callee args).Declares N := by
  rw [call]
  split
  · split
    · exact .bind (.silent rfl) fun _ => .bind (.mute rfl) fun _ => .pure _
    · exact .fail _
  · refine .bind (.lift _) fun entry => .ite ?_ (.fail _)
    exact .bind (.silent rfl) fun _ => .silent rfl

/-- An argument declares nothing. -/
theorem argument_declares (function : String) (p : ParamSignature) (arg : Expr) :
    (argument function p arg).Declares N := by
  refine .ite ?_ (.ite ?_ (.fail _))
  · exact .bind (.silent rfl) fun _ => .bind (.lift _) fun _ => .pure _
  · exact .bind (.silent rfl) fun _ => .bind (.query _) fun _ => .ite (.pure _) (.fail _)

/-- The parameters are declared in the frame of the call. -/
theorem invoke_declares (entry : FunctionEntry) (args : List Argument) :
    (invoke ctx entry args).Declares N := by
  rw [invoke]
  split
  · exact .fail _
  · exact .bind (.mute rfl) fun _ => .bind (.enclosed fun h => Bool.noConfusion h) fun _ => .lift _

/-- An initializer declares nothing. -/
theorem build_declares (init : Initializer) (type : ValueType) : (build init type).Declares N := by
  cases init with
  | expr e => exact .bind (.silent rfl) fun _ => .lift _
  | list items span =>
    cases type with
    | array elem length => exact .ite (.fail _) (.bind (.silent rfl) fun _ => .pure _)
    | record name layout => exact .ite (.fail _) (.bind (.silent rfl) fun _ => .pure _)
    | _ =>
      rcases items with _ | ⟨item, _ | _⟩
      · exact .pure _
      · exact .silent rfl
      · exact .fail _

/-- A variable declares its name, in any of its forms. -/
theorem declareVar_declares {decl : VarDecl} (h : N decl.name) :
    (declareVar ctx decl).Declares N := by
  have hname : ∀ name ∈ [decl.name], N name := List.forall_mem_singleton.mpr h
  refine .bind (.lift _) fun type => .ite ?_ ?_
  · -- A reference is declared with an initializer that names storage, and in no other way.
    split
    · refine .ite ?_ (.fail _)
      exact .bind (.silent rfl) fun _ => .bind (.query _) fun _ => .ite (.effect hname) (.fail _)
    · exact .fail _
  · split
    · exact .bind (.silent rfl) fun _ => .effect hname
    · exact .effect hname

/-- Variables declare their names. -/
theorem declareVars_declares {decls : List VarDecl} (h : ∀ name ∈ decls.map VarDecl.name, N name) :
    (declareVars decls).Declares N := by
  cases decls with
  | nil => exact .pure _
  | cons decl rest =>
    rw [List.map_cons, List.forall_mem_cons] at h
    exact .bind (.enclosed fun _ => .task (List.forall_mem_singleton.mpr h.1)) fun _ => .task h.2

/-- A statement declares the names of its variables; its branches and blocks have scopes of their
own. -/
theorem exec_declares {s : Statement} (h : ∀ name ∈ s.declared, N name) : (exec s).Declares N := by
  refine .enclosed fun _ => ?_
  cases s with
  | declare decls => exact .bind (.task h) fun _ => .pure _
  | expr e => exact .bind (.silent rfl) fun _ => .pure _
  | ifThen cond thenBranch => exact .condition cond (.inScope _) (.pure _)
  | ifElse cond thenBranch elseBranch => exact .condition cond (.inScope _) (.inScope _)
  | loop cond body => exact .silent rfl
  | ret value =>
    cases value with
    | none => exact .pure _
    | some e => exact .bind (.silent rfl) fun _ => .pure _
  | block body => exact .inScope _
  | empty => exact .pure _

/-- A loop declares nothing, since its body has a scope of its own. -/
theorem repeatWhile_declares (cond : Expr) (body : Statement) :
    (repeatWhile cond body).Declares N := by
  refine .condition cond (.bind (.inScope _) fun flow => ?_) (.pure _)
  cases flow with
  | normal => exact .silent rfl
  | returned v => exact .pure _

/-- Statements declare their names in the scope in which they stand. -/
theorem execAll_declares {ss : List Statement}
    (h : ∀ name ∈ ss.flatMap Statement.declared, N name) :
    (execAll ss).Declares N := by
  cases ss with
  | nil => exact .pure _
  | cons s rest =>
    rw [List.flatMap_cons, List.forall_mem_append] at h
    refine .bind (.task h.1) fun flow => ?_
    cases flow with
    | normal => exact .task h.2
    | returned v => exact .pure _

end Script

/-- The script of a task declares the names that the task is said to declare. -/
theorem Task.script_declares (ctx : Context σ) (t : Task) :
    (t.script ctx).Declares (· ∈ t.declared) := by
  cases t with
  | eval e => exact Script.eval_declares e
  | place e => exact Script.place_declares e
  | call callee args => exact Script.call_declares ctx callee args
  | arguments function params args =>
    rw [script, Script.arguments.eq_def]
    split
    · exact .bind (.silent rfl) fun _ => .bind (.silent rfl) fun _ => .pure _
    · exact .pure _
  | argument function p arg => exact Script.argument_declares function p arg
  | invoke entry args => exact Script.invoke_declares ctx entry args
  | build init type => exact Script.build_declares init type
  | buildElems items type =>
    cases items with
    | nil => exact .pure _
    | cons item rest => exact .bind (.silent rfl) fun _ => .bind (.silent rfl) fun _ => .pure _
  | buildFields items layout =>
    rw [script, Script.buildFields.eq_def]
    split
    · exact .bind (.silent rfl) fun _ => .bind (.silent rfl) fun _ => .pure _
    · exact .pure _
  | declareVar decl => exact Script.declareVar_declares ctx List.mem_cons_self
  | declareVars decls => exact Script.declareVars_declares fun _ => id
  | exec s => exact Script.exec_declares fun _ => id
  | repeatWhile cond body => exact Script.repeatWhile_declares cond body
  | execAll ss => exact Script.execAll_declares fun _ => id

/-! ## What becomes of the names -/

namespace Environment

/-- A call is running, which has the scope of its parameters. -/
def Running (env : Environment) : Prop :=
  ∃ function scope scopes callers, env.frames = ⟨function, scope :: scopes⟩ :: callers

/-- All names stand for what they stood for; only what is stored may differ. -/
structure SameNames (before after : Environment) : Prop where
  globals : after.globals = before.globals
  frames : after.frames = before.frames

/-- Names have been added to the innermost scope of the running call, the latest first; all else
about names is as it was. -/
structure Added (before after : Environment) (added : Scope) : Prop where
  globals : after.globals = before.globals
  frames : ∃ function scope scopes callers,
    before.frames = ⟨function, scope :: scopes⟩ :: callers ∧
      after.frames = ⟨function, (added ++ scope) :: scopes⟩ :: callers
  /-- The scope had none of the names before. -/
  fresh : ∀ entry ∈ added, before.declares entry.1 = false
  /-- No name has been added twice. -/
  nodup : (added.map Prod.fst).Nodup

variable {env before after : Environment} {added : Scope}

/-- A frame with a scope makes a call that is running. -/
theorem running_of_depth (hscopes : ∀ frame ∈ env.frames, frame.scopes ≠ []) (h : 0 < env.depth) :
    env.Running := by
  obtain ⟨⟨function, scopes⟩, callers, hframes⟩ := List.exists_cons_of_length_pos h
  rw [hframes, List.forall_mem_cons] at hscopes
  obtain ⟨scope, scopes, rfl⟩ := List.exists_cons_of_ne_nil hscopes.1
  exact ⟨function, scope, scopes, callers, hframes⟩

/-- A new frame comes with the scope of the parameters. -/
theorem running_pushFrame (env : Environment) (function : String) :
    (env.pushFrame function).Running :=
  ⟨function, [], [], env.frames, rfl⟩

/-- In a new scope the call is still running. -/
theorem Running.enter (h : env.Running) : env.enter.Running := by
  obtain ⟨function, scope, scopes, callers, hframes⟩ := h
  refine ⟨function, [], scope :: scopes, callers, ?_⟩
  unfold Environment.enter
  rw [hframes]

/-- A name is not declared if the innermost scope has no entry for it. -/
theorem declares_eq_false_iff {function : String} {scope : Scope} {scopes : List Scope}
    {callers : List Frame} (hframes : env.frames = ⟨function, scope :: scopes⟩ :: callers)
    {name : String} : env.declares name = false ↔ ∀ entry ∈ scope, entry.1 ≠ name := by
  unfold declares currentScope
  rw [hframes, Option.isSome_eq_false_iff, Option.isNone_iff_eq_none, List.lookup_eq_none_iff]
  simp only [bne_iff_ne, ne_comm]

namespace Added

/-- The call is still running when names have been added. -/
theorem running (h : before.Added after added) : after.Running := by
  obtain ⟨function, scope, scopes, callers, -, hafter⟩ := h.frames
  exact ⟨function, added ++ scope, scopes, callers, hafter⟩

/-- Nothing is added as long as all names are the same. -/
theorem of_sameNames (h : before.SameNames after) (hrunning : before.Running) :
    before.Added after [] := by
  obtain ⟨function, scope, scopes, callers, hframes⟩ := hrunning
  exact ⟨h.globals, ⟨function, scope, scopes, callers, hframes, h.frames.trans hframes⟩, nofun,
    List.nodup_nil⟩

/-- Where nothing has been added, all names are the same. -/
theorem sameNames (h : before.Added after []) : before.SameNames after := by
  obtain ⟨function, scope, scopes, callers, hbefore, hafter⟩ := h.frames
  exact ⟨h.globals, hafter.trans hbefore.symm⟩

/-- Names are added one lot after the other, and what is added later is new to all that was there.
-/
theorem trans {last : Environment} {added' : Scope} (h : before.Added after added)
    (h' : after.Added last added') : before.Added last (added' ++ added) := by
  obtain ⟨function, scope, scopes, callers, hbefore, hafter⟩ := h.frames
  obtain ⟨function', scope', scopes', callers', hafter', hlast⟩ := h'.frames
  rw [hafter] at hafter'
  cases hafter'
  -- What is added later is new to the scope with what was added before.
  have hnew : ∀ entry ∈ added', ∀ old ∈ added ++ scope, old.1 ≠ entry.1 := fun entry hentry =>
    (declares_eq_false_iff hafter).mp (h'.fresh entry hentry)
  refine ⟨h'.globals.trans h.globals, ⟨function, scope, scopes, callers, hbefore, ?_⟩, ?_, ?_⟩
  · rw [hlast, List.append_assoc]
  · refine List.forall_mem_append.mpr ⟨fun entry hentry => ?_, h.fresh⟩
    exact (declares_eq_false_iff hbefore).mpr fun old hold =>
      hnew entry hentry old (List.mem_append_right _ hold)
  · rw [List.map_append]
    refine List.nodup_append.mpr ⟨h'.nodup, h.nodup, ?_⟩
    rintro _ hlater _ hearlier rfl
    obtain ⟨entry, hentry, heq⟩ := List.mem_map.mp hlater
    obtain ⟨old, hold, heq'⟩ := List.mem_map.mp hearlier
    exact hnew entry hentry old (List.mem_append_left _ hold) (heq'.trans heq.symm)

/-- A declaration adds its name. -/
theorem bind (h : env.Running) {name : String} (hnew : env.declares name = false) (b : Binding) :
    env.Added (env.bind name b) [(name, b)] := by
  obtain ⟨function, scope, scopes, callers, hframes⟩ := h
  refine ⟨?_, ⟨function, scope, scopes, callers, hframes, ?_⟩,
    List.forall_mem_singleton.mpr hnew, List.nodup_cons.mpr ⟨List.not_mem_nil, List.nodup_nil⟩⟩
  · unfold Environment.bind
    rw [hframes]
  · unfold Environment.bind
    rw [hframes]
    rfl

/-- What was added in a scope is gone with the scope. -/
theorem leave (h : env.enter.Added after added) (hrunning : env.Running) :
    env.SameNames after.leave := by
  obtain ⟨function, scope, scopes, callers, hframes⟩ := hrunning
  obtain ⟨function', scope', scopes', callers', henter, hafter⟩ := h.frames
  have hglobals := h.globals
  unfold Environment.enter at henter hglobals
  rw [hframes] at henter hglobals
  cases henter
  unfold Environment.leave
  rw [hafter]
  exact ⟨hglobals, hframes.symm⟩

/-- What was added in a frame is gone with the frame. -/
theorem popFrame {function : String} (h : (env.pushFrame function).Added after added) :
    env.SameNames after.popFrame := by
  obtain ⟨function', scope, scopes, callers, hpush, hafter⟩ := h.frames
  cases hpush
  refine ⟨h.globals, ?_⟩
  unfold Environment.popFrame
  rw [hafter, List.tail_cons]

end Added

end Environment

/-! ## Runs -/

/-- During a call, a part of a program adds only such names to the innermost scope, and changes
nothing else about names, however it ends. -/
def Exec.AddsOnly (N : String → Prop) (x : Exec σ α) : Prop :=
  ∀ m : Machine σ, m.env.Running →
    ∃ added, m.env.Added (finalState (x m)).env added ∧ ∀ entry ∈ added, N entry.1

namespace Exec.AddsOnly

variable {N : String → Prop}

/-- A part that leaves all names as they were. -/
theorem of_sameNames {x : Exec σ α}
    (h : ∀ m : Machine σ, m.env.Running → m.env.SameNames (finalState (x m)).env) :
    x.AddsOnly N :=
  fun m hm => ⟨[], .of_sameNames (h m hm) hm, nofun⟩

/-- A part that stops early has added what it had declared by then. -/
theorem bind {x : Exec σ α} {f : α → Exec σ β} (hx : x.AddsOnly N) (hf : ∀ a, (f a).AddsOnly N) :
    (x >>= f).AddsOnly N := by
  intro m hm
  obtain ⟨added, hadded, hN⟩ := hx m hm
  rw [EStateM.bind_apply]
  cases hr : x m with
  | error stop m' =>
    rw [hr] at hadded
    exact ⟨added, hadded, hN⟩
  | ok a m' =>
    rw [hr] at hadded
    obtain ⟨added', hadded', hN'⟩ := hf a m' hadded.running
    exact ⟨added' ++ added, hadded.trans hadded', List.forall_mem_append.mpr ⟨hN', hN⟩⟩

/-- A question adds no name. -/
theorem ask (f : Environment → Except RuntimeError α) : (Exec.ask f : Exec σ α).AddsOnly N := by
  refine of_sameNames fun m _ => ?_
  change m.env.SameNames (finalState (Exec.lift (f m.env) m)).env
  cases f m.env <;> exact ⟨rfl, rfl⟩

/-- An effect adds the name that it declares, if it is not refused. -/
theorem effect (ctx : Context σ) {f : Effect} (h : ∀ name ∈ f.declared, N name) :
    (f.run ctx).AddsOnly N := by
  intro m hm
  -- An effect that is refused leaves the environment as it was; otherwise only a declaration adds a
  -- name.
  cases hr : f.run ctx m with
  | error stop m' =>
    obtain ⟨henv, -⟩ := Effect.refuses_of_run hr
    refine ⟨[], .of_sameNames ?_ hm, nofun⟩
    rw [finalState, henv]
    exact ⟨rfl, rfl⟩
  | ok _ m' =>
    have hchanges := Effect.changes_of_run hr
    cases f with
    | declare name T v =>
      obtain ⟨hnew, rfl⟩ := hchanges
      -- Taking new storage for the variable changes no name.
      have hrunning : Environment.Running { m.env with store := (m.env.store.alloc v).2 } := hm
      obtain ⟨hglobals, hframes, hfresh, hnodup⟩ := Environment.Added.bind hrunning hnew
        ⟨⟨m.env.store.cells.size, []⟩, .owned⟩
      exact ⟨_, ⟨hglobals, hframes, hfresh, hnodup⟩,
        List.forall_mem_singleton.mpr (h name List.mem_cons_self)⟩
    | declareAlias name T p =>
      obtain ⟨hnew, rfl⟩ := hchanges
      exact ⟨_, .bind hm hnew _, List.forall_mem_singleton.mpr (h name List.mem_cons_self)⟩
    | write p v =>
      obtain ⟨held, -, rfl⟩ := hchanges
      exact ⟨[], .of_sameNames ⟨rfl, rfl⟩ hm, nofun⟩
    | print p arg =>
      have henv : m'.env = m.env := hchanges
      refine ⟨[], .of_sameNames ?_ hm, nofun⟩
      rw [finalState, henv]
      exact ⟨rfl, rfl⟩
    | checkDepth =>
      obtain rfl : m' = m := hchanges
      exact ⟨[], .of_sameNames ⟨rfl, rfl⟩ hm, nofun⟩

/-- A scope and a frame are left in any case, and with them what was declared there. -/
theorem shielded {k : Enclosure} (hk : k.shields = true) {x : Exec σ α}
    (hx : x.AddsOnly fun _ => True) : (k.around x).AddsOnly N := by
  refine of_sameNames fun m hm => ?_
  rw [k.finalState_around]
  cases k with
  | scope =>
    obtain ⟨added, hadded, -⟩ := hx (Enclosure.scope.enter m) hm.enter
    exact hadded.leave hm
  | frame function =>
    obtain ⟨added, hadded, -⟩ :=
      hx ((Enclosure.frame function).enter m) (m.env.running_pushFrame function)
    exact hadded.popFrame
  | located span => cases hk

/-- Noting a place in the source adds no name. -/
theorem located {span : Span} {x : Exec σ α} (hx : x.AddsOnly N) :
    ((Enclosure.located span).around x).AddsOnly N := by
  intro m hm
  rw [Enclosure.finalState_around]
  exact hx m hm

end Exec.AddsOnly

/-- A script adds the names that it declares, if its tasks do. -/
theorem Script.addsOnly_run (ctx : Context σ) {perform : (t : Task) → Exec σ t.Result}
    (h : ∀ t, (perform t).AddsOnly (· ∈ t.declared)) (s : Script α) {N : String → Prop}
    (hs : s.Declares N) : (s.run ctx perform).AddsOnly N := by
  induction s generalizing N with
  | done a => exact .of_sameNames fun _ _ => ⟨rfl, rfl⟩
  | fail e => exact .of_sameNames fun _ _ => ⟨rfl, rfl⟩
  | ask q next ih => exact .bind (.ask _) fun b => ih b (hs b)
  | act f next ih => exact .bind (.effect ctx hs.1) fun _ => ih hs.2
  | perform t next ih =>
    refine .bind (fun m hm => ?_) fun r => ih r (hs.2 r)
    obtain ⟨added, hadded, hN⟩ := h t m hm
    exact ⟨added, hadded, fun entry hentry => hs.1 _ (hN entry hentry)⟩
  | within k inner next ihi ih =>
    refine .bind ?_ fun b => ih b (hs.2 b)
    -- Only a place in the source lets names through.
    cases k with
    | located span => exact .located (ihi (hs.1 rfl))
    | _ => exact .shielded rfl (ihi (.any inner))

/-- A task adds the names that it declares to the innermost scope, and changes nothing else about
names. -/
theorem Task.addsOnly_run (ctx : Context σ) (fuel : Nat) (t : Task) :
    (t.run ctx fuel).AddsOnly (· ∈ t.declared) := by
  induction fuel generalizing t with
  | zero =>
    rw [Task.run_zero]
    exact .of_sameNames fun _ _ => ⟨rfl, rfl⟩
  | succ fuel ih =>
    rw [Task.run_succ]
    exact Script.addsOnly_run ctx ih (t.script ctx) (t.script_declares ctx)

/-- During a call, evaluating an expression leaves all names as they were, and executing a statement
adds at most the names that it declares to the innermost scope of the call, whether they come to a
result or fail. Every frame has the scope of its parameters: a call makes it, and leaving a block
keeps it. -/
theorem names_kept_of_depth (ctx : Context σ) (fuel : Nat) {m : Machine σ}
    (hscopes : ∀ frame ∈ m.env.frames, frame.scopes ≠ []) (hdepth : 0 < m.env.depth) :
    (∀ e, m.env.SameNames (finalState (Exec.eval ctx fuel e m)).env) ∧
      ∀ s, ∃ added, m.env.Added (finalState (Exec.exec ctx fuel s m)).env added ∧
        (∀ entry ∈ added, entry.1 ∈ s.declared) ∧
        ((∀ decls span, s ≠ .declare decls span) → added = []) := by
  have hm := Environment.running_of_depth hscopes hdepth
  refine ⟨fun e => ?_, fun s => ?_⟩
  · -- An expression declares no names.
    obtain ⟨added, hadded, hN⟩ := Task.addsOnly_run ctx fuel (.eval e) m hm
    obtain rfl : added = [] := List.eq_nil_iff_forall_not_mem.mpr fun entry hentry =>
      absurd (hN entry hentry) List.not_mem_nil
    exact hadded.sameNames
  · obtain ⟨added, hadded, hN⟩ := Task.addsOnly_run ctx fuel (.exec s) m hm
    refine ⟨added, hadded, hN, fun hs => List.eq_nil_iff_forall_not_mem.mpr fun entry hentry => ?_⟩
    have hname : entry.1 ∈ s.declared := hN entry hentry
    cases s with
    | declare decls span => exact hs decls span rfl
    | _ => cases hname

/-- A machine in a call with the variable `b`. -/
def callWithB : Machine (Array Event) :=
  ⟨⟨⟨#[.int 7]⟩, [], [⟨"main", [[("b", ⟨⟨0, []⟩, .owned⟩)]]⟩]⟩, #[]⟩

/-- The statement `int a = b, b = a;`. -/
def declareAB : Statement :=
  let name (id : String) : Expr := .name id ⟨0, 0⟩
  .declare [⟨"a", .int, false, some (.expr (name "b")), ⟨0, 0⟩⟩,
    ⟨"b", .int, false, some (.expr (name "a")), ⟨0, 0⟩⟩] ⟨0, 0⟩

/-- The second declaration fails; what the first has added to the scope stays. -/
theorem names_kept_callWithB :
    let ctx : Context (Array Event) := ⟨TypeTable.empty, FunctionTable.empty, {}, Sink.recording⟩
    let after := (finalState (Exec.exec ctx 10 declareAB callWithB)).env
    (∀ frame ∈ callWithB.env.frames, frame.scopes ≠ []) ∧ 0 < callWithB.env.depth ∧
      (∃ added, callWithB.env.Added after added ∧ ∀ entry ∈ added, entry.1 ∈ declareAB.declared) ∧
      after.frames = [⟨"main",
        [[("a", ⟨⟨1, []⟩, .owned⟩), ("b", ⟨⟨0, []⟩, .owned⟩)]]⟩] := by
  intro ctx after
  have hscopes : ∀ frame ∈ callWithB.env.frames, frame.scopes ≠ [] := by decide
  obtain ⟨added, hadded, hnames, -⟩ :=
    (names_kept_of_depth ctx 10 hscopes (by decide)).2 declareAB
  exact ⟨hscopes, by decide, ⟨added, hadded, hnames⟩, by decide +kernel⟩

end SmallCpp
