import SmallCpp.Proofs.CallDepth
import SmallCpp.Proofs.FunctionTable

/-!
# Termination without loops

A program without `while` can run forever only by calling ever deeper, so under a limit on the calls
it comes to an end (`ends_of_loopFree`). Within one call every task is handed on by a heavier one:
it works on a part of the other's syntax (`Task.Hands.weight_lt`). A call starts again with a whole
body, but below a limit of `n` there are at most `n` bodies inside each other. So the steps are
bounded by the weight of a task and `n` times that of the heaviest body, whatever the entry function
and the sink.
-/

namespace SmallCpp

variable {σ α β : Type}

/-! ## Programs without loops -/

mutual

/-- Whether a loop stands somewhere in the statement. -/
def Statement.loops : Statement → Bool
  | .loop .. => true
  | .ifThen _ thenBranch _ => thenBranch.loops
  | .ifElse _ thenBranch elseBranch _ => thenBranch.loops || elseBranch.loops
  | .block body _ => Statement.loopsIn body
  | .declare .. | .expr .. | .ret .. | .empty _ => false

/-- Whether a loop stands somewhere in the statements. -/
def Statement.loopsIn : List Statement → Bool
  | [] => false
  | s :: ss => s.loops || Statement.loopsIn ss

end

/-- No body of the program has a loop. -/
def Program.LoopFree (p : Program) : Prop :=
  ∀ decl ∈ p.functions, ∀ body ∈ decl.body, Statement.loopsIn body.statements = false

instance (p : Program) : Decidable p.LoopFree :=
  inferInstanceAs (Decidable (∀ decl ∈ p.functions, ∀ body ∈ decl.body,
    Statement.loopsIn body.statements = false))

/-! ## Weights -/

mutual

/-- How deeply an expression is nested. -/
def Expr.height : Expr → Nat
  | .literal .. | .name .. => 0
  | .binary _ left right _ => max left.height right.height + 1
  | .unary _ operand _ => operand.height + 1
  | .assign _ target value _ => max target.height value.height + 1
  | .step _ _ target _ => target.height + 1
  | .call _ _ args _ => Expr.heights args + 1
  | .index base subscript _ => max base.height subscript.height + 1
  | .field base _ _ => base.height + 1

/-- How deeply a list of expressions is nested; the rest of a list lies inside it. -/
def Expr.heights : List Expr → Nat
  | [] => 0
  | e :: es => max e.height (Expr.heights es) + 1

end

mutual

/-- How deeply an initializer is nested. -/
def Initializer.height : Initializer → Nat
  | .expr e => e.height + 1
  | .list items _ => Initializer.heights items + 1

/-- How deeply a list of initializers is nested. -/
def Initializer.heights : List Initializer → Nat
  | [] => 0
  | item :: items => max item.height (Initializer.heights items) + 1

end

/-- How deeply a declaration is nested. -/
def VarDecl.height (decl : VarDecl) : Nat :=
  match decl.init with
  | some init => init.height + 1
  | none => 0

/-- How deeply a list of declarations is nested. -/
def VarDecl.heights : List VarDecl → Nat
  | [] => 0
  | decl :: decls => max decl.height (VarDecl.heights decls) + 1

mutual

/-- How deeply a statement is nested. -/
def Statement.height : Statement → Nat
  | .declare decls _ => VarDecl.heights decls + 1
  | .expr e _ | .ret (some e) _ => e.height + 1
  | .ifThen cond thenBranch _ => max cond.height thenBranch.height + 1
  | .ifElse cond thenBranch elseBranch _ =>
    max cond.height (max thenBranch.height elseBranch.height) + 1
  | .loop cond body _ => max cond.height body.height + 1
  | .ret none _ | .empty _ => 0
  | .block body _ => Statement.heights body + 1

/-- How deeply a list of statements is nested. -/
def Statement.heights : List Statement → Nat
  | [] => 0
  | s :: ss => max s.height (Statement.heights ss) + 1

end

/-- A bound on the nested steps that a task makes before the next call. Twice the height leaves room
for the tasks that work on the same piece of syntax. -/
def Task.weight : Task → Nat
  | eval e => 2 * e.height + 1
  | place e => 2 * e.height
  | call _ args => 2 * Expr.heights args + 2
  | arguments _ _ args => 2 * Expr.heights args + 1
  | argument _ _ arg => 2 * arg.height + 2
  -- The body of a call is not counted here.
  | invoke .. => 1
  | build init _ => 2 * init.height + 1
  | buildElems items _ | buildFields items _ => 2 * Initializer.heights items
  | declareVar decl => 2 * decl.height
  | declareVars decls => 2 * VarDecl.heights decls
  | exec s => 2 * s.height
  | repeatWhile .. => 0
  | execAll ss => 2 * Statement.heights ss

/-- A body has no loop and weighs at most `bound`. -/
def FunctionEntry.Bounded (bound : Nat) (entry : FunctionEntry) : Prop :=
  ∀ body ∈ entry.body, Statement.loopsIn body.statements = false ∧
    (Task.execAll body.statements).weight ≤ bound

/-- A task has no loop, and if it is a call, its body is bounded. -/
def Task.Bounded (bound : Nat) : Task → Prop
  | exec s => s.loops = false
  | execAll ss => Statement.loopsIn ss = false
  | repeatWhile .. => False
  | invoke entry _ => entry.Bounded bound
  | _ => True

/-- The bodies of all functions are bounded. -/
def FunctionTable.Bounded (bound : Nat) (functions : FunctionTable) : Prop :=
  ∀ name entry, functions.get name = .ok entry → entry.Bounded bound

namespace Task.Hands

variable {functions : FunctionTable} {t u : Task} {bound : Nat}

/-- Within a call, what is handed on is lighter. -/
theorem weight_lt (h : t.Hands functions u) (ht : t.Bounded bound)
    (hcall : ∀ entry args, t ≠ .invoke entry args) : u.weight < t.weight := by
  cases h with
  | invokeBody h => exact absurd rfl (hcall _ _)
  | declarePlace h =>
    simp only [weight, VarDecl.height, h, Initializer.height]
    omega
  | declareInit h =>
    simp only [weight, VarDecl.height, h]
    omega
  -- A round of a loop hands on the next one, which is no lighter: here the bound is needed.
  | roundCond | roundBody | roundNext => exact absurd ht id
  | execLoop => cases ht
  | _ =>
    simp only [weight, Expr.height, Expr.heights, Initializer.height, Initializer.heights,
      VarDecl.heights, Statement.height, Statement.heights]
    omega

/-- What a bounded task hands on is bounded. -/
theorem bounded (h : t.Hands functions u) (ht : t.Bounded bound)
    (hfunctions : functions.Bounded bound) : u.Bounded bound := by
  cases h with
  | callInvoke h => exact hfunctions _ _ h
  | invokeBody h => exact (ht _ h).1
  | ifThenBody | execBlock => exact ht
  | ifElseThen => exact (Bool.or_eq_false_iff.mp ht).1
  | ifElseElse => exact (Bool.or_eq_false_iff.mp ht).2
  | allHead => exact (Bool.or_eq_false_iff.mp ht).1
  | allTail => exact (Bool.or_eq_false_iff.mp ht).2
  | execLoop => cases ht
  | roundBody | roundNext => exact absurd ht id
  | _ => trivial

end Task.Hands

/-! ## Runs that finish -/

/-- From every machine with `d` running calls a part comes to a result, with as many calls as
before, or stops by an error. -/
def Exec.Finishes (d : Nat) (x : Exec σ α) : Prop :=
  ∀ m, m.env.depth = d →
    match x m with
    | .ok _ m' => m'.env.depth = d
    | .error stop _ => stop ≠ .outOfFuel

namespace Exec.Finishes

variable {d : Nat} {x : Exec σ α}

/-- One part after another, with as many calls as before between them. -/
theorem bind {f : α → Exec σ β} (hx : x.Finishes d) (hf : ∀ a, (f a).Finishes d) :
    (x >>= f).Finishes d := by
  intro m hm
  have h := hx m hm
  rw [EStateM.bind_apply]
  cases hr : x m with
  | ok a m' =>
    rw [hr] at h
    exact hf a m' h
  | error stop m' =>
    rw [hr] at h
    exact h

/-- A computation without state changes nothing. -/
theorem lift (r : Except RuntimeError α) : (Exec.lift r : Exec σ α).Finishes d := by
  intro m hm
  cases r with
  | ok a => exact hm
  | error e => exact Stop.noConfusion

/-- An enclosure is left with as many calls as there were, if what runs inside keeps their
number. -/
theorem around {k : Enclosure} {d' : Nat} (hx : x.Finishes d')
    (henter : ∀ m : Machine σ, m.env.depth = d → (k.enter m).env.depth = d')
    (hleave : ∀ m : Machine σ, m.env.depth = d' → (k.leave m).env.depth = d) :
    (k.around x).Finishes d := by
  intro m hm
  have h := hx (k.enter m) (henter m hm)
  rw [Enclosure.around_apply]
  cases hr : x (k.enter m) with
  | ok a m' =>
    rw [hr] at h
    exact hleave m' h
  | error stop m' =>
    rw [hr] at h
    cases stop with
    | outOfFuel => exact absurd rfl h
    | fault e span =>
      dsimp only
      rw [k.mark_fault]
      exact Stop.noConfusion

/-- An effect takes no steps, and starts no call. -/
theorem effect (ctx : Context σ) (f : Effect) : (f.run ctx).Finishes d := by
  intro m hm
  cases hr : f.run ctx m with
  | ok _ m' => exact (Effect.changes_of_run hr).depth_eq.trans hm
  | error stop m' =>
    obtain ⟨-, e, rfl, -⟩ := Effect.refuses_of_run hr
    exact Stop.noConfusion

/-- A script that opens no frame finishes if the tasks that it hands on do. -/
theorem of_shaped {ctx : Context σ} {perform : (t : Task) → Exec σ t.Result} {T : Task → Prop}
    (hperform : ∀ t, T t → (perform t).Finishes d) {s : Script α}
    (hs : s.Shaped Enclosure.Local T) : (s.run ctx perform).Finishes d := by
  induction s with
  | done a => exact lift (.ok a)
  | fail e => exact lift (.error e)
  | ask q next ih => exact bind (fun m => lift (q.answer m.env) m) fun b => ih b (hs b)
  | act f next ih => exact bind (effect ctx f) fun _ => ih hs
  | perform t next ih => exact bind (hperform t hs.1) fun r => ih r (hs.2 r)
  | within k inner next ihi ih =>
    refine bind (around (ihi hs.2.1) ?_ ?_) fun b => ih b (hs.2.2 b)
    · exact fun m hm => (hs.1.depth_enter m).trans hm
    · exact fun m hm => (hs.1.depth_leave m).trans hm

/-- A call finishes if its body does, one call deeper and below the limit. -/
theorem invoke {ctx : Context σ} {perform : (t : Task) → Exec σ t.Result} {n : Nat}
    (hlimit : ctx.options.maxCallDepth = some n) {entry : FunctionEntry} (args : List Argument)
    (hbody : d < n → ∀ body ∈ entry.body,
      (perform (.execAll body.statements)).Finishes (d + 1)) :
    ((Script.invoke ctx entry args).run ctx perform).Finishes d := by
  intro m hm
  rw [Script.invoke]
  cases hentry : entry.body with
  | none => exact Stop.noConfusion
  | some body =>
    dsimp only
    rw [Script.run_bind, EStateM.bind_apply, Script.run_effect, Effect.run_checkDepth, hlimit]
    dsimp only
    split_ifs with hfull
    · exact Stop.noConfusion
    · -- There is room for the call.
      have hroom : d < n := by omega
      have hinner : ((do
          Script.declareArguments entry.signature.params args
          Script.task (.execAll body.statements)).run ctx perform).Finishes (d + 1) := by
        refine of_shaped (T := fun t => t = .execAll body.statements) ?_
          (.bind (Script.shaped_declareArguments _ _) fun _ => .task rfl)
        rintro t rfl
        exact hbody hroom body hentry
      rw [Script.run_bind]
      refine bind ?_ (fun flow => ?_) m hm
      · rw [Script.run_enclosed]
        refine around hinner (fun m hm => ?_) fun m hm => ?_
        · rw [Enclosure.depth_enter_frame, hm]
        · rw [Enclosure.depth_leave_frame, hm]
          rfl
      · rw [Script.run_lift]
        exact lift _

end Exec.Finishes

/-- A task without loops finishes within its weight and the weight of as many bodies as may still be
called inside each other. -/
theorem Task.finishes_run {ctx : Context σ} {n bound : Nat}
    (hlimit : ctx.options.maxCallDepth = some n) (hfunctions : ctx.functions.Bounded bound)
    {fuel d : Nat} {t : Task} (ht : t.Bounded bound)
    (hfuel : t.weight + (n - d) * (bound + 1) < fuel) : (t.run ctx fuel).Finishes d := by
  -- On the steps: what is handed on has one less, and by its weight or its depth needs one less.
  induction fuel generalizing t d with
  | zero => omega
  | succ fuel ih =>
    rw [Task.run_succ]
    -- A call costs one of the bodies; every other task hands on lighter ones.
    by_cases hcall : ∃ entry args, t = .invoke entry args
    · obtain ⟨entry, args, rfl⟩ := hcall
      refine .invoke hlimit args fun hroom body hbody => ih (ht body hbody).1 ?_
      have hweight := (ht body hbody).2
      -- One of the bodies that may still be called pays for this one.
      have hsplit : (n - d) * (bound + 1) = (n - (d + 1)) * (bound + 1) + (bound + 1) := by
        rw [← Nat.succ_mul]
        congr 1
        omega
      rw [weight] at hfuel
      omega
    · rw [not_exists] at hcall
      have hne : ∀ entry args, t ≠ .invoke entry args := fun entry args h => hcall entry ⟨args, h⟩
      refine .of_shaped (T := fun u => u.Bounded bound ∧ u.weight < t.weight) ?_
        ((t.script_shaped ctx).imp (fun k hk => hk.local_of_ne hne) fun u hu =>
          ⟨hu.bounded ht hfunctions, hu.weight_lt ht hne⟩)
      rintro u ⟨hu, hlt⟩
      exact ih hu (by omega)

/-! ## Programs that come to an end -/

/-- The weight of the heaviest body. -/
def FunctionDecl.heaviest : List FunctionDecl → Nat
  | [] => 0
  | decl :: decls =>
    max (decl.body.elim 0 fun body => (Task.execAll body.statements).weight)
      (FunctionDecl.heaviest decls)

/-- No body is heavier than the heaviest. -/
theorem FunctionDecl.le_heaviest {decls : List FunctionDecl} {decl : FunctionDecl} {body : Block}
    (hdecl : decl ∈ decls) (hbody : decl.body = some body) :
    (Task.execAll body.statements).weight ≤ FunctionDecl.heaviest decls := by
  induction decls with
  | nil => exact absurd hdecl List.not_mem_nil
  | cons first rest ih =>
    rw [heaviest]
    rcases List.mem_cons.mp hdecl with rfl | hrest
    · rw [hbody, Option.elim_some]
      exact Nat.le_max_left _ _
    · have hle := ih hrest
      omega

/-- A bound on the nested steps of a program without loops, under a limit on the calls. -/
def Program.runBound (p : Program) (n : Nat) : Nat :=
  (Task.declareVars p.globals).weight + n * (FunctionDecl.heaviest p.functions + 1) + 2

/-- The functions of a program without loops are bounded by the heaviest body. -/
theorem Program.LoopFree.bounded {p : Program} (h : p.LoopFree) {types : TypeTable}
    {functions : FunctionTable} (hbuild : FunctionTable.build types p = .ok functions) :
    functions.Bounded (FunctionDecl.heaviest p.functions) := by
  intro name entry hget body hbody
  have hlists := FunctionTable.lists_build hbuild
  rw [hlists.body_eq name entry (FunctionTable.get_eq_ok_iff.mp hget)] at hbody
  obtain ⟨decl, hdecl, -, hbody⟩ := exists_of_bodyOf? hbody
  exact ⟨h decl hdecl body hbody, FunctionDecl.le_heaviest hdecl hbody⟩

/-- A program without loops finishes. -/
theorem Program.finishes_execute {p : Program} {ctx : Context σ} {n fuel : Nat}
    (hlimit : ctx.options.maxCallDepth = some n)
    (hfunctions : ctx.functions.Bounded (FunctionDecl.heaviest p.functions))
    (hfuel : p.runBound n ≤ fuel) : (p.execute ctx fuel).Finishes 0 := by
  rw [runBound] at hfuel
  rw [execute_eq]
  refine .of_shaped (fun _ => id) (p.script_shaped ctx ?_ fun entry hget => ?_)
  · exact Task.finishes_run hlimit hfunctions trivial (by rw [Nat.sub_zero]; omega)
  · refine Task.finishes_run hlimit hfunctions (hfunctions _ entry hget) ?_
    rw [Nat.sub_zero, Task.weight]
    omega

/-- Under a limit on the calls, a program without loops comes to an end: for every entry function
and every sink there is an outcome, a result or an error, which the run has under every bound on the
steps from `Program.runBound` on. -/
theorem ends_of_loopFree {p : Program} (h : p.LoopFree) (n : Nat) (entry : String) (sink : Sink σ)
    (s : σ) :
    ∃ outcome : Except Stop Int64 × σ, outcome.1 ≠ .error .outOfFuel ∧
      ∀ fuel, p.runBound n ≤ fuel → p.run ⟨entry, some n⟩ sink fuel s = outcome := by
  have hends : (p.run ⟨entry, some n⟩ sink (p.runBound n) s).1 ≠ .error .outOfFuel := by
    rw [Program.run]
    cases hctx : p.context ⟨entry, some n⟩ sink with
    | error stop =>
      rcases p.exists_of_context_error hctx with
        ⟨_, _, _, _, _, -, -, -, rfl⟩ | ⟨_, _, -, -, rfl⟩ <;>
        exact fun heq => Stop.noConfusion (Except.error.inj heq)
    | ok ctx =>
      have hlimit : ctx.options.maxCallDepth = some n := by
        obtain ⟨_, _, -, -, rfl⟩ := p.exists_of_context hctx
        rfl
      have hfunctions : ctx.functions.Bounded (FunctionDecl.heaviest p.functions) := by
        obtain ⟨_, _, -, hbuild, rfl⟩ := p.exists_of_context hctx
        exact h.bounded hbuild
      have hfinishes := p.finishes_execute hlimit hfunctions (Nat.le_refl (p.runBound n))
        ⟨Environment.empty, s⟩ rfl
      dsimp only
      cases hr : p.execute ctx (p.runBound n) ⟨Environment.empty, s⟩ with
      | ok a m =>
        intro heq
        cases heq
      | error stop m =>
        rw [hr] at hfinishes
        exact fun heq => hfinishes (Except.error.inj heq)
  exact ⟨_, hends, fun fuel hfuel => p.run_of_le _ sink s hfuel hends⟩

/-- `countDown`, which calls itself, has no loop and ends with a limit of two calls, in an error. -/
theorem ends_of_loopFree_countDown :
    countDown.LoopFree ∧ ∃ outcome : Except Stop Int64 × Array Event,
      (∀ fuel, countDown.runBound 2 ≤ fuel →
        countDown.run ⟨"main", some 2⟩ Sink.recording fuel #[] = outcome) ∧
      outcome = (.error (.fault (.callDepthExceeded 2) (some ⟨2, 3⟩)), #[.int 2]) := by
  have hfree : countDown.LoopFree := by decide +kernel
  obtain ⟨outcome, -, hruns⟩ := ends_of_loopFree hfree 2 "main" Sink.recording #[]
  refine ⟨hfree, outcome, hruns, ?_⟩
  rw [← hruns (countDown.runBound 2) (Nat.le_refl _)]
  decide +kernel

end SmallCpp
