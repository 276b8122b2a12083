import SmallCpp.Proofs.Effect
import SmallCpp.Proofs.History

/-!
# Runs that are cut short

Of two runs of one program, the first may be stopped by what does not stop the second: fewer steps,
a limit on the calls, a sink that refuses an event. Up to that point they go in step. `Cutoff`
bundles what has to be shown of two such runs, and `Cutoff.cutShort_execute` says that then the
first ends like the second or is cut short. What holds where it was cut still holds wherever the
second run goes on to, by `Context.Keeps`.

The first use is the bound on the steps itself: a run that ends within its bound is the same under
every larger one (`Program.run_of_le`).
-/

namespace SmallCpp

variable {σ τ α β : Type}

/-! ## What lasts to the end of a run -/

/-- What no effect and no enclosure puts an end to. -/
structure Context.Keeps (ctx : Context σ) (P : Machine σ → Prop) : Prop where
  effect : ∀ {m} (f : Effect), P m → P (finalState (f.run ctx m))
  enter : ∀ {m} (k : Enclosure), P m → P (k.enter m)
  leave : ∀ {m} (k : Enclosure), P m → P (k.leave m)

namespace Context.Keeps

variable {ctx : Context σ} {P : Machine σ → Prop}

/-- What lasts through two parts lasts through one after the other. -/
theorem bind {x : Exec σ α} {f : α → Exec σ β} {m : Machine σ} (hx : P (finalState (x m)))
    (hf : ∀ a m', P m' → P (finalState (f a m'))) : P (finalState ((x >>= f) m)) := by
  rw [EStateM.bind_apply]
  cases hr : x m with
  | ok a m' =>
    rw [hr] at hx
    exact hf a m' hx
  | error stop m' =>
    rw [hr] at hx
    exact hx

/-- A script keeps what its steps keep, if its tasks do. -/
theorem script (h : ctx.Keeps P) {perform : (t : Task) → Exec σ t.Result}
    (hperform : ∀ t m, P m → P (finalState (perform t m))) (s : Script α) (m : Machine σ)
    (hm : P m) : P (finalState (s.run ctx perform m)) := by
  induction s generalizing m with
  | done a => exact hm
  | fail e => exact hm
  | ask q next ih =>
    refine bind ?_ fun b m' hm' => ih b m' hm'
    rw [Exec.ask]
    cases q.answer m.env <;> exact hm
  | act f next ih => exact bind (h.effect f hm) fun _ m' hm' => ih m' hm'
  | perform t next ih => exact bind (hperform t m hm) fun r m' hm' => ih r m' hm'
  | within k inner next ihi ih =>
    refine bind ?_ fun b m' hm' => ih b m' hm'
    rw [Enclosure.finalState_around]
    exact h.leave k (ihi _ (h.enter k hm))

/-- A task keeps what its steps keep. -/
theorem task (h : ctx.Keeps P) (fuel : Nat) (t : Task) (m : Machine σ) (hm : P m) :
    P (finalState (t.run ctx fuel m)) := by
  induction fuel generalizing t m with
  | zero =>
    rw [Task.run_zero]
    exact hm
  | succ fuel ih =>
    rw [Task.run_succ]
    exact h.script ih (t.script ctx) m hm

/-- A property of the sink's state lasts if the sink keeps it with every event. -/
theorem of_sink {P : σ → Prop} (hok : ∀ event s s', ctx.sink.emit event s = .ok () s' → P s → P s')
    (herr : ∀ event s reason s', ctx.sink.emit event s = .error reason s' → P s → P s') :
    ctx.Keeps fun m => P m.sink := by
  refine ⟨fun {m} f hm => ?_, fun k hm => ?_, fun k hm => ?_⟩
  · cases f with
    | print p arg =>
      -- Only here the sink is asked, and only if the argument can be printed.
      rw [Effect.run_print_apply, Primitive.invoke]
      cases p.event arg with
      | error e => exact hm
      | ok event =>
        dsimp only
        cases hemit : ctx.sink.emit event m.sink with
        | ok _ s => exact hok event m.sink s hemit hm
        | error reason s => exact herr event m.sink reason s hemit hm
    | _ =>
      rw [Effect.run_silent rfl]
      split <;> exact hm
  · cases k <;> exact hm
  · cases k <;> exact hm

end Context.Keeps

/-! ## One program in two contexts -/

/-- Two contexts of one program, which may differ in the limit on calls and in the sink. -/
structure Context.SameProgram (ctx : Context σ) (ctx' : Context τ) : Prop where
  types : ctx.types = ctx'.types
  functions : ctx.functions = ctx'.functions
  entry : ctx.options.entry = ctx'.options.entry

/-- Neither the limit on calls nor the sink is read by what a task does. -/
theorem Context.SameProgram.script_eq {ctx : Context σ} {ctx' : Context τ}
    (h : ctx.SameProgram ctx') (t : Task) : t.script ctx = t.script ctx' := by
  cases t with
  | call callee args => simp only [Task.script, Script.call, h.functions]
  | invoke entry args => simp only [Task.script, Script.invoke, h.entry]
  | declareVar decl => simp only [Task.script, Script.declareVar, h.types]
  | _ => rfl

/-- Neither the limit on calls nor the sink is read by what the program does. -/
theorem Context.SameProgram.programScript_eq {ctx : Context σ} {ctx' : Context τ}
    (h : ctx.SameProgram ctx') (p : Program) : p.script ctx = p.script ctx' := by
  simp only [Program.script, h.functions, h.entry]

/-- Whether a program can start depends neither on the options nor on the sink. -/
theorem Program.context_cases (p : Program) :
    (∃ stop, ∀ (σ : Type) (options : RunOptions) (sink : Sink σ),
      p.context options sink = .error stop) ∨
    ∃ types functions, ∀ (σ : Type) (options : RunOptions) (sink : Sink σ),
      p.context options sink = .ok ⟨types, functions, options, sink⟩ := by
  cases htypes : TypeTable.empty.defineAll p.records with
  | error stop =>
    refine .inl ⟨stop, fun σ options sink => ?_⟩
    rw [context, htypes]
    rfl
  | ok types =>
    cases hbuild : FunctionTable.build types p with
    | error e =>
      refine .inl ⟨.fault e none, fun σ options sink => ?_⟩
      rw [context, htypes]
      dsimp only [bind, Except.bind]
      rw [hbuild]
    | ok functions =>
      refine .inr ⟨types, functions, fun σ options sink => ?_⟩
      rw [context, htypes]
      dsimp only [bind, Except.bind]
      rw [hbuild]
      rfl

/-! ## Two runs, the first of which may be cut short -/

/-- The first part ends like the second, in machines that `R` relates, or it is cut short by a stop.
Then `C` relates the stop and the machine to where the second part ends. -/
inductive CutShort (R : Machine σ → Machine τ → Prop) (C : Stop → Machine σ → Machine τ → Prop) :
    EStateM.Result Stop (Machine σ) α → EStateM.Result Stop (Machine τ) α → Prop
  | ok {a : α} {m : Machine σ} {m' : Machine τ} (h : R m m') : CutShort R C (.ok a m) (.ok a m')
  | error {stop : Stop} {m : Machine σ} {m' : Machine τ} (h : R m m') :
    CutShort R C (.error stop m) (.error stop m')
  | cut {stop : Stop} {m : Machine σ} {r' : EStateM.Result Stop (Machine τ) α}
    (h : C stop m (finalState r')) : CutShort R C (.error stop m) r'

namespace CutShort

variable {R : Machine σ → Machine τ → Prop} {C : Stop → Machine σ → Machine τ → Prop}
  {m : Machine σ} {m' : Machine τ}

/-- A part is cut short nowhere if it is the same. -/
theorem refl {C : Stop → Machine σ → Machine σ → Prop} (r : EStateM.Result Stop (Machine σ) α) :
    CutShort Eq C r r := by
  cases r with
  | ok a m => exact .ok rfl
  | error stop m => exact .error rfl

/-- One part after another; once the first run is cut short, the second goes on alone. -/
theorem bind {x : Exec σ α} {x' : Exec τ α} {f : α → Exec σ β} {f' : α → Exec τ β}
    (hx : CutShort R C (x m) (x' m')) (hf : ∀ a n n', R n n' → CutShort R C (f a n) (f' a n'))
    (hgo : ∀ a stop n n', C stop n n' → C stop n (finalState (f' a n'))) :
    CutShort R C ((x >>= f) m) ((x' >>= f') m') := by
  rw [EStateM.bind_apply]
  generalize x m = r at hx
  cases hr' : x' m' with
  | ok a n' =>
    rw [EStateM.bind_apply, hr']
    rw [hr'] at hx
    cases hx with
    | ok h => exact hf _ _ _ h
    | cut h => exact .cut (hgo _ _ _ _ h)
  | error stop n' =>
    rw [EStateM.bind_apply, hr']
    rw [hr'] at hx
    cases hx with
    | error h => exact .error h
    | cut h => exact .cut h

/-- A part in an enclosure, which both runs leave in any case. -/
theorem around {k : Enclosure} {x : Exec σ α} {x' : Exec τ α}
    (hx : CutShort R C (x (k.enter m)) (x' (k.enter m')))
    (hleave : ∀ n n', R n n' → R (k.leave n) (k.leave n'))
    (hmark : ∀ stop n n', C stop n n' → C (k.mark stop) (k.leave n) (k.leave n')) :
    CutShort R C (k.around x m) (k.around x' m') := by
  have hfinal := k.finalState_around x' m'
  rw [Enclosure.around_apply] at hfinal ⊢
  rw [Enclosure.around_apply]
  generalize x (k.enter m) = r at hx
  generalize x' (k.enter m') = r' at hx hfinal
  cases hx with
  | ok h => exact .ok (hleave _ _ h)
  | error h => exact .error (hleave _ _ h)
  | cut h =>
    refine .cut ?_
    rw [hfinal]
    exact hmark _ _ _ h

end CutShort

/-- What keeps two runs of a program in step, unless the first is cut short. -/
structure Cutoff (ctx : Context σ) (ctx' : Context τ) where
  /-- How the machines are related while both runs go on. -/
  rel : Machine σ → Machine τ → Prop
  /-- The first run was cut short by a stop here, and the second has come there. -/
  cut : Stop → Machine σ → Machine τ → Prop
  same : ctx.SameProgram ctx'
  answer_eq : ∀ {m m'} {α : Type} (q : Query α), rel m m' → q.answer m.env = q.answer m'.env
  effect : ∀ {m m'} (f : Effect), rel m m' → CutShort rel cut (f.run ctx m) (f.run ctx' m')
  enter : ∀ {m m'} (k : Enclosure), rel m m' → rel (k.enter m) (k.enter m')
  leave : ∀ {m m'} (k : Enclosure), rel m m' → rel (k.leave m) (k.leave m')
  mark : ∀ {stop m m'} (k : Enclosure), cut stop m m' → cut (k.mark stop) (k.leave m) m'
  keeps : ∀ stop m, ctx'.Keeps (cut stop m)

namespace Cutoff

variable {ctx : Context σ} {ctx' : Context τ} (L : Cutoff ctx ctx')

/-- A script ends alike in both runs or is cut short in the first, if this holds of the tasks that
it hands on. -/
theorem cutShort_script {perform : (t : Task) → Exec σ t.Result}
    {perform' : (t : Task) → Exec τ t.Result}
    (h : ∀ t m m', L.rel m m' → CutShort L.rel L.cut (perform t m) (perform' t m'))
    (hkeeps : ∀ stop n t m', L.cut stop n m' → L.cut stop n (finalState (perform' t m')))
    (s : Script α) {m : Machine σ} {m' : Machine τ} (hm : L.rel m m') :
    CutShort L.rel L.cut (s.run ctx perform m) (s.run ctx' perform' m') := by
  -- What follows a step of the second run keeps the cut of the first.
  have hgo : ∀ {β : Type} (s : Script β) stop n n', L.cut stop n n' →
      L.cut stop n (finalState (s.run ctx' perform' n')) := fun s stop n n' =>
    (L.keeps stop n).script (hkeeps stop n) s n'
  induction s generalizing m m' with
  | done a => exact .ok hm
  | fail e => exact .error hm
  | ask q next ih =>
    refine .bind ?_ (fun b n n' hn => ih b hn) fun b => hgo (next b)
    rw [Exec.ask, Exec.ask, L.answer_eq q hm]
    cases q.answer m'.env with
    | ok b => exact .ok hm
    | error e => exact .error hm
  | act f next ih => exact .bind (L.effect f hm) (fun _ n n' hn => ih hn) fun _ => hgo next
  | perform t next ih =>
    exact .bind (h t m m' hm) (fun r n n' hn => ih r hn) fun r => hgo (next r)
  | within k inner next ihi ih =>
    refine .bind (.around (ihi (L.enter k hm)) (fun n n' hn => L.leave k hn) ?_)
      (fun b n n' hn => ih b hn) fun b => hgo (next b)
    exact fun stop n n' hn => (L.keeps _ _).leave k (L.mark k hn)

/-- A task ends alike in both runs, or is cut short in the first. Fewer steps may cut it short as
well. -/
theorem cutShort_run {fuel fuel' : Nat} (hle : fuel ≤ fuel')
    (hfuel : fuel = fuel' ∨ ∀ m m', L.rel m m' → L.cut .outOfFuel m m') (t : Task)
    {m : Machine σ} {m' : Machine τ} (hm : L.rel m m') :
    CutShort L.rel L.cut (t.run ctx fuel m) (t.run ctx' fuel' m') := by
  induction fuel generalizing fuel' t m m' with
  | zero =>
    rw [Task.run_zero]
    rcases hfuel with rfl | hfuel
    · rw [Task.run_zero]
      exact .error hm
    · exact .cut ((L.keeps _ _).task fuel' t m' (hfuel m m' hm))
  | succ fuel ih =>
    obtain ⟨n, rfl⟩ : ∃ n, fuel' = n + 1 := ⟨fuel' - 1, by omega⟩
    have hfuel' : fuel = n ∨ ∀ m m', L.rel m m' → L.cut .outOfFuel m m' :=
      hfuel.imp_left Nat.succ.inj
    rw [Task.run_succ, Task.run_succ, ← L.same.script_eq t]
    refine L.cutShort_script (fun t m m' hm => ih (by omega) hfuel' t hm) ?_ (t.script ctx) hm
    exact fun stop m t => (L.keeps stop m).task n t

/-- A program ends alike in both runs, or is cut short in the first. -/
theorem cutShort_execute (p : Program) {fuel fuel' : Nat} (hle : fuel ≤ fuel')
    (hfuel : fuel = fuel' ∨ ∀ m m', L.rel m m' → L.cut .outOfFuel m m')
    {m : Machine σ} {m' : Machine τ} (hm : L.rel m m') :
    CutShort L.rel L.cut (p.execute ctx fuel m) (p.execute ctx' fuel' m') := by
  rw [Program.execute_eq, Program.execute_eq, ← L.same.programScript_eq p]
  refine L.cutShort_script (fun t m m' hm => L.cutShort_run hle hfuel t hm) ?_ (p.script ctx) hm
  exact fun stop m t => (L.keeps stop m).task fuel' t

/-- Two runs of a program end alike, or the first is cut short. -/
theorem run_cases {p : Program} {options options' : RunOptions} {sink : Sink σ} {sink' : Sink τ}
    (hctx : p.context options sink = .ok ctx) (hctx' : p.context options' sink' = .ok ctx')
    {fuel fuel' : Nat} (hle : fuel ≤ fuel')
    (hfuel : fuel = fuel' ∨ ∀ m m', L.rel m m' → L.cut .outOfFuel m m') {s : σ} {s' : τ}
    (hs : L.rel ⟨Environment.empty, s⟩ ⟨Environment.empty, s'⟩) :
    (∃ result m m', L.rel m m' ∧ p.run options sink fuel s = (result, m.sink) ∧
      p.run options' sink' fuel' s' = (result, m'.sink)) ∨
    ∃ stop m result m', L.cut stop m m' ∧ p.run options sink fuel s = (.error stop, m.sink) ∧
      p.run options' sink' fuel' s' = (result, m'.sink) := by
  have hcut := L.cutShort_execute p hle hfuel hs
  rw [Program.run, Program.run, hctx, hctx']
  dsimp only
  generalize p.execute ctx fuel ⟨Environment.empty, s⟩ = r at hcut
  generalize p.execute ctx' fuel' ⟨Environment.empty, s'⟩ = r' at hcut
  cases hcut with
  | ok h => exact .inl ⟨_, _, _, h, rfl, rfl⟩
  | error h => exact .inl ⟨_, _, _, h, rfl, rfl⟩
  | cut h => cases r' <;> exact .inr ⟨_, _, _, _, h, rfl, rfl⟩

end Cutoff

/-! ## More steps -/

/-- Two runs that differ only in the bound on the steps. -/
def fewerSteps (ctx : Context σ) : Cutoff ctx ctx where
  rel := Eq
  cut stop _ _ := stop = .outOfFuel
  same := ⟨rfl, rfl, rfl⟩
  answer_eq q h := h ▸ rfl
  effect f h := h ▸ .refl _
  enter k h := h ▸ rfl
  leave k h := h ▸ rfl
  mark k h := by
    subst h
    cases k <;> rfl
  keeps _ _ := ⟨fun _ => id, fun _ => id, fun _ => id⟩

/-- A task that ends within its bound on the steps ends alike under every larger bound. -/
theorem Task.run_of_le (t : Task) {ctx : Context σ} {fuel fuel' : Nat} {m : Machine σ}
    (hle : fuel ≤ fuel') (hends : ∀ m', t.run ctx fuel m ≠ .error .outOfFuel m') :
    t.run ctx fuel' m = t.run ctx fuel m := by
  have hcut := (fewerSteps ctx).cutShort_run hle (.inr fun _ _ _ => rfl) t (Eq.refl m)
  generalize t.run ctx fuel m = r at hcut hends
  generalize t.run ctx fuel' m = r' at hcut
  cases hcut with
  | ok h => exact congrArg _ h.symm
  | error h => exact congrArg _ h.symm
  | cut h =>
    obtain rfl := h
    exact absurd rfl (hends _)

/-- A task that comes to a result comes to it with more steps, too. -/
theorem Task.run_ok_of_le {t : Task} {ctx : Context σ} {fuel fuel' : Nat} {m m' : Machine σ}
    {r : t.Result} (h : t.run ctx fuel m = .ok r m') (hle : fuel ≤ fuel') :
    t.run ctx fuel' m = .ok r m' := by
  rw [t.run_of_le hle, h]
  intro m'' hends
  rw [h] at hends
  cases hends

/-- An expression that comes to a value comes to it with more steps, too. -/
theorem Exec.eval_ok_of_le {e : Expr} {ctx : Context σ} {fuel fuel' : Nat} {m m' : Machine σ}
    {v : Value} (h : eval ctx fuel e m = .ok v m') (hle : fuel ≤ fuel') :
    eval ctx fuel' e m = .ok v m' :=
  Task.run_ok_of_le (t := .eval e) h hle

/-- A run that ends within its bound on the steps is the same under every larger bound. -/
theorem Program.run_of_le (p : Program) (options : RunOptions) (sink : Sink σ) (s : σ)
    {fuel fuel' : Nat} (hle : fuel ≤ fuel')
    (hends : (p.run options sink fuel s).1 ≠ .error .outOfFuel) :
    p.run options sink fuel' s = p.run options sink fuel s := by
  cases hctx : p.context options sink with
  | error stop => rw [run, run, hctx]
  | ok ctx =>
    rcases (fewerSteps ctx).run_cases hctx hctx hle (.inr fun _ _ _ => rfl) (s := s) rfl with
      ⟨result, m, _, rfl, hrun, hrun'⟩ | ⟨_, m, result, m', rfl, hrun, hrun'⟩
    · rw [hrun, hrun']
    · rw [hrun] at hends
      exact absurd rfl hends

end SmallCpp
