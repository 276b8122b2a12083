import SmallCpp.Proofs.History

/-!
# Two runs in step

Two runs of the same scripts stay in step as long as their machines are related in a way that all
questions are answered alike, all effects have alike outcomes, and entering and leaving enclosures
keeps the relation. `Lockstep` bundles what has to be shown of such a relation. `Lockstep.keeps`
says that then every task ends alike in both runs; `Lockstep.keeps_of_call` says it of runs in two
contexts, for which calls by name have to be looked at, since they are what a table of functions is
read for.
-/

namespace SmallCpp

variable {σ τ α β W : Type}

/-- Two parts end alike up to a relation between stops: with the same result or by stops that are
related, in machines that are related. -/
inductive AlikeUpTo (K : Stop → Stop → Prop) (R : Machine σ → Machine τ → Prop) :
    EStateM.Result Stop (Machine σ) α → EStateM.Result Stop (Machine τ) α → Prop
  | ok {a : α} {m : Machine σ} {m' : Machine τ} (h : R m m') : AlikeUpTo K R (.ok a m) (.ok a m')
  | error {stop stop' : Stop} {m : Machine σ} {m' : Machine τ} (hstop : K stop stop')
    (h : R m m') : AlikeUpTo K R (.error stop m) (.error stop' m')

/-- Two parts end alike: with the same result or by the same stop, in machines that are related. -/
abbrev Alike (R : Machine σ → Machine τ → Prop) :
    EStateM.Result Stop (Machine σ) α → EStateM.Result Stop (Machine τ) α → Prop :=
  AlikeUpTo Eq R

namespace AlikeUpTo

variable {K : Stop → Stop → Prop} {R : Machine σ → Machine τ → Prop} {m : Machine σ}
  {m' : Machine τ}

/-- Two parts end alike one after the other. -/
theorem bind {x : Exec σ α} {x' : Exec τ α} {f : α → Exec σ β} {f' : α → Exec τ β}
    (hx : AlikeUpTo K R (x m) (x' m')) (hf : ∀ a n n', R n n' → AlikeUpTo K R (f a n) (f' a n')) :
    AlikeUpTo K R ((x >>= f) m) ((x' >>= f') m') := by
  rw [EStateM.bind_apply, EStateM.bind_apply]
  generalize x m = r at hx
  generalize x' m' = r' at hx
  cases hx with
  | ok h => exact hf _ _ _ h
  | error hstop h => exact .error hstop h

/-- The relation between the machines may be weakened. -/
theorem mono {S : Machine σ → Machine τ → Prop} {r : EStateM.Result Stop (Machine σ) α}
    {r' : EStateM.Result Stop (Machine τ) α} (h : AlikeUpTo K R r r')
    (hRS : ∀ n n', R n n' → S n n') : AlikeUpTo K S r r' := by
  cases h with
  | ok h => exact .ok (hRS _ _ h)
  | error hstop h => exact .error hstop (hRS _ _ h)

/-- A part in an enclosure ends alike in both runs if it does so inside. -/
theorem around {S : Machine σ → Machine τ → Prop} {k : Enclosure} {x : Exec σ α} {x' : Exec τ α}
    (hx : AlikeUpTo K S (x (k.enter m)) (x' (k.enter m')))
    (hmark : ∀ stop stop', K stop stop' → K (k.mark stop) (k.mark stop'))
    (hleave : ∀ n n', S n n' → R (k.leave n) (k.leave n')) :
    AlikeUpTo K R (k.around x m) (k.around x' m') := by
  rw [Enclosure.around_apply, Enclosure.around_apply]
  generalize x (k.enter m) = r at hx
  generalize x' (k.enter m') = r' at hx
  cases hx with
  | ok h => exact .ok (hleave _ _ h)
  | error hstop h => exact .error (hmark _ _ hstop) (hleave _ _ h)

end AlikeUpTo

/-- What keeps two runs in step: a relation between their machines, relative to a world that
changes with the enclosures that are entered, and a relation between the stops that may end them. -/
structure Lockstep (ctx : Context σ) (ctx' : Context τ) (W : Type) where
  /-- How the machines are related. -/
  rel : W → Machine σ → Machine τ → Prop
  /-- How the stops are related. -/
  stop : Stop → Stop → Prop
  /-- The world inside an enclosure. -/
  inner : Enclosure → W → W
  stop_refl : ∀ s, stop s s
  stop_mark : ∀ (k : Enclosure) s s', stop s s' → stop (k.mark s) (k.mark s')
  answer_eq : ∀ {w m m'} {α : Type} (q : Query α), rel w m m' → q.answer m.env = q.answer m'.env
  effect : ∀ {w m m'} (f : Effect), rel w m m' →
    AlikeUpTo stop (rel w) (f.run ctx m) (f.run ctx' m')
  enter : ∀ {w m m'} (k : Enclosure), rel w m m' → rel (inner k w) (k.enter m) (k.enter m')
  leave : ∀ {w m m'} (k : Enclosure), rel (inner k w) m m' → rel w (k.leave m) (k.leave m')

/-- Of the context, a script reads the types and the options, or it is that of a call by name. -/
theorem Task.call_or_script_eq {ctx : Context σ} {ctx' : Context τ}
    (htypes : ctx.types = ctx'.types) (hoptions : ctx.options = ctx'.options) (t : Task) :
    (∃ callee args, t = .call callee args) ∨ t.script ctx = t.script ctx' := by
  cases t with
  | call callee args => exact .inl ⟨callee, args, rfl⟩
  | invoke e args =>
    refine .inr ?_
    rw [script, script, Script.invoke, Script.invoke, hoptions]
  | declareVar decl =>
    refine .inr ?_
    rw [script, script, Script.declareVar, Script.declareVar, htypes]
  | _ => exact .inr rfl

namespace Lockstep

section

variable {ctx : Context σ} {ctx' : Context τ} (L : Lockstep ctx ctx' W)

/-- A script ends alike in both runs if the tasks that it hands on do. -/
theorem alike_script {perform : (t : Task) → Exec σ t.Result}
    {perform' : (t : Task) → Exec τ t.Result}
    (h : ∀ t w m m', L.rel w m m' → AlikeUpTo L.stop (L.rel w) (perform t m) (perform' t m'))
    (s : Script α) {w : W} {m : Machine σ} {m' : Machine τ} (hm : L.rel w m m') :
    AlikeUpTo L.stop (L.rel w) (s.run ctx perform m) (s.run ctx' perform' m') := by
  induction s generalizing w m m' with
  | done a => exact .ok hm
  | fail e => exact .error (L.stop_refl _) hm
  | ask q next ih =>
    -- The answers are equal, so the two runs go on with the same rest of the script.
    refine .bind ?_ fun b n n' hn => ih b hn
    rw [Exec.ask, Exec.ask, L.answer_eq q hm]
    cases q.answer m'.env with
    | ok b => exact .ok hm
    | error e => exact .error (L.stop_refl _) hm
  | act f next ih => exact .bind (L.effect f hm) fun _ n n' hn => ih hn
  | perform t next ih => exact .bind (h t w m m' hm) fun r n n' hn => ih r hn
  | within k inner next ihi ih =>
    refine .bind ?_ fun b n n' hn => ih b hn
    exact .around (ihi (L.enter k hm)) (L.stop_mark k) fun n n' hn => L.leave k hn

/-- With the given bound on nested steps, every task ends alike in both runs. -/
def Keeps (fuel : Nat) : Prop :=
  ∀ t w m m', L.rel w m m' →
    AlikeUpTo L.stop (L.rel w) (Task.run ctx fuel t m) (Task.run ctx' fuel t m')

/-- Every task ends alike in two contexts with the same types and options, if calls by name do. -/
theorem keeps_of_call (htypes : ctx.types = ctx'.types) (hoptions : ctx.options = ctx'.options)
    (hcall : ∀ fuel, L.Keeps fuel → ∀ callee args w m m', L.rel w m m' →
      AlikeUpTo L.stop (L.rel w) (Exec.call ctx (fuel + 1) callee args m)
        (Exec.call ctx' (fuel + 1) callee args m'))
    (fuel : Nat) : L.Keeps fuel := by
  induction fuel with
  | zero =>
    intro t w m m' hm
    rw [Task.run_zero, Task.run_zero]
    exact .error (L.stop_refl _) hm
  | succ fuel ih =>
    intro t w m m' hm
    rcases Task.call_or_script_eq htypes hoptions t with ⟨callee, args, rfl⟩ | hscript
    · exact hcall fuel ih callee args w m m' hm
    · rw [Task.run_succ, Task.run_succ, ← hscript]
      exact L.alike_script ih _ hm

end

/-- In one context, every task ends alike in both runs. -/
theorem keeps {ctx : Context σ} (L : Lockstep ctx ctx W) (fuel : Nat) : L.Keeps fuel := by
  refine L.keeps_of_call rfl rfl (fun fuel ih callee args w m m' hm => ?_) fuel
  rw [← run_call]
  exact L.alike_script ih _ hm

end Lockstep

end SmallCpp
