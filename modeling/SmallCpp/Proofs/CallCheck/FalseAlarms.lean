import SmallCpp.Proofs.CallCheck
import SmallCpp.Proofs.CallSites

/-!
# The check of calls gives no false alarm

A call that comes to a result fits its callee, whatever its arguments do before they are bound
(`Exec.accepts_of_call`), and a call that fits its callee has no errors
(`FunctionTable.errorsOfCall_of_accepts`). So a call with errors never comes to a result. In the
same way a run that comes to a result has found its entry function, with a body.
-/

namespace SmallCpp

variable {σ α : Type}

/-- A part that comes to no result, from whatever machine and with whatever bound on its steps: it
fails or does not end. -/
def NeverYields (x : Nat → Exec σ α) : Prop :=
  ∀ fuel m a m', x fuel m ≠ .ok a m'

namespace FunctionTable

variable {types : TypeTable} {p : Program} {t : FunctionTable}

/-- A call that fits its callee has no errors. -/
theorem errorsOfCall_of_accepts (ht : build types p = .ok t) {callee : String} {args : List Expr}
    (h : t.Accepts callee args) (calleeSpan span : Span) :
    p.errorsOfCall callee calleeSpan args span = [] := by
  unfold Accepts at h
  unfold Program.errorsOfCall
  cases hprimitive : Primitive.ofName? callee with
  | some q =>
    rw [hprimitive] at h
    exact if_pos h
  | none =>
    rw [hprimitive] at h
    obtain ⟨entry, hentry, hlength, hplaces⟩ := h
    obtain ⟨shape, hshape, hbyRef, -⟩ := exists_callShape? ht hentry
    have hcount : shape.byRef.length = args.length := by rw [← hbyRef, List.length_map, hlength]
    rw [hshape]
    dsimp only
    rw [if_pos hcount, List.filterMap_eq_nil_iff]
    rintro ⟨byRef, arg⟩ hmem
    -- The table pairs arguments with whole parameters, the checker with the way they are passed.
    rw [← hbyRef, List.zip_map_left, List.mem_map] at hmem
    obtain ⟨⟨param, arg'⟩, hmem, heq⟩ := hmem
    cases heq
    have hfits : (param.byRef && !arg'.isPlace) = false := by
      cases hparam : param.byRef with
      | false => rfl
      | true => rw [hplaces _ hmem hparam, Bool.not_true, Bool.and_false]
    exact if_neg (Bool.eq_false_iff.mp hfits)

end FunctionTable

namespace Exec

variable {ctx : Context σ} {fuel : Nat} {m m' : Machine σ}

/-- An argument that is bound to a reference is storage. -/
theorem isPlace_of_argument {function : String} {param : ParamSignature} {arg : Expr} {a : Argument}
    (h : argument ctx fuel function param arg m = .ok a m') (href : param.byRef = true) :
    arg.isPlace = true := by
  cases fuel with
  | zero =>
    rw [argument] at h
    cases h
  | succ fuel =>
    rw [argument, if_neg (by simp [href])] at h
    by_contra hplace
    rw [if_neg hplace] at h
    cases h

/-- If all arguments are bound, then each that is bound to a reference is storage. -/
theorem isPlace_of_arguments {function : String} {params : List ParamSignature} {args : List Expr}
    {bound : List Argument} (h : arguments ctx fuel function params args m = .ok bound m') :
    ∀ pa ∈ params.zip args, pa.1.byRef = true → pa.2.isPlace = true := by
  -- Each step of the evaluator binds the first argument and leaves the others to the next step.
  induction fuel generalizing params args m m' bound with
  | zero =>
    rw [arguments] at h
    cases h
  | succ fuel ih =>
    cases params with
    | nil => exact List.forall_mem_nil _
    | cons param params =>
      cases args with
      | nil => exact List.forall_mem_nil _
      | cons arg args =>
        rw [arguments] at h
        obtain ⟨first, m₁, hfirst, h⟩ := EStateM.bind_eq_ok h
        obtain ⟨others, m₂, hothers, h⟩ := EStateM.bind_eq_ok h
        rw [List.zip_cons_cons, List.forall_mem_cons]
        exact ⟨isPlace_of_argument hfirst, ih hothers⟩

/-- A call that comes to a result fits its callee. -/
theorem accepts_of_call {callee : String} {args : List Expr} {v : Value}
    (h : call ctx fuel callee args m = .ok v m') : ctx.functions.Accepts callee args := by
  unfold FunctionTable.Accepts
  cases fuel with
  | zero =>
    rw [call] at h
    cases h
  | succ fuel =>
    rw [call] at h
    cases hprimitive : Primitive.ofName? callee with
    | some q =>
      rw [hprimitive] at h
      rcases args with _ | ⟨arg, _ | ⟨second, args⟩⟩
      · cases h
      · rfl
      · cases h
    | none =>
      rw [hprimitive] at h
      cases hget : ctx.functions.get callee with
      | error e =>
        rw [hget] at h
        cases h
      | ok entry =>
        rw [hget] at h
        obtain ⟨_, m₁, hentry, h⟩ := EStateM.bind_eq_ok h
        cases hentry
        dsimp only at h
        split_ifs at h with hlength
        · obtain ⟨bound, m₂, hbound, -⟩ := EStateM.bind_eq_ok h
          exact ⟨entry, rfl, hlength, isPlace_of_arguments hbound⟩
        · cases h

/-- A function that comes to a result has a body. -/
theorem isSome_of_invoke {entry : FunctionEntry} {args : List Argument} {v : Value}
    (h : invoke ctx fuel entry args m = .ok v m') : entry.body.isSome = true := by
  cases fuel with
  | zero =>
    rw [invoke] at h
    cases h
  | succ fuel =>
    rw [invoke] at h
    cases hbody : entry.body with
    | none =>
      rw [hbody] at h
      cases h
    | some body => rfl

end Exec

namespace Program

/-- A call with errors never comes to a result. -/
theorem neverYields_of_errorsAt {p : Program} {options : RunOptions} {sink : Sink σ}
    {ctx : Context σ} (hctx : p.context options sink = .ok ctx) {site : CallSite}
    (herrors : p.errorsAt site ≠ []) : NeverYields fun fuel => Exec.eval ctx fuel site.toExpr := by
  intro fuel m v m' h
  obtain ⟨types, functions, -, hbuild, rfl⟩ := exists_of_context hctx
  dsimp only at h
  cases fuel with
  | zero =>
    rw [Exec.eval] at h
    cases h
  | succ fuel =>
    rw [CallSite.toExpr, Exec.eval] at h
    exact herrors (FunctionTable.errorsOfCall_of_accepts hbuild (Exec.accepts_of_call h) _ _)

/-- A run that comes to a result has an entry function with a body. -/
theorem entryErrors_of_run {p : Program} {options : RunOptions} {sink : Sink σ} {fuel : Nat} {s : σ}
    {n : Int64} (h : (p.run options sink fuel s).1 = .ok n) : p.entryErrors options.entry = [] := by
  rw [run] at h
  cases hctx : p.context options sink with
  | error stop =>
    rw [hctx] at h
    cases h
  | ok ctx =>
    rw [hctx] at h
    obtain ⟨types, functions, -, hbuild, rfl⟩ := exists_of_context hctx
    dsimp only at h
    cases hexecute : p.execute ⟨types, functions, options, sink⟩ fuel ⟨Environment.empty, s⟩ with
    | error stop m =>
      rw [hexecute] at h
      cases h
    | ok result m =>
      -- The run has passed through the entry function, which the table holds with its body.
      rw [execute] at hexecute
      obtain ⟨_, m₁, -, hexecute⟩ := EStateM.bind_eq_ok hexecute
      obtain ⟨entry, m₂, hlift, hexecute⟩ := EStateM.bind_eq_ok hexecute
      have hget : functions.get options.entry = .ok entry := by
        cases hfound : functions.get options.entry with
        | error e =>
          dsimp only at hlift
          rw [hfound] at hlift
          cases hlift
        | ok found =>
          dsimp only at hlift
          rw [hfound] at hlift
          cases hlift
          rfl
      obtain ⟨shape, hshape, -, hdefined⟩ := FunctionTable.exists_callShape? hbuild hget
      dsimp only at hexecute
      split_ifs at hexecute
      · obtain ⟨v, m₃, hinvoke, -⟩ := EStateM.bind_eq_ok hexecute
        rw [Exec.isSome_of_invoke hinvoke] at hdefined
        rw [entryErrors, hshape]
        exact if_pos hdefined.symm
      · cases hexecute

end Program

/-- The check of calls gives no false alarm. Each error that it reports is that of the entry
function or of a call of the program. A call with an error never comes to a result, in whatever
machine of a program that can start it is evaluated, and without its entry function a program never
runs to a result. -/
theorem neverYields_of_callErrors (p : Program) (options : RunOptions) (sink : Sink σ) :
    (∀ error ∈ p.callErrors options.entry, error ∈ p.entryErrors options.entry ∨
      ∃ site ∈ p.callSites, error ∈ p.errorsAt site) ∧
    (∀ site ∈ p.callSites, p.errorsAt site ≠ [] → ∀ ctx, p.context options sink = .ok ctx →
      NeverYields fun fuel => Exec.eval ctx fuel site.toExpr) ∧
    (p.entryErrors options.entry ≠ [] → ∀ fuel s n, (p.run options sink fuel s).1 ≠ .ok n) := by
  refine ⟨?_, ?_, ?_⟩
  · intro error herror
    rw [Program.callErrors_eq, List.mem_append, List.mem_flatMap] at herror
    exact herror
  · intro site _ herrors ctx hctx
    exact Program.neverYields_of_errorsAt hctx herrors
  · intro herrors fuel s n hrun
    exact herrors (Program.entryErrors_of_run hrun)

/-- A source in which both calls are refused: a temporary is passed by reference, and the argument
of a primitive is missing. It has no function `start`. -/
def refusedSource : String :=
  "int set(int &x) { x = 1; return x; } int main() { return set(1 + 1) + print_int(); }"

/-- The checker refuses the entry function and both calls of `refusedSource`, and none of them is a
false alarm. -/
theorem neverYields_refusedSource : ∃ p, Program.parse refusedSource = .ok p ∧
    (p.callErrors "start").map (·.cause.code) = ["E0ENTRY", "E0REF", "E0ARITY"] ∧
    (∃ ctx, p.context ⟨"start", none⟩ Sink.recording = .ok ctx ∧
      ∀ site ∈ p.callSites, NeverYields fun fuel => Exec.eval ctx fuel site.toExpr) ∧
    ∀ fuel s n, (p.run ⟨"start", none⟩ Sink.recording fuel s).1 ≠ .ok n := by
  let check (p : Program) : Bool :=
    (p.callErrors "start").map (·.cause.code) = ["E0ENTRY", "E0REF", "E0ARITY"] ∧
      (∀ site ∈ p.callSites, p.errorsAt site ≠ []) ∧ p.entryErrors "start" ≠ [] ∧
      (p.context ⟨"start", none⟩ Sink.recording).isOk = true
  have hcheck : ((Program.parse refusedSource).map check).toOption = some true := by
    decide +kernel
  obtain ⟨p, hp⟩ := Except.exists_of_isOk (r := Program.parse refusedSource) (by decide +kernel)
  rw [hp] at hcheck
  obtain ⟨hcodes, hcalls, hentry, hcontext⟩ := of_decide_eq_true (Option.some.inj hcheck)
  obtain ⟨ctx, hctx⟩ := Except.exists_of_isOk hcontext
  obtain ⟨-, hsites, hrun⟩ := neverYields_of_callErrors p ⟨"start", none⟩ Sink.recording
  have hnever : ∀ site ∈ p.callSites, NeverYields fun fuel => Exec.eval ctx fuel site.toExpr :=
    fun site hsite => hsites site hsite (hcalls site hsite) ctx hctx
  exact ⟨p, hp, hcodes, ⟨ctx, hctx, hnever⟩, hrun hentry⟩

end SmallCpp
