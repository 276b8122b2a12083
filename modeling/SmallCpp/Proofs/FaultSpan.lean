import SmallCpp.Proofs.Discipline
import SmallCpp.Proofs.Script.Shape

/-!
# Where a fault is placed

A fault is raised without a place. On its way out, the first statement or declaration that it leaves
gives it one, and the others leave it as it is. So the place of a fault is that of the innermost
statement or declaration that was being executed when the fault was raised, through all calls that
were running then. What was being executed is read off the history: a task is running if it has
begun and not ended (`History.Running`). The result is `faultAt_of_run`, which also says which
faults have no place.
-/

namespace SmallCpp

variable {σ α β : Type}

/-! ## Running tasks -/

/-- After what has happened, these tasks are running, the latest first: each has begun and not
ended. Only the latest can end, and nothing has failed. -/
inductive History.Running : History σ → List Task → Prop
  | start : Running [] []
  | begun {past running t m} (h : Running past running) :
    Running ((.begun t, m) :: past) (t :: running)
  | ended {past running t r m} (h : Running past (t :: running)) :
    Running ((.ended t r, m) :: past) running
  | changed {past running f m} (h : Running past running) :
    Running ((.changed f, m) :: past) running
  | opened {past running k m} (h : Running past running) :
    Running ((.opened k, m) :: past) running
  | closed {past running k m} (h : Running past running) :
    Running ((.closed k, m) :: past) running

/-- The place of the statement or declaration that a task executes. -/
def Task.site? : Task → Option Span
  | exec s => some s.span
  | declareVar decl => some decl.span
  | _ => none

/-- The place of the innermost statement or declaration among running tasks. -/
def innermost? (running : List Task) : Option Span :=
  running.findSome? Task.site?

/-- A task around the others gives its place only if they have none. -/
theorem innermost?_append_singleton (running : List Task) (t : Task) :
    innermost? (running ++ [t]) = (innermost? running).or t.site? := by
  rw [innermost?, List.findSome?_append, List.findSome?_singleton]
  rfl

/-- What has passed a place has one. -/
theorem or_some_ne_none (span : Option Span) (place : Span) : span.or (some place) ≠ none := by
  cases span <;> exact Option.some_ne_none _

/-- A fault was raised while certain tasks were running; since then enclosures were left, and
nothing else has happened. -/
def History.Raised (history : History σ) (e : RuntimeError) (running : List Task) : Prop :=
  ∃ later m past, history = later ++ (.failed (.fault e none), m) :: past ∧
    (∀ km ∈ later, ∃ k, km.1 = .closed k) ∧ History.Running past running

namespace History

variable {history : History σ} {e : RuntimeError} {running : List Task} {m : Machine σ}

/-- A fault without a place is raised while the tasks are running. -/
theorem Running.raised (h : history.Running running) :
    Raised ((.failed (.fault e none), m) :: history) e running :=
  ⟨[], m, history, rfl, fun _ h => absurd h List.not_mem_nil, h⟩

/-- A fault on its way out leaves enclosures. -/
theorem Raised.closed (h : history.Raised e running) (k : Enclosure) :
    Raised ((.closed k, m) :: history) e running := by
  obtain ⟨later, m', past, rfl, hlater, hpast⟩ := h
  exact ⟨_ :: later, m', past, rfl, List.forall_mem_cons.mpr ⟨⟨k, rfl⟩, hlater⟩, hpast⟩

/-- The history tells which tasks are running. -/
theorem Running.unique {running' : List Task} (h : history.Running running)
    (h' : history.Running running') : running = running' := by
  induction h generalizing running' with
  | start =>
    cases h'
    rfl
  | begun h ih =>
    cases h' with
    | begun h' => rw [ih h']
  | ended h ih =>
    cases h' with
    | ended h' => exact (List.cons.inj (ih h')).2
  | changed h ih =>
    cases h' with
    | changed h' => exact ih h'
  | opened h ih =>
    cases h' with
    | opened h' => exact ih h'
  | closed h ih =>
    cases h' with
    | closed h' => exact ih h'

/-- The history tells which tasks were running when a fault was raised. -/
theorem Raised.unique {running' : List Task} (h : history.Raised e running)
    (h' : history.Raised e running') : running = running' := by
  obtain ⟨later, m, past, rfl, hlater, hpast⟩ := h
  obtain ⟨later', m', past', heq, hlater', hpast'⟩ := h'
  -- Both ways to split the history leave out the enclosures first, down to the one failure.
  induction later generalizing later' with
  | nil =>
    cases later' with
    | nil =>
      cases heq
      exact hpast.unique hpast'
    | cons km later' =>
      -- The latest moment is the failure, not the end of an enclosure.
      obtain ⟨k, hk⟩ := hlater' km List.mem_cons_self
      cases heq
      cases hk
  | cons km later ih =>
    cases later' with
    | nil =>
      obtain ⟨k, hk⟩ := hlater km List.mem_cons_self
      cases heq
      cases hk
    | cons km' later' =>
      rw [List.forall_mem_cons] at hlater hlater'
      exact ih hlater.2 later' (List.cons.inj heq).2 hlater'.2

end History

/-! ## How recorded parts end -/

/-- What is said of a fault: the error, the tasks that had begun in a part and were running, and the
place that the fault has when it leaves the part. -/
abbrev FaultSpec := RuntimeError → List Task → Option Span → Prop

/-- The fault has the innermost place among the tasks that were running in the part. -/
def FaultSpec.innermost : FaultSpec := fun _ running span =>
  span = innermost? running

/-- The fault has the innermost place among the tasks that were running, and there is one. -/
def FaultSpec.placed : FaultSpec := fun _ running span =>
  span = innermost? running ∧ span ≠ none

/-- A part that began while the tasks `outer` were running has stopped: by a fault only if that was
raised as `P` says. -/
inductive StopsBy (P : FaultSpec) (outer : List Task) : Stop → Recorded σ → Prop
  | outOfFuel {y} : StopsBy P outer .outOfFuel y
  | fault {e inner span y} (hraised : y.history.Raised e (inner ++ outer)) (h : P e inner span) :
    StopsBy P outer (.fault e span) y

/-- A fault that a part raises itself. -/
theorem StopsBy.own {P : FaultSpec} {outer : List Task} {r : Recorded σ} {e : RuntimeError}
    (hr : r.history.Running outer) (m : Machine σ) (h : P e [] none) :
    StopsBy P outer (.fault e none) (r.move m (.failed (.fault e none))) :=
  .fault (show History.Raised _ e ([] ++ outer) from hr.raised) h

/-- Whenever a part begins, it comes to a result with the same tasks running, or stops as `P`
says. -/
def Recording.Places (x : Recording σ α) (P : FaultSpec) : Prop :=
  ∀ r outer, r.history.Running outer →
    Ends (x r) (fun _ y => y.history.Running outer) (StopsBy P outer)

namespace Recording.Places

variable {ctx : Context σ} {perform : (t : Task) → Recording σ t.Result} {P Q : FaultSpec}

/-- Faults that are raised as `P` says are raised as anything says that `P` implies. -/
theorem imp {x : Recording σ α} (h : x.Places P) (hPQ : ∀ e inner span, P e inner span →
    Q e inner span) : x.Places Q := by
  intro r outer hr
  have hx := h r outer hr
  cases hxr : x r with
  | ok a y =>
    rw [hxr] at hx
    exact hx
  | error stop y =>
    rw [hxr] at hx
    cases hx with
    | outOfFuel => exact .outOfFuel
    | fault hraised h => exact .fault hraised (hPQ _ _ _ h)

/-- A result raises nothing. -/
theorem pure (a : α) : ((pure a : Script α).record ctx perform).Places P :=
  fun _ _ hr => hr

/-- A fault that is raised here has nothing running inside and no place. -/
theorem fail {e : RuntimeError} (h : P e [] none) :
    ((Script.fail e : Script α).record ctx perform).Places P :=
  fun _ _ hr => .own hr _ h

/-- A fault from a computation without state has nothing running inside and no place. -/
theorem lift {a : Except RuntimeError α} (h : ∀ e, a = .error e → P e [] none) :
    ((Script.lift a).record ctx perform).Places P := by
  cases a with
  | ok a => exact pure a
  | error e => exact fail (h e rfl)

/-- A question to the machine that has no answer is a fault without a place. -/
theorem query (q : Query α) (h : ∀ e, P e [] none) :
    ((Script.query q).record ctx perform).Places P := by
  intro r outer hr
  simp only [Script.query, Script.record]
  cases q.answer r.machine.env with
  | ok a => exact hr
  | error e => exact .own hr _ (h e)

/-- A change of the machine that is refused is a fault without a place. -/
theorem effect (f : Effect) (h : ∀ e, P e [] none) :
    ((Script.effect f).record ctx perform).Places P := by
  intro r outer hr
  simp only [Script.effect, Script.record]
  cases hf : f.run ctx r.machine with
  | ok _ m => exact .changed hr
  | error stop m =>
    obtain ⟨-, e, rfl, -⟩ := Effect.refuses_of_run hf
    exact .own hr m (h e)

/-- The second part begins with the same tasks running as the first. -/
theorem bind {s : Script α} {f : α → Script β} (hs : (s.record ctx perform).Places P)
    (hf : ∀ a, ((f a).record ctx perform).Places P) : ((s >>= f).record ctx perform).Places P := by
  intro r outer hr
  have h := hs r outer hr
  rw [Script.record_bind]
  cases hx : s.record ctx perform r with
  | ok a y =>
    rw [hx] at h
    exact hf a y outer h
  | error stop y =>
    rw [hx] at h
    exact h

/-- A branch raises what its two sides raise. -/
theorem ite {c : Prop} [Decidable c] {s t : Script α} (hs : c → (s.record ctx perform).Places P)
    (ht : ¬c → (t.record ctx perform).Places P) :
    ((if c then s else t).record ctx perform).Places P := by
  split_ifs with hc
  · exact hs hc
  · exact ht hc

/-- A task raises what its performance raises. -/
theorem task {t : Task} (h : (perform t).Places P) :
    (Script.record ctx perform (α := no_index t.Result) (Script.task t)).Places P := by
  intro r outer hr
  rw [Script.record_task]
  exact h r outer hr

/-- A fault that leaves an enclosure gets the place of the enclosure, unless it has one. -/
theorem enclosed {k : Enclosure} {s : Script α} (hs : (s.record ctx perform).Places P)
    (hPQ : ∀ e inner span, P e inner span → Q e inner (span.or k.span?)) :
    ((Script.enclosed k s).record ctx perform).Places Q := by
  intro r outer hr
  have h := hs (r.move (k.enter r.machine) (.opened k)) outer (.opened hr)
  simp only [Script.enclosed, Script.record]
  cases hx : s.record ctx perform (r.move (k.enter r.machine) (.opened k)) with
  | ok a y =>
    rw [hx] at h
    exact .closed h
  | error stop y =>
    rw [hx] at h
    dsimp only
    cases h with
    | outOfFuel => cases k <;> exact .outOfFuel
    | fault hraised h =>
      rw [k.mark_fault]
      exact .fault (hraised.closed k) (hPQ _ _ _ h)

/-- A script without located parts: a fault is its own or one of a task that it hands on. -/
theorem of_shaped {T : Task → Prop} (hown : ∀ e, P e [] none)
    (hperform : ∀ t, T t → (perform t).Places P) {s : Script α}
    (hs : s.Shaped (·.span? = none) T) : (s.record ctx perform).Places P := by
  induction s with
  | done a => exact pure a
  | fail e => exact fail (hown e)
  | ask q next ih => exact bind (query q hown) fun b => ih b (hs b)
  | act f next ih => exact bind (effect f hown) fun _ => ih hs
  | perform t next ih => exact bind (task (hperform t hs.1)) fun r => ih r (hs.2 r)
  | within k inner next ihi ih =>
    refine bind (s := Script.enclosed k inner) (enclosed (ihi hs.2.1) fun e inner span h => ?_)
      fun b => ih b (hs.2.2 b)
    rw [hs.1, Option.or_none]
    exact h

/-- While a task is recorded it is running itself, outside of what it hands on. -/
theorem record_succ {t : Task} {fuel : Nat}
    (hs : ((t.script ctx).record ctx (Task.record ctx fuel)).Places P)
    (hPQ : ∀ e inner span, P e inner span → Q e (inner ++ [t]) span) :
    (t.record ctx (fuel + 1)).Places Q := by
  intro r outer hr
  have h := hs (r.note (.begun t)) (t :: outer) (.begun hr)
  rw [Task.record_succ]
  cases hx : (t.script ctx).record ctx (Task.record ctx fuel) (r.note (.begun t)) with
  | ok a y =>
    rw [hx] at h
    exact .ended h
  | error stop y =>
    rw [hx] at h
    cases h with
    | outOfFuel => exact .outOfFuel
    | fault hraised h =>
      -- The task has not ended, so it is the outermost of those that run inside.
      rw [← List.singleton_append, ← List.append_assoc] at hraised
      exact .fault hraised (hPQ _ _ _ h)

end Recording.Places

/-! ## Tasks -/

/-- Only statements and lists of declarations have located parts. -/
theorem Task.Opens.span?_eq_none {t : Task} {k : Enclosure} (h : t.Opens k)
    (hexec : ∀ s, t ≠ .exec s) (hvars : ∀ decls, t ≠ .declareVars decls) : k.span? = none := by
  cases h with
  | declareVars => exact absurd rfl (hvars _)
  | exec => exact absurd rfl (hexec _)
  | _ => rfl

/-- Only lists of declarations hand on a declaration. -/
theorem Task.Hands.ne_declareVar {functions : FunctionTable} {t u : Task} (h : t.Hands functions u)
    (hvars : ∀ decls, t ≠ .declareVars decls) (decl : VarDecl) : u ≠ .declareVar decl := by
  rintro rfl
  cases h
  exact hvars _ rfl

namespace Task

/-- The place that a task itself gives to a fault. A declaration gets it from the list in which it
stands. -/
def gives? : Task → Option Span
  | exec s => some s.span
  | _ => none

/-- The tasks that let no fault pass without a place. -/
def Placing : Task → Prop
  | declareVars _ | exec _ | execAll _ => True
  | _ => False

/-- What may have been running inside a task when a fault was raised that leaves it without a place:
in a call, nothing. -/
def LetsPass : Task → List Task → Prop
  | invoke .., inner => inner = []
  | t, _ => ¬t.Placing

/-- How a task stops: the fault has the innermost place in what was running, and without one only a
few tasks let it pass. -/
def faultSpec (t : Task) : FaultSpec := fun _ running span =>
  ∃ inner, running = inner ++ [t] ∧ span = (innermost? inner).or t.gives? ∧
    (span = none → t.LetsPass inner)

/-- The place is the innermost one, unless the task is a declaration, which does not give its own.
-/
theorem faultSpec.eq_innermost? {t : Task} {e : RuntimeError} {running : List Task}
    {span : Option Span} (h : t.faultSpec e running span) (ht : ∀ decl, t ≠ .declareVar decl) :
    span = innermost? running := by
  obtain ⟨inner, rfl, rfl, -⟩ := h
  rw [innermost?_append_singleton]
  cases t with
  | declareVar decl => exact absurd rfl (ht decl)
  | _ => rfl

/-- What a statement or a list lets out has the innermost place. -/
theorem faultSpec.placed {t : Task} {e : RuntimeError} {running : List Task} {span : Option Span}
    (h : t.faultSpec e running span) (ht : t.Placing) : FaultSpec.placed e running span := by
  refine ⟨h.eq_innermost? ?_, fun hspan => ?_⟩
  · rintro decl rfl
    exact ht
  · obtain ⟨inner, -, -, hpass⟩ := h
    cases t with
    | invoke entry args => exact ht
    | _ => exact hpass hspan ht

section

variable {ctx : Context σ} {fuel : Nat}
  (ih : ∀ t : Task, (Task.record ctx fuel t).Places t.faultSpec)

include ih

/-- What a statement or a list lets out when it runs with one step less has the innermost place. -/
theorem places_of_placing {t : Task} (ht : t.Placing) :
    (Task.record ctx fuel t).Places .placed :=
  (ih t).imp fun _ _ _ h => h.placed ht

/-- What a task hands on, other than declarations, stops with the innermost place. -/
theorem places_of_hands {t u : Task} (h : t.Hands ctx.functions u)
    (hvars : ∀ decls, t ≠ .declareVars decls) : (Task.record ctx fuel u).Places .innermost :=
  (ih u).imp fun _ _ _ hspec => hspec.eq_innermost? (h.ne_declareVar hvars)

/-- A statement gives its own place to a fault that has got none inside. -/
theorem places_exec (s : Statement) :
    ((Script.exec s).record ctx (Task.record ctx fuel)).Places
      fun _ inner span => span = (innermost? inner).or (some s.span) := by
  obtain ⟨body, heq, hbody⟩ := Script.exec_eq_located ctx.functions s
  have hinside : (body.record ctx (Task.record ctx fuel)).Places .innermost := by
    refine .of_shaped (fun _ => rfl) (fun u hu => places_of_hands ih hu fun _ h => ?_)
      (hbody.imp (fun k hk => hk ▸ rfl) fun _ => id)
    exact Task.noConfusion h
  rw [heq]
  refine .enclosed hinside fun e inner span h => ?_
  rw [show span = innermost? inner from h]
  rfl

/-- A list of declarations gives each of them its place. -/
theorem places_declareVars (decls : List VarDecl) :
    ((Script.declareVars decls).record ctx (Task.record ctx fuel)).Places .placed := by
  cases decls with
  | nil => exact .pure ()
  | cons decl rest =>
    have hfirst : ((Script.enclosed (.located decl.span)
        (Script.task (.declareVar decl))).record ctx (Task.record ctx fuel)).Places .placed := by
      refine .enclosed (.task (ih (.declareVar decl))) ?_
      rintro e _ span ⟨inner, rfl, rfl, -⟩
      -- The declaration itself was running, outside of what it had handed on.
      rw [Option.or_assoc]
      exact ⟨(innermost?_append_singleton inner (.declareVar decl)).symm, or_some_ne_none _ _⟩
    have hrest : (Task.record ctx fuel (.declareVars rest)).Places .placed :=
      places_of_placing ih trivial
    exact .bind hfirst fun _ => .task hrest

/-- Statements in order raise no fault outside of one of them. -/
theorem places_execAll (ss : List Statement) :
    ((Script.execAll ss).record ctx (Task.record ctx fuel)).Places .placed := by
  cases ss with
  | nil => exact .pure _
  | cons s rest =>
    refine .bind (.task (places_of_placing ih trivial)) fun flow => ?_
    cases flow with
    | normal => exact .task (places_of_placing ih trivial)
    | returned v => exact .pure _

/-- A call lets a fault pass without a place only if its body was not running. -/
theorem places_invoke (entry : FunctionEntry) (args : List Argument) :
    ((Script.invoke ctx entry args).record ctx (Task.record ctx fuel)).Places
      fun _ inner span => span = innermost? inner ∧ (span = none → inner = []) := by
  refine .of_shaped (T := Hands ctx.functions (.invoke entry args))
    (fun _ => ⟨rfl, fun _ => rfl⟩) (fun u hu => ?_) (Script.shaped_invoke ctx entry args rfl)
  -- Only the body is handed on, and it is a list of statements.
  have hu : u.Placing := by
    cases hu
    trivial
  exact (places_of_placing ih hu).imp fun _ _ _ h => ⟨h.1, fun hnone => absurd hnone h.2⟩

/-- All other tasks leave a fault as it is. -/
theorem places_script {t : Task} (hexec : ∀ s, t ≠ .exec s)
    (hvars : ∀ decls, t ≠ .declareVars decls) :
    ((t.script ctx).record ctx (Task.record ctx fuel)).Places .innermost :=
  .of_shaped (fun _ => rfl) (fun _ hu => places_of_hands ih hu hvars)
    ((t.script_shaped ctx).imp (fun _ hk => hk.span?_eq_none hexec hvars) fun _ => id)

end

/-- Every task stops as it is specified. -/
theorem places_record (ctx : Context σ) (fuel : Nat) (t : Task) :
    (t.record ctx fuel).Places t.faultSpec := by
  -- On the steps; the tasks that are handed on have one less, and stop as they are specified.
  induction fuel generalizing t with
  | zero => exact fun _ _ _ => .outOfFuel
  | succ fuel ih =>
    cases t with
    | exec s =>
      refine .record_succ (places_exec ih s) fun e inner span h => ⟨inner, rfl, h, fun hnone => ?_⟩
      exact absurd (h.symm.trans hnone) (or_some_ne_none _ s.span)
    | declareVars decls =>
      refine .record_succ (places_declareVars ih decls) fun e inner span h => ?_
      exact ⟨inner, rfl, h.1.trans (Option.or_none).symm, fun hnone => absurd hnone h.2⟩
    | execAll ss =>
      refine .record_succ (places_execAll ih ss) fun e inner span h => ?_
      exact ⟨inner, rfl, h.1.trans (Option.or_none).symm, fun hnone => absurd hnone h.2⟩
    | invoke entry args =>
      refine .record_succ (places_invoke ih entry args) fun e inner span h => ?_
      exact ⟨inner, rfl, h.1.trans (Option.or_none).symm, h.2⟩
    | _ =>
      refine .record_succ (places_script ih (fun _ h => Task.noConfusion h)
        fun _ h => Task.noConfusion h) fun e inner span h => ?_
      exact ⟨inner, rfl, h.trans (Option.or_none).symm, fun _ => id⟩

end Task

/-! ## Programs -/

/-- A fault outside of all statements and declarations, and the tasks that were running then: the
entry function is missing or has parameters, its call fails outside of its body, or its result is no
number. -/
inductive Context.EntryFault (ctx : Context σ) (e : RuntimeError) : List Task → Prop
  | missing (hget : ctx.functions.get ctx.options.entry = .error e) : EntryFault ctx e []
  | parameters {entry} (hget : ctx.functions.get ctx.options.entry = .ok entry)
    (hparams : entry.signature.params ≠ [])
    (he : e = .arityMismatch entry.signature.name entry.signature.params.length 0) :
    EntryFault ctx e []
  | call {entry} (hget : ctx.functions.get ctx.options.entry = .ok entry) :
    EntryFault ctx e [.invoke entry []]
  | result {entry} {v : Value} (hget : ctx.functions.get ctx.options.entry = .ok entry)
    (hv : v ≠ .void) (hasInt : v.asInt = .error e) : EntryFault ctx e []

/-- Around such a fault no statement or declaration is running. -/
theorem Context.EntryFault.innermost?_eq_none {ctx : Context σ} {e : RuntimeError}
    {running : List Task} (h : ctx.EntryFault e running) : innermost? running = none := by
  cases h <;> rfl

/-- How a program stops: with the innermost place, or outside of all statements and
declarations. -/
def Context.faultSpec (ctx : Context σ) : FaultSpec := fun e running span =>
  (∃ place, span = some place ∧ innermost? running = some place) ∨
    span = none ∧ ctx.EntryFault e running

/-- What has the innermost place is as a program stops. -/
theorem Context.faultSpec_of_placed (ctx : Context σ) {e : RuntimeError} {running : List Task}
    {span : Option Span} (h : FaultSpec.placed e running span) : ctx.faultSpec e running span := by
  obtain ⟨hspan, hplaced⟩ := h
  obtain ⟨place, hplace⟩ := Option.ne_none_iff_exists'.mp hplaced
  exact .inl ⟨place, hplace, hspan.symm.trans hplace⟩

/-- The call of the entry function: without a place the fault is one of the call itself. -/
theorem Context.faultSpec_of_invoke {ctx : Context σ} {entry : FunctionEntry}
    (hget : ctx.functions.get ctx.options.entry = .ok entry) {e : RuntimeError}
    {running : List Task} {span : Option Span}
    (h : (Task.invoke entry []).faultSpec e running span) : ctx.faultSpec e running span := by
  cases hspan : span with
  | some place =>
    have hinnermost := h.eq_innermost? fun _ h => Task.noConfusion h
    exact .inl ⟨place, rfl, hinnermost.symm.trans hspan⟩
  | none =>
    obtain ⟨inner, rfl, -, hpass⟩ := h
    rw [show inner = [] from hpass hspan]
    exact .inr ⟨rfl, .call hget⟩

/-- Every program stops as it is specified. -/
theorem Program.places_record (p : Program) (ctx : Context σ) (fuel : Nat) :
    (p.record ctx fuel).Places ctx.faultSpec := by
  have hglobals : (Task.record ctx fuel (.declareVars p.globals)).Places ctx.faultSpec :=
    (Task.places_record ctx fuel _).imp fun _ _ _ h => ctx.faultSpec_of_placed (h.placed trivial)
  refine .bind (.task hglobals) fun _ => ?_
  cases hget : ctx.functions.get ctx.options.entry with
  | error e => exact .fail (.inr ⟨rfl, .missing hget⟩)
  | ok entry =>
    have hcall : (Task.record ctx fuel (.invoke entry [])).Places ctx.faultSpec :=
      (Task.places_record ctx fuel _).imp fun _ _ _ => ctx.faultSpec_of_invoke hget
    refine .ite (fun _ => .bind (.task hcall) fun v => ?_) fun hparams => ?_
    · cases v with
      | void => exact .pure 0
      | _ => exact .lift fun e he => .inr ⟨rfl, .result hget Value.noConfusion he⟩
    · refine .fail (.inr ⟨rfl, .parameters hget (fun hnil => hparams ?_) rfl⟩)
      rw [hnil]
      rfl

/-- Where a run has failed, and the place that belongs to its fault. -/
inductive Program.FaultAt (p : Program) (options : RunOptions) (sink : Sink σ) (fuel : Nat) (s : σ)
    (e : RuntimeError) : Option Span → Prop
  /-- The definition of a record fails; those before it do not. -/
  | record {before decl after types} (hrecords : p.records = before ++ decl :: after)
    (hbefore : TypeTable.empty.defineAll before = .ok types)
    (hdefine : types.define decl = .error e) : FaultAt p options sink fuel s e (some decl.span)
  /-- The functions cannot be collected. -/
  | table {types} (htypes : TypeTable.empty.defineAll p.records = .ok types)
    (hbuild : FunctionTable.build types p = .error e) : FaultAt p options sink fuel s e none
  /-- The fault is raised inside a statement or a declaration, and `place` is the innermost. -/
  | inside {running place} (hraised : (p.history options sink fuel s).Raised e running)
    (hplace : innermost? running = some place) : FaultAt p options sink fuel s e (some place)
  /-- The fault is raised outside of all statements and declarations. -/
  | entry {ctx running} (hctx : p.context options sink = .ok ctx)
    (hraised : (p.history options sink fuel s).Raised e running)
    (hentry : ctx.EntryFault e running) : FaultAt p options sink fuel s e none

/-- A run that fails in the program itself ends with the history of its fault. -/
theorem Program.raised_of_run {p : Program} {options : RunOptions} {sink : Sink σ} {fuel : Nat}
    {s : σ} {ctx : Context σ} (hctx : p.context options sink = .ok ctx) {e : RuntimeError}
    {span : Option Span} (h : (p.run options sink fuel s).1 = .error (.fault e span)) :
    ∃ running, (p.history options sink fuel s).Raised e running ∧ ctx.faultSpec e running span := by
  have hplaces := p.places_record ctx fuel (Recorded.start s) [] .start
  obtain ⟨x, hr⟩ := exists_record_of_run hctx h
  rw [hr] at hplaces
  rw [Program.history, hctx]
  dsimp only
  rw [hr]
  cases hplaces with
  | fault hraised hspec =>
    rw [List.append_nil] at hraised
    exact ⟨_, hraised, hspec⟩

/-- A fault has the place of the innermost record definition, variable declaration or statement that
was being executed when it was raised, through all calls that were running. It has none if there was
none: if the functions cannot be collected, or the fault is one of the entry function and was not
raised inside its body. -/
theorem faultAt_of_run {p : Program} {options : RunOptions} {sink : Sink σ} {fuel : Nat} {s : σ}
    {e : RuntimeError} {span : Option Span}
    (h : (p.run options sink fuel s).1 = .error (.fault e span)) :
    p.FaultAt options sink fuel s e span ∧
      ∀ running, (p.history options sink fuel s).Raised e running → span = innermost? running := by
  cases hctx : p.context options sink with
  | error stop =>
    rw [Program.run, hctx] at h
    cases h
    constructor
    · rcases p.exists_of_context_error hctx with
        ⟨_, _, _, _, _, hrecords, hbefore, hdefine, hstop⟩ | ⟨_, _, htypes, hbuild, hstop⟩
      · cases hstop
        exact .record hrecords hbefore hdefine
      · cases hstop
        exact .table htypes hbuild
    · -- Nothing has been run.
      rintro running ⟨later, m, past, hhistory, -, -⟩
      rw [Program.history, hctx] at hhistory
      cases later <;> cases hhistory
  | ok ctx =>
    obtain ⟨running, hraised, hspec⟩ := p.raised_of_run hctx h
    rcases hspec with ⟨place, rfl, hplace⟩ | ⟨rfl, hentry⟩
    · refine ⟨.inside hraised hplace, fun running' hraised' => ?_⟩
      rw [← hraised.unique hraised', hplace]
    · refine ⟨.entry hctx hraised hentry, fun running' hraised' => ?_⟩
      rw [← hraised.unique hraised', hentry.innermost?_eq_none]

/-- The program `int inverse(int x) { return 1 / x; } int main() { int a = inverse(0); }`. -/
def divideByZero : Program :=
  let num (k : Int64) : Expr := .literal (.int k) ⟨0, 0⟩
  ⟨[.function ⟨"inverse", [⟨"x", .int, false, ⟨0, 0⟩⟩], .int,
      some ⟨[.ret (some (.binary (.arith .div) (num 1) (.name "x" ⟨0, 0⟩) ⟨0, 0⟩)) ⟨21, 34⟩],
        ⟨0, 0⟩⟩, ⟨0, 0⟩⟩,
    .function ⟨"main", [], .int, some ⟨[.declare [⟨"a", .int, false,
        some (.expr (.call "inverse" ⟨0, 0⟩ [num 0] ⟨0, 0⟩)), ⟨54, 68⟩⟩] ⟨50, 69⟩],
        ⟨0, 0⟩⟩, ⟨0, 0⟩⟩]⟩

/-- The division stands in a statement of the function that is called. -/
theorem faultAt_divideByZero :
    divideByZero.FaultAt {} Sink.recording 30 #[] .divisionByZero (some ⟨21, 34⟩) := by
  have hrun : (divideByZero.run {} Sink.recording 30 #[]).1 =
      .error (.fault .divisionByZero (some ⟨21, 34⟩)) := by decide +kernel
  exact (faultAt_of_run hrun).1

end SmallCpp
