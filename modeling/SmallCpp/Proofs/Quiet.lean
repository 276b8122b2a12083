import SmallCpp.Proofs.Cutoff
import SmallCpp.Proofs.Termination

/-!
# Parts of a program without side effects

An expression is quiet if no part of it assigns, steps or calls, and an initializer is quiet if its
expressions are. The script of a quiet task asks questions and hands on other quiet tasks, and does
nothing else. So a quiet task leaves the machine as it is (`Task.Quiet.finalState_run`), it finishes
within its weight (`Task.Quiet.outcome`), and it comes to the same outcome under every bound on the
steps that is large enough (`Task.Quiet.run_eq`). `Task.ComesTo` leaves the bound out, and then a
quiet task comes to what its script comes to (`Task.Quiet.comesTo_iff`).
-/

namespace SmallCpp

variable {σ α β : Type}

/-- Whether no part of the expression is an assignment, a step or a call. -/
def Expr.quiet : Expr → Bool
  | .literal .. | .name .. => true
  | .binary _ left right _ => left.quiet && right.quiet
  | .unary _ operand _ => operand.quiet
  | .assign .. | .step .. | .call .. => false
  | .index base subscript _ => base.quiet && subscript.quiet
  | .field base _ _ => base.quiet

mutual

/-- Whether all expressions of the initializer are quiet. -/
def Initializer.quiet : Initializer → Bool
  | .expr e => e.quiet
  | .list items _ => Initializer.allQuiet items

/-- Whether all expressions of the initializers are quiet. -/
def Initializer.allQuiet : List Initializer → Bool
  | [] => true
  | item :: items => item.quiet && Initializer.allQuiet items

end

/-- A task that works on quiet expressions only. -/
def Task.Quiet : Task → Prop
  | eval e | place e => e.quiet = true
  | build init _ => init.quiet = true
  | buildElems items _ | buildFields items _ => Initializer.allQuiet items = true
  | _ => False

/-! ## Scripts that only ask -/

/-- The script has no effect and opens no enclosure. -/
def Script.Silent : {α : Type} → Script α → Prop
  | _, .done _ => True
  | _, .fail _ => True
  | _, .ask _ next => ∀ b, (next b).Silent
  | _, .act _ _ => False
  | _, .perform _ next => ∀ r, (next r).Silent
  | _, .within _ _ _ => False

namespace Script.Silent

/-- A result asks nothing. -/
theorem pure {a : α} : (pure a : Script α).Silent := trivial

/-- An error asks nothing. -/
theorem fail {e : RuntimeError} : (fail e : Script α).Silent := trivial

/-- Two silent scripts after each other are silent. -/
theorem bind {s : Script α} {f : α → Script β} (hs : s.Silent) (hf : ∀ a, (f a).Silent) :
    (s >>= f).Silent := by
  induction s with
  | done a => exact hf a
  | fail e => trivial
  | ask q next ih => exact fun b => ih b (hs b) hf
  -- An effect or an enclosure would not be silent.
  | act g next _ => exact hs.elim
  | perform t next ih => exact fun r => ih r (hs r) hf
  | within k inner next _ _ => exact hs.elim

/-- A question is all that a silent script does by itself. -/
theorem query {q : Query α} : (query q).Silent := fun _ => trivial

/-- A task that is handed on may do what it likes; the script itself is silent. -/
theorem task {t : Task} : Silent (α := no_index t.Result) (task t) := fun _ => trivial

/-- A computation on values is silent. -/
theorem lift {r : Except RuntimeError α} : (lift r).Silent := by
  cases r <;> trivial

/-- Either branch has to be silent. -/
theorem ite {c : Prop} [Decidable c] {s t : Script α} (hs : s.Silent) (ht : t.Silent) :
    (if c then s else t).Silent := by
  split_ifs
  · exact hs
  · exact ht

/-- A silent script leaves the machine as it is if the tasks that it hands on do. -/
theorem finalState_run {ctx : Context σ} {perform : (t : Task) → Exec σ t.Result}
    {K : Enclosure → Prop} {T : Task → Prop}
    (hperform : ∀ t, T t → ∀ m, finalState (perform t m) = m) {s : Script α} (hs : s.Silent)
    (hshape : s.Shaped K T) (m : Machine σ) : finalState (s.run ctx perform m) = m := by
  induction s with
  | done a => rfl
  | fail e => rfl
  | ask q next ih =>
    rw [run, EStateM.bind_apply, Exec.ask]
    -- The question leaves the machine as it is, with an answer or without.
    cases q.answer m.env with
    | ok b => exact ih b (hs b) (hshape b)
    | error e => rfl
  | act f next _ => exact hs.elim
  | perform t next ih =>
    -- So does the task, which is handed on by a script of the shape.
    have ht := hperform t hshape.1 m
    rw [run, EStateM.bind_apply]
    cases hr : perform t m with
    | ok r m' =>
      rw [hr] at ht
      obtain rfl : m' = m := ht
      exact ih r (hs r) (hshape.2 r)
    | error stop m' =>
      rw [hr] at ht
      exact ht
  | within k inner next _ _ => exact hs.elim

end Script.Silent

/-! ## Quiet tasks -/

namespace Task.Quiet

variable {t : Task}

/-- Only an assignment, a step or a call does more than ask. -/
theorem silent_eval {e : Expr} (he : e.quiet = true) : (Script.eval e).Silent := by
  cases e with
  | literal lit span => exact .pure
  | name id span => exact .query
  | binary op left right span =>
    rcases op with op | op | ⟨⟨⟩⟩
    · -- Both operands are evaluated, then the operator is applied to their values.
      exact .bind .task fun _ => .bind .task fun _ => .lift
    · exact .bind .task fun _ => .bind .task fun _ => .lift
    · -- For `&&` and `||` the right operand is evaluated in one of the two cases only.
      refine .bind .task fun _ => .bind .lift fun _ => .ite ?_ .pure
      exact .bind .task fun _ => .bind .lift fun _ => .pure
    · refine .bind .task fun _ => .bind .lift fun _ => .ite .pure ?_
      exact .bind .task fun _ => .bind .lift fun _ => .pure
  | unary op operand span => exact .bind .task fun _ => .lift
  | index base subscript span =>
    -- An element of storage is read from its place, one of a temporary from the value.
    refine .ite (.bind .task fun _ => .query) ?_
    exact .bind .task fun _ => .bind .task fun _ => .bind .lift fun _ => .lift
  | field base id span =>
    exact .ite (.bind .task fun _ => .query) (.bind .task fun _ => .lift)
  -- These are the three that are not quiet.
  | assign | step | call => cases he

/-- An expression that names storage does nothing but ask, whatever its parts are. -/
theorem silent_place (e : Expr) : (Script.place e).Silent := by
  cases e with
  | name id span => exact .query
  | index base subscript span =>
    exact .bind .task fun _ => .bind .task fun _ => .bind .lift fun _ => .query
  | field base id span => exact .bind .task fun _ => .query
  | _ => exact .fail

/-- An initializer leaves all work to its expressions. -/
theorem silent_build (init : Initializer) (type : ValueType) : (Script.build init type).Silent := by
  cases init with
  | expr e => exact .bind .task fun _ => .lift
  | list items span =>
    cases type with
    | array elem length => exact .ite .fail (.bind .task fun _ => .pure)
    | record name layout => exact .ite .fail (.bind .task fun _ => .pure)
    | _ =>
      rcases items with _ | ⟨item, _ | ⟨_, _⟩⟩
      · exact .pure
      · exact .task
      · exact .fail

/-- A quiet task has no effect of its own. -/
theorem silent (ht : t.Quiet) (ctx : Context σ) : (t.script ctx).Silent := by
  cases t with
  | eval e => exact silent_eval ht
  | place e => exact silent_place e
  | build init type => exact silent_build init type
  | buildElems items type =>
    cases items with
    | nil => exact .pure
    | cons item rest => exact .bind .task fun _ => .bind .task fun _ => .pure
  | buildFields items layout =>
    rcases items with _ | ⟨item, rest⟩
    · exact .pure
    · rcases layout with _ | ⟨field, fields⟩
      · exact .pure
      · exact .bind .task fun _ => .bind .task fun _ => .pure
  | _ => exact ht.elim

/-- A quiet task hands on quiet tasks. -/
theorem of_hands {functions : FunctionTable} {u : Task} (ht : t.Quiet)
    (h : t.Hands functions u) : u.Quiet := by
  cases h with
  -- The first part of an expression or a list.
  | binaryLeft | indexBase | placeIndexBase | elemsHead | fieldsHead =>
    exact (Bool.and_eq_true_iff.mp ht).1
  -- The second part of it.
  | binaryRight | indexSubscript | placeIndexSubscript | elemsTail | fieldsTail =>
    exact (Bool.and_eq_true_iff.mp ht).2
  -- The only part, or the same expression in another task.
  | unary | fieldBase | placeFieldBase | evalPlace | buildExpr | buildElems | buildFields =>
    exact ht
  | buildSingle => exact (Bool.and_eq_true_iff.mp ht).1
  | assignValue | assignTarget | stepTarget | evalCall => cases ht
  | _ => exact ht.elim

/-- A quiet task leaves the machine as it is, whether it comes to a result or not. -/
theorem finalState_run (ht : t.Quiet) (ctx : Context σ) (fuel : Nat) (m : Machine σ) :
    finalState (t.run ctx fuel m) = m := by
  induction fuel generalizing t m with
  | zero =>
    rw [Task.run_zero]
    rfl
  | succ fuel ih =>
    rw [Task.run_succ]
    refine (ht.silent ctx).finalState_run (fun u hu m => ?_) (t.script_shaped ctx) m
    exact ih (ht.of_hands hu) m

/-- A quiet task has no loop and enters no function, so any bound will do. -/
theorem bounded (ht : t.Quiet) (bound : Nat) : t.Bounded bound := by
  cases t with
  | exec | repeatWhile | execAll | invoke => exact ht.elim
  | _ => trivial

/-- A quiet task enters no function. -/
theorem ne_invoke (ht : t.Quiet) (entry : FunctionEntry) (args : List Argument) :
    t ≠ .invoke entry args := by
  rintro rfl
  exact ht

/-- A quiet task finishes within its weight. -/
theorem finishes_run (ht : t.Quiet) (ctx : Context σ) {fuel : Nat} (hfuel : t.weight < fuel)
    (d : Nat) : (t.run ctx fuel).Finishes d := by
  induction fuel generalizing t with
  | zero => omega
  | succ fuel ih =>
    rw [Task.run_succ]
    refine .of_shaped (T := fun u => u.Quiet ∧ u.weight < t.weight) (fun u hu => ih hu.1 (by omega))
      ((t.script_shaped ctx).imp (fun k hk => hk.local_of_ne ht.ne_invoke) fun u hu => ?_)
    exact ⟨ht.of_hands hu, hu.weight_lt (ht.bounded 0) ht.ne_invoke⟩

/-- With enough steps a quiet task comes to a result or an error, and changes nothing. -/
theorem outcome (ht : t.Quiet) (ctx : Context σ) {fuel : Nat} (hfuel : t.weight < fuel)
    (m : Machine σ) :
    (∃ a, t.run ctx fuel m = .ok a m) ∨ ∃ e span, t.run ctx fuel m = .error (.fault e span) m := by
  have hsame := ht.finalState_run ctx fuel m
  have hends := ht.finishes_run ctx hfuel m.env.depth m rfl
  cases hr : t.run ctx fuel m with
  | ok a m' =>
    rw [hr] at hsame
    obtain rfl : m' = m := hsame
    exact .inl ⟨a, rfl⟩
  | error stop m' =>
    rw [hr] at hsame hends
    obtain rfl : m' = m := hsame
    -- Within its weight, the task does not run out of steps.
    cases stop with
    | fault e span => exact .inr ⟨e, span, rfl⟩
    | outOfFuel => exact absurd rfl hends

/-- Once there are enough steps, more of them make no difference to a quiet task. -/
theorem run_eq (ht : t.Quiet) (ctx : Context σ) {fuel fuel' : Nat} (hfuel : t.weight < fuel)
    (hfuel' : t.weight < fuel') (m : Machine σ) : t.run ctx fuel m = t.run ctx fuel' m := by
  have hleast : ∀ {n}, t.weight < n → t.run ctx n m = t.run ctx (t.weight + 1) m := by
    intro n hn
    refine Task.run_of_le t hn fun m' h => ?_
    rcases ht.outcome ctx (Nat.lt_succ_self _) m with ⟨a, ha⟩ | ⟨e, span, he⟩
    · rw [ha] at h
      cases h
    · rw [he] at h
      cases h
  rw [hleast hfuel, hleast hfuel']

/-- What a quiet task leaves behind if it comes to a result. -/
theorem machine_eq (ht : t.Quiet) {ctx : Context σ} {fuel : Nat} {m m' : Machine σ} {a : t.Result}
    (h : t.run ctx fuel m = .ok a m') : m' = m := by
  have hsame := ht.finalState_run ctx fuel m
  rw [h] at hsame
  exact hsame

end Task.Quiet

/-! ## Results without a bound on the steps -/

/-- With some number of steps the task comes to a result and leaves the machine as it is. -/
def Task.ComesTo (t : Task) (ctx : Context σ) (m : Machine σ) (r : t.Result) : Prop :=
  ∃ fuel, t.run ctx fuel m = .ok r m

namespace Task.ComesTo

variable {t u : Task} {ctx : Context σ} {m m' : Machine σ} {r : t.Result} {r' : u.Result}

/-- A quiet task comes to its result with every number of steps that is large enough. -/
theorem run_eq (h : t.ComesTo ctx m r) (ht : t.Quiet) {fuel : Nat} (hfuel : t.weight < fuel) :
    t.run ctx fuel m = .ok r m := by
  obtain ⟨n, hn⟩ := h
  have hmax := Task.run_ok_of_le hn (Nat.le_max_left n fuel)
  rwa [ht.run_eq ctx (Nat.lt_of_lt_of_le hfuel (Nat.le_max_right n fuel)) hfuel] at hmax

end Task.ComesTo

/-- What a silent script comes to, by the results of the tasks that it hands on. -/
def Script.ComesTo (ctx : Context σ) (m : Machine σ) : {α : Type} → Script α → α → Prop
  | _, .done b, a => b = a
  | _, .fail _, _ => False
  | _, .ask q next, a => ∃ b, q.answer m.env = .ok b ∧ (next b).ComesTo ctx m a
  | _, .act _ _, _ => False
  | _, .perform t next, a => ∃ r, t.ComesTo ctx m r ∧ (next r).ComesTo ctx m a
  | _, .within _ _ _, _ => False

namespace Script

variable {ctx : Context σ} {m : Machine σ}

/-- A result is what it comes to. -/
theorem comesTo_pure {a b : α} : (pure b : Script α).ComesTo ctx m a ↔ b = a := Iff.rfl

/-- A script comes to a result by one of its first part. -/
theorem comesTo_bind {s : Script α} {f : α → Script β} {b : β} :
    (s >>= f).ComesTo ctx m b ↔ ∃ a, s.ComesTo ctx m a ∧ (f a).ComesTo ctx m b := by
  induction s with
  -- A script comes to its result in the order of its steps; the first step is taken off on both
  -- sides.
  | done a => exact ⟨fun h => ⟨a, rfl, h⟩, fun ⟨_, rfl, h⟩ => h⟩
  | fail e => exact ⟨fun h => h.elim, fun ⟨_, h, _⟩ => h.elim⟩
  | ask q next ih =>
    refine ⟨fun ⟨c, hc, h⟩ => ?_, fun ⟨a, ⟨c, hc, ha⟩, h⟩ => ⟨c, hc, (ih c).mpr ⟨a, ha, h⟩⟩⟩
    obtain ⟨a, ha, h⟩ := (ih c).mp h
    exact ⟨a, ⟨c, hc, ha⟩, h⟩
  | act g next _ => exact ⟨fun h => h.elim, fun ⟨_, h, _⟩ => h.elim⟩
  | perform t next ih =>
    refine ⟨fun ⟨r, hr, h⟩ => ?_, fun ⟨a, ⟨r, hr, ha⟩, h⟩ => ⟨r, hr, (ih r).mpr ⟨a, ha, h⟩⟩⟩
    obtain ⟨a, ha, h⟩ := (ih r).mp h
    exact ⟨a, ⟨r, hr, ha⟩, h⟩
  | within k inner next _ _ => exact ⟨fun h => h.elim, fun ⟨_, h, _⟩ => h.elim⟩

/-- A computation on values comes to its result. -/
theorem comesTo_lift {r : Except RuntimeError α} {a : α} :
    (lift r).ComesTo ctx m a ↔ r = .ok a := by
  cases r with
  | ok b => exact ⟨fun h => congrArg _ h, fun h => Except.ok.inj h⟩
  | error e => exact ⟨fun h => h.elim, nofun⟩

/-- A check that fails comes to nothing. -/
theorem comesTo_guard {c : Prop} [Decidable c] {e : RuntimeError} {s : Script α} {a : α} :
    (if c then fail e else s).ComesTo ctx m a ↔ ¬c ∧ s.ComesTo ctx m a := by
  split_ifs with h
  · exact ⟨fun h => h.elim, fun hc => absurd h hc.1⟩
  · exact ⟨fun hs => ⟨h, hs⟩, fun hs => hs.2⟩

/-- A question comes to its answer. -/
theorem comesTo_query {q : Query α} {a : α} :
    (query q).ComesTo ctx m a ↔ q.answer m.env = .ok a :=
  ⟨fun ⟨_, hb, hab⟩ => hab ▸ hb, fun h => ⟨a, h, rfl⟩⟩

/-- A task that is handed on comes to its own result. -/
theorem comesTo_task {t : Task} {r : t.Result} :
    Script.ComesTo ctx m (task t) r ↔ t.ComesTo ctx m r :=
  ⟨fun ⟨_, hr, hrr⟩ => hrr ▸ hr, fun h => ⟨r, h, rfl⟩⟩

/-- With enough steps a script comes to its result. -/
theorem ComesTo.eventually {s : Script α} {a : α} (h : s.ComesTo ctx m a) :
    ∃ n, ∀ fuel, n ≤ fuel → s.run ctx (Task.run ctx fuel) m = .ok a m := by
  induction s with
  | done b => exact ⟨0, fun _ _ => congrArg (EStateM.Result.ok · m) h⟩
  | fail e => exact h.elim
  | ask q next ih =>
    obtain ⟨b, hb, hnext⟩ := h
    obtain ⟨n, hn⟩ := ih b hnext
    refine ⟨n, fun fuel hfuel => ?_⟩
    have hask : Exec.ask q.answer m = .ok b m := by
      rw [Exec.ask, hb]
      rfl
    rw [run, EStateM.bind_of_ok hask]
    exact hn fuel hfuel
  | act f next _ => exact h.elim
  | perform t next ih =>
    -- The task needs some steps, the rest of the script others; both have enough with the larger
    -- number.
    obtain ⟨r, ⟨k, hk⟩, hnext⟩ := h
    obtain ⟨n, hn⟩ := ih r hnext
    refine ⟨max k n, fun fuel hfuel => ?_⟩
    rw [run, EStateM.bind_of_ok (Task.run_ok_of_le hk (Nat.le_trans (Nat.le_max_left k n) hfuel))]
    exact hn fuel (Nat.le_trans (Nat.le_max_right k n) hfuel)
  | within k inner next _ _ => exact h.elim

/-- What a script comes to with some number of steps, it comes to by its tasks. -/
theorem Silent.comesTo {T : Task → Prop} {K : Enclosure → Prop} (hquiet : ∀ t, T t → t.Quiet)
    {s : Script α} (hs : s.Silent) (hshape : s.Shaped K T) {fuel : Nat} {a : α} {m' : Machine σ}
    (h : s.run ctx (Task.run ctx fuel) m = .ok a m') : s.ComesTo ctx m a := by
  induction s with
  | done b =>
    cases h
    rfl
  | fail e => cases h
  | ask q next ih =>
    obtain ⟨b, m₁, hb, hrest⟩ := EStateM.bind_eq_ok h
    rw [Exec.ask] at hb
    cases hq : q.answer m.env with
    | error e =>
      rw [hq] at hb
      cases hb
    | ok c =>
      rw [hq] at hb
      cases hb
      exact ⟨b, hq, ih b (hs b) (hshape b) hrest⟩
  | act f next _ => exact hs.elim
  | perform t next ih =>
    obtain ⟨r, m₁, hr, hrest⟩ := EStateM.bind_eq_ok h
    -- The task is quiet, so the rest runs from the same machine.
    have ht := hquiet t hshape.1
    obtain rfl := ht.machine_eq hr
    exact ⟨r, ⟨fuel, hr⟩, ih r (hs r) (hshape.2 r) hrest⟩
  | within k inner next _ _ => exact hs.elim

end Script

/-- A quiet task comes to what its script comes to. -/
theorem Task.Quiet.comesTo_iff {t : Task} (ht : t.Quiet) {ctx : Context σ} {m : Machine σ}
    {r : t.Result} : t.ComesTo ctx m r ↔ Script.ComesTo ctx m (t.script ctx) r := by
  constructor
  · -- A run with no step stops at once; any other is the script with one step less.
    rintro ⟨fuel, h⟩
    cases fuel with
    | zero =>
      rw [Task.run_zero] at h
      cases h
    | succ fuel =>
      rw [Task.run_succ] at h
      exact (ht.silent ctx).comesTo (fun u hu => ht.of_hands hu) (t.script_shaped ctx) h
  · intro h
    obtain ⟨n, hn⟩ := h.eventually
    refine ⟨n + 1, ?_⟩
    rw [Task.run_succ]
    exact hn n (Nat.le_refl n)

/-! ## Quiet expressions -/

namespace Exec

variable {e : Expr} {fuel fuel' : Nat}

/-- A quiet expression comes to a value or an error, and changes nothing. -/
theorem eval_outcome (he : e.quiet = true) (ctx : Context σ) (hfuel : (Task.eval e).weight < fuel)
    (m : Machine σ) :
    (∃ v, eval ctx fuel e m = .ok v m) ∨
      ∃ error span, eval ctx fuel e m = .error (.fault error span) m :=
  Task.Quiet.outcome (t := .eval e) he ctx hfuel m

/-- A quiet expression that names storage comes to a place or an error, and changes nothing. -/
theorem place_outcome (he : e.quiet = true) (ctx : Context σ)
    (hfuel : (Task.place e).weight < fuel) (m : Machine σ) :
    (∃ p, place ctx fuel e m = .ok p m) ∨
      ∃ error span, place ctx fuel e m = .error (.fault error span) m :=
  Task.Quiet.outcome (t := .place e) he ctx hfuel m

/-- The value of a quiet expression does not depend on the bound. -/
theorem eval_eq (he : e.quiet = true) (ctx : Context σ) (hfuel : (Task.eval e).weight < fuel)
    (hfuel' : (Task.eval e).weight < fuel') : eval ctx fuel e = eval ctx fuel' e :=
  funext fun m => Task.Quiet.run_eq (t := .eval e) he ctx hfuel hfuel' m

/-- The place that a quiet expression names does not depend on the bound. -/
theorem place_eq (he : e.quiet = true) (ctx : Context σ) (hfuel : (Task.place e).weight < fuel)
    (hfuel' : (Task.place e).weight < fuel') : place ctx fuel e = place ctx fuel' e :=
  funext fun m => Task.Quiet.run_eq (t := .place e) he ctx hfuel hfuel' m

end Exec

end SmallCpp
