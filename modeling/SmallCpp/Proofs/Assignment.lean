import SmallCpp.Proofs.Projection

/-!
# Compound assignments and steps

A compound assignment and a step do the same once their place and their operand are known: they read
the place, apply the operator, and store the result, converted to the type that the place holds
(`Exec.exchange`). They differ in what they yield, the new value or the old one. Nothing is stored
if one of these things fails, and what was stored can be read back (`Exec.exchange_cases`).

A compound assignment evaluates its parts in another order than the assignment of an operator's
result, and evaluates its target once and not twice. Without side effects in the parts this makes no
difference but to the error.
-/

namespace SmallCpp

variable {σ : Type}

/-- Only something with an integer value can be computed with. -/
theorem ArithOp.exists_of_apply {op : ArithOp} {l r v : Value} (h : op.apply l r = .ok v) :
    (∃ a, l.asInt = .ok a) ∧ ∃ n, v = .int n := by
  obtain ⟨a, ha, h⟩ := Except.bind_eq_ok h
  obtain ⟨b, -, h⟩ := Except.bind_eq_ok h
  obtain ⟨n, -, h⟩ := Except.bind_eq_ok h
  cases h
  exact ⟨⟨a, ha⟩, n, rfl⟩

/-- What has an integer value lies in a cell that was made. -/
theorem Store.cell_lt_of_asInt {s : Store} {p : Place} {v : Value} {n : Int64}
    (hread : s.read p = .ok v) (hn : v.asInt = .ok n) : p.cell < s.cells.size := by
  by_contra hge
  have hcell : s.cell p.cell = .void := by
    rw [cell, Array.getD_eq_getD_getElem?, Array.getElem?_eq_none (by omega), Option.getD_none]
  rw [read, hcell] at hread
  cases hpath : p.path with
  | nil =>
    rw [hpath] at hread
    cases hread
    cases hn
  | cons step path =>
    rw [hpath] at hread
    cases step <;> cases hread

namespace Exec

variable {ctx : Context σ}

/-- Applies an operator to what is at a place, stores the result there, and yields what was there
before. -/
def exchange (op : ArithOp) (p : Place) (rhs : Value) : Exec σ Value := do
  let old ← ask (·.store.read p)
  let new ← lift (op.apply old rhs)
  write p new
  return old

/-- A step that stands after its target yields what was there. -/
theorem eval_step_after (fuel : Nat) (op : StepOp) (t : Expr) (span : Span) :
    eval ctx (fuel + 1) (.step op .after t span) =
      place ctx fuel t >>= fun p => exchange op.arith p (.int 1) := by
  rw [eval]
  rfl

/-- A step that stands before its target yields what is there afterwards. -/
theorem eval_step_before (fuel : Nat) (op : StepOp) (t : Expr) (span : Span) :
    eval ctx (fuel + 1) (.step op .before t span) =
      place ctx fuel t >>= fun p => exchange op.arith p (.int 1) >>= fun _ =>
        ask (·.store.read p) := by
  rw [eval]
  simp only [exchange, bind_assoc, pure_bind]

/-- A compound assignment evaluates its right side first. -/
theorem eval_assign_some (fuel : Nat) (op : ArithOp) (t v : Expr) (span : Span) :
    eval ctx (fuel + 1) (.assign (some op) t v span) =
      eval ctx fuel v >>= fun rhs => place ctx fuel t >>= fun p => exchange op p rhs >>= fun _ =>
        ask (·.store.read p) := by
  rw [eval]
  simp only [combined, exchange, bind_assoc, pure_bind]

/-- An assignment evaluates its right side first, too. -/
theorem eval_assign_none (fuel : Nat) (t v : Expr) (span : Span) :
    eval ctx (fuel + 1) (.assign none t v span) =
      eval ctx fuel v >>= fun new => place ctx fuel t >>= fun p => write p new >>= fun _ =>
        ask (·.store.read p) := by
  rw [eval]
  simp only [combined, pure_bind]

/-- An exchange whose operator has a result stores that. -/
theorem exchange_apply {op : ArithOp} {p : Place} {rhs old n : Value} {m : Machine σ}
    (hread : m.env.store.read p = .ok old) (happly : op.apply old rhs = .ok n) :
    exchange op p rhs m = (write p n >>= fun _ => pure old) m := by
  rw [exchange, EStateM.bind_apply, ask, hread]
  change (lift (op.apply old rhs) >>= fun new => write p new >>= fun _ => pure old) m = _
  rw [happly]
  rfl

/-- An exchange that cannot read its place or apply its operator fails and changes nothing. -/
theorem exchange_of_error {op : ArithOp} {p : Place} {rhs : Value} {e : RuntimeError}
    {m : Machine σ} (h : (m.env.store.read p >>= fun old => op.apply old rhs) = .error e) :
    exchange op p rhs m = .error (.fault e none) m := by
  rw [exchange, EStateM.bind_apply, ask]
  cases hread : m.env.store.read p with
  | error e' =>
    rw [hread] at h
    cases h
    rfl
  | ok old =>
    rw [hread] at h
    change (lift (op.apply old rhs) >>= _) m = _
    rw [show op.apply old rhs = .error e from h]
    rfl

/-- An exchange fails and changes nothing, or it leaves at the place the result of the operator,
converted to the type of what was there. -/
theorem exchange_cases (op : ArithOp) (p : Place) (rhs : Value) (m : Machine σ) :
    (∃ e, exchange op p rhs m = .error (.fault e none) m) ∨
    ∃ old n new m', m.env.store.read p = .ok old ∧ op.apply old rhs = .ok n ∧
      n.convert old.type = .ok new ∧ exchange op p rhs m = .ok old m' ∧
      m'.env.store.read p = .ok new := by
  cases hresult : (m.env.store.read p >>= fun old => op.apply old rhs) with
  | error e => exact .inl ⟨e, exchange_of_error hresult⟩
  | ok n =>
    obtain ⟨old, hread, happly⟩ := Except.bind_eq_ok hresult
    rw [exchange_apply hread happly, EStateM.bind_apply, write_apply]
    cases hconvert : n.convert old.type with
    | error e =>
      have hfails : m.env.store.updated p n = .error e := Value.modify_of_error hread hconvert
      rw [hfails]
      exact .inl ⟨e, rfl⟩
    | ok new =>
      obtain ⟨held, hheld, hfound⟩ :=
        Value.exists_modify (f := fun old => n.convert old.type) hread hconvert
      have hupdated : m.env.store.updated p n = .ok held := hheld
      -- Arithmetic succeeds only on what lies in a cell that was made, so that the write is seen.
      obtain ⟨⟨a, ha⟩, -⟩ := ArithOp.exists_of_apply happly
      have hcell := Store.cell_lt_of_asInt hread ha
      rw [hupdated]
      refine .inr ⟨old, n, new, _, hread, happly, hconvert, rfl, ?_⟩
      rw [Environment.setCell, Store.read, Store.cell_setCell_self _ _ hcell]
      exact hfound

/-- Only a place expression leads to a place. -/
theorem isPlace_of_place {fuel : Nat} {e : Expr} {p : Place} {m m' : Machine σ}
    (h : place ctx fuel e m = .ok p m') : e.isPlace = true := by
  induction fuel generalizing e p m' with
  | zero =>
    rw [place] at h
    cases h
  | succ fuel ih =>
    cases e with
    | name id span => rfl
    | index base subscript span | field base id span =>
      rw [place] at h
      obtain ⟨q, t, hq, -⟩ := EStateM.bind_eq_ok h
      exact (ih hq : base.isPlace = true)
    | _ =>
      rw [place.eq_def] at h
      cases h

/-- The result of the operator may be computed before anything else is done at the place. -/
theorem exchange_bind {α : Type} (op : ArithOp) (p : Place) (rhs : Value) (k : Exec σ α)
    (m : Machine σ) :
    (exchange op p rhs >>= fun _ => k) m =
      (lift (m.env.store.read p >>= fun old => op.apply old rhs) >>= fun n =>
        write p n >>= fun _ => k) m := by
  rw [EStateM.bind_apply]
  cases hresult : (m.env.store.read p >>= fun old => op.apply old rhs) with
  | error e =>
    rw [exchange_of_error hresult]
    rfl
  | ok n =>
    obtain ⟨old, hread, happly⟩ := Except.bind_eq_ok hresult
    rw [exchange_apply hread happly]
    change _ = (write p n >>= fun _ => k) m
    rw [EStateM.bind_apply, EStateM.bind_apply]
    cases write p n m <;> rfl

/-- The value of an expression without side effects is what its place holds. -/
theorem eval_of_place {t : Expr} (ht : t.quiet = true) {fuel fuel' : Nat} {p : Place}
    {m : Machine σ} (hp : place ctx fuel t m = .ok p m) (hfuel : (Task.place t).weight < fuel)
    (hfuel' : (Task.eval t).weight < fuel') :
    eval ctx fuel' t m = lift (m.env.store.read p) m := by
  have hlight : (Task.eval t).weight = (Task.place t).weight + 1 := rfl
  obtain ⟨n, rfl⟩ : ∃ n, fuel' = n + 2 := ⟨fuel' - 2, by omega⟩
  have hsame : place ctx (n + 1) t = place ctx fuel t := place_eq ht ctx (by omega) hfuel
  rw [eval_of_isPlace (isPlace_of_place hp), hsame]
  exact EStateM.bind_of_ok hp

/-- An arithmetic operator evaluates its left operand first. -/
theorem eval_arith (fuel : Nat) (op : ArithOp) (l r : Expr) (span : Span) :
    eval ctx (fuel + 1) (.binary (.arith op) l r span) =
      eval ctx fuel l >>= fun a => eval ctx fuel r >>= fun b => lift (op.apply a b) := by
  rw [eval]

/-- To assign the result of the operator is to exchange what the place holds for it. -/
theorem plain_of_parts {op : ArithOp} {t v : Expr} (ht : t.quiet = true) {span span' : Span}
    {n : Nat} (hfuel : (Task.eval t).weight < n) {p : Place} {rhs : Value} {m : Machine σ}
    (hp : place ctx (n + 1) t m = .ok p m) (hrhs : eval ctx n v m = .ok rhs m) :
    eval ctx (n + 2) (.assign none t (.binary (.arith op) t v span) span') m =
      (exchange op p rhs >>= fun _ => ask (·.store.read p)) m := by
  have hlight : (Task.eval t).weight = (Task.place t).weight + 1 := rfl
  have hleft := eval_of_place ht hp (by omega) hfuel
  -- The left operand is the target, and reads what its place holds.
  have hnew : eval ctx (n + 1) (.binary (.arith op) t v span) m =
      lift (m.env.store.read p >>= fun old => op.apply old rhs) m := by
    rw [eval_arith]
    cases hread : m.env.store.read p with
    | error e =>
      rw [hread] at hleft
      exact EStateM.bind_of_error hleft
    | ok old =>
      rw [hread] at hleft
      rw [EStateM.bind_of_ok hleft]
      exact EStateM.bind_of_ok hrhs
  rw [eval_assign_none, exchange_bind]
  cases hresult : (m.env.store.read p >>= fun old => op.apply old rhs) with
  | error e =>
    rw [hresult] at hnew
    exact EStateM.bind_of_error hnew
  | ok new =>
    rw [hresult] at hnew
    rw [EStateM.bind_of_ok hnew]
    exact EStateM.bind_of_ok hp

/-- In parts without side effects, an operator may be applied by the assignment or before it: both
assignments fail and change nothing, or they yield the same and leave the same machine. -/
theorem compound_or_plain (op : ArithOp) {t v : Expr} (ht : t.quiet = true) (hv : v.quiet = true)
    (span span' span'' : Span) {fuel : Nat}
    (hfuel : (Task.eval (.assign none t (.binary (.arith op) t v span') span'')).weight < fuel)
    (m : Machine σ) :
    (∃ e s e' s', eval ctx fuel (.assign (some op) t v span) m = .error (.fault e s) m ∧
      eval ctx fuel (.assign none t (.binary (.arith op) t v span') span'') m =
        .error (.fault e' s') m) ∨
    ∃ w m', eval ctx fuel (.assign (some op) t v span) m = .ok w m' ∧
      eval ctx fuel (.assign none t (.binary (.arith op) t v span') span'') m = .ok w m' := by
  simp only [Task.weight, Expr.height] at hfuel
  obtain ⟨n, rfl⟩ : ∃ n, fuel = n + 2 := ⟨fuel - 2, by omega⟩
  have hwp : (Task.place t).weight < n + 1 := by rw [Task.weight]; omega
  have hwt : (Task.eval t).weight < n := by rw [Task.weight]; omega
  have hwv : (Task.eval v).weight < n := by rw [Task.weight]; omega
  have hvalue : eval ctx (n + 1) v = eval ctx n v := eval_eq hv ctx (Nat.lt_succ_of_lt hwv) hwv
  rw [eval_assign_some, hvalue]
  rcases eval_outcome hv ctx hwv m with ⟨rhs, hrhs⟩ | ⟨e, s, he⟩
  · rw [EStateM.bind_of_ok hrhs]
    rcases place_outcome ht ctx hwp m with ⟨p, hp⟩ | ⟨e, s, he⟩
    · -- Both parts come to something, and the two assignments do the same with it.
      rw [EStateM.bind_of_ok hp, plain_of_parts ht hwt hp hrhs]
      rcases exchange_cases op p rhs m with ⟨e, he⟩ | ⟨old, _, new, m', -, -, -, hok, hread⟩
      · rw [EStateM.bind_of_error he]
        exact .inl ⟨e, none, e, none, rfl, rfl⟩
      · rw [EStateM.bind_of_ok hok, ask, hread]
        exact .inr ⟨new, m', rfl, rfl⟩
    · -- There is no place; the operator may have failed before that.
      have hquiet : (Expr.binary (.arith op) t v span').quiet = true :=
        Bool.and_eq_true_iff.mpr ⟨ht, hv⟩
      have hwb : (Task.eval (.binary (.arith op) t v span')).weight < n + 1 := by
        rw [Task.weight, Expr.height]
        omega
      rw [EStateM.bind_of_error he, eval_assign_none]
      rcases eval_outcome hquiet ctx hwb m with ⟨new, hnew⟩ | ⟨e', s', he'⟩
      · rw [EStateM.bind_of_ok hnew, EStateM.bind_of_error he]
        exact .inl ⟨e, s, e, s, rfl, rfl⟩
      · rw [EStateM.bind_of_error he']
        exact .inl ⟨e, s, e', s', rfl, rfl⟩
  · -- The right operand fails; the left one may have failed before that.
    rw [EStateM.bind_of_error he, eval_assign_none, eval_arith, bind_assoc]
    rcases eval_outcome ht ctx hwt m with ⟨l, hl⟩ | ⟨e', s', he'⟩
    · rw [EStateM.bind_of_ok hl, bind_assoc, EStateM.bind_of_error he]
      exact .inl ⟨e, s, e, s, rfl, rfl⟩
    · rw [EStateM.bind_of_error he']
      exact .inl ⟨e, s, e', s', rfl, rfl⟩

/-- A step before its target is the compound assignment of one, whatever its target does. -/
theorem eval_step_eq_assign (op : StepOp) (t : Expr) (span span' span'' : Span) (fuel : Nat) :
    eval ctx fuel (.step op .before t span) =
      eval ctx fuel (.assign (some op.arith) t (.literal (.int 1) span') span'') := by
  rcases fuel with _ | _ | fuel
  · rw [eval, eval]
  · -- The step runs out of steps at its target, the assignment already at its right side.
    rw [eval_step_before, eval_assign_some, place, eval]
    rfl
  · rw [eval_step_before, eval_assign_some]
    have hone : eval ctx (fuel + 1) (.literal (.int 1) span') = pure (.int 1) := by
      rw [eval]
      rfl
    rw [hone, pure_bind]

/-- A step after its target does what the step before it does, but yields what the target held. -/
theorem eval_step_after_cases (op : StepOp) (t : Expr) (span span' : Span) (fuel : Nat)
    (m : Machine σ) :
    (∃ stop m', eval ctx (fuel + 1) (.step op .after t span) m = .error stop m' ∧
      eval ctx (fuel + 1) (.step op .before t span') m = .error stop m') ∨
    ∃ p m₁ old n new m', place ctx fuel t m = .ok p m₁ ∧ m₁.env.store.read p = .ok old ∧
      op.arith.apply old (.int 1) = .ok n ∧ n.convert old.type = .ok new ∧ new.type = old.type ∧
      eval ctx (fuel + 1) (.step op .after t span) m = .ok old m' ∧
      eval ctx (fuel + 1) (.step op .before t span') m = .ok new m' ∧
      m'.env.store.read p = .ok new := by
  rw [eval_step_after, eval_step_before]
  cases hp : place ctx fuel t m with
  | error stop m₁ =>
    rw [EStateM.bind_of_error hp, EStateM.bind_of_error hp]
    exact .inl ⟨stop, m₁, rfl, rfl⟩
  | ok p m₁ =>
    rw [EStateM.bind_of_ok hp, EStateM.bind_of_ok hp]
    rcases exchange_cases op.arith p (.int 1) m₁ with
      ⟨e, he⟩ | ⟨old, n, new, m', hread, happly, hconvert, hok, hread'⟩
    · rw [he, EStateM.bind_of_error he]
      exact .inl ⟨_, _, rfl, rfl⟩
    · rw [hok, EStateM.bind_of_ok hok, ask, hread']
      -- Arithmetic yields an integer, and its conversion has the type that was held.
      obtain ⟨-, k, rfl⟩ := ArithOp.exists_of_apply happly
      have htype : new.type = old.type := ((Value.WellFormed.int k).convert hconvert).2
      exact .inr ⟨p, m₁, old, .int k, new, m', rfl, hread, happly, hconvert, htype, rfl, rfl,
        hread'⟩

/-- Stepping is compound assignment of one, whatever the target does on the way: `++t` is `t += 1`
and `--t` is `t -= 1`, in result, error, storage and output. A step after its target differs from it
only in that it yields what the target held, as it was held. Where neither side has side effects, a
compound assignment is the assignment of the operator's result: both fail and change nothing, or
both succeed alike. -/
theorem steps_are_assignments (ctx : Context σ) :
    (∀ (t : Expr) (span span' span'' : Span) (fuel : Nat),
      eval ctx fuel (.step .increment .before t span) =
          eval ctx fuel (.assign (some .add) t (.literal (.int 1) span') span'') ∧
        eval ctx fuel (.step .decrement .before t span) =
          eval ctx fuel (.assign (some .sub) t (.literal (.int 1) span') span'')) ∧
      (∀ (op : StepOp) (t : Expr) (span span' : Span) (fuel : Nat) (m : Machine σ),
        (∃ stop m', eval ctx (fuel + 1) (.step op .after t span) m = .error stop m' ∧
          eval ctx (fuel + 1) (.step op .before t span') m = .error stop m') ∨
        ∃ p m₁ old n new m', place ctx fuel t m = .ok p m₁ ∧ m₁.env.store.read p = .ok old ∧
          op.arith.apply old (.int 1) = .ok n ∧ n.convert old.type = .ok new ∧
          new.type = old.type ∧
          eval ctx (fuel + 1) (.step op .after t span) m = .ok old m' ∧
          eval ctx (fuel + 1) (.step op .before t span') m = .ok new m' ∧
          m'.env.store.read p = .ok new) ∧
      ∀ (op : ArithOp) (t v : Expr) (span span' span'' : Span) (fuel : Nat) (m : Machine σ),
        t.quiet = true → v.quiet = true →
        (Task.eval (.assign none t (.binary (.arith op) t v span') span'')).weight < fuel →
        (∃ e s e' s', eval ctx fuel (.assign (some op) t v span) m = .error (.fault e s) m ∧
          eval ctx fuel (.assign none t (.binary (.arith op) t v span') span'') m =
            .error (.fault e' s') m) ∨
        ∃ w m', eval ctx fuel (.assign (some op) t v span) m = .ok w m' ∧
          eval ctx fuel (.assign none t (.binary (.arith op) t v span') span'') m = .ok w m' :=
  ⟨fun t span span' span'' fuel => ⟨eval_step_eq_assign .increment t span span' span'' fuel,
      eval_step_eq_assign .decrement t span span' span'' fuel⟩,
    eval_step_after_cases,
    fun op _ _ span span' span'' _ m ht hv hfuel =>
      compound_or_plain op ht hv span span' span'' hfuel m⟩

/-- A character that is as large as a character can be. -/
def fullByte : Machine (Array Event) :=
  ⟨Environment.empty.bindNew "c" (.char 255), #[]⟩

/-- With `c` at its largest value, `c += 1` and `c = c + 1` both wrap around to zero. -/
theorem steps_are_assignments_fullByte :
    ∃ m', eval ⟨TypeTable.empty, FunctionTable.empty, {}, Sink.recording⟩ 10
          (.assign (some .add) (.name "c" default) (.literal (.int 1) default) default) fullByte =
        .ok (.char 0) m' ∧
      eval ⟨TypeTable.empty, FunctionTable.empty, {}, Sink.recording⟩ 10
          (.assign none (.name "c" default) (.binary (.arith .add) (.name "c" default)
            (.literal (.int 1) default) default) default) fullByte =
        .ok (.char 0) m' := by
  rcases (steps_are_assignments ⟨TypeTable.empty, FunctionTable.empty, {}, Sink.recording⟩).2.2 .add
    (.name "c" default) (.literal (.int 1) default) default default default 10 fullByte rfl rfl
    (by decide) with ⟨_, _, _, _, hfails, -⟩ | ⟨w, m', hcompound, hplain⟩
  · cases hfails
  · obtain ⟨rfl, rfl⟩ := EStateM.Result.ok.inj (hcompound.symm.trans rfl)
    exact ⟨_, rfl, hplain⟩

end Exec

end SmallCpp
