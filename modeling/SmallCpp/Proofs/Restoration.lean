import Mathlib.Data.List.Induction
import SmallCpp.Proofs.Operation
import SmallCpp.Proofs.Scoping
import SmallCpp.Proofs.Visibility

/-!
# Leaving a scope or a frame restores every name

In a well-nested sequence of operations every block and every call that is entered is left again.
During a call such a sequence only adds names to the innermost scope (`WellNested.exists_added`), so
that they are gone with the scope or the frame around it. At every moment of it the callers' frames
lie untouched below (`WellNested.afterAll_atop`): they have no part in what a name stands for.
-/

namespace SmallCpp

/-- Two changes of a result are one after the other. -/
theorem Except.map_map {ε α β γ : Type} (r : Except ε α) (f : α → β) (g : β → γ) :
    (r.map f).map g = r.map (g ∘ f) := by
  cases r <;> rfl

/-- Whether the operation neither enters nor leaves a block or a call. -/
def Operation.isPlain : Operation → Bool
  | .enter | .leave | .pushFrame _ | .popFrame => false
  | _ => true

/-- The sequences that leave every block and every call that they enter, the latest first. -/
inductive WellNested : List Operation → Prop
  | nil : WellNested []
  | plain {op : Operation} {rest : List Operation} (hop : op.isPlain = true)
    (hrest : WellNested rest) : WellNested (op :: rest)
  | scope {inner rest : List Operation} (hinner : WellNested inner) (hrest : WellNested rest) :
    WellNested (.enter :: (inner ++ .leave :: rest))
  | frame {inner rest : List Operation} (function : String) (hinner : WellNested inner)
    (hrest : WellNested rest) : WellNested (.pushFrame function :: (inner ++ .popFrame :: rest))

namespace Environment

variable {env env' : Environment}

/-! ### Every frame has a scope -/

/-- Every running call has the scope of its parameters. -/
def Framed (env : Environment) : Prop :=
  ∀ frame ∈ env.frames, frame.scopes ≠ []

/-- No operation takes the last scope of a call away. -/
theorem framed_after (h : env.Framed) (op : Operation) : (env.after op).Framed := by
  rcases env.after_cases op with heq | hchanges
  · rwa [heq]
  · generalize env.after op = env' at hchanges
    cases op with
    | declare name v =>
      obtain ⟨-, rfl⟩ := hchanges
      have hstore : ({ env with store := (env.store.alloc v).2 } : Environment).Framed := h
      exact scopes_ne_bind hstore name _
    | declareAlias name p =>
      obtain ⟨-, rfl⟩ := hchanges
      exact scopes_ne_bind h name _
    | assign name v =>
      obtain ⟨p, held, -, -, rfl⟩ := hchanges
      exact h
    | write p v =>
      obtain ⟨held, -, rfl⟩ := hchanges
      exact h
    | lookup _ | element _ _ | member _ _ | read _ =>
      obtain rfl : env' = env := hchanges
      exact h
    | pushFrame function =>
      obtain rfl : env' = env.pushFrame function := hchanges
      exact List.forall_mem_cons.mpr ⟨List.cons_ne_nil _ _, h⟩
    | popFrame =>
      obtain rfl : env' = env.popFrame := hchanges
      exact fun frame hframe => h frame (List.mem_of_mem_tail hframe)
    | enter =>
      obtain rfl : env' = env.enter := hchanges
      rcases env with ⟨store, globals, _ | ⟨frame, callers⟩⟩
      · exact h
      · exact List.forall_mem_cons.mpr ⟨List.cons_ne_nil _ _, (List.forall_mem_cons.mp h).2⟩
    | leave =>
      obtain rfl : env' = env.leave := hchanges
      -- only a scope with another one below it is left
      rcases env with ⟨store, globals, _ | ⟨⟨function, _ | ⟨scope, _ | ⟨outer, scopes⟩⟩⟩, callers⟩⟩
      · exact h
      · exact h
      · exact h
      · exact List.forall_mem_cons.mpr ⟨List.cons_ne_nil _ _, (List.forall_mem_cons.mp h).2⟩

/-- So in every environment that operations make, every call has a scope. -/
theorem framed_afterAll (history : List Operation) :
    (Environment.empty.afterAll history).Framed :=
  afterAll_invariant history (fun _ op h => framed_after h op) nofun

/-! ### What is added is gone afterwards -/

/-- With the same frames the same call is running. -/
theorem SameNames.running (h : env.SameNames env') (hrunning : env.Running) : env'.Running := by
  obtain ⟨function, scope, scopes, callers, hframes⟩ := hrunning
  exact ⟨function, scope, scopes, callers, h.frames.trans hframes⟩

/-- With the same names in scope, a name is bound to the same. -/
theorem SameNames.binding (h : env.SameNames env') (name : String) :
    env'.binding name = env.binding name := by
  unfold Environment.binding visibleScopes
  rw [h.globals, h.frames]

/-- An operation that enters or leaves nothing adds names to the innermost scope at most. -/
theorem exists_added_after {op : Operation} (hop : op.isPlain = true) (h : env.Running) :
    ∃ added, env.Added (env.after op) added := by
  rcases env.after_cases op with heq | hchanges
  · exact ⟨[], .of_sameNames ⟨by rw [heq], by rw [heq]⟩ h⟩
  · generalize env.after op = env' at hchanges
    cases op with
    | declare name v =>
      obtain ⟨hnew, rfl⟩ := hchanges
      -- taking new storage for the variable changes no name
      have hrunning : ({ env with store := (env.store.alloc v).2 } : Environment).Running := h
      obtain ⟨hglobals, hframes, hfresh, hnodup⟩ := Added.bind hrunning hnew
        ⟨⟨env.store.cells.size, []⟩, .owned⟩
      exact ⟨_, hglobals, hframes, hfresh, hnodup⟩
    | declareAlias name p =>
      obtain ⟨hnew, rfl⟩ := hchanges
      exact ⟨_, .bind h hnew _⟩
    | assign name v =>
      obtain ⟨p, held, -, -, rfl⟩ := hchanges
      exact ⟨[], .of_sameNames ⟨rfl, rfl⟩ h⟩
    | write p v =>
      obtain ⟨held, -, rfl⟩ := hchanges
      exact ⟨[], .of_sameNames ⟨rfl, rfl⟩ h⟩
    | lookup _ | element _ _ | member _ _ | read _ =>
      obtain rfl : env' = env := hchanges
      exact ⟨[], .of_sameNames ⟨rfl, rfl⟩ h⟩
    | enter | leave | pushFrame _ | popFrame => cases hop

/-! ### The callers' frames lie below -/

/-- An operation that enters or leaves nothing starts and ends no call. -/
theorem depth_after {op : Operation} (hop : op.isPlain = true) :
    (env.after op).depth = env.depth := by
  rcases env.after_cases op with heq | hchanges
  · rw [heq]
  · generalize env.after op = env' at hchanges
    cases op with
    | declare name v =>
      obtain ⟨-, rfl⟩ := hchanges
      exact length_frames_bind { env with store := (env.store.alloc v).2 } name _
    | declareAlias name p =>
      obtain ⟨-, rfl⟩ := hchanges
      exact length_frames_bind env name _
    | assign name v =>
      obtain ⟨p, held, -, -, rfl⟩ := hchanges
      rfl
    | write p v =>
      obtain ⟨held, -, rfl⟩ := hchanges
      rfl
    | lookup _ | element _ _ | member _ _ | read _ =>
      obtain rfl : env' = env := hchanges
      rfl
    | enter | leave | pushFrame _ | popFrame => cases hop

/-- A write does the same whatever the callers are. -/
theorem write_atop (env : Environment) (callers : List Frame) (p : Place) (v : Value) :
    (env.atop callers).write p v = (env.write p v).map fun env' => env'.atop callers := by
  rw [write, write, Except.map_map]
  rfl

/-- During a call, every operation does the same whatever the callers are. -/
theorem apply_atop (h : env.frames ≠ []) (callers : List Frame) (op : Operation) :
    op.apply (env.atop callers) = (op.apply env).map fun env' => env'.atop callers := by
  cases op with
  | declare name v =>
    rw [Operation.apply, Operation.apply, declare, declare, declares_atop h, bindNew_atop h]
    split_ifs <;> rfl
  | declareAlias name p =>
    rw [Operation.apply, Operation.apply, declareAlias, declareAlias, declares_atop h, bind_atop h]
    split_ifs <;> rfl
  | assign name v =>
    rw [Operation.apply, Operation.apply, assign, assign, lookup_atop h]
    cases env.lookup name with
    | error e => rfl
    | ok p => exact env.write_atop callers p v
  | write p v => exact env.write_atop callers p v
  | lookup name =>
    rw [Operation.apply, Operation.apply, lookup_atop h, Except.map_map]
    rfl
  | element _ _ | member _ _ | read _ =>
    rw [Operation.apply, Operation.apply, Except.map_map]
    rfl
  | enter => exact congrArg Except.ok (enter_atop h callers)
  | leave => exact congrArg Except.ok (leave_atop h callers)
  | pushFrame function => rfl
  | popFrame => exact congrArg Except.ok (popFrame_atop h callers)

/-- A name means the same whatever the callers are. -/
theorem binding_atop (h : env.frames ≠ []) (callers : List Frame) (name : String) :
    (env.atop callers).binding name = env.binding name := by
  rw [binding, binding, visibleScopes_atop h]

/-- Only the latest frame is searched. -/
theorem binding_take_one (env : Environment) (name : String) :
    { env with frames := env.frames.take 1 }.binding name = env.binding name := by
  rcases env with ⟨store, globals, _ | ⟨frame, callers⟩⟩ <;> rfl

/-- An operation of a running call leaves the callers' frames below as they are. -/
theorem after_atop (h : env.frames ≠ []) (callers : List Frame) (op : Operation) :
    (env.atop callers).after op = (env.after op).atop callers := by
  unfold after
  rw [apply_atop h]
  cases op.apply env <;> rfl

end Environment

/-- A first part of two lists put together ends in the first or reaches into the second. -/
theorem prefix_or_exists_of_prefix_append {α : Type} {as bs part : List α}
    (h : part <+: as ++ bs) : part <+: as ∨ ∃ more, more <+: bs ∧ part = as ++ more := by
  obtain ⟨rest, hrest⟩ := h
  rcases List.append_eq_append_iff.mp hrest with ⟨more, has, -⟩ | ⟨more, hpart, hbs⟩
  · exact .inl ⟨more, has.symm⟩
  · exact .inr ⟨more, ⟨rest, hbs.symm⟩, hpart⟩

namespace WellNested

open Environment

variable {ops before : List Operation}

/-- During a call, a well-nested sequence adds names to the innermost scope at most. -/
theorem exists_added (h : WellNested ops) {env : Environment} (hrunning : env.Running) :
    ∃ added, env.Added (env.afterAll ops) added := by
  induction h generalizing env with
  | nil => exact ⟨[], .of_sameNames ⟨rfl, rfl⟩ hrunning⟩
  | plain hop _ ih =>
    obtain ⟨added, hadded⟩ := exists_added_after hop hrunning
    obtain ⟨added', hadded'⟩ := ih hadded.running
    exact ⟨_, hadded.trans hadded'⟩
  | @scope inner rest _ _ ihinner ihrest =>
    obtain ⟨added, hadded⟩ := ihinner hrunning.enter
    have hsame := hadded.leave hrunning
    obtain ⟨added', hadded'⟩ := ihrest (hsame.running hrunning)
    rw [afterAll_cons, afterAll_append, afterAll_cons]
    exact ⟨_, (Added.of_sameNames hsame hrunning).trans hadded'⟩
  | @frame inner rest function _ _ ihinner ihrest =>
    obtain ⟨added, hadded⟩ := ihinner (env.running_pushFrame function)
    have hsame := hadded.popFrame
    obtain ⟨added', hadded'⟩ := ihrest (hsame.running hrunning)
    rw [afterAll_cons, afterAll_append, afterAll_cons]
    exact ⟨_, (Added.of_sameNames hsame hrunning).trans hadded'⟩

/-- A block is left in the call in which it was entered. -/
theorem depth_leave {env : Environment} {inner : List Operation}
    (h : (env.enter.afterAll inner).depth = env.enter.depth) :
    (env.enter.afterAll inner).leave.depth = env.depth :=
  calc (env.enter.afterAll inner).leave.depth
    _ = (env.enter.afterAll inner).depth := length_frames_leave _
    _ = env.enter.depth := h
    _ = env.depth := length_frames_enter env

/-- A call ends after all that it has started. -/
theorem depth_popFrame {env : Environment} {function : String} {inner : List Operation}
    (h : ((env.pushFrame function).afterAll inner).depth = (env.pushFrame function).depth) :
    ((env.pushFrame function).afterAll inner).popFrame.depth = env.depth :=
  calc ((env.pushFrame function).afterAll inner).popFrame.depth
    _ = ((env.pushFrame function).afterAll inner).depth - 1 := List.length_tail
    _ = (env.pushFrame function).depth - 1 := by rw [h]
    _ = env.depth := rfl

/-- A well-nested sequence ends in the call in which it starts. -/
theorem depth_afterAll (h : WellNested ops) (env : Environment) :
    (env.afterAll ops).depth = env.depth := by
  induction h generalizing env with
  | nil => rfl
  | plain hop _ ih => exact (ih _).trans (depth_after hop)
  | scope _ _ ihinner ihrest =>
    rw [afterAll_cons, afterAll_append, afterAll_cons, ihrest]
    exact depth_leave (ihinner _)
  | frame function _ _ ihinner ihrest =>
    rw [afterAll_cons, afterAll_append, afterAll_cons, ihrest]
    exact depth_popFrame (ihinner _)

/-- If the sequence between two operations and the one behind them do not go below the depth at
which they start, neither does the whole. -/
theorem depth_le_of_enclosed {opening closing : Operation} {inner rest : List Operation}
    {env : Environment} (hbefore : before <+: opening :: (inner ++ closing :: rest))
    (hopening : env.depth ≤ (env.after opening).depth)
    (hinner : ∀ before, before <+: inner →
      (env.after opening).depth ≤ ((env.after opening).afterAll before).depth)
    (hclosing : (((env.after opening).afterAll inner).after closing).depth = env.depth)
    (hrest : ∀ before env, before <+: rest → Environment.depth env ≤ (env.afterAll before).depth) :
    env.depth ≤ (env.afterAll before).depth := by
  rcases List.prefix_cons_iff.mp hbefore with rfl | ⟨q, rfl, hq⟩
  · exact Nat.le_refl _
  rcases prefix_or_exists_of_prefix_append hq with hq | ⟨q', hq', rfl⟩
  · exact Nat.le_trans hopening (hinner q hq)
  rcases List.prefix_cons_iff.mp hq' with rfl | ⟨q'', rfl, hq''⟩
  · rw [List.append_nil]
    exact Nat.le_trans hopening (hinner inner (List.prefix_refl _))
  · rw [afterAll_cons, afterAll_append, afterAll_cons, ← hclosing]
    exact hrest q'' _ hq''

/-- No first part of a well-nested sequence ends calls that were running before it. -/
theorem depth_le_of_prefix (h : WellNested ops) (hbefore : before <+: ops) (env : Environment) :
    env.depth ≤ (env.afterAll before).depth := by
  induction h generalizing env before with
  | nil =>
    rw [List.prefix_nil.mp hbefore]
    exact Nat.le_refl _
  | plain hop _ ih =>
    rcases List.prefix_cons_iff.mp hbefore with rfl | ⟨q, rfl, hq⟩
    · exact Nat.le_refl _
    · exact Nat.le_trans (Nat.le_of_eq (depth_after hop).symm) (ih hq _)
  | scope hinner _ ihinner ihrest =>
    exact depth_le_of_enclosed hbefore (Nat.le_of_eq (length_frames_enter env).symm)
      (fun _ hq => ihinner hq _) (depth_leave (hinner.depth_afterAll _))
      fun _ _ hq => ihrest hq _
  | frame function hinner _ ihinner ihrest =>
    exact depth_le_of_enclosed hbefore (Nat.le_succ _) (fun _ hq => ihinner hq _)
      (depth_popFrame (hinner.depth_afterAll _)) fun _ _ hq => ihrest hq _

/-- All along a well-nested sequence that a call makes, a call is running. -/
theorem frames_ne_nil (h : WellNested ops) (hbefore : before <+: ops) {env : Environment}
    (hframes : env.frames ≠ []) : (env.afterAll before).frames ≠ [] := by
  rw [← List.length_pos_iff] at hframes ⊢
  exact Nat.lt_of_lt_of_le hframes (h.depth_le_of_prefix hbefore env)

/-- All along a well-nested sequence that a call makes, the callers' frames lie below as they
were. -/
theorem afterAll_atop (h : WellNested ops) (hbefore : before <+: ops) {env : Environment}
    (hframes : env.frames ≠ []) (callers : List Frame) :
    (env.atop callers).afterAll before = (env.afterAll before).atop callers := by
  -- what is left of the sequence need not be well nested, so the induction is on the other end
  induction before using List.reverseRecOn with
  | nil => rfl
  | append_singleton before op ih =>
    have hbefore' : before <+: ops := (List.prefix_append _ _).trans hbefore
    rw [afterAll_append, afterAll_append, ih hbefore']
    exact after_atop (h.frames_ne_nil hbefore' hframes) callers op

end WellNested

/-- Whatever is done between entering a block and leaving it, or between the start of a call and its
end, every name stands afterwards for what it stood for before. During the call a name stands for
what it would if no other call were running, now or all along. -/
theorem Environment.names_restored (history inner : List Operation) (hinner : WellNested inner)
    (hdepth : 0 < (Environment.empty.afterAll history).depth) :
    let env := Environment.empty.afterAll history
    (∀ name, (env.afterAll (.enter :: (inner ++ [.leave]))).binding name = env.binding name) ∧
    ∀ function,
      (∀ name, (env.afterAll (.pushFrame function :: (inner ++ [.popFrame]))).binding name =
        env.binding name) ∧
      ∀ before, before <+: inner → ∀ name,
        let inside := env.afterAll (.pushFrame function :: before)
        let alone := { env with frames := [] }.afterAll (.pushFrame function :: before)
        inside.binding name = { inside with frames := inside.frames.take 1 }.binding name ∧
          inside.binding name = alone.binding name := by
  intro env
  have hrunning : env.Running := running_of_depth (framed_afterAll history) hdepth
  refine ⟨fun name => ?_, fun function => ⟨fun name => ?_, fun before hbefore name => ⟨?_, ?_⟩⟩⟩
  · obtain ⟨added, hadded⟩ := hinner.exists_added hrunning.enter
    rw [afterAll_cons, afterAll_append]
    exact (hadded.leave hrunning).binding name
  · obtain ⟨added, hadded⟩ := hinner.exists_added (env.running_pushFrame function)
    rw [afterAll_cons, afterAll_append]
    exact hadded.popFrame.binding name
  · exact (binding_take_one _ name).symm
  · have hframes : ({ env with frames := [] }.pushFrame function).frames ≠ [] :=
      List.cons_ne_nil _ _
    have hatop := hinner.afterAll_atop hbefore hframes env.frames
    change ((({ env with frames := [] }.pushFrame function).atop env.frames).afterAll
      before).binding name = _
    rw [hatop]
    exact binding_atop (hinner.frames_ne_nil hbefore hframes) env.frames name

/-- A call of `main` that has declared `b`. -/
def declaredB : List Operation :=
  [.pushFrame "main", .declare "b" (.int 7)]

/-- The name `b` is declared again, in a block and in a call too, and once more without success. -/
def declareBAgain : List Operation :=
  [.declare "b" (.int 2), .enter, .declareAlias "b" ⟨0, []⟩, .leave, .pushFrame "helper",
    .declare "b" (.bool true), .popFrame, .declare "b" (.int 3)]

/-- The block around `declareBAgain` sees the inner `b`, and after it `b` is what it was before. -/
theorem Environment.names_restored_declareBAgain :
    let env := Environment.empty.afterAll declaredB
    WellNested declareBAgain ∧ 0 < env.depth ∧ env.binding "b" = .ok ⟨⟨0, []⟩, .owned⟩ ∧
      (env.afterAll (.enter :: declareBAgain)).binding "b" = .ok ⟨⟨1, []⟩, .owned⟩ ∧
      (env.afterAll (.enter :: (declareBAgain ++ [.leave]))).binding "b" = env.binding "b" := by
  intro env
  have hnested : WellNested declareBAgain :=
    .plain rfl (.scope (.plain rfl .nil) (.frame "helper" (.plain rfl .nil) (.plain rfl .nil)))
  have hrestored := names_restored declaredB declareBAgain hnested Nat.one_pos
  exact ⟨hnested, Nat.one_pos, rfl, rfl, hrestored.1 "b"⟩

end SmallCpp
