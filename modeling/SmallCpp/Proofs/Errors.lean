import SmallCpp.Proofs.Effect
import SmallCpp.Proofs.Except

/-!
# Which errors a computation may raise

Three sorts of error are singled out: those of a path that leads to no part of a value, those of a
call that does not fit its callee, and those of a program that is not well formed. Every other error
is ordinary. Conversions and operators raise only ordinary errors. The tables of types and functions
follow no path and make no call; storage makes no call and resolves no type.
-/

namespace SmallCpp

namespace RuntimeError

/-- Whether an error says that a path leads to no part of a value. -/
def isLost : RuntimeError → Bool
  | typeMismatch (.notSteppable _) => true
  | _ => false

/-- Whether an error says that a call does not fit: a wrong number of arguments, a temporary for a
reference, or a callee without a body. -/
def isMisfit : RuntimeError → Bool
  | arityMismatch .. | undefinedFunction _ | typeMismatch (.temporaryArgument ..) => true
  | _ => false

/-- Whether an error says that the program is not well formed: a type that is not defined, an array
of `void`, or something other than storage where storage is needed. -/
def isIllFormed : RuntimeError → Bool
  | unknownType _ | typeMismatch .arrayOfVoid | typeMismatch (.notStorage _) => true
  | _ => false

/-- Whether an error is of none of these sorts. -/
def isOrdinary (e : RuntimeError) : Bool :=
  !e.isLost && !e.isMisfit && !e.isIllFormed

/-- An ordinary error is of none of the three sorts. -/
theorem isOrdinary_iff {e : RuntimeError} :
    e.isOrdinary = true ↔ e.isLost = false ∧ e.isMisfit = false ∧ e.isIllFormed = false := by
  simp only [isOrdinary, Bool.and_eq_true, Bool.not_eq_true', and_assoc]

end RuntimeError

/-- Every error of a computation has the property. -/
def Raises {α : Type} (P : RuntimeError → Prop) (r : Except RuntimeError α) : Prop :=
  ∀ e, r = .error e → P e

/-- A computation whose errors are ordinary. -/
abbrev Ordinary {α : Type} (r : Except RuntimeError α) : Prop :=
  Raises (fun e => e.isOrdinary = true) r

/-- A computation in which no path leads nowhere. -/
abbrev NeverLost {α : Type} (r : Except RuntimeError α) : Prop :=
  Raises (fun e => e.isLost = false) r

/-- A computation in which no call does not fit. -/
abbrev NeverMisfit {α : Type} (r : Except RuntimeError α) : Prop :=
  Raises (fun e => e.isMisfit = false) r

/-- A computation that finds nothing ill formed. -/
abbrev NeverIllFormed {α : Type} (r : Except RuntimeError α) : Prop :=
  Raises (fun e => e.isIllFormed = false) r

/-- A computation on declarations, which follows no path and makes no call. -/
abbrev Declares {α : Type} (r : Except RuntimeError α) : Prop :=
  Raises (fun e => e.isLost = false ∧ e.isMisfit = false) r

/-- A computation on storage, which makes no call and resolves no type. -/
abbrev Stores {α : Type} (r : Except RuntimeError α) : Prop :=
  Raises (fun e => e.isMisfit = false ∧ e.isIllFormed = false) r

namespace Raises

variable {α β : Type} {P Q : RuntimeError → Prop}

/-- The property of the errors may be weakened. -/
theorem imp {r : Except RuntimeError α} (h : Raises P r) (hPQ : ∀ e, P e → Q e) : Raises Q r :=
  fun e he => hPQ e (h e he)

/-- A result raises nothing. -/
theorem ok (a : α) : Raises P (.ok a) := nofun

/-- An error is all that it raises. -/
theorem error {e : RuntimeError} (h : P e) : Raises P (.error e : Except RuntimeError α) := by
  rintro _ ⟨⟩
  exact h

/-- A computation raises the errors of its two parts. -/
theorem bind {r : Except RuntimeError α} {f : α → Except RuntimeError β} (hr : Raises P r)
    (hf : ∀ a, Raises P (f a)) : Raises P (r >>= f) := by
  intro e h
  cases r with
  | ok a => exact hf a e h
  | error e' => cases h; exact hr e rfl

/-- Changing the result changes no error. -/
theorem map {r : Except RuntimeError α} (f : α → β) (hr : Raises P r) : Raises P (r.map f) := by
  intro e h
  cases r with
  | ok a => cases h
  | error e' => cases h; exact hr e rfl

/-- Either branch may raise errors. -/
theorem ite {c : Prop} [Decidable c] {r r' : Except RuntimeError α} (h : Raises P r)
    (h' : Raises P r') : Raises P (if c then r else r') := by
  split <;> assumption

/-- A fold raises the errors of its steps. -/
theorem foldlM {f : α → β → Except RuntimeError α} {bs : List β}
    (hf : ∀ a, ∀ b ∈ bs, Raises P (f a b)) (a : α) : Raises P (bs.foldlM f a) := by
  induction bs generalizing a with
  | nil => exact .ok a
  | cons b bs ih =>
    rw [List.foldlM_cons]
    have hrest : ∀ a, ∀ b ∈ bs, Raises P (f a b) :=
      fun a b hb => hf a b (List.mem_cons_of_mem _ hb)
    exact (hf a b List.mem_cons_self).bind (ih hrest)

end Raises

section

variable {α : Type} {r : Except RuntimeError α}

/-- An ordinary error is not that of a path that leads nowhere. -/
theorem Ordinary.neverLost (h : Ordinary r) : NeverLost r :=
  h.imp fun _ he => (RuntimeError.isOrdinary_iff.mp he).1

/-- An ordinary error is not that of a call that does not fit. -/
theorem Ordinary.neverMisfit (h : Ordinary r) : NeverMisfit r :=
  h.imp fun _ he => (RuntimeError.isOrdinary_iff.mp he).2.1

/-- An ordinary error is not that of an ill-formed program. -/
theorem Ordinary.neverIllFormed (h : Ordinary r) : NeverIllFormed r :=
  h.imp fun _ he => (RuntimeError.isOrdinary_iff.mp he).2.2

/-- What raises ordinary errors only may be part of a computation on declarations. -/
theorem Ordinary.declares (h : Ordinary r) : Declares r :=
  fun e he => ⟨h.neverLost e he, h.neverMisfit e he⟩

/-- What raises ordinary errors only may be part of a computation on storage. -/
theorem Ordinary.stores (h : Ordinary r) : Stores r :=
  fun e he => ⟨h.neverMisfit e he, h.neverIllFormed e he⟩

/-- A computation on declarations follows no path. -/
theorem Declares.neverLost (h : Declares r) : NeverLost r :=
  h.imp fun _ => And.left

/-- A computation on declarations makes no call. -/
theorem Declares.neverMisfit (h : Declares r) : NeverMisfit r :=
  h.imp fun _ => And.right

/-- A computation on storage makes no call. -/
theorem Stores.neverMisfit (h : Stores r) : NeverMisfit r :=
  h.imp fun _ => And.left

/-- A computation on storage resolves no type. -/
theorem Stores.neverIllFormed (h : Stores r) : NeverIllFormed r :=
  h.imp fun _ => And.right

end

/-! ## Values and operators -/

namespace Value

/-- Taking a value for a number fails by a mismatch of types only. -/
theorem ordinary_asInt (v : Value) : Ordinary v.asInt := by
  cases v <;> first | exact .ok _ | exact .error rfl

/-- Taking a value for a truth value fails by a mismatch of types only. -/
theorem ordinary_asBool (v : Value) : Ordinary v.asBool := by
  cases v <;> first | exact .ok _ | exact .error rfl

/-- A conversion raises ordinary errors only, whatever the target type. -/
theorem ordinary_convert (v : Value) (T : ValueType) : Ordinary (v.convert T) := by
  cases T with
  | int => exact v.ordinary_asInt.map _
  | bool => exact v.ordinary_asBool.map _
  | char => exact (v.ordinary_asInt.map _).map _
  | void => exact .error rfl
  | array elem length => exact .ite (.ok v) (.error rfl)
  | record name layout => exact .ite (.ok v) (.error rfl)

/-- An element of a temporary: the index may be out of bounds, or the value no array. -/
theorem ordinary_element (v : Value) (i : Int64) : Ordinary (v.element i) := by
  cases v with
  | array elems =>
    rw [element]
    split
    · exact .ok _
    · exact .error rfl
  | _ => exact .error rfl

/-- A member of a temporary: it may be missing, or the value no record. -/
theorem ordinary_member (v : Value) (id : String) : Ordinary (v.member id) := by
  cases v with
  | record name layout fields =>
    rw [member]
    split
    · exact .ok _
    · exact .error rfl
  | _ => exact .error rfl

end Value

/-- On numbers, only a division by zero fails. -/
theorem ArithOp.ordinary_onInts (op : ArithOp) (a b : Int64) : Ordinary (op.onInts a b) := by
  cases op with
  | add | sub | mul => exact .ok _
  | div | rem => exact .ite (.error rfl) (.ok _)

/-- An arithmetic operator fails on operands that are no numbers, or by a division by zero. -/
theorem ArithOp.ordinary_apply (op : ArithOp) (l r : Value) : Ordinary (op.apply l r) :=
  .bind l.ordinary_asInt fun a => .bind r.ordinary_asInt fun b =>
    (op.ordinary_onInts a b).bind fun _ => .ok _

/-- A comparison fails on operands that are no numbers. -/
theorem CompareOp.ordinary_apply (op : CompareOp) (l r : Value) : Ordinary (op.apply l r) :=
  .bind l.ordinary_asInt fun _ => .bind r.ordinary_asInt fun _ => .ok _

/-- A unary operator fails on an operand of the wrong type. -/
theorem UnaryOp.ordinary_apply (op : UnaryOp) (v : Value) : Ordinary (op.apply v) := by
  cases op with
  | neg | plus => exact v.ordinary_asInt.map _
  | not => exact v.ordinary_asBool.map _

/-- A primitive fails on an argument of the wrong type. -/
theorem Primitive.ordinary_event (p : Primitive) (arg : Value) : Ordinary (p.event arg) := by
  cases p with
  | printInt => exact arg.ordinary_asInt.map _
  | printChar => exact (arg.ordinary_asInt.map _).map _
  | printBool => exact arg.ordinary_asBool.map _

/-! ## Storage -/

/-- Following a path may lead nowhere, but neither calls nor resolves anything. -/
theorem Value.stores_follow (path : List Step) (v : Value) : Stores (v.follow path) := by
  fun_induction Value.follow path v with
  | case1 => exact .ok _
  -- The path leads one step further into an element or a member.
  | case2 _ _ _ _ _ ih | case4 _ _ _ _ _ _ _ ih => exact ih
  | _ => exact .error ⟨rfl, rfl⟩

/-- Changing a part of a value adds the errors of the change to those of the path. -/
theorem Value.stores_modify {f : Value → Except RuntimeError Value}
    (hf : ∀ old, Stores (f old)) (path : List Step) (v : Value) :
    Stores (v.modify f path) := by
  fun_induction Value.modify f path v with
  | case1 => exact hf _
  -- What is changed inside an element or a member goes back into its array or record.
  | case2 _ _ _ _ _ ih | case4 _ _ _ _ _ _ _ ih => exact ih.bind fun _ => .ok _
  | _ => exact .error ⟨rfl, rfl⟩

/-- A name may be unknown. -/
theorem Environment.stores_lookup (env : Environment) (name : String) :
    Stores (env.lookup name) := by
  refine .map _ ?_
  rw [binding]
  split
  · exact .ok _
  · exact .error ⟨rfl, rfl⟩

/-- Every question to the environment is answered from storage. -/
theorem Query.stores_answer {α : Type} (q : Query α) (env : Environment) :
    Stores (q.answer env) := by
  cases q with
  | get id => exact (env.stores_lookup id).bind fun p => Value.stores_follow _ _
  | lookup id => exact env.stores_lookup id
  | read p => exact Value.stores_follow _ _
  | typeAt p => exact (Value.stores_follow _ _).map _
  | element p i =>
    refine .bind (Value.stores_follow _ _) fun v => ?_
    cases v with
    | array elems =>
      dsimp only
      split
      · exact .ok _
      · exact .error ⟨rfl, rfl⟩
    | _ => exact .error ⟨rfl, rfl⟩
  | member p id =>
    refine .bind (Value.stores_follow _ _) fun v => ?_
    cases v with
    | record name layout fields =>
      dsimp only
      split
      · exact .ok _
      · exact .error ⟨rfl, rfl⟩
    | _ => exact .error ⟨rfl, rfl⟩

/-- An effect is refused for reasons of storage, of output or of depth. -/
theorem Effect.stores_of_refuses {f : Effect} {env : Environment} {e : RuntimeError}
    (h : f.Refuses env e) : e.isMisfit = false ∧ e.isIllFormed = false := by
  cases f with
  | write p v => exact Value.stores_modify (fun _ => (v.ordinary_convert _).stores) _ _ e h
  | declare name T v => rw [h]; exact ⟨rfl, rfl⟩
  | declareAlias name T p => rw [h]; exact ⟨rfl, rfl⟩
  -- Besides a wrong argument, the sink may refuse the output.
  | print p arg =>
    rcases h with h | ⟨reason, rfl⟩
    · exact (p.ordinary_event arg).stores e h
    · exact ⟨rfl, rfl⟩
  | checkDepth =>
    obtain ⟨limit, rfl⟩ := h
    exact ⟨rfl, rfl⟩

/-! ## Types and functions -/

/-- A constant expression has ordinary errors: it may divide by zero, or not be constant at all. -/
theorem Expr.ordinary_constant (e : Expr) : Ordinary e.constant := by
  fun_induction Expr.constant e with
  | case1 | case2 | case3 => exact .ok _
  | case4 op operand _ ih => exact ih.bind fun n => by cases op <;> exact .ok _
  | case5 op left right _ ihl ihr =>
    refine ihl.bind fun l => ihr.bind fun r => ?_
    cases op with
    | arith op => exact op.ordinary_onInts l r
    | _ => exact .error rfl
  | case6 => exact .error rfl

namespace TypeTable

/-- The length of an array may be missing or not positive. -/
theorem ordinary_outerLength (count : Option Nat) (bound : Option Expr) :
    Ordinary (outerLength count bound) := by
  cases bound with
  | some bound => exact bound.ordinary_constant.bind fun n => .ite (.ok _) (.error rfl)
  | none =>
    rcases count with _ | _ | n
    · exact .error rfl
    · exact .error rfl
    · exact .ok _

/-- A written type may name no record or make an array of `void`. -/
theorem declares_resolve (t : TypeTable) (count : Option Nat) (w : WrittenType) :
    Declares (t.resolve count w) := by
  induction w generalizing count with
  | named name =>
    rw [resolve]
    split
    · exact .ok _
    · exact .error ⟨rfl, rfl⟩
  | array elem bound ih =>
    exact (ordinary_outerLength count bound).declares.bind fun n =>
      (ih none).bind fun T => .ite (.error ⟨rfl, rfl⟩) (.ok _)
  | _ => exact .ok _

/-- A record may repeat a member or have one of a type that cannot be resolved. -/
theorem declares_layoutOf (t : TypeTable) (name : String) (done : Layout)
    (fields : List FieldDecl) : Declares (t.layoutOf name done fields) := by
  induction fields generalizing done with
  | nil => exact .ok _
  | cons field rest ih =>
    exact .ite (.error ⟨rfl, rfl⟩) ((t.declares_resolve none field.type).bind fun T => ih _)

/-- A record may be defined twice, or its members may be wrong. -/
theorem declares_define (t : TypeTable) (decl : RecordDecl) : Declares (t.define decl) :=
  .ite (.error ⟨rfl, rfl⟩) ((t.declares_layoutOf _ _ _).bind fun _ => .ok _)

end TypeTable

namespace Signature

/-- The parameters of a function may have types that cannot be resolved. -/
theorem declares_resolveParams (types : TypeTable) (params : List Param) :
    Declares (resolveParams types params) := by
  induction params with
  | nil => exact .ok _
  | cons p ps ih =>
    exact (types.declares_resolve none p.type).bind fun T => ih.bind fun _ => .ok _

/-- A function may end without a result that it owes, or with one of the wrong type. -/
theorem ordinary_finish (s : Signature) (entry : String) (flow : Flow) :
    Ordinary (s.finish entry flow) := by
  cases flow with
  | normal => exact .ite (.ok _) (.ite (Value.ordinary_convert _ _) (.error rfl))
  | returned w =>
    -- `return;` and `return e;` are checked against the result type the other way round.
    cases w with
    | void => exact .ite (.ok _) (.error rfl)
    | _ => exact .ite (.error rfl) (Value.ordinary_convert _ _)

end Signature

namespace FunctionTable

/-- A function may be unknown. -/
theorem ordinary_get (t : FunctionTable) (name : String) : Ordinary (t.get name) := by
  rw [get]
  split
  · exact .ok _
  · exact .error rfl

/-- A declaration may be in conflict with a primitive or with an earlier declaration. -/
theorem declares_register (types : TypeTable) (t : FunctionTable) (decl : FunctionDecl) :
    Declares (register types t decl) := by
  refine .ite (.error ⟨rfl, rfl⟩) (.bind ?_ fun s => ?_)
  · exact (Signature.declares_resolveParams types decl.params).bind fun _ =>
      (types.declares_resolve none decl.returns).bind fun _ => .ok _
  · split
    · exact .ok _
    · exact .ite (.ok _) (.error ⟨rfl, rfl⟩)

/-- A function may be defined twice. -/
theorem ordinary_bind (t : FunctionTable) (decl : FunctionDecl) : Ordinary (bind t decl) := by
  rw [bind]
  split
  · exact .ok _
  · exact (t.ordinary_get _).bind fun e => .ite (.error rfl) (.ok _)

/-- The table of functions is built from declarations alone. -/
theorem declares_build (types : TypeTable) (p : Program) : Declares (build types p) :=
  (Raises.foldlM (fun t decl _ => declares_register types t decl) _).bind fun _ =>
    .foldlM (fun t decl _ => (ordinary_bind t decl).declares) _

end FunctionTable

/-! ## Starting a run -/

/-- A stop for want of steps, or by an error of a certain kind. -/
def Stop.Is (P : RuntimeError → Prop) : Stop → Prop
  | .fault e _ => P e
  | .outOfFuel => True

/-- The table of types is built from declarations alone. -/
theorem TypeTable.declares_defineAll {t : TypeTable} {decls : List RecordDecl} {stop : Stop}
    (h : t.defineAll decls = .error stop) :
    stop.Is fun e => e.isLost = false ∧ e.isMisfit = false := by
  induction decls generalizing t with
  | nil => cases h
  | cons decl rest ih =>
    rw [defineAll] at h
    split at h
    · exact ih h
    · -- The first declaration that is refused stops the run.
      rename_i e he
      cases h
      exact t.declares_define decl e he

/-- A program that cannot start has followed no path and made no call. -/
theorem Program.declares_context {σ : Type} {p : Program} {options : RunOptions} {sink : Sink σ}
    {stop : Stop} (h : p.context options sink = .error stop) :
    stop.Is fun e => e.isLost = false ∧ e.isMisfit = false := by
  rw [context] at h
  cases htypes : TypeTable.empty.defineAll p.records with
  | error stop' =>
    rw [htypes] at h
    cases h
    exact TypeTable.declares_defineAll htypes
  | ok types =>
    rw [htypes] at h
    dsimp only [bind, Except.bind] at h
    split at h
    · cases h
    · rename_i e he
      cases h
      exact FunctionTable.declares_build types p e he

end SmallCpp
