import SmallCpp.Proofs.Environment
import SmallCpp.Proofs.History
import SmallCpp.Proofs.Typing.Store
import Mathlib.Data.List.Forall2

/-!
# Names of known types

`History.declared` replays the declarations of a run: the type of each cell in the order in which
the cells were made, and for each name in scope the type that was resolved for its declaration. An
environment is typed if it agrees with that: the store holds what the types of its cells say, and
each name is bound to a place of exactly its declared type. Each operation on names keeps the
agreement.
-/

namespace SmallCpp

variable {σ : Type}

/-- The types with which cells and names were declared. -/
structure Declared where
  /-- The type of each cell. -/
  cells : List ValueType
  /-- The global names. -/
  globals : List (String × ValueType)
  /-- The names of each running call, the latest call and the innermost scope first. -/
  frames : List (List (List (String × ValueType)))

namespace Declared

/-- Before any declaration. -/
def empty : Declared :=
  ⟨[], [], []⟩

/-- A call starts. -/
def pushFrame (d : Declared) : Declared :=
  { d with frames := [[]] :: d.frames }

/-- The latest call ends. -/
def popFrame (d : Declared) : Declared :=
  { d with frames := d.frames.tail }

/-- A block is entered. -/
def enter (d : Declared) : Declared :=
  match d.frames with
  | scopes :: callers => { d with frames := ([] :: scopes) :: callers }
  | [] => d

/-- A block is left; the scope of the parameters stays. -/
def leave (d : Declared) : Declared :=
  match d.frames with
  | (_ :: outer :: scopes) :: callers => { d with frames := (outer :: scopes) :: callers }
  | _ => d

/-- A name is declared in the current scope. -/
def bind (d : Declared) (name : String) (T : ValueType) : Declared :=
  match d.frames with
  | (scope :: scopes) :: callers =>
    { d with frames := (((name, T) :: scope) :: scopes) :: callers }
  | _ => { d with globals := (name, T) :: d.globals }

/-- A name is declared with a new cell. -/
def bindNew (d : Declared) (name : String) (T : ValueType) : Declared :=
  { d with cells := d.cells ++ [T] }.bind name T

/-- A call makes no cells. -/
@[simp] theorem cells_pushFrame (d : Declared) : d.pushFrame.cells = d.cells := rfl

/-- The end of a call takes no cells away. -/
@[simp] theorem cells_popFrame (d : Declared) : d.popFrame.cells = d.cells := rfl

/-- A block makes no cells. -/
@[simp] theorem cells_enter (d : Declared) : d.enter.cells = d.cells := by
  rw [enter]
  split <;> rfl

/-- The end of a block takes no cells away. -/
@[simp] theorem cells_leave (d : Declared) : d.leave.cells = d.cells := by
  rw [leave]
  split <;> rfl

/-- A name for a place that exists makes no cell. -/
@[simp] theorem cells_bind (d : Declared) (name : String) (T : ValueType) :
    (d.bind name T).cells = d.cells := by
  rw [bind]
  split <;> rfl

/-- A variable has a cell of its own, the latest. -/
@[simp] theorem cells_bindNew (d : Declared) (name : String) (T : ValueType) :
    (d.bindNew name T).cells = d.cells ++ [T] := by
  rw [bindNew, cells_bind]

end Declared

/-- What a moment adds to the declarations. -/
def Moment.declare : Moment → Declared → Declared
  | .changed (.declare name T _), d => d.bindNew name T
  | .changed (.declareAlias name T _), d => d.bind name T
  | .opened .scope, d => d.enter
  | .opened (.frame _), d => d.pushFrame
  | .closed .scope, d => d.leave
  | .closed (.frame _), d => d.popFrame
  | _, d => d

/-- The declarations that a history has made and that are still in force. -/
def History.declared : History σ → Declared
  | [] => Declared.empty
  | (k, _) :: h => k.declare (declared h)

/-- A moment may add a cell, and leaves the types of the others. -/
theorem Moment.cells_declare (k : Moment) (d : Declared) : d.cells <+: (k.declare d).cells := by
  unfold Moment.declare
  split <;> simp

/-! ## Typed environments -/

/-- Each member of the first of two lists that match has its match. -/
theorem exists_of_forall₂ {α β : Type} {R : α → β → Prop} {as : List α} {bs : List β} {a : α}
    (h : List.Forall₂ R as bs) (ha : a ∈ as) : ∃ b, R a b := by
  induction h with
  | nil => cases ha
  | cons hab _ ih =>
    rcases List.mem_cons.mp ha with rfl | ha
    · exact ⟨_, hab⟩
    · exact ih ha

/-- Each name of a scope is bound to a place of its declared type. -/
def Scope.Typed (types : List ValueType) (scope : Scope) (names : List (String × ValueType)) :
    Prop :=
  List.Forall₂ (fun b n => b.1 = n.1 ∧ b.2.place.HasType types n.2) scope names

/-- The names of a running call are bound to places of their declared types. -/
def Frame.Typed (types : List ValueType) (frame : Frame)
    (names : List (List (String × ValueType))) : Prop :=
  List.Forall₂ (Scope.Typed types) frame.scopes names

/-- The environment agrees with the declarations. -/
structure Environment.Typed (env : Environment) (d : Declared) : Prop where
  /-- Each cell holds a value of the type it was declared with. -/
  store : env.store.Typed d.cells
  /-- Each global name is bound to a place of its declared type. -/
  globals : Scope.Typed d.cells env.globals d.globals
  /-- So is each name of each running call. -/
  frames : List.Forall₂ (Frame.Typed d.cells) env.frames d.frames

/-- More cells do not change the types of the places in a scope. -/
theorem Scope.Typed.mono {types types' : List ValueType} {scope : Scope}
    {names : List (String × ValueType)} (h : scope.Typed types names)
    (hpre : types <+: types') : scope.Typed types' names :=
  List.Forall₂.imp (fun _ _ hb => ⟨hb.1, hb.2.mono hpre⟩) h

/-- More cells do not change the types of the places in a call. -/
theorem Frame.Typed.mono {types types' : List ValueType} {frame : Frame}
    {names : List (List (String × ValueType))} (h : frame.Typed types names)
    (hpre : types <+: types') : frame.Typed types' names :=
  List.Forall₂.imp (fun _ _ hs => Scope.Typed.mono hs hpre) h

namespace Environment

variable {env : Environment} {d : Declared}

/-- The empty environment agrees with no declarations. -/
theorem typed_empty : Environment.empty.Typed Declared.empty :=
  ⟨Store.typed_empty, .nil, .nil⟩

/-- A call has one scope, which is empty. -/
theorem Typed.pushFrame (h : env.Typed d) (function : String) :
    (env.pushFrame function).Typed d.pushFrame :=
  ⟨h.store, h.globals, .cons (.cons .nil .nil) h.frames⟩

/-- The end of a call takes the same call from both sides. -/
theorem Typed.popFrame (h : env.Typed d) : env.popFrame.Typed d.popFrame := by
  refine ⟨h.store, h.globals, ?_⟩
  have hf := h.frames
  rw [Environment.popFrame, Declared.popFrame]
  cases hfs : env.frames <;> cases hds : d.frames <;> rw [hfs, hds] at hf <;> cases hf
  · exact .nil
  · assumption

/-- A block adds an empty scope on both sides. -/
theorem Typed.enter (h : env.Typed d) : env.enter.Typed d.enter := by
  have hf := h.frames
  unfold Environment.enter Declared.enter
  cases hfs : env.frames <;> cases hds : d.frames <;> rw [hfs, hds] at hf <;> cases hf
  · exact h
  · rename_i hframe hcallers
    exact ⟨h.store, h.globals, .cons (.cons .nil hframe) hcallers⟩

/-- The end of a block takes the same scope from both sides. -/
theorem Typed.leave (h : env.Typed d) : env.leave.Typed d.leave := by
  -- Only an inner scope is left: with one scope or none, both sides stay as they are.
  obtain ⟨store, globals, frames⟩ := env
  obtain ⟨cells, names, calls⟩ := d
  obtain ⟨hstore, hglobals, hframes⟩ := h
  cases hframes with
  | nil => exact ⟨hstore, hglobals, .nil⟩
  | @cons frame scopes callers callers' hframe hcallers =>
    obtain ⟨function, inner⟩ := frame
    cases hframe with
    | nil => exact ⟨hstore, hglobals, .cons .nil hcallers⟩
    | cons hscope hrest =>
      cases hrest with
      | nil => exact ⟨hstore, hglobals, .cons (.cons hscope .nil) hcallers⟩
      | cons houter hrest => exact ⟨hstore, hglobals, .cons (.cons houter hrest) hcallers⟩

/-- A name may be bound to a place of its declared type. -/
theorem Typed.bind {b : Binding} {T : ValueType} (h : env.Typed d) (name : String)
    (hb : b.place.HasType d.cells T) : (env.bind name b).Typed (d.bind name T) := by
  obtain ⟨store, globals, frames⟩ := env
  obtain ⟨cells, names, calls⟩ := d
  obtain ⟨hstore, hglobals, hframes⟩ := h
  cases hframes with
  | nil => exact ⟨hstore, .cons ⟨rfl, hb⟩ hglobals, .nil⟩
  | @cons frame scopes callers callers' hframe hcallers =>
    obtain ⟨function, inner⟩ := frame
    cases hframe with
    | nil => exact ⟨hstore, .cons ⟨rfl, hb⟩ hglobals, .cons .nil hcallers⟩
    | cons hscope hrest =>
      exact ⟨hstore, hglobals, .cons (.cons (.cons ⟨rfl, hb⟩ hscope) hrest) hcallers⟩

/-- A new variable holds a value of its declared type. -/
theorem Typed.bindNew {v : Value} {T : ValueType} (h : env.Typed d) (name : String)
    (hv : v.HasType T) : (env.bindNew name v).Typed (d.bindNew name T) := by
  have hpre : d.cells <+: d.cells ++ [T] := List.prefix_append _ _
  -- First the cell is made, then the name is bound to it.
  have halloc : Typed { env with store := (env.store.alloc v).2 }
      { d with cells := d.cells ++ [T] } :=
    ⟨h.store.alloc hv, h.globals.mono hpre, h.frames.imp fun _ _ hf => hf.mono hpre⟩
  refine halloc.bind name ⟨T, ?_, rfl⟩
  change (d.cells ++ [T])[env.store.cells.size]? = some T
  rw [h.store.size_eq, List.getElem?_concat_length]

/-- A change of a cell that the types of the cells allow. -/
theorem Typed.setCell {n : Nat} {v : Value} (h : env.Typed d)
    (hs : (env.store.setCell n v).Typed d.cells) : (env.setCell n v).Typed d :=
  ⟨hs, h.globals, h.frames⟩

/-- The scopes in which a name is looked up hold typed places. -/
theorem Typed.visibleScopes (h : env.Typed d) {scope : Scope} (hs : scope ∈ env.visibleScopes) :
    ∃ names, scope.Typed d.cells names := by
  have hframes := h.frames
  rw [Environment.visibleScopes] at hs
  split at hs
  · rename_i frame callers heq
    rw [heq] at hframes
    rcases List.mem_append.mp hs with hs | hs
    · obtain ⟨scopes, -, hframe, -, -⟩ := List.forall₂_cons_left_iff.mp hframes
      obtain ⟨names, hscope⟩ := exists_of_forall₂ hframe hs
      exact ⟨names, hscope⟩
    · rw [List.mem_singleton.mp hs]
      exact ⟨d.globals, h.globals⟩
  · rw [List.mem_singleton.mp hs]
    exact ⟨d.globals, h.globals⟩

/-- Every name that is found stands for a place with a type. -/
theorem Typed.lookup (h : env.Typed d) (name : String) :
    NeverLost (env.lookup name) ∧
      ∀ p, env.lookup name = .ok p → ∃ T, p.HasType d.cells T := by
  refine ⟨fun e he => by rw [eq_unknownIdentifier_of_lookup he]; rfl, fun p hp => ?_⟩
  obtain ⟨scope, hscope, b, hb, rfl⟩ := exists_of_lookup_eq_ok hp
  obtain ⟨names, htyped⟩ := h.visibleScopes hscope
  obtain ⟨n, -, hn⟩ := exists_of_forall₂ htyped hb
  exact ⟨n.2, hn⟩

/-- The value of a name is sound. -/
theorem Typed.get (h : env.Typed d) (name : String) :
    NeverLost (env.get name) ∧ ∀ v, env.get name = .ok v → v.Sound := by
  obtain ⟨hlost, hfound⟩ := h.lookup name
  rw [Environment.get]
  cases hp : env.lookup name with
  | error e => exact ⟨.error (hlost e hp), nofun⟩
  | ok p =>
    obtain ⟨T, hT⟩ := hfound p hp
    exact ⟨h.store.neverLost_read hT, fun v hv => (h.store.hasType_of_read hT hv).sound⟩

end Environment

end SmallCpp
