import SmallCpp.Proofs.Provenance

/-!
# Whose storage a cell is

A variable that is no reference has a cell of its own: no other name that is still in scope, of the
same call or of any other, has that cell too. A global reference stands for a part of a global
variable. Both hold of every state of a run (`Environment.owning_of_reaches`).
-/

namespace SmallCpp

/-- The cells that belong to names of the scope. -/
def Scope.owned (scope : Scope) : List Nat :=
  (scope.filter fun entry => entry.2.kind = .owned).map fun entry => entry.2.place.cell

/-- The latest name adds its cell, if it has one of its own. -/
theorem Scope.owned_cons (entry : String × Binding) (scope : Scope) :
    Scope.owned (entry :: scope) = Scope.owned [entry] ++ scope.owned := by
  unfold owned
  rw [← List.map_append, ← List.filter_append]
  rfl

/-- The cell of a name that is no reference is among those that belong to names. -/
theorem Scope.mem_owned {scope : Scope} {entry : String × Binding} (h : entry ∈ scope)
    (hkind : entry.2.kind = .owned) : entry.2.place.cell ∈ scope.owned :=
  List.mem_map_of_mem (List.mem_filter.mpr ⟨h, decide_eq_true hkind⟩)

/-- The name that the storage of a place belongs to is one of the scope. -/
def Scope.Owns (scope : Scope) (p : Place) : Prop :=
  ∃ entry ∈ scope, entry.2 = ⟨⟨p.cell, []⟩, .owned⟩

/-- A scope with more names owns what it owned before. -/
theorem Scope.Owns.mono {scope scope' : Scope} {p : Place} (h : scope.Owns p)
    (hsuffix : scope <:+ scope') : scope'.Owns p := by
  obtain ⟨entry, hentry, heq⟩ := h
  exact ⟨entry, hsuffix.subset hentry, heq⟩

namespace Environment

/-- All scopes, those of the latest call first. -/
def scopes (env : Environment) : List Scope :=
  env.frames.flatMap Frame.scopes ++ [env.globals]

/-- The cells that belong to names. -/
def owned (env : Environment) : List Nat :=
  env.scopes.flatMap Scope.owned

/-- Whose storage the cells are. -/
structure Owning (env : Environment) : Prop where
  /-- A call has a scope for its parameters. -/
  scopes_ne : ∀ frame ∈ env.frames, frame.scopes ≠ []
  /-- Global names stand for storage of global variables. -/
  globals : ∀ entry ∈ env.globals, Scope.Owns env.globals entry.2.place
  /-- No cell belongs to two names. -/
  nodup : env.owned.Nodup
  /-- The cells that belong to names have been made. -/
  lt_size : ∀ c ∈ env.owned, c < env.store.cells.size

variable {env : Environment}

/-- Before a program starts, nothing is owned. -/
theorem owning_empty : Environment.empty.Owning :=
  ⟨nofun, nofun, List.nodup_nil, nofun⟩

/-- A name is bound in the first of all scopes. -/
theorem exists_scopes_bind (h : ∀ frame ∈ env.frames, frame.scopes ≠ []) :
    ∃ scope rest, env.scopes = scope :: rest ∧
      ∀ name b, (env.bind name b).scopes = ((name, b) :: scope) :: rest := by
  rcases env with ⟨store, globals, frames⟩
  cases frames with
  | nil => exact ⟨globals, [], rfl, fun _ _ => rfl⟩
  | cons frame callers =>
    rcases frame with ⟨function, _ | ⟨scope, scopes⟩⟩
    · exact absurd rfl (h _ List.mem_cons_self)
    · exact ⟨scope, _, rfl, fun _ _ => rfl⟩

/-- A new name adds to what is owned what it owns itself. Calls need a scope for that, which they
have. -/
theorem owned_bind (h : ∀ frame ∈ env.frames, frame.scopes ≠ []) (name : String) (b : Binding) :
    (env.bind name b).owned = Scope.owned [(name, b)] ++ env.owned := by
  obtain ⟨scope, rest, hscopes, hbind⟩ := exists_scopes_bind h
  unfold owned
  rw [hbind, hscopes, List.flatMap_cons, Scope.owned_cons, List.append_assoc, List.flatMap_cons]

/-- A new name goes into a scope that exists, so calls keep theirs. -/
theorem scopes_ne_bind (h : ∀ frame ∈ env.frames, frame.scopes ≠ []) (name : String)
    (b : Binding) : ∀ frame ∈ (env.bind name b).frames, frame.scopes ≠ [] := by
  unfold bind
  split
  · rename_i hframes
    rw [hframes, List.forall_mem_cons] at h
    exact List.forall_mem_cons.mpr ⟨List.cons_ne_nil _ _, h.2⟩
  · exact h

/-- A new name starts no call. -/
theorem length_frames_bind (env : Environment) (name : String) (b : Binding) :
    (env.bind name b).frames.length = env.frames.length := by
  unfold bind
  split
  · rename_i hframes
    rw [hframes, List.length_cons, List.length_cons]
  · rfl

/-- Outside of calls, a name is bound among the globals. -/
theorem globals_bind_of_nil (h : env.frames = []) (name : String) (b : Binding) :
    (env.bind name b).globals = (name, b) :: env.globals := by
  unfold bind
  rw [h]

/-- During a call, no name is bound among the globals. -/
theorem globals_bind_of_ne (h : ∀ frame ∈ env.frames, frame.scopes ≠ []) (hne : env.frames ≠ [])
    (name : String) (b : Binding) : (env.bind name b).globals = env.globals := by
  unfold bind
  split
  · rfl
  · rename_i hno
    obtain ⟨⟨function, scopes⟩, callers, hframes⟩ := List.exists_cons_of_ne_nil hne
    rw [hframes, List.forall_mem_cons] at h
    obtain ⟨scope, scopes, rfl⟩ := List.exists_cons_of_ne_nil h.1
    exact absurd hframes (hno function scope scopes callers)

/-- A new name does not change the store. -/
theorem store_bind (env : Environment) (name : String) (b : Binding) :
    (env.bind name b).store = env.store := by
  unfold bind
  split <;> rfl

namespace Owning

/-- Fewer local names leave the rest with what they have. -/
theorem of_sublist {env' : Environment} (h : env.Owning) (hglobals : env'.globals = env.globals)
    (hstore : env'.store = env.store) (howned : env'.owned.Sublist env.owned)
    (hscopes : ∀ frame ∈ env'.frames, frame.scopes ≠ []) : env'.Owning := by
  refine ⟨hscopes, ?_, h.nodup.sublist howned, fun c hc => ?_⟩
  · rw [hglobals]
    exact h.globals
  · rw [hstore]
    exact h.lt_size c (howned.subset hc)

/-- A name may be bound if its cell has been made and belongs to no other name, and, outside of
calls, if its storage belongs to a global name. -/
theorem bind (h : env.Owning) (name : String) {b : Binding}
    (hb : env.frames = [] → Scope.Owns ((name, b) :: env.globals) b.place)
    (hnodup : (Scope.owned [(name, b)] ++ env.owned).Nodup)
    (hlt : ∀ c ∈ Scope.owned [(name, b)], c < env.store.cells.size) :
    (env.bind name b).Owning := by
  refine ⟨scopes_ne_bind h.scopes_ne name b, ?_, ?_, ?_⟩
  · -- The globals change only outside of calls.
    by_cases hframes : env.frames = []
    · rw [globals_bind_of_nil hframes]
      refine List.forall_mem_cons.mpr ⟨hb hframes, fun entry hentry => ?_⟩
      exact (h.globals entry hentry).mono (List.suffix_cons _ _)
    · rw [globals_bind_of_ne h.scopes_ne hframes]
      exact h.globals
  · rw [owned_bind h.scopes_ne]
    exact hnodup
  · rw [owned_bind h.scopes_ne, store_bind]
    exact List.forall_mem_append.mpr ⟨hlt, h.lt_size⟩

/-- A new variable gets a cell that nobody has. -/
theorem bindNew (h : env.Owning) (name : String) (v : Value) : (env.bindNew name v).Owning := by
  have halloc : ({ env with store := (env.store.alloc v).2 } : Environment).Owning := by
    refine ⟨h.scopes_ne, h.globals, h.nodup, fun c hc => ?_⟩
    have hlt := h.lt_size c hc
    rw [Store.size_alloc]
    omega
  refine halloc.bind name (fun _ => ⟨_, List.mem_cons_self, rfl⟩) ?_ fun c hc => ?_
  · have hfresh : env.store.cells.size ∉ env.owned := fun hmem =>
      Nat.lt_irrefl _ (h.lt_size _ hmem)
    exact List.nodup_cons.mpr ⟨hfresh, h.nodup⟩
  · obtain rfl : c = env.store.cells.size := List.mem_singleton.mp hc
    rw [Store.size_alloc]
    omega

/-- A reference has no cell of its own; a global one has to stand for a part of a global. -/
theorem bindAlias (h : env.Owning) (name : String) {p : Place}
    (hp : env.frames = [] → Scope.Owns env.globals p) : (env.bind name ⟨p, .alias⟩).Owning :=
  h.bind name (fun hframes => (hp hframes).mono (List.suffix_cons _ _)) h.nodup nofun

/-- A new value in a cell changes no name. -/
theorem setCell (h : env.Owning) (n : Nat) (v : Value) : (env.setCell n v).Owning := by
  refine ⟨h.scopes_ne, h.globals, h.nodup, fun c hc => ?_⟩
  unfold Environment.setCell
  rw [Store.size_setCell]
  exact h.lt_size c hc

/-- A call starts with a scope that has no names. -/
theorem pushFrame (h : env.Owning) (function : String) : (env.pushFrame function).Owning := by
  refine h.of_sublist rfl rfl (List.Sublist.refl _) ?_
  exact List.forall_mem_cons.mpr ⟨List.cons_ne_nil _ _, h.scopes_ne⟩

/-- The end of a call takes its names away. -/
theorem popFrame (h : env.Owning) : env.popFrame.Owning := by
  rcases env with ⟨store, globals, frames⟩
  cases frames with
  | nil => exact h
  | cons frame callers =>
    refine h.of_sublist rfl rfl ?_ (List.forall_mem_cons.mp h.scopes_ne).2
    -- The scopes of the frame stand before those of the callers and the globals.
    unfold owned scopes
    rw [List.flatMap_append, List.flatMap_append]
    refine List.Sublist.append ?_ (List.Sublist.refl _)
    rw [List.flatMap_cons, List.flatMap_append]
    exact List.sublist_append_right _ _

/-- A new scope has no names. -/
theorem enter (h : env.Owning) : env.enter.Owning := by
  rcases env with ⟨store, globals, frames⟩
  cases frames with
  | nil => exact h
  | cons frame callers =>
    have hscopes := List.forall_mem_cons.mp h.scopes_ne
    refine h.of_sublist rfl rfl (List.Sublist.refl _) ?_
    exact List.forall_mem_cons.mpr ⟨List.cons_ne_nil _ _, hscopes.2⟩

/-- The end of a scope takes its names away, and the outermost scope of a call stays. -/
theorem leave (h : env.Owning) : env.leave.Owning := by
  rcases env with ⟨store, globals, frames⟩
  rcases frames with _ | ⟨⟨function, _ | ⟨scope, _ | ⟨outer, scopes⟩⟩⟩, callers⟩
  · exact h
  · exact h
  · exact h
  · have hscopes := List.forall_mem_cons.mp h.scopes_ne
    refine h.of_sublist rfl rfl (List.sublist_append_right scope.owned _) ?_
    exact List.forall_mem_cons.mpr ⟨List.cons_ne_nil _ _, hscopes.2⟩

end Owning

/-- The number of running calls and the global names. -/
structure Outline where
  depth : Nat
  globals : Scope

/-- The outline of a state. -/
def outline (env : Environment) : Outline :=
  ⟨env.frames.length, env.globals⟩

/-- Calls come and go, but the number of running ones is the same before and after; names are only
added to the globals. -/
structure Outline.Grows (o o' : Outline) : Prop where
  depth_eq : o.depth = o'.depth
  suffix : o.globals <:+ o'.globals

/-- Outside of calls only storage of global variables can be named. -/
def Outline.Held (o : Outline) (p : Place) : Prop :=
  o.depth = 0 → Scope.Owns o.globals p

/-- A new name adds to the globals outside of calls, and to none of the outline in a call. -/
theorem outline_bind (h : ∀ frame ∈ env.frames, frame.scopes ≠ []) (name : String) (b : Binding) :
    env.outline.Grows (env.bind name b).outline := by
  refine ⟨(length_frames_bind env name b).symm, ?_⟩
  by_cases hframes : env.frames = []
  · exact ⟨[(name, b)], (globals_bind_of_nil hframes name b).symm⟩
  · exact ⟨[], (globals_bind_of_ne h hframes name b).symm⟩

/-- A name with a new cell adds to the globals outside of calls, and to none of the outline in a
call. -/
theorem outline_bindNew (h : ∀ frame ∈ env.frames, frame.scopes ≠ []) (name : String)
    (v : Value) : env.outline.Grows (env.bindNew name v).outline :=
  have hstore : ∀ frame ∈ ({ env with store := (env.store.alloc v).2 } : Environment).frames,
    frame.scopes ≠ [] := h
  outline_bind hstore name _

/-- A call that was started from an outline leaves one grown from it. -/
theorem outline_popFrame {o : Outline} (h : Outline.Grows ⟨o.depth + 1, o.globals⟩ env.outline) :
    o.Grows env.popFrame.outline := by
  have hdepth : o.depth + 1 = env.frames.length := h.depth_eq
  have hpop : env.popFrame.outline.depth = env.frames.length - 1 := List.length_tail
  exact ⟨by omega, h.suffix⟩

/-- A new scope is no part of the outline. -/
theorem outline_enter (env : Environment) : env.enter.outline = env.outline := by
  unfold enter
  split
  · rename_i hframes
    simp only [outline, hframes, List.length_cons]
  · rfl

/-- A scope that ends is no part of the outline. -/
theorem outline_leave (env : Environment) : env.leave.outline = env.outline := by
  unfold leave
  split
  · rename_i hframes
    simp only [outline, hframes, List.length_cons]
  · rfl

/-- What a name stands for outside of calls is storage of a global variable. -/
theorem Owning.held_of_lookup (h : env.Owning) {name : String} {p : Place}
    (hp : env.lookup name = .ok p) : env.outline.Held p := by
  intro hdepth
  have hframes : env.frames = [] := List.length_eq_zero_iff.mp hdepth
  obtain ⟨scope, hscope, b, hb, rfl⟩ := exists_of_lookup_eq_ok hp
  unfold visibleScopes at hscope
  rw [hframes] at hscope
  obtain rfl : scope = env.globals := List.mem_singleton.mp hscope
  exact h.globals _ hb

/-- The provenance under which storage has one owner. -/
def ownership : Provenance Outline where
  grows := Outline.Grows
  inv o env := env.outline = o ∧ env.Owning
  running _ := True
  held := Outline.Held
  inner o := ⟨o.depth + 1, o.globals⟩
  grows_refl _ := ⟨rfl, List.suffix_refl _⟩
  grows_trans h h' := ⟨h.depth_eq.trans h'.depth_eq, h.suffix.trans h'.suffix⟩
  running_mono _ _ := trivial
  held_mono h hp hdepth := (hp (h.depth_eq.trans hdepth)).mono h.suffix
  lookup h _ hp := h.1 ▸ h.2.held_of_lookup hp
  extend _ hp := hp
  setCell h _ _ := ⟨h.1, h.2.setCell _ _⟩
  bindNew name v h _ := by
    obtain ⟨rfl, h⟩ := h
    exact ⟨_, outline_bindNew h.scopes_ne name v, rfl, h.bindNew name v⟩
  bindAlias name h _ hp := by
    obtain ⟨rfl, h⟩ := h
    refine ⟨_, outline_bind h.scopes_ne name _, rfl, h.bindAlias name fun hframes => hp ?_⟩
    exact List.length_eq_zero_iff.mpr hframes
  enter h _ := ⟨(outline_enter _).trans h.1, h.2.enter⟩
  leave h _ := ⟨(outline_leave _).trans h.1, h.2.leave⟩
  pushFrame function h := ⟨by rw [← h.1]; rfl, h.2.pushFrame function⟩
  running_inner _ := trivial
  held_inner _ hdepth := absurd hdepth (Nat.succ_ne_zero _)
  popFrame hgrows h := by
    obtain ⟨rfl, h⟩ := h
    exact ⟨_, outline_popFrame hgrows, rfl, h.popFrame⟩

/-- Whatever a run does, storage has one owner. -/
theorem owning_of_reaches {σ : Type} {p : Program} {options : RunOptions} {sink : Sink σ}
    {fuel : Nat} {s : σ} {m : Machine σ} (hm : p.Reaches options sink fuel s m) :
    m.env.Owning := by
  obtain ⟨_, -, howning⟩ := ownership.inv_of_reaches ⟨rfl, owning_empty⟩ trivial hm
  exact howning

section Locals

variable {frame : Frame} {scope : Scope} {x : String × Binding} (hframe : frame ∈ env.frames)
  (hscope : scope ∈ frame.scopes) (hx : x ∈ scope) (hkind : x.2.kind = .owned)
include hframe hscope hx hkind

/-- The cell of a local variable is owned in a call. -/
theorem mem_owned_frames :
    x.2.place.cell ∈ (env.frames.flatMap Frame.scopes).flatMap Scope.owned :=
  List.mem_flatMap.mpr
    ⟨scope, List.mem_flatMap.mpr ⟨frame, hframe, hscope⟩, Scope.mem_owned hx hkind⟩

/-- The cell of a local variable belongs to a name. -/
theorem mem_owned : x.2.place.cell ∈ env.owned := by
  unfold owned scopes
  rw [List.flatMap_append]
  exact List.mem_append_left _ (mem_owned_frames hframe hscope hx hkind)

/-- The storage of a local variable is not that of a global one. -/
theorem Owning.cell_ne (h : env.Owning) {g : String × Binding} (hg : g ∈ env.globals)
    (hgkind : g.2.kind = .owned) : x.2.place.cell ≠ g.2.place.cell := by
  have hnodup := h.nodup
  unfold owned scopes at hnodup
  rw [List.flatMap_append, List.nodup_append] at hnodup
  refine hnodup.2.2 _ (mem_owned_frames hframe hscope hx hkind) _ ?_
  rw [List.flatMap_singleton]
  exact Scope.mem_owned hg hgkind

end Locals

end Environment

end SmallCpp
