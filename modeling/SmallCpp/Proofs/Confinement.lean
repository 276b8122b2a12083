import SmallCpp.Proofs.Ownership

/-!
# What a call may write

A call writes only to storage that is global, that it has been given by reference, or that was made
after it had begun. The reason is that its frame holds no other names: a name that it or one of its
callees declares stands for new storage, or for a place to which one of the names that it sees leads
already. So everything else reads the same after the call as before it (`spared_of_reaches`),
whether the call comes to a result or fails.
-/

namespace SmallCpp

variable {σ : Type}

/-- The names of a frame stand for such places. -/
def Frame.Names (P : Place → Prop) (frame : Frame) : Prop :=
  ∀ scope ∈ frame.scopes, ∀ entry ∈ scope, P entry.2.place

namespace Environment

/-- A place that a call with these arguments, made in the environment, may write. -/
inductive Writable (before : Environment) (args : List Argument) (p : Place) : Prop
  /-- In storage that the call has made. -/
  | new (h : before.store.cells.size ≤ p.cell)
  /-- In what a global name stands for. -/
  | global {entry : String × Binding} (hentry : entry ∈ before.globals)
    (h : p.Within entry.2.place)
  /-- In what was passed by reference. -/
  | given {q : Place} (hq : .reference q ∈ args) (h : p.Within q)

/-- A location that was there before the call and that has nothing to do with what the call may
write. -/
structure Apart (before : Environment) (args : List Argument) (loc : Place) : Prop where
  lt_size : loc.cell < before.store.cells.size
  globals : ∀ entry ∈ before.globals, ¬loc.Overlaps entry.2.place
  given : ∀ q, .reference q ∈ args → ¬loc.Overlaps q

variable {before env : Environment} {args : List Argument} {p loc : Place}

/-- A part of what may be written may be written. -/
theorem Writable.extend (h : before.Writable args p) (step : Step) :
    before.Writable args (p.extend step) := by
  cases h with
  | new h => exact .new h
  | global hentry h => exact .global hentry ((p.within_extend step).trans h)
  | given hq h => exact .given hq ((p.within_extend step).trans h)

/-- A location apart from the call shares no storage with what the call may write. -/
theorem Apart.not_overlaps (hloc : before.Apart args loc) (hp : before.Writable args p) :
    ¬loc.Overlaps p := by
  cases hp with
  | new h =>
    have hlt := hloc.lt_size
    rintro (hw | hw)
    · have hcell := hw.cell_eq
      omega
    · have hcell := hw.cell_eq
      omega
  | global hentry h => exact h.not_overlaps (hloc.globals _ hentry)
  | given hq h => exact h.not_overlaps (hloc.given _ hq)

/-- The environment during a call, or after it: `n` frames stand above those of the caller. -/
structure Confined (before : Environment) (args : List Argument) (n : Nat) (env : Environment) :
    Prop where
  /-- The frames of the caller are as they were; those above name only what may be written. -/
  frames : ∃ callees, callees.length = n ∧ env.frames = callees ++ before.frames ∧
    ∀ frame ∈ callees, frame.Names (before.Writable args)
  /-- So do the global names. -/
  globals : ∀ entry ∈ env.globals, before.Writable args entry.2.place
  /-- No cell is taken back. -/
  size_le : before.store.cells.size ≤ env.store.cells.size
  /-- What may not be written is as it was. -/
  read : ∀ loc v, before.Apart args loc → before.store.read loc = .ok v →
    env.store.read loc = .ok v

namespace Confined

variable {n : Nat}

/-- When the call begins, nothing has happened yet. -/
theorem start (before : Environment) (args : List Argument) : Confined before args 0 before where
  frames := ⟨[], rfl, rfl, nofun⟩
  globals _ hentry := .global hentry (.refl _)
  size_le := Nat.le_refl _
  read _ _ _ h := h

/-- The names that the running callee sees stand for places that may be written. -/
theorem writable_of_lookup (h : Confined before args n env) (hn : 0 < n) {name : String}
    (hp : env.lookup name = .ok p) : before.Writable args p := by
  obtain ⟨scope, hscope, b, hb, rfl⟩ := exists_of_lookup_eq_ok hp
  obtain ⟨callees, rfl, hframes, hcallees⟩ := h.frames
  obtain ⟨frame, callees, rfl⟩ := List.exists_cons_of_length_pos hn
  unfold visibleScopes at hscope
  rw [hframes, List.cons_append] at hscope
  rcases List.mem_append.mp hscope with hscope | hscope
  · exact hcallees frame List.mem_cons_self scope hscope _ hb
  · obtain rfl : scope = env.globals := List.mem_singleton.mp hscope
    exact h.globals _ hb

/-- A write to a place that may be written spares every location apart. -/
theorem setCell (h : Confined before args n env) (hp : before.Writable args p) {v new : Value}
    (hnew : env.store.updated p v = .ok new) :
    Confined before args n (env.setCell p.cell new) where
  frames := h.frames
  globals := h.globals
  size_le := by
    unfold Environment.setCell
    rw [Store.size_setCell]
    exact h.size_le
  read loc w hloc hw := by
    have hlt : loc.cell < env.store.cells.size := Nat.lt_of_lt_of_le hloc.lt_size h.size_le
    exact Store.read_of_updated hnew hlt (hloc.not_overlaps hp) (h.read loc w hloc hw)

/-- New storage takes nothing from the old. -/
theorem alloc (h : Confined before args n env) (v : Value) :
    Confined before args n { env with store := (env.store.alloc v).2 } where
  frames := h.frames
  globals := h.globals
  size_le := by
    have hle := h.size_le
    rw [Store.size_alloc]
    omega
  read loc w hloc hw := by
    have hlt : loc.cell < env.store.cells.size := Nat.lt_of_lt_of_le hloc.lt_size h.size_le
    rw [Store.read_alloc_of_lt _ v hlt]
    exact h.read loc w hloc hw

/-- Inside the call, the frame on top may be exchanged for one that names only what may be
written. -/
theorem exists_top (h : Confined before args n env) (hn : 0 < n) :
    ∃ frame callers, env.frames = frame :: callers ∧ frame.Names (before.Writable args) ∧
      ∀ frame' : Frame, frame'.Names (before.Writable args) →
        Confined before args n { env with frames := frame' :: callers } := by
  obtain ⟨callees, rfl, hframes, hcallees⟩ := h.frames
  obtain ⟨frame, callees, rfl⟩ := List.exists_cons_of_length_pos hn
  rw [List.forall_mem_cons] at hcallees
  refine ⟨frame, callees ++ before.frames, hframes, hcallees.1, fun frame' hframe' => ?_⟩
  refine ⟨⟨frame' :: callees, rfl, rfl, ?_⟩, h.globals, h.size_le, h.read⟩
  exact List.forall_mem_cons.mpr ⟨hframe', hcallees.2⟩

/-- A callee may name what it may write. The name goes into a frame of its own, or into those it has
started. -/
theorem bind (h : Confined before args n env) (hn : 0 < n) (name : String) {b : Binding}
    (hb : before.Writable args b.place) : Confined before args n (env.bind name b) := by
  obtain ⟨⟨function, scopes⟩, callers, hframes, hnames, htop⟩ := h.exists_top hn
  unfold Environment.bind
  rw [hframes]
  cases scopes with
  | nil =>
    -- Without a scope the name goes to the globals, which may name what may be written, too.
    have hsame := h.frames
    rw [hframes] at hsame
    exact ⟨hsame, List.forall_mem_cons.mpr ⟨hb, h.globals⟩, h.size_le, h.read⟩
  | cons scope scopes =>
    refine htop _ ?_
    have hscopes := List.forall_mem_cons.mp hnames
    exact List.forall_mem_cons.mpr ⟨List.forall_mem_cons.mpr ⟨hb, hscopes.1⟩, hscopes.2⟩

/-- A callee may name the storage that it makes. -/
theorem bindNew (h : Confined before args n env) (hn : 0 < n) (name : String) (v : Value) :
    Confined before args n (env.bindNew name v) :=
  (h.alloc v).bind hn name (.new h.size_le)

/-- A block is entered in a frame of the callee. -/
theorem enter (h : Confined before args n env) (hn : 0 < n) :
    Confined before args n env.enter := by
  obtain ⟨frame, callers, hframes, hnames, htop⟩ := h.exists_top hn
  unfold Environment.enter
  rw [hframes]
  exact htop _ (List.forall_mem_cons.mpr ⟨nofun, hnames⟩)

/-- A block is left in a frame of the callee. -/
theorem leave (h : Confined before args n env) (hn : 0 < n) :
    Confined before args n env.leave := by
  obtain ⟨⟨function, scopes⟩, callers, hframes, hnames, htop⟩ := h.exists_top hn
  unfold Environment.leave
  rw [hframes]
  rcases scopes with _ | ⟨scope, _ | ⟨outer, scopes⟩⟩
  · exact h
  · exact h
  · exact htop _ (List.forall_mem_cons.mp hnames).2

/-- A call inside the callee adds a frame to its own. -/
theorem pushFrame (h : Confined before args n env) (function : String) :
    Confined before args (n + 1) (env.pushFrame function) := by
  obtain ⟨callees, rfl, hframes, hcallees⟩ := h.frames
  have hempty : Frame.Names (before.Writable args) ⟨function, [[]]⟩ :=
    List.forall_mem_singleton.mpr nofun
  refine ⟨⟨⟨function, [[]]⟩ :: callees, rfl, ?_, ?_⟩, h.globals, h.size_le, h.read⟩
  · unfold Environment.pushFrame
    rw [hframes, List.cons_append]
  · exact List.forall_mem_cons.mpr ⟨hempty, hcallees⟩

/-- A call that ends takes one of these away. -/
theorem popFrame (h : Confined before args (n + 1) env) : Confined before args n env.popFrame := by
  obtain ⟨callees, hlength, hframes, hcallees⟩ := h.frames
  obtain ⟨frame, callees, rfl⟩ := List.exists_cons_of_length_eq_add_one hlength
  refine ⟨⟨callees, Nat.succ.inj hlength, ?_, ?_⟩, h.globals, h.size_le, h.read⟩
  · unfold Environment.popFrame
    rw [hframes, List.cons_append, List.tail_cons]
  · exact (List.forall_mem_cons.mp hcallees).2

end Confined

/-- The provenance of the places that a call may write. The world is the number of frames above
those of the caller. -/
def confinement (before : Environment) (args : List Argument) : Provenance Nat where
  grows n n' := n = n'
  inv := Confined before args
  running n := 0 < n
  held _ := before.Writable args
  inner n := n + 1
  grows_refl _ := rfl
  grows_trans := Eq.trans
  running_mono h hn := h ▸ hn
  held_mono _ hp := hp
  lookup h hn hp := h.writable_of_lookup hn hp
  extend step hp := hp.extend step
  setCell h hp hnew := h.setCell hp hnew
  bindNew name v h hn := ⟨_, rfl, h.bindNew hn name v⟩
  bindAlias name h hn hp := ⟨_, rfl, h.bind hn name hp⟩
  enter := Confined.enter
  leave := Confined.leave
  pushFrame function h := h.pushFrame function
  running_inner := Nat.succ_pos
  held_inner hp := hp
  popFrame hgrows h := ⟨_, rfl, (hgrows ▸ h : Confined before args _ _).popFrame⟩

/-- A call keeps to what it may write, from any state and however it ends. -/
theorem confined_invoke (ctx : Context σ) (fuel : Nat) (entry : FunctionEntry)
    (args : List Argument) (m : Machine σ) :
    Confined m.env args 0 (finalState (Exec.invoke ctx fuel entry args m)).env := by
  have hready : (confinement m.env args).Ready 0 (.invoke entry args) := by
    intro arg harg
    cases arg with
    | value v => exact trivial
    | reference q => exact .given harg (.refl q)
  obtain ⟨_, rfl, h⟩ := Provenance.inv_run ctx (Confined.start m.env args) hready fuel
  exact h

/-- What a call leaves as it was. -/
structure Spared (before after : Environment) (args : List Argument) : Prop where
  /-- Every location that was there before and that does not overlap with the storage of a global
  variable or with a place passed by reference. -/
  read : ∀ loc v, loc.cell < before.store.cells.size →
    (∀ entry ∈ before.globals, entry.2.kind = .owned → ¬loc.Overlaps entry.2.place) →
    (∀ q, .reference q ∈ args → ¬loc.Overlaps q) →
    before.store.read loc = .ok v → after.store.read loc = .ok v
  /-- The variables of all running calls, if no part of them is passed by reference. -/
  locals : ∀ frame ∈ before.frames, ∀ scope ∈ frame.scopes, ∀ entry ∈ scope,
    entry.2.kind = .owned → (∀ q, .reference q ∈ args → q.cell ≠ entry.2.place.cell) →
    after.store.cell entry.2.place.cell = before.store.cell entry.2.place.cell
  /-- The elements and fields of a local variable beside the one that is passed by reference. -/
  siblings : ∀ frame ∈ before.frames, ∀ scope ∈ frame.scopes, ∀ entry ∈ scope,
    entry.2.kind = .owned → ∀ (r : Place) (step step' : Step) (v : Value),
    r.cell = entry.2.place.cell → step ≠ step' →
    (∀ q, .reference q ∈ args → q.cell = r.cell → q.Within (r.extend step)) →
    before.store.read (r.extend step') = .ok v → after.store.read (r.extend step') = .ok v
  /-- The names of the caller stand for what they stood for. -/
  frames : after.frames = before.frames

/-- Storage that belongs to no global variable is apart from everything that a global name stands
for. -/
theorem Owning.apart (h : before.Owning) (hlt : loc.cell < before.store.cells.size)
    (hglobals : ∀ entry ∈ before.globals, entry.2.kind = .owned → ¬loc.Overlaps entry.2.place)
    (hgiven : ∀ q, .reference q ∈ args → ¬loc.Overlaps q) : before.Apart args loc := by
  refine ⟨hlt, fun entry hentry => ?_, hgiven⟩
  obtain ⟨owner, howner, heq⟩ := h.globals entry hentry
  have hwithin : entry.2.place.Within owner.2.place := by
    rw [heq]
    exact ⟨rfl, List.nil_prefix⟩
  exact hwithin.not_overlaps (hglobals owner howner (by rw [heq]))

/-- A variable of a running call is apart from all global variables. -/
theorem Owning.not_overlaps_global (h : before.Owning) {frame : Frame} {scope : Scope}
    {entry : String × Binding} (hframe : frame ∈ before.frames) (hscope : scope ∈ frame.scopes)
    (hentry : entry ∈ scope) (hkind : entry.2.kind = .owned)
    (hloc : loc.cell = entry.2.place.cell) :
    ∀ g ∈ before.globals, g.2.kind = .owned → ¬loc.Overlaps g.2.place := by
  intro g hg hgkind hoverlaps
  have hne := h.cell_ne hframe hscope hentry hkind hg hgkind
  rcases hoverlaps with hw | hw
  · exact hne (hloc.symm.trans hw.cell_eq)
  · exact hne (hloc.symm.trans hw.cell_eq.symm)

end Environment

open Environment in
/-- A call can only write what it was given. In every state that a run of a program reaches, a call
of any function with any arguments leaves all other storage as it was, whether it comes to a result
or fails. -/
theorem spared_of_reaches {p : Program} {options : RunOptions} {sink : Sink σ} {steps : Nat} {s : σ}
    {m : Machine σ} (hm : p.Reaches options sink steps s m) (ctx : Context σ) (fuel : Nat)
    (entry : FunctionEntry) (args : List Argument) :
    m.env.Spared (finalState (Exec.invoke ctx fuel entry args m)).env args := by
  have howning : m.env.Owning := owning_of_reaches hm
  have hconfined := confined_invoke ctx fuel entry args m
  have hread : ∀ loc v, loc.cell < m.env.store.cells.size →
      (∀ entry ∈ m.env.globals, entry.2.kind = .owned → ¬loc.Overlaps entry.2.place) →
      (∀ q, .reference q ∈ args → ¬loc.Overlaps q) → m.env.store.read loc = .ok v →
      (finalState (Exec.invoke ctx fuel entry args m)).env.store.read loc = .ok v :=
    fun loc v hlt hglobals hgiven => hconfined.read loc v (howning.apart hlt hglobals hgiven)
  refine ⟨hread, ?_, ?_, ?_⟩
  · -- A local variable has its cell to itself, and the whole cell is one location.
    intro frame hframe scope hscope x hx hkind hgiven
    have hlt := howning.lt_size _ (mem_owned hframe hscope hx hkind)
    refine Except.ok.inj (hread ⟨x.2.place.cell, []⟩ _ hlt
      (howning.not_overlaps_global hframe hscope hx hkind rfl) (fun q hq hoverlaps => ?_) rfl)
    rcases hoverlaps with hw | hw
    · exact hgiven q hq hw.cell_eq.symm
    · exact hgiven q hq hw.cell_eq
  · -- What is passed by reference lies in one part, and the other part is beside it.
    intro frame hframe scope hscope x hx hkind r step step' v hr hne hgiven hv
    have hlt := howning.lt_size _ (mem_owned hframe hscope hx hkind)
    refine hread _ v (hr ▸ hlt) (howning.not_overlaps_global hframe hscope hx hkind hr)
      (fun q hq hoverlaps => ?_) hv
    have hcell : q.cell = r.cell := by
      rcases hoverlaps with hw | hw
      · exact hw.cell_eq.symm
      · exact hw.cell_eq
    exact (hgiven q hq hcell).not_overlaps (Place.not_overlaps_extend hne.symm) hoverlaps
  · -- No frame is left above those of the caller.
    obtain ⟨callees, hlength, hframes, -⟩ := hconfined.frames
    rw [hframes, List.length_eq_zero_iff.mp hlength, List.nil_append]

/-- The statement `x = 7;`. -/
def setX : Block :=
  ⟨[.expr (.assign none (.name "x" ⟨0, 0⟩) (.literal (.int 7) ⟨0, 0⟩) ⟨0, 0⟩) ⟨0, 0⟩], ⟨0, 0⟩⟩

/-- The program `void set(int &x) { x = 7; } int main() { int a[] = {1, 2}; set(a[0]); }`. -/
def setFirst : Program :=
  let num (n : Int64) : Expr := .literal (.int n) ⟨0, 0⟩
  ⟨[.function ⟨"set", [⟨"x", .int, true, ⟨0, 0⟩⟩], .void, some setX, ⟨0, 0⟩⟩,
    .function ⟨"main", [], .int,
      some ⟨[.declare [⟨"a", .array .int none, false,
          some (.list [.expr (num 1), .expr (num 2)] ⟨0, 0⟩), ⟨0, 0⟩⟩] ⟨0, 0⟩,
        .expr (.call "set" ⟨0, 0⟩ [.index (.name "a" ⟨0, 0⟩) (num 0) ⟨0, 0⟩] ⟨0, 0⟩) ⟨0, 0⟩],
        ⟨0, 0⟩⟩, ⟨0, 0⟩⟩]⟩

/-- The machine of a run of `setFirst` when `set` is called. -/
def beforeSet : Machine (Array Event) :=
  ((setFirst.history {} Sink.recording 30 #[])[30]?.map Prod.snd).getD ⟨Environment.empty, #[]⟩

/-- The run of `setFirst` gets there. -/
theorem reaches_beforeSet : setFirst.Reaches {} Sink.recording 30 #[] beforeSet := by
  have hsome : (setFirst.history {} Sink.recording 30 #[])[30]?.isSome = true := by decide +kernel
  obtain ⟨⟨k, m⟩, hkm⟩ := Option.isSome_iff_exists.mp hsome
  have heq : beforeSet = m := by
    unfold beforeSet
    rw [hkm, Option.map_some, Option.getD_some]
  exact ⟨k, heq ▸ List.mem_of_getElem? hkm⟩

/-- The call of `set` changes the first element of the array and leaves the second as it was. -/
theorem spared_beforeSet :
    let args := [Argument.reference ⟨0, [.elem 0]⟩]
    let call := Exec.invoke ⟨TypeTable.empty, FunctionTable.empty, {}, Sink.recording⟩ 10
      ⟨⟨"set", [⟨"x", .int, true⟩], .void, ⟨0, 0⟩⟩, some setX⟩ args
    let after := (finalState (call beforeSet)).env
    setFirst.Reaches {} Sink.recording 30 #[] beforeSet ∧ beforeSet.env.Spared after args ∧
      ((after.store.read ⟨0, [.elem 0]⟩).bind Value.asInt).toOption = some 7 ∧
      ∃ v, beforeSet.env.store.read ⟨0, [.elem 1]⟩ = .ok v ∧
        after.store.read ⟨0, [.elem 1]⟩ = .ok v := by
  intro args call after
  have hspared : beforeSet.env.Spared after args := spared_of_reaches reaches_beforeSet _ 10 _ args
  refine ⟨reaches_beforeSet, hspared, by decide +kernel, ?_⟩
  obtain ⟨v, hv⟩ := Except.exists_of_isOk
    (r := beforeSet.env.store.read ⟨0, [.elem 1]⟩) (by decide +kernel)
  have hglobals : beforeSet.env.globals = [] := by decide +kernel
  refine ⟨v, hv, hspared.read ⟨0, [.elem 1]⟩ v (by decide +kernel) ?_ ?_ hv⟩
  · rw [hglobals]
    nofun
  · intro q hq
    obtain rfl : q = ⟨0, [.elem 0]⟩ := by simpa [args] using hq
    exact Place.not_overlaps_extend (p := ⟨0, []⟩) (by decide)

end SmallCpp
