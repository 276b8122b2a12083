import SmallCpp.Proofs.Typing.Parsed
import SmallCpp.Proofs.Typing.Task

/-!
# Every run keeps the types

A run of a program that was read from a source never loses its types: at every moment, inside any
calls, blocks and loops and also where an error is raised, each cell holds a value that is of its
declared type throughout, and each name is bound to a place of its declared type.
-/

namespace SmallCpp

variable {σ : Type}

/-- The types of a run: what holds at each moment, which stands with all moments before it at the
head of a part of the history. -/
structure Program.KeepsTypes (p : Program) (options : RunOptions) (sink : Sink σ) (fuel : Nat)
    (s : σ) : Prop where
  /-- Cells hold values of their declared types, and names stand for places of theirs. -/
  typed : ∀ k m past, (k, m) :: past <:+ p.history options sink fuel s →
    m.env.Typed (History.declared ((k, m) :: past))
  /-- The type of a cell is fixed when the cell is made. -/
  fixed : ∀ k m past, (k, m) :: past <:+ p.history options sink fuel s →
    (History.declared past).cells <+: (History.declared ((k, m) :: past)).cells
  /-- What a task yields is of the type that belongs to it. -/
  yields : ∀ t r m past, (.ended t r, m) :: past <:+ p.history options sink fuel s →
    t.Yields (History.declared past).cells r
  /-- A place with a type lies in the store, and holds a value of that type. -/
  reads : ∀ k m past, (k, m) :: past <:+ p.history options sink fuel s →
    ∀ q T, q.HasType (History.declared ((k, m) :: past)).cells T →
      q.cell < m.env.store.cells.size ∧ ∃ v, m.env.store.read q = .ok v ∧ v.HasType T
  /-- No path leads nowhere. -/
  found : ∀ e span, (p.run options sink fuel s).1 = .error (.fault e span) → e.isLost = false

/-- Each part of a sound history is sound. -/
theorem History.Sound.of_suffix {h h' : History σ} (hs : h.Sound) (hsuf : h' <:+ h) : h'.Sound := by
  obtain ⟨later, rfl⟩ := hsuf
  induction later with
  | nil => exact hs
  | cons _ later ih => exact ih hs.2.2

/-- The context of a program that declares no `void`. -/
theorem Program.Holds.context {p : Program} (hp : p.Holds) {options : RunOptions} {sink : Sink σ}
    {ctx : Context σ} (h : p.context options sink = .ok ctx) :
    ctx.types.Storable ∧ typing.Callable ctx := by
  obtain ⟨types, functions, htypes, hfunctions, rfl⟩ := Program.exists_of_context h
  refine ⟨TypeTable.storable_empty.defineAll (fun r hr => ?_) htypes, fun name entry hentry => ?_⟩
  · exact hp _ (Program.mem_records hr)
  · exact hp.entry hfunctions hentry

/-- A program that declares no `void` keeps to the types: first its global variables, then the call
of its entry function. -/
theorem typing.program {ctx : Context σ} {types : List ValueType} {p : Program} (hp : p.Holds)
    (hctx : Callable ctx) : typing.Ensures ctx types (p.script ctx) fun _ _ => True := by
  refine .bind (.task fun decl hdecl => hp _ (Program.mem_globals hdecl)) fun _ _ _ _ => ?_
  refine .bind (lift (ctx.functions.ordinary_get _)) fun _ entry _ hentry => ?_
  refine .ite (fun _ => ?_) fun _ => .fail rfl
  refine .bind (.task ⟨hctx _ entry hentry, by rw [List.zip_nil_right]; nofun⟩) fun _ v _ _ => ?_
  cases v with
  | void => exact .pure trivial
  | _ => exact (lift (Value.ordinary_asInt _)).imp fun _ _ _ _ => trivial

/-- A run that can start ends, with a result or by an error, as the discipline of types says. -/
theorem typing.ends {p : Program} (hp : p.Holds) {options : RunOptions} {sink : Sink σ}
    {ctx : Context σ} (h : p.context options sink = .ok ctx) (fuel : Nat) (s : σ) :
    Ends (p.record ctx fuel (Recorded.start s)) (typing.Reaches [] fun _ _ => True)
      (typing.Stops []) := by
  obtain ⟨htypes, hctx⟩ := hp.context h
  have hobeyed : typing.Obeyed (Task.record ctx fuel) :=
    Discipline.obeyed_record (typing.script htypes hctx) fuel
  have hstart : (Recorded.start s).Sound := ⟨Environment.typed_empty, trivial⟩
  exact typing.program hp hctx _ hobeyed _ ⟨rfl, hstart⟩

/-- Types are an invariant of every run of a program that was read from a source. -/
theorem keepsTypes_of_parse {source : String} {p : Program} (hp : Program.parse source = .ok p)
    (options : RunOptions) (sink : Sink σ) (fuel : Nat) (s : σ) :
    p.KeepsTypes options sink fuel s := by
  have hholds := Program.holds_of_parse hp
  have hsound : (p.history options sink fuel s).Sound := by
    rw [Program.history]
    split
    · exact trivial
    · rename_i ctx hctx
      obtain ⟨_, -, -, hfinal⟩ := Discipline.inv_finalState (typing.ends hholds hctx fuel s)
      exact hfinal.history
  refine ⟨fun k m past h => (hsound.of_suffix h).1, fun k m past h => k.cells_declare _,
    fun t r m past h => (hsound.of_suffix h).2.1, fun k m past h q T hq => ?_, fun e span h => ?_⟩
  · -- A place with a type has a cell with a type, and cells are as many as types.
    have htyped := (hsound.of_suffix h).1.store
    refine ⟨?_, htyped.read hq⟩
    obtain ⟨S, hS, -⟩ := hq
    rw [htyped.size_eq]
    exact (List.getElem?_eq_some_iff.mp hS).1
  · cases hctx : p.context options sink with
    | error stop =>
      -- The program cannot start; collecting declarations follows no path.
      rw [Program.run, hctx] at h
      cases h
      exact (Program.declares_context hctx).1
    | ok ctx =>
      obtain ⟨y, hr⟩ := Program.exists_record_of_run hctx h
      exact Discipline.allowed_of_error (typing.ends hholds hctx fuel s) hr

/-- A source in which an element of an array in a record and a field are passed by reference. -/
def partsSource : String :=
  "struct P { int a; char b[2]; }; int g[2]; void set(int &x, int v) { x = v; }
  int main() { P p; set(p.a, 300); p.b[1] = p.a; set(g[1], p.b[1]); return g[1]; }"

/-- The run of `partsSource`, with both sorts of parts. -/
theorem keepsTypes_partsSource :
    ∃ p, Program.parse partsSource = .ok p ∧ p.KeepsTypes {} Sink.recording 100 #[] := by
  obtain ⟨p, hp⟩ := Except.exists_of_isOk (r := Program.parse partsSource) (by decide +kernel)
  exact ⟨p, hp, keepsTypes_of_parse hp {} Sink.recording 100 #[]⟩

end SmallCpp
