import SmallCpp.Proofs.CallCheck
import SmallCpp.Proofs.CallSites
import SmallCpp.Proofs.FunctionTable.Coherent
import SmallCpp.Proofs.Lockstep.Contexts

/-!
# The order of functions

Functions may stand in any order among the items of a program. Whether their table can be built does
not depend on the order, and the tables of two orders differ only in which declaration of a name
counts as the first, hence in the place noted for a function, if the declarations of a name use the
same parameter names. No call and no check looks at that place: `Context.Alike.run` says so of the
evaluator and `Program.SameShapes.callErrors_iff` of the check.
-/

namespace SmallCpp

variable {σ : Type}

/-- The second program has the items of the first, of which only the functions may have moved. -/
structure Program.Reordered (p q : Program) : Prop where
  items : p.items.Perm q.items
  records : p.records = q.records
  globals : p.globals = q.globals

/-- All declarations of a function use the same names for its parameters. -/
def Program.SameParamNames (p : Program) : Prop :=
  ∀ decl ∈ p.functions, ∀ decl' ∈ p.functions, decl.name = decl'.name →
    decl.params.map (·.name) = decl'.params.map (·.name)

instance (p : Program) : Decidable p.SameParamNames :=
  inferInstanceAs (Decidable (∀ decl ∈ p.functions, ∀ decl' ∈ p.functions, decl.name = decl'.name →
    decl.params.map (·.name) = decl'.params.map (·.name)))

/-- The functions are the same, in another order. -/
theorem Program.Reordered.functions {p q : Program} (h : p.Reordered q) :
    p.functions.Perm q.functions :=
  h.items.filterMap _

/-- The table can be built for both orders or for neither. -/
theorem Program.Reordered.isOk_build {p q : Program} (h : p.Reordered q) (types : TypeTable) :
    (FunctionTable.build types p).isOk = (FunctionTable.build types q).isOk := by
  have hiff : ∀ r : Program, (FunctionTable.build types r).isOk = true ↔
      FunctionTable.Coherent types r.functions := by
    intro r
    rw [← FunctionTable.exists_build_iff]
    constructor
    · exact Except.exists_of_isOk
    · rintro ⟨t, ht⟩
      rw [ht]
      rfl
  rw [Bool.eq_iff_iff, hiff, hiff]
  exact ⟨fun hp => hp.perm h.functions, fun hq => hq.perm h.functions.symm⟩

/-! ## Functions up to where they stand -/

/-- The tables of two orders hold the same functions, up to where they stand. -/
theorem FunctionTable.find?_unplaced_eq {types : TypeTable} {p q : Program} {t t' : FunctionTable}
    (h : p.Reordered q) (hnames : p.SameParamNames) (ht : build types p = .ok t)
    (ht' : build types q = .ok t') (name : String) :
    (t.find? name).map FunctionEntry.unplaced = (t'.find? name).map FunctionEntry.unplaced := by
  have hcoherent : Coherent types p.functions := exists_build_iff.mp ⟨t, ht⟩
  have hlists := lists_build ht
  have hlists' := lists_build ht'
  cases hfound : t.find? name with
  | none =>
    -- A name that is declared in neither order is in neither table.
    have hnone : firstDecl? q.functions name = none := by
      rw [firstDecl?, List.find?_eq_none]
      intro decl hdecl
      exact List.find?_eq_none.mp ((hlists.find?_eq_none_iff name).mp hfound) decl
        (h.functions.mem_iff.mpr hdecl)
    rw [(hlists'.find?_eq_none_iff name).mpr hnone]
  | some e =>
    obtain ⟨first, hfirst, hsignature⟩ := hlists.exists_first hfound
    obtain ⟨hmem, hname⟩ := mem_of_firstDecl? hfirst
    obtain ⟨first', hfirst'⟩ := exists_firstDecl? (h.functions.mem_iff.mp hmem)
    rw [hname] at hfirst'
    obtain ⟨hmem', hname'⟩ := mem_of_firstDecl? hfirst'
    rw [← h.functions.mem_iff] at hmem'
    obtain ⟨e', hfound', hsignature'⟩ := hlists'.exists_entry hfirst'
    -- The first declarations of the two orders have the same shape and the same names.
    have hshape : e.signature.shape = e'.signature.shape := by
      have hagree := hcoherent.agree first hmem first' hmem' (hname.trans hname'.symm)
      rw [FunctionDecl.shape_of_resolve hsignature,
        FunctionDecl.shape_of_resolve hsignature'] at hagree
      exact Except.ok.inj hagree
    obtain ⟨hreturns, hpassing⟩ := Prod.mk.inj hshape
    have hparams : e.signature.params = e'.signature.params := by
      refine ParamSignature.eq_of_map ?_ hpassing
      rw [Signature.names_of_resolve hsignature, Signature.names_of_resolve hsignature']
      exact hnames first hmem first' hmem' (hname.trans hname'.symm)
    have hsame : e.signature.name = e'.signature.name := by
      rw [Signature.name_of_resolve hsignature, Signature.name_of_resolve hsignature', hname,
        hname']
    have hbody : e.body = e'.body := by
      rw [hlists.body_eq name e hfound, hlists'.body_eq name e' hfound',
        hcoherent.bodyOf?_eq h.functions]
    rw [hfound', Option.map_some, Option.map_some,
      FunctionEntry.unplaced_eq_iff.mpr ⟨hsame, hparams, hreturns, hbody⟩]

/-! ## Runs -/

/-- A program that can start runs in the same way in both orders. -/
theorem Program.Reordered.run_eq {p q : Program} (h : p.Reordered q) (hnames : p.SameParamNames)
    {types : TypeTable} (htypes : TypeTable.empty.defineAll p.records = .ok types)
    (hbuild : (FunctionTable.build types p).isOk = true) (options : RunOptions) (sink : Sink σ)
    (fuel : Nat) (s : σ) : p.run options sink fuel s = q.run options sink fuel s := by
  obtain ⟨t, ht⟩ := Except.exists_of_isOk hbuild
  obtain ⟨t', ht'⟩ := Except.exists_of_isOk ((h.isOk_build types).symm.trans hbuild)
  have hctx : p.context options sink = .ok ⟨types, t, options, sink⟩ := by
    rw [context, htypes]
    dsimp only [bind, Except.bind]
    rw [ht]
    rfl
  have hctx' : q.context options sink = .ok ⟨types, t', options, sink⟩ := by
    rw [context, ← h.records, htypes]
    dsimp only [bind, Except.bind]
    rw [ht']
    rfl
  -- A function has the same entry in both tables but for the place of its first declaration.
  have halike : Context.Alike .whole ⟨types, t, options, sink⟩ ⟨types, t', options, sink⟩ := by
    refine ⟨rfl, rfl, rfl, fun name => ?_⟩
    have hfind := FunctionTable.find?_unplaced_eq h hnames ht ht' name
    dsimp only
    cases hf : t.find? name <;> cases hf' : t'.find? name <;> rw [hf, hf'] at hfind
    · exact .none
    · cases hfind
    · cases hfind
    · exact .some (.moved (Option.some.inj hfind))
  obtain ⟨hresult, hsink⟩ := halike.run_program hctx hctx' h.globals fuel s
  rw [Stop.View.mapError_whole, Stop.View.mapError_whole] at hresult
  exact Prod.ext hresult hsink

/-! ## The check of calls -/

/-- What a call needs to know of a function, apart from where it stands. -/
def Program.SameShapes (p q : Program) : Prop :=
  ∀ name, (p.callShape? name).map (fun shape => (shape.byRef, shape.defined)) =
    (q.callShape? name).map fun shape => (shape.byRef, shape.defined)

namespace Program.SameShapes

variable {p q : Program}

/-- A name is declared in both programs, with the same shape up to its place, or in neither. -/
theorem callShape? (h : p.SameShapes q) (name : String) :
    (∃ shape shape', p.callShape? name = some shape ∧ q.callShape? name = some shape' ∧
      shape.byRef = shape'.byRef ∧ shape.defined = shape'.defined) ∨
    p.callShape? name = none ∧ q.callShape? name = none := by
  have hshape := h name
  cases hq : q.callShape? name with
  | none =>
    rw [hq, Option.map_none, Option.map_eq_none_iff] at hshape
    exact .inr ⟨hshape, rfl⟩
  | some shape' =>
    rw [hq, Option.map_some, Option.map_eq_some_iff] at hshape
    obtain ⟨shape, hp, heq⟩ := hshape
    exact .inl ⟨shape, shape', hp, rfl, Prod.mk.inj heq⟩

/-- A call has the same errors in both programs. -/
theorem errorsAt_eq (h : p.SameShapes q) (site : CallSite) : p.errorsAt site = q.errorsAt site := by
  rw [errorsAt, errorsAt, errorsOfCall, errorsOfCall]
  rcases h.callShape? site.callee with ⟨shape, shape', hp, hq, hbyRef, -⟩ | ⟨hp, hq⟩
  · rw [hp, hq]
    dsimp only
    rw [hbyRef]
  · rw [hp, hq]

/-- The entry function is missing from both programs or from neither. -/
theorem entryErrors_iff (h : p.SameShapes q) (entry : String) :
    p.entryErrors entry = [] ↔ q.entryErrors entry = [] := by
  rw [entryErrors, entryErrors]
  rcases h.callShape? entry with ⟨shape, shape', hp, hq, -, hdefined⟩ | ⟨hp, hq⟩
  · rw [hp, hq]
    dsimp only
    rw [hdefined]
    split_ifs <;> simp
  · rw [hp, hq]
    simp

/-- With the same calls, both programs pass the check or neither does. -/
theorem callErrors_iff (h : p.SameShapes q)
    (hsites : ∀ site, site ∈ p.callSites ↔ site ∈ q.callSites) (entry : String) :
    p.callErrors entry = [] ↔ q.callErrors entry = [] := by
  simp only [callErrors_eq, List.append_eq_nil_iff, List.flatMap_eq_nil_iff, h.entryErrors_iff,
    h.errorsAt_eq, hsites]

end Program.SameShapes

/-- Functions that can be collected have the same shapes in both orders. -/
theorem Program.Reordered.sameShapes {p q : Program} (h : p.Reordered q)
    (hnames : p.SameParamNames) {types : TypeTable}
    (hbuild : (FunctionTable.build types p).isOk = true) : p.SameShapes q := by
  obtain ⟨t, ht⟩ := Except.exists_of_isOk hbuild
  obtain ⟨t', ht'⟩ := Except.exists_of_isOk ((h.isOk_build types).symm.trans hbuild)
  -- The check sees of a function what the table holds of it.
  have hshape : ∀ {r : Program} {u : FunctionTable}, FunctionTable.build types r = .ok u →
      ∀ name, (r.callShape? name).map (fun shape => (shape.byRef, shape.defined)) =
        (u.find? name).map fun e => (e.signature.params.map (·.byRef), e.body.isSome) := by
    intro r u hu name
    cases hfound : u.find? name with
    | none =>
      have hnone := ((FunctionTable.lists_build hu).find?_eq_none_iff name).mp hfound
      rw [firstDecl?] at hnone
      rw [callShape?, hnone]
      rfl
    | some e =>
      obtain ⟨shape, hshape, hbyRef, hdefined⟩ :=
        FunctionTable.exists_callShape? hu (FunctionTable.get_eq_ok_iff.mpr hfound)
      rw [hshape, Option.map_some, Option.map_some, hbyRef, hdefined]
  intro name
  have hfind := congrArg (Option.map fun e : FunctionEntry =>
    (e.signature.params.map (·.byRef), e.body.isSome))
    (FunctionTable.find?_unplaced_eq h hnames ht ht' name)
  rw [Option.map_map, Option.map_map] at hfind
  rw [hshape ht, hshape ht']
  exact hfind

/-- The order of functions is irrelevant. If all declarations of a function use the same parameter
names, then the table of functions can be built for both of two orders or for neither; if it can be
built, both pass the check of calls or neither does, and both run to the same result, or stop by the
same error at the same place, with the same output. -/
theorem run_of_reordered {p q : Program} (h : p.Reordered q) (hnames : p.SameParamNames) :
    (∀ types, (FunctionTable.build types p).isOk = (FunctionTable.build types q).isOk) ∧
    ∀ types, (FunctionTable.build types p).isOk = true →
      (∀ entry, p.callErrors entry = [] ↔ q.callErrors entry = []) ∧
      (TypeTable.empty.defineAll p.records = .ok types → ∀ (options : RunOptions) (sink : Sink σ)
        (fuel : Nat) (s : σ), p.run options sink fuel s = q.run options sink fuel s) := by
  refine ⟨h.isOk_build, fun types hbuild => ⟨fun entry => ?_, fun htypes options sink fuel s => ?_⟩⟩
  · have hsites : ∀ site, site ∈ p.callSites ↔ site ∈ q.callSites := fun site =>
      (h.items.flatMap_right Item.callSites).mem_iff
    exact (h.sameShapes hnames hbuild).callErrors_iff hsites entry
  · exact h.run_eq hnames htypes hbuild options sink fuel s

/-- The items of `struct Point { int x; }; int next(int n); int start = next(40);`. -/
def pointNextStart : List Item :=
  [.record ⟨"Point", [⟨"x", .int, ⟨19, 20⟩⟩], ⟨0, 24⟩⟩,
    .function ⟨"next", [⟨"n", .int, false, ⟨34, 39⟩⟩], .int, none, ⟨25, 41⟩⟩,
    .global ⟨"start", .int, false,
      some (.expr (.call "next" ⟨54, 58⟩ [.literal (.int 40) ⟨59, 61⟩] ⟨54, 62⟩)), ⟨46, 62⟩⟩]

/-- The items of `int main() { return next(start); } int next(int n) { return n + 1; }`. -/
def mainNext : List Item :=
  [.function ⟨"main", [], .int, some ⟨[.ret (some (.call "next" ⟨84, 88⟩
      [.name "start" ⟨89, 94⟩] ⟨84, 95⟩)) ⟨77, 96⟩], ⟨75, 98⟩⟩, ⟨64, 98⟩⟩,
    .function ⟨"next", [⟨"n", .int, false, ⟨108, 113⟩⟩], .int, some ⟨[.ret (some
      (.binary (.arith .add) (.name "n" ⟨124, 125⟩) (.literal (.int 1) ⟨128, 129⟩) ⟨124, 129⟩))
      ⟨117, 130⟩], ⟨115, 132⟩⟩, ⟨99, 132⟩⟩]

/-- With the definitions in front, the function is declared after its first use. -/
theorem run_definitions_first :
    ∃ types,
    TypeTable.empty.defineAll (⟨pointNextStart ++ mainNext⟩ : Program).records = .ok types ∧
    (FunctionTable.build types ⟨mainNext ++ pointNextStart⟩).isOk = true ∧
    (⟨mainNext ++ pointNextStart⟩ : Program).callErrors "main" = [] ∧
    (∀ fuel s, (⟨pointNextStart ++ mainNext⟩ : Program).run ⟨"main", none⟩ Sink.recording fuel s =
      (⟨mainNext ++ pointNextStart⟩ : Program).run ⟨"main", none⟩ Sink.recording fuel s) ∧
    ((⟨pointNextStart ++ mainNext⟩ : Program).run ⟨"main", none⟩ Sink.recording 20 #[]).1 =
      .ok 42 := by
  let p : Program := ⟨pointNextStart ++ mainNext⟩
  have hbuilds : ((TypeTable.empty.defineAll p.records).map fun types =>
      (FunctionTable.build types p).isOk).toOption = some true := by decide +kernel
  obtain ⟨types, htypes⟩ := Except.exists_of_isOk (r := TypeTable.empty.defineAll p.records)
    (by decide +kernel)
  rw [htypes] at hbuilds
  have hbuild : (FunctionTable.build types p).isOk = true := Option.some.inj hbuilds
  have horder : p.Reordered ⟨mainNext ++ pointNextStart⟩ := ⟨List.perm_append_comm, rfl, rfl⟩
  obtain ⟨hisOk, hsame⟩ := run_of_reordered (σ := Array Event) horder (by decide +kernel)
  obtain ⟨hcheck, hrun⟩ := hsame types hbuild
  exact ⟨types, htypes, (hisOk types).symm.trans hbuild, (hcheck "main").mp (by decide +kernel),
    hrun htypes ⟨"main", none⟩ Sink.recording, by decide +kernel⟩

end SmallCpp
