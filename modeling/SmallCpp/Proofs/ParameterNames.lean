import SmallCpp.Proofs.Lockstep.Contexts

/-!
# The names of parameters

A function may be declared several times, and declarations need not agree on the names of the
parameters. A body sees its parameters under the names of the function's first declaration, whoever
carries the body. So only these names matter: two programs that differ in other names of parameters
are run alike (`Program.run_alike`), up to the wording of errors. A function without a body is never
entered, and the names of its parameters appear in messages only.
-/

namespace SmallCpp

variable {σ α β : Type}

/-! ## Programs that differ in names -/

/-- The declaration without the names of its parameters. -/
def FunctionDecl.unnamed (decl : FunctionDecl) : FunctionDecl :=
  { decl with params := decl.params.map fun p => { p with name := "" } }

/-- The item without the names of parameters. -/
def Item.unnamed : Item → Item
  | .function decl => .function decl.unnamed
  | item => item

/-- The program without the names of parameters. -/
def Program.unnamed (p : Program) : Program :=
  ⟨p.items.map Item.unnamed⟩

/-- The signature without the names of its parameters. -/
def Signature.unnamed (s : Signature) : Signature :=
  { s with params := s.params.map fun p => { p with name := "" } }

/-- The function without the names of its parameters. -/
def FunctionEntry.unnamed (e : FunctionEntry) : FunctionEntry :=
  { e with signature := e.signature.unnamed }

/-- The table without the names of parameters. -/
def FunctionTable.unnamed (t : FunctionTable) : FunctionTable :=
  ⟨t.entries.map FunctionEntry.unnamed⟩

namespace Program

/-- Records have no parameters. -/
theorem records_unnamed (p : Program) : p.unnamed.records = p.records := by
  rw [records, records, unnamed, List.filterMap_map]
  congr 1
  funext item
  cases item <;> rfl

/-- Global variables have no parameters. -/
theorem globals_unnamed (p : Program) : p.unnamed.globals = p.globals := by
  rw [globals, globals, unnamed, List.filterMap_map]
  congr 1
  funext item
  cases item <;> rfl

/-- The functions of the program are those without names. -/
theorem functions_unnamed (p : Program) :
    p.unnamed.functions = p.functions.map FunctionDecl.unnamed := by
  rw [functions, functions, unnamed, List.filterMap_map, List.map_filterMap]
  congr 1
  funext item
  cases item <;> rfl

end Program

/-- What parameters are resolved to differs only in the names. -/
theorem Signature.resolveParams_unnamed (types : TypeTable) (params : List Param) :
    resolveParams types (params.map fun p => { p with name := "" }) =
      (resolveParams types params).map (List.map fun p => { p with name := "" }) := by
  induction params with
  | nil => rfl
  | cons p params ih =>
    rw [List.map_cons, resolveParams, resolveParams, ih]
    dsimp only
    cases types.resolve none p.type with
    | error e => rfl
    | ok T => cases resolveParams types params <;> rfl

/-- What a declaration is resolved to differs only in the names. -/
theorem Signature.resolve_unnamed (types : TypeTable) (decl : FunctionDecl) :
    resolve types decl.unnamed = (resolve types decl).map unnamed := by
  rw [resolve, resolve, FunctionDecl.unnamed, resolveParams_unnamed]
  cases resolveParams types decl.params with
  | error e => rfl
  | ok params =>
    dsimp only [Except.map, bind, Except.bind]
    cases types.resolve none decl.returns <;> rfl

/-- Declarations agree whatever the names are. -/
theorem Signature.agrees_unnamed (s t : Signature) : s.unnamed.agrees t.unnamed = s.agrees t := by
  have hmap : ∀ params : List ParamSignature,
      (params.map fun p => ({ p with name := "" } : ParamSignature)).map
        (fun p => (p.type, p.byRef)) = params.map fun p => (p.type, p.byRef) := by
    intro params
    rw [List.map_map]
    rfl
  rw [agrees, agrees, unnamed, unnamed]
  dsimp only
  rw [hmap, hmap]

/-- A fold commutes with a change of its members and states, if each step does. -/
theorem Except.foldlM_map {ε : Type} {f : α → β → Except ε α} {g : β → β} {u : α → α}
    (hstep : ∀ s x, f (u s) (g x) = (f s x).map u) (xs : List β) (s : α) :
    (xs.map g).foldlM f (u s) = (xs.foldlM f s).map u := by
  induction xs generalizing s with
  | nil => rfl
  | cons x xs ih =>
    rw [List.map_cons, List.foldlM_cons, List.foldlM_cons, hstep]
    cases f s x with
    | error e => rfl
    | ok t => exact ih t

namespace FunctionTable

/-- A function is found by its name, which is no name of a parameter. -/
theorem find?_unnamed (t : FunctionTable) (name : String) :
    t.unnamed.find? name = (t.find? name).map FunctionEntry.unnamed := by
  rw [find?, find?, unnamed, List.find?_map]
  rfl

/-- Declarations are registered alike: whether they agree does not depend on the names. -/
theorem register_unnamed (types : TypeTable) (t : FunctionTable) (decl : FunctionDecl) :
    register types t.unnamed decl.unnamed = (register types t decl).map unnamed := by
  have hname : decl.unnamed.name = decl.name := rfl
  rw [register, register, hname, Signature.resolve_unnamed, find?_unnamed]
  split_ifs with hprimitive
  · rfl
  · cases Signature.resolve types decl with
    | error e => rfl
    | ok s =>
      dsimp only [Except.map, Bind.bind, Except.bind]
      cases t.find? decl.name with
      | none =>
        have happend : unnamed ⟨t.entries ++ [⟨s, none⟩]⟩ =
            ⟨t.unnamed.entries ++ [⟨s.unnamed, none⟩]⟩ := by
          rw [unnamed, List.map_append]
          rfl
        exact congrArg Except.ok happend.symm
      | some e =>
        have hagrees : e.unnamed.signature.agrees s.unnamed = e.signature.agrees s :=
          Signature.agrees_unnamed _ _
        simp only [Option.map_some, hagrees]
        split_ifs <;> rfl

/-- Bodies are bound alike, as a body is found and refused by the function's name. -/
theorem bind_unnamed (t : FunctionTable) (decl : FunctionDecl) :
    bind t.unnamed decl.unnamed = (bind t decl).map unnamed := by
  have hname : decl.unnamed.name = decl.name := rfl
  have hbody : decl.unnamed.body = decl.body := rfl
  rw [bind, bind, hbody, hname]
  cases decl.body with
  | none => rfl
  | some b =>
    rw [get, get, find?_unnamed]
    cases t.find? decl.name with
    | none => rfl
    | some e =>
      have he : e.unnamed.body = e.body := rfl
      dsimp only [Option.map_some, Bind.bind, Except.bind]
      rw [he]
      split_ifs
      · rfl
      · have hset : ∀ e : FunctionEntry,
            (if e.unnamed.signature.name == decl.name then { e.unnamed with body := some b }
            else e.unnamed) =
              (if e.signature.name == decl.name then { e with body := some b } else e).unnamed := by
          intro e
          change (if e.signature.name == decl.name then _ else _) = _
          split_ifs <;> rfl
        simp only [Except.map, unnamed, List.map_map, Function.comp_def, hset, Pure.pure,
          Except.pure]

/-- Names of parameters have no part in building the table. -/
theorem build_unnamed (types : TypeTable) (p : Program) :
    build types p.unnamed = (build types p).map unnamed := by
  rw [build, build, Program.functions_unnamed]
  have hregister := Except.foldlM_map (register_unnamed types) p.functions empty
  rw [show empty.unnamed = empty from rfl] at hregister
  rw [hregister]
  cases p.functions.foldlM (register types) empty with
  | error e => rfl
  | ok t => exact Except.foldlM_map bind_unnamed p.functions t

end FunctionTable

/-! ## Only the names of first declarations matter -/

/-- The two programs name the parameters of a function that has a body in the same way, where it is
declared first. -/
def Program.SameFirstNames (p q : Program) : Prop :=
  ∀ name first first', (bodyOf? p.functions name).isSome = true →
    firstDecl? p.functions name = some first → firstDecl? q.functions name = some first' →
    first.params.map (·.name) = first'.params.map (·.name)

/-- The names of the parameters of a function are those of its first declaration. -/
theorem FunctionTable.names_of_get {types : TypeTable} {p : Program} {t : FunctionTable}
    (ht : build types p = .ok t) {name : String} {e : FunctionEntry} (he : t.get name = .ok e) :
    ∃ first, firstDecl? p.functions name = some first ∧
      e.signature.params.map (·.name) = first.params.map (·.name) := by
  obtain ⟨first, hfirst, hsignature⟩ := (lists_build ht).exists_first (get_eq_ok_iff.mp he)
  exact ⟨first, hfirst, Signature.names_of_resolve hsignature⟩

/-- Tables that differ in names hold functions that are alike, if first declarations name the
parameters in the same way. -/
theorem FunctionTable.alike_of_unnamed {types : TypeTable} {p q : Program} {t t' : FunctionTable}
    (ht : build types p = .ok t) (ht' : build types q = .ok t') (h : t.unnamed = t'.unnamed)
    (hfirst : p.SameFirstNames q) (name : String) :
    Option.Rel (FunctionEntry.Alike .kind) (t.find? name) (t'.find? name) := by
  have hfind : (t.find? name).map FunctionEntry.unnamed =
      (t'.find? name).map FunctionEntry.unnamed := by
    rw [← find?_unnamed, ← find?_unnamed, h]
  cases he : t.find? name with
  | none =>
    rw [he, Option.map_none, eq_comm, Option.map_eq_none_iff] at hfind
    rw [hfind]
    exact .none
  | some e =>
    rw [he, Option.map_some, eq_comm, Option.map_eq_some_iff] at hfind
    obtain ⟨e', he', heq⟩ := hfind
    rw [he']
    refine .some ?_
    have hsignature : e'.signature.unnamed = e.signature.unnamed :=
      congrArg FunctionEntry.signature heq
    have hbody : e'.body = e.body :=
      show e'.unnamed.body = e.unnamed.body from congrArg FunctionEntry.body heq
    have hpassing : e.signature.params.map (·.passing) = e'.signature.params.map (·.passing) := by
      have hparams := congrArg (List.map ParamSignature.passing)
        (congrArg Signature.params hsignature)
      dsimp only [Signature.unnamed] at hparams
      rw [List.map_map, List.map_map] at hparams
      exact hparams.symm
    cases hb : e.body with
    | none =>
      exact .undefined Stop.View.hidesMessages_kind (congrArg Signature.name hsignature).symm
        hpassing hb (hbody.trans hb)
    | some b =>
      -- With a body, the two have the same names too.
      obtain ⟨first, hf, hnames⟩ := names_of_get ht (get_eq_ok_iff.mpr he)
      obtain ⟨first', hf', hnames'⟩ := names_of_get ht' (get_eq_ok_iff.mpr he')
      have hsome : (bodyOf? p.functions name).isSome = true := by
        rw [← (lists_build ht).body_eq name e he, hb, Option.isSome_some]
      have hsame := hfirst name first first' hsome hf hf'
      have hparams : e.signature.params = e'.signature.params :=
        ParamSignature.eq_of_map (by rw [hnames, hnames', hsame]) hpassing
      refine .moved (FunctionEntry.unplaced_eq_iff.mpr ⟨?_, hparams, ?_, hbody.symm⟩)
      · exact (congrArg Signature.name hsignature).symm
      · exact (congrArg Signature.returns hsignature).symm

/-- Two programs that differ in names start alike. -/
theorem Program.context_alike {p q : Program} (h : p.unnamed = q.unnamed)
    (hfirst : p.SameFirstNames q) (options : RunOptions) (sink : Sink σ) :
    (∃ stop, p.context options sink = .error stop ∧ q.context options sink = .error stop) ∨
      ∃ ctx ctx', p.context options sink = .ok ctx ∧ q.context options sink = .ok ctx' ∧
        ctx.Alike .kind ctx' := by
  have hrecords : p.records = q.records := by
    rw [← records_unnamed, h, records_unnamed]
  rw [context, context, hrecords]
  cases TypeTable.empty.defineAll q.records with
  | error stop => exact .inl ⟨stop, rfl, rfl⟩
  | ok types =>
    have hbuild : (FunctionTable.build types p).map FunctionTable.unnamed =
        (FunctionTable.build types q).map FunctionTable.unnamed := by
      rw [← FunctionTable.build_unnamed, ← FunctionTable.build_unnamed, h]
    dsimp only [bind, Except.bind]
    -- Without names the two tables are the same, so both can be built or neither.
    cases hp : FunctionTable.build types p with
    | error e =>
      cases hq : FunctionTable.build types q with
      | error e' =>
        rw [hp, hq] at hbuild
        cases hbuild
        exact .inl ⟨_, rfl, rfl⟩
      | ok t' => rw [hp, hq] at hbuild; cases hbuild
    | ok t =>
      cases hq : FunctionTable.build types q with
      | error e' => rw [hp, hq] at hbuild; cases hbuild
      | ok t' =>
        rw [hp, hq] at hbuild
        refine .inr ⟨_, _, rfl, rfl, rfl, rfl, rfl, fun name => ?_⟩
        exact FunctionTable.alike_of_unnamed hp hq (Except.ok.inj hbuild) hfirst name

/-- Only the names that parameters have in the first declarations of functions with a body matter:
programs that differ in other names of parameters yield the same result, or stop by an error of the
same kind at the same place, and have the same output. -/
theorem Program.run_alike {p q : Program} (h : p.unnamed = q.unnamed) (hfirst : p.SameFirstNames q)
    (options : RunOptions) (sink : Sink σ) (fuel : Nat) (s : σ) :
    (p.run options sink fuel s).1.mapError Stop.kind =
        (q.run options sink fuel s).1.mapError Stop.kind ∧
      (p.run options sink fuel s).2 = (q.run options sink fuel s).2 := by
  rcases context_alike h hfirst options sink with ⟨stop, hp, hq⟩ | ⟨ctx, ctx', hp, hq, hctx⟩
  · rw [run, run, hp, hq]
    exact ⟨rfl, rfl⟩
  · have hglobals : p.globals = q.globals := by
      rw [← globals_unnamed, h, globals_unnamed]
    exact hctx.run_program hp hq hglobals fuel s

/-! ## Prototypes -/

/-- An item, or the same prototype with other names of parameters. -/
inductive Item.PrototypeRenamed : Item → Item → Prop
  | same (item : Item) : PrototypeRenamed item item
  | prototype {decl decl' : FunctionDecl} (hbody : decl.body = none)
    (hsame : decl.unnamed = decl'.unnamed) : PrototypeRenamed (.function decl) (.function decl')

/-- The second program is the first with other names of parameters in declarations without a
body. -/
def Program.PrototypesRenamed (p q : Program) : Prop :=
  List.Forall₂ Item.PrototypeRenamed p.items q.items

/-- Without the names of parameters the two programs are the same. -/
theorem Program.PrototypesRenamed.unnamed_eq {p q : Program} (h : p.PrototypesRenamed q) :
    p.unnamed = q.unnamed := by
  have hitems : ∀ {is js : List Item}, List.Forall₂ Item.PrototypeRenamed is js →
      is.map Item.unnamed = js.map Item.unnamed := by
    intro is js his
    induction his with
    | nil => rfl
    | cons hitem _ ih =>
      rw [List.map_cons, List.map_cons, ih]
      cases hitem with
      | same => rfl
      | prototype _ hsame => rw [Item.unnamed, Item.unnamed, hsame]
  rw [unnamed, unnamed, hitems h]

/-- Two contexts name the parameters of every body in the same way. -/
def Context.SameNames (ctx ctx' : Context σ) : Prop :=
  ∀ name e e', ctx.functions.get name = .ok e → ctx'.functions.get name = .ok e' →
    e.body.isSome = true → e.signature.params.map (·.name) = e'.signature.params.map (·.name)

/-- The bodies of two programs see their parameters under the same names exactly if the first
declarations agree on them. -/
theorem Program.sameNames_iff {p q : Program} {options : RunOptions} {sink : Sink σ}
    {ctx ctx' : Context σ} (hctx : p.context options sink = .ok ctx)
    (hctx' : q.context options sink = .ok ctx') : ctx.SameNames ctx' ↔ p.SameFirstNames q := by
  obtain ⟨types, functions, -, hbuild, rfl⟩ := exists_of_context hctx
  obtain ⟨types', functions', -, hbuild', rfl⟩ := exists_of_context hctx'
  have hlists := FunctionTable.lists_build hbuild
  have hlists' := FunctionTable.lists_build hbuild'
  constructor
  · intro hsame name first first' hbody hfirst hfirst'
    obtain ⟨e, he, hsignature⟩ := hlists.exists_entry hfirst
    obtain ⟨e', he', hsignature'⟩ := hlists'.exists_entry hfirst'
    rw [← hlists.body_eq name e he] at hbody
    rw [← Signature.names_of_resolve hsignature, ← Signature.names_of_resolve hsignature']
    exact hsame name e e' (FunctionTable.get_eq_ok_iff.mpr he)
      (FunctionTable.get_eq_ok_iff.mpr he') hbody
  · intro hfirst name e e' hget hget' hbody
    obtain ⟨first, hdecl, hnames⟩ := FunctionTable.names_of_get hbuild hget
    obtain ⟨first', hdecl', hnames'⟩ := FunctionTable.names_of_get hbuild' hget'
    rw [hlists.body_eq name e (FunctionTable.get_eq_ok_iff.mp hget)] at hbody
    rw [hnames, hnames']
    exact hfirst name first first' hbody hdecl hdecl'

/-- Names of parameters in prototypes do not matter, except in a prototype that is the first
declaration of a function with a body: the body sees its parameters under the names of the first
declaration. -/
theorem run_of_prototypesRenamed {p q : Program} (h : p.PrototypesRenamed q) (options : RunOptions)
    (sink : Sink σ) :
    (p.SameFirstNames q → ∀ fuel s,
      (p.run options sink fuel s).1.mapError Stop.kind =
          (q.run options sink fuel s).1.mapError Stop.kind ∧
        (p.run options sink fuel s).2 = (q.run options sink fuel s).2) ∧
    (∀ ctx ctx', p.context options sink = .ok ctx → q.context options sink = .ok ctx' →
      (ctx.SameNames ctx' ↔ p.SameFirstNames q)) ∧
    ∀ ctx name e, q.context options sink = .ok ctx → ctx.functions.get name = .ok e →
      ∃ first, firstDecl? q.functions name = some first ∧
        e.signature.params.map (·.name) = first.params.map (·.name) := by
  refine ⟨fun hfirst fuel s => ?_, fun ctx ctx' hctx hctx' => ?_, fun ctx name e hctx he => ?_⟩
  · exact Program.run_alike h.unnamed_eq hfirst options sink fuel s
  · exact Program.sameNames_iff hctx hctx'
  · obtain ⟨types, functions, -, hbuild, rfl⟩ := Program.exists_of_context hctx
    exact FunctionTable.names_of_get hbuild he

/-- The declaration `int f(int param)`, with or without a body. -/
def declareF (param : String) (body : Option Block) : Item :=
  .function ⟨"f", [⟨param, .int, false, ⟨0, 0⟩⟩], .int, body, ⟨0, 0⟩⟩

/-- The definition `int f(int b) { return b; }`. -/
def defineF : Item :=
  declareF "b" (some ⟨[.ret (some (.name "b" ⟨0, 0⟩)) ⟨0, 0⟩], ⟨0, 0⟩⟩)

/-- The definition `int main() { return f(1); }`. -/
def callF : Item :=
  .function ⟨"main", [], .int,
    some ⟨[.ret (some (.call "f" ⟨0, 0⟩ [.literal (.int 1) ⟨0, 0⟩] ⟨0, 0⟩)) ⟨0, 0⟩], ⟨0, 0⟩⟩,
    ⟨0, 0⟩⟩

/-- A prototype after the definition may name the parameter in any way. -/
theorem run_of_laterPrototype :
    let p : Program := ⟨[defineF, declareF "b" none, callF]⟩
    let q : Program := ⟨[defineF, declareF "a" none, callF]⟩
    (p.PrototypesRenamed q ∧ p.SameFirstNames q) ∧
      (p.run {} Sink.recording 20 #[]).1.mapError Stop.kind =
          (q.run {} Sink.recording 20 #[]).1.mapError Stop.kind ∧
        (q.run {} Sink.recording 20 #[]).1 = .ok 1 := by
  intro p q
  have hrenamed : p.PrototypesRenamed q :=
    .cons (.same _) (.cons (.prototype rfl rfl) (.cons (.same _) .nil))
  have hfirst : p.SameFirstNames q := by
    -- The prototype is never a first declaration: the definition has the same name.
    intro name first first' _ hp hq
    have hsame : firstDecl? p.functions name = firstDecl? q.functions name := by
      by_cases hname : "f" = name
      · subst hname
        rfl
      · simp [p, q, Program.functions, declareF, defineF, callF, firstDecl?, hname]
    rw [hsame, hq] at hp
    rw [Option.some.inj hp]
  have hrun := (run_of_prototypesRenamed hrenamed {} Sink.recording).1 hfirst 20 #[]
  exact ⟨⟨hrenamed, hfirst⟩, hrun.1, rfl⟩

/-- A prototype before the definition gives the parameter the name that the body has to use. -/
theorem run_of_earlierPrototype :
    let p : Program := ⟨[declareF "b" none, defineF, callF]⟩
    let q : Program := ⟨[declareF "a" none, defineF, callF]⟩
    p.PrototypesRenamed q ∧ (p.run {} Sink.recording 20 #[]).1 = .ok 1 ∧
      (q.run {} Sink.recording 20 #[]).1 =
        .error (.fault (.unknownIdentifier "b") (some ⟨0, 0⟩)) :=
  ⟨.cons (.prototype rfl rfl) (.cons (.same _) (.cons (.same _) .nil)), rfl, rfl⟩

end SmallCpp
