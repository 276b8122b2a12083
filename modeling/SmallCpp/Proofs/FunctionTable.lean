import SmallCpp.FunctionTable
import SmallCpp.Proofs.Except
import SmallCpp.Proofs.Program

/-!
# What the table of functions holds

`FunctionTable.build` makes two passes over the declarations. `FunctionTable.lists_build` says what
comes of them: the entry of a name has the signature of the name's first declaration and the body
of the declaration that carries one, and a name without a declaration has no entry.
-/

namespace SmallCpp

/-- The name of a signature is that of its declaration. -/
theorem Signature.name_of_resolve {types : TypeTable} {decl : FunctionDecl} {s : Signature}
    (h : resolve types decl = .ok s) : s.name = decl.name := by
  obtain ⟨params, -, h⟩ := Except.bind_eq_ok h
  obtain ⟨returns, -, h⟩ := Except.bind_eq_ok h
  cases h
  rfl

/-- Resolving parameters keeps their names and the way they are passed. -/
theorem Signature.map_resolveParams {types : TypeTable} {params : List Param}
    {resolved : List ParamSignature} (h : resolveParams types params = .ok resolved) :
    resolved.map (fun p => (p.name, p.byRef)) = params.map fun p => (p.name, p.byRef) := by
  induction params generalizing resolved with
  | nil => cases h; rfl
  | cons p ps ih =>
    obtain ⟨T, -, h⟩ := Except.bind_eq_ok h
    obtain ⟨rest, hrest, h⟩ := Except.bind_eq_ok h
    cases h
    rw [List.map_cons, List.map_cons, ih hrest]

/-- The parameters of a signature are named and passed as those of its declaration. -/
theorem Signature.params_of_resolve {types : TypeTable} {decl : FunctionDecl} {s : Signature}
    (h : resolve types decl = .ok s) :
    s.params.map (fun p => (p.name, p.byRef)) = decl.params.map fun p => (p.name, p.byRef) := by
  obtain ⟨params, hparams, h⟩ := Except.bind_eq_ok h
  obtain ⟨returns, -, h⟩ := Except.bind_eq_ok h
  cases h
  exact map_resolveParams hparams

/-- The parameters of a signature have the names that its declaration gives them. -/
theorem Signature.names_of_resolve {types : TypeTable} {decl : FunctionDecl} {s : Signature}
    (h : resolve types decl = .ok s) : s.params.map (·.name) = decl.params.map (·.name) := by
  have hparams := congrArg (List.map Prod.fst) (params_of_resolve h)
  rw [List.map_map, List.map_map] at hparams
  exact hparams

namespace FunctionTable

/-- The table lists exactly the declared names, each with the signature of its first declaration
and the body that `body` says. -/
structure Lists (types : TypeTable) (decls : List FunctionDecl) (body : String → Option Block)
    (t : FunctionTable) : Prop where
  /-- The first declaration gives the signature. -/
  signature : ∀ name, (firstDecl? decls name).map (Signature.resolve types) =
    (t.find? name).map fun entry => .ok entry.signature
  /-- The bodies are the given ones. -/
  body_eq : ∀ name entry, t.find? name = some entry → entry.body = body name

variable {types : TypeTable} {decls : List FunctionDecl} {body : String → Option Block}
  {t t' : FunctionTable} {decl : FunctionDecl}

/-- The empty table lists no declarations. -/
theorem lists_empty : Lists types [] body empty :=
  ⟨fun _ => rfl, nofun⟩

/-- A new entry is found under its own name, after the others. -/
theorem find?_append (t : FunctionTable) (entry : FunctionEntry) (name : String) :
    find? ⟨t.entries ++ [entry]⟩ name =
      (t.find? name).or (if entry.signature.name == name then some entry else none) := by
  rw [find?, List.find?_append, List.find?_singleton]
  rfl

/-- A function is got if it is found. -/
theorem get_eq_ok_iff {name : String} {entry : FunctionEntry} :
    t.get name = .ok entry ↔ t.find? name = some entry := by
  rw [get]
  cases t.find? name <;> simp

/-- An entry stands under its own name. -/
theorem name_of_get {name : String} {entry : FunctionEntry} (h : t.get name = .ok entry) :
    entry.signature.name = name := by
  have hname := List.find?_some (get_eq_ok_iff.mp h)
  exact beq_iff_eq.mp hname

/-- A name is listed if it is declared. -/
theorem Lists.find?_eq_none_iff (h : t.Lists types decls body) (name : String) :
    t.find? name = none ↔ firstDecl? decls name = none := by
  rw [← Option.map_eq_none_iff, ← h.signature, Option.map_eq_none_iff]

/-- A listed name has the signature of its first declaration. -/
theorem Lists.exists_first (h : t.Lists types decls body) {name : String} {entry : FunctionEntry}
    (hfound : t.find? name = some entry) :
    ∃ first, firstDecl? decls name = some first ∧
      Signature.resolve types first = .ok entry.signature := by
  have hsig := h.signature name
  rw [hfound, Option.map_some, Option.map_eq_some_iff] at hsig
  exact hsig

/-- A declared name is listed, with the signature of its first declaration. -/
theorem Lists.exists_entry (h : t.Lists types decls body) {name : String} {first : FunctionDecl}
    (hfirst : firstDecl? decls name = some first) :
    ∃ entry, t.find? name = some entry ∧ Signature.resolve types first = .ok entry.signature := by
  have hsig := h.signature name
  rw [hfirst, Option.map_some, eq_comm, Option.map_eq_some_iff] at hsig
  obtain ⟨entry, hentry, heq⟩ := hsig
  exact ⟨entry, hentry, heq.symm⟩

/-- Registering a declaration lists it: a further declaration of a name changes nothing. -/
theorem Lists.register (h : t.Lists types decls fun _ => none)
    (hr : register types t decl = .ok t') : t'.Lists types (decls ++ [decl]) fun _ => none := by
  rw [FunctionTable.register] at hr
  split_ifs at hr
  obtain ⟨s, hs, hr⟩ := Except.bind_eq_ok hr
  have hname := Signature.name_of_resolve hs
  split at hr
  · -- The name is new, so that its entry goes to the end.
    cases hr
    refine ⟨fun name => ?_, fun name entry hfound => ?_⟩
    · rw [firstDecl?_append, find?_append, Option.map_or, Option.map_or, h.signature, hname]
      split_ifs
      · rw [Option.map_some, Option.map_some, hs]
      · rfl
    · rw [find?_append, Option.or_eq_some_iff] at hfound
      rcases hfound with hfound | ⟨-, hfound⟩
      · exact h.body_eq name entry hfound
      · split_ifs at hfound
        cases hfound
        rfl
  · -- The name is declared already, and its first declaration stays the first.
    rename_i first hfirst
    split_ifs at hr
    cases hr
    refine ⟨fun name => ?_, h.body_eq⟩
    rw [firstDecl?_append, ← h.signature]
    split_ifs with heq
    · rw [beq_iff_eq] at heq
      obtain ⟨decl', hdecl'⟩ : ∃ decl', firstDecl? decls name = some decl' := by
        rw [← Option.ne_none_iff_exists', ne_eq, ← h.find?_eq_none_iff, ← heq, hfirst]
        nofun
      rw [hdecl', Option.some_or]
    · rw [Option.or_none]

/-- Giving a function its body leaves the names and signatures as they are. -/
theorem find?_setBody (t : FunctionTable) (owner : String) (b : Block) (name : String) :
    find? ⟨t.entries.map fun e =>
      if e.signature.name == owner then { e with body := some b } else e⟩ name =
      (t.find? name).map fun e =>
        if owner == name then { e with body := some b } else e := by
  have hsig : ∀ e : FunctionEntry,
      (if e.signature.name == owner then { e with body := some b } else e).signature =
        e.signature := by
    intro e
    split_ifs <;> rfl
  rw [find?, find?, List.find?_map]
  simp only [Function.comp_def, hsig]
  cases hfound : t.entries.find? fun e => e.signature.name == name with
  | none => rfl
  | some e =>
    have hname := List.find?_some hfound
    rw [beq_iff_eq] at hname
    rw [Option.map_some, Option.map_some, hname, BEq.comm]

/-- Binding a declaration adds its body, which is the first of its name. -/
theorem Lists.bind (h : t.Lists types decls body) (hb : bind t decl = .ok t') :
    t'.Lists types decls fun name =>
      (body name).or (if decl.name == name then decl.body else none) := by
  rw [FunctionTable.bind] at hb
  split at hb
  · rename_i hbody
    cases hb
    refine ⟨h.signature, fun name entry hfound => ?_⟩
    rw [hbody, ite_self, Option.or_none]
    exact h.body_eq name entry hfound
  · rename_i b hbody
    obtain ⟨entry, hentry, hb⟩ := Except.bind_eq_ok hb
    split_ifs at hb with hnone
    cases hb
    refine ⟨fun name => ?_, fun name e hfound => ?_⟩
    · rw [find?_setBody, h.signature]
      cases t.find? name with
      | none => rfl
      | some e => simp only [Option.map_some]; split_ifs <;> rfl
    · rw [find?_setBody, Option.map_eq_some_iff] at hfound
      obtain ⟨e', he', rfl⟩ := hfound
      have hold := h.body_eq name e' he'
      -- A second body of a name is an error, so that the name had none before.
      split_ifs with heq
      · rw [beq_iff_eq] at heq
        rw [← heq, get_eq_ok_iff.mp hentry, Option.some_inj] at he'
        rw [← hold, ← he', Option.not_isSome_iff_eq_none.mp hnone, Option.none_or, hbody]
      · rw [Option.or_none]
        exact hold

/-- The table that registering has reached lists what was registered. -/
theorem lists_register (h : decls.foldlM (register types) empty = .ok t) :
    t.Lists types decls fun _ => none :=
  Except.foldlM_invariant (P := fun done t => t.Lists types done fun _ => none)
    (fun _ _ _ _ hs hx => hs.register hx) lists_empty h

/-- The table that binding has reached lists the bodies that were bound. -/
theorem lists_bind {done : List FunctionDecl} {t' : FunctionTable}
    (ht : t.Lists types decls fun _ => none) (h : done.foldlM bind t = .ok t') :
    t'.Lists types decls (bodyOf? done) := by
  refine Except.foldlM_invariant (P := fun done t => t.Lists types decls (bodyOf? done))
    (fun done decl s s' hs hx => ?_) ht h
  have hbound := hs.bind hx
  simp only [← bodyOf?_append] at hbound
  exact hbound

/-- The table of a program lists its functions, each with the body that the program gives it. -/
theorem lists_build {p : Program} (h : build types p = .ok t) :
    t.Lists types p.functions (bodyOf? p.functions) := by
  -- All declarations are registered before any body is bound.
  obtain ⟨registered, hr, hb⟩ := Except.bind_eq_ok h
  exact lists_bind (lists_register hr) hb

end FunctionTable

end SmallCpp
