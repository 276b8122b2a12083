import Mathlib.Data.List.Induction
import SmallCpp.Proofs.FunctionTable

/-!
# When the table of functions can be built

`FunctionTable.build` goes through the declarations one by one and compares each with the first of
its name. Agreement of signatures is equality of what they say apart from names and places, so that
it comes to the same as comparing all declarations of a name with each other. `Coherent` says what
is asked of the declarations as a whole, without regard to their order;
`FunctionTable.exists_build_iff` says that it is all that is asked.
-/

namespace SmallCpp

/-! ## Declarations of one name -/

/-- What the declarations of a function have to share: the result and how arguments are passed. -/
def Signature.shape (s : Signature) : ValueType × List (ValueType × Bool) :=
  (s.returns, s.params.map fun p => (p.type, p.byRef))

/-- Declarations agree if they have the same shape. -/
theorem Signature.agrees_iff {s t : Signature} : s.agrees t = true ↔ s.shape = t.shape := by
  rw [agrees, Bool.and_eq_true, decide_eq_true_eq, decide_eq_true_eq, shape, shape, Prod.mk.injEq]

/-- The shape of a declaration, or why its types cannot be resolved. -/
def FunctionDecl.shape (types : TypeTable) (decl : FunctionDecl) :
    Except RuntimeError (ValueType × List (ValueType × Bool)) :=
  (Signature.resolve types decl).map Signature.shape

/-- The shape of a declaration is that of what it is resolved to. -/
theorem FunctionDecl.shape_of_resolve {types : TypeTable} {decl : FunctionDecl} {s : Signature}
    (h : Signature.resolve types decl = .ok s) : decl.shape types = .ok s.shape := by
  rw [shape, h]
  rfl

/-- The first declaration of a name is one of its declarations. -/
theorem mem_of_firstDecl? {decls : List FunctionDecl} {name : String} {first : FunctionDecl}
    (h : firstDecl? decls name = some first) : first ∈ decls ∧ first.name = name := by
  have hname := List.find?_some h
  exact ⟨List.mem_of_find?_eq_some h, beq_iff_eq.mp hname⟩

/-- A name that is declared has a first declaration. -/
theorem exists_firstDecl? {decls : List FunctionDecl} {decl : FunctionDecl} (h : decl ∈ decls) :
    ∃ first, firstDecl? decls decl.name = some first := by
  have hsome : (decls.find? fun d => d.name == decl.name).isSome = true :=
    List.find?_isSome.mpr ⟨decl, h, beq_self_eq_true _⟩
  exact Option.isSome_iff_exists.mp hsome

/-- The bodies of a name in source order. -/
def bodiesOf (decls : List FunctionDecl) (name : String) : List Block :=
  decls.filterMap fun decl => if decl.name == name then decl.body else none

/-- The first body of a name is its body. -/
theorem head?_bodiesOf (decls : List FunctionDecl) (name : String) :
    (bodiesOf decls name).head? = bodyOf? decls name :=
  List.head?_filterMap

/-- A name has no bodies if it has no body. -/
theorem bodiesOf_eq_nil_iff {decls : List FunctionDecl} {name : String} :
    bodiesOf decls name = [] ↔ bodyOf? decls name = none := by
  rw [← head?_bodiesOf, List.head?_eq_none_iff]

/-- One declaration more adds its body to those of its name. -/
theorem bodiesOf_append (decls : List FunctionDecl) (decl : FunctionDecl) (name : String) :
    bodiesOf (decls ++ [decl]) name =
      bodiesOf decls name ++ (if decl.name == name then decl.body else none).toList := by
  have hlast : bodiesOf [decl] name = (if decl.name == name then decl.body else none).toList := by
    rw [bodiesOf, List.filterMap_cons, List.filterMap_nil]
    cases if decl.name == name then decl.body else none <;> rfl
  rw [← hlast, bodiesOf, List.filterMap_append]
  rfl

/-- One more declaration leaves every name with at most one body if it brings none, or the first of
its name. -/
theorem length_bodiesOf_append_iff {decls : List FunctionDecl} {decl : FunctionDecl} :
    (∀ name, (bodiesOf (decls ++ [decl]) name).length ≤ 1) ↔
      (∀ name, (bodiesOf decls name).length ≤ 1) ∧
        (decl.body = none ∨ bodyOf? decls decl.name = none) := by
  simp only [bodiesOf_append, List.length_append]
  constructor
  · intro h
    refine ⟨fun name => Nat.le_trans (Nat.le_add_right _ _) (h name), ?_⟩
    cases hbody : decl.body with
    | none => exact .inl rfl
    | some b =>
      have hone := h decl.name
      rw [beq_self_eq_true, if_pos rfl, hbody, Option.toList_some, List.length_singleton] at hone
      have hzero : (bodiesOf decls decl.name).length = 0 := by omega
      exact .inr (bodiesOf_eq_nil_iff.mp (List.length_eq_zero_iff.mp hzero))
  · rintro ⟨hold, hnew⟩ name
    have hone := hold name
    -- Only the name of the new declaration can get another body.
    split_ifs with hname
    · rw [beq_iff_eq] at hname
      rcases hnew with hbody | hnone
      · rw [hbody, Option.toList_none, List.length_nil]
        exact hone
      · rw [hname] at hnone
        rw [bodiesOf_eq_nil_iff.mpr hnone, List.length_nil, Nat.zero_add]
        cases decl.body <;> simp
    · rw [Option.toList_none, List.length_nil]
      exact hone

/-! ## Registering and binding -/

namespace FunctionTable

/-- What registering asks of all declarations together. -/
structure Registrable (types : TypeTable) (decls : List FunctionDecl) : Prop where
  /-- No declaration takes the name of a primitive. -/
  names : ∀ decl ∈ decls, Primitive.ofName? decl.name = none
  /-- The types of every declaration can be resolved. -/
  resolves : ∀ decl ∈ decls, (decl.shape types).isOk = true
  /-- Declarations of one name have one shape. -/
  agree : ∀ decl ∈ decls, ∀ decl' ∈ decls, decl.name = decl'.name →
    decl.shape types = decl'.shape types

/-- What is asked of all declarations together. -/
structure Coherent (types : TypeTable) (decls : List FunctionDecl) : Prop
    extends Registrable types decls where
  /-- No name has two bodies. -/
  bodies : ∀ name, (bodiesOf decls name).length ≤ 1

variable {types : TypeTable} {decls : List FunctionDecl} {t : FunctionTable} {decl : FunctionDecl}

/-- One more declaration is compared with the first of its name only. -/
theorem registrable_append_iff :
    Registrable types (decls ++ [decl]) ↔ Registrable types decls ∧
      Primitive.ofName? decl.name = none ∧ (decl.shape types).isOk = true ∧
      ∀ first ∈ firstDecl? decls decl.name, first.shape types = decl.shape types := by
  constructor
  · intro h
    have hold : ∀ d ∈ decls, d ∈ decls ++ [decl] := fun d => List.mem_append_left _
    have hnew : decl ∈ decls ++ [decl] := List.mem_append_right _ (List.mem_singleton_self _)
    refine ⟨⟨fun d hd => h.names d (hold d hd), fun d hd => h.resolves d (hold d hd),
      fun d hd d' hd' => h.agree d (hold d hd) d' (hold d' hd')⟩, h.names decl hnew,
      h.resolves decl hnew, fun first hfirst => ?_⟩
    obtain ⟨hmem, hname⟩ := mem_of_firstDecl? hfirst
    exact h.agree first (hold first hmem) decl hnew hname
  · rintro ⟨h, hname, hresolves, hfirst⟩
    -- Any declaration of the name has the shape of the first one, which is that of the new one.
    have hshape : ∀ d ∈ decls, d.name = decl.name → d.shape types = decl.shape types := by
      intro d hd heq
      obtain ⟨first, hd'⟩ := exists_firstDecl? hd
      obtain ⟨hmem, hfirstName⟩ := mem_of_firstDecl? hd'
      rw [heq] at hd'
      exact (h.agree d hd first hmem hfirstName.symm).trans (hfirst first hd')
    refine ⟨?_, ?_, ?_⟩
    · rw [List.forall_mem_append, List.forall_mem_singleton]
      exact ⟨h.names, hname⟩
    · rw [List.forall_mem_append, List.forall_mem_singleton]
      exact ⟨h.resolves, hresolves⟩
    · intro d hd d' hd' heq
      rcases List.mem_append.mp hd with hd | hd <;> rcases List.mem_append.mp hd' with hd' | hd'
      · exact h.agree d hd d' hd' heq
      · rw [List.mem_singleton.mp hd'] at heq ⊢
        exact hshape d hd heq
      · rw [List.mem_singleton.mp hd] at heq ⊢
        exact (hshape d' hd' heq.symm).symm
      · rw [List.mem_singleton.mp hd, List.mem_singleton.mp hd']

/-- A declaration can be registered if its name is free, its types can be resolved and it agrees
with the first declaration of its name. -/
theorem exists_register_iff (ht : t.Lists types decls fun _ => none) :
    (∃ t', register types t decl = .ok t') ↔
      Primitive.ofName? decl.name = none ∧ (decl.shape types).isOk = true ∧
      ∀ first ∈ firstDecl? decls decl.name, first.shape types = decl.shape types := by
  rw [register]
  cases hprimitive : Primitive.ofName? decl.name with
  | some q => simp
  | none =>
    rw [if_neg (by simp)]
    cases hs : Signature.resolve types decl with
    | error e =>
      have hshape : decl.shape types = .error e := by
        rw [FunctionDecl.shape, hs]
        rfl
      rw [hshape]
      constructor
      · rintro ⟨t', h⟩
        cases h
      · rintro ⟨-, h, -⟩
        cases h
    | ok s =>
      rw [FunctionDecl.shape_of_resolve hs]
      dsimp only [Bind.bind, Except.bind]
      -- A new name is added. One that is known is compared with its first declaration.
      cases hfound : t.find? decl.name with
      | none =>
        rw [(ht.find?_eq_none_iff decl.name).mp hfound]
        exact ⟨fun _ => ⟨rfl, rfl, by simp⟩, fun _ => ⟨_, rfl⟩⟩
      | some entry =>
        obtain ⟨first, hfirst, hresolve⟩ := ht.exists_first hfound
        have hshape := FunctionDecl.shape_of_resolve hresolve
        rw [hfirst]
        constructor
        · rintro ⟨t', h⟩
          dsimp only at h
          split_ifs at h with hagrees
          refine ⟨rfl, rfl, ?_⟩
          rintro _ ⟨⟩
          rw [hshape, Signature.agrees_iff.mp hagrees]
        · rintro ⟨-, -, h⟩
          have hagrees : entry.signature.agrees s = true := by
            have heq := h first rfl
            rw [hshape] at heq
            exact Signature.agrees_iff.mpr (Except.ok.inj heq)
          dsimp only
          rw [if_pos hagrees]
          exact ⟨t, rfl⟩

/-- A fold over one member more succeeds if it does up to there and in the last step. -/
theorem exists_foldlM_append_iff
    {f : FunctionTable → FunctionDecl → Except RuntimeError FunctionTable} :
    (∃ t', (decls ++ [decl]).foldlM f t = .ok t') ↔
      ∃ u, decls.foldlM f t = .ok u ∧ ∃ t', f u decl = .ok t' := by
  rw [List.foldlM_append]
  simp only [List.foldlM_cons, List.foldlM_nil, bind_pure]
  constructor
  · rintro ⟨t', h⟩
    obtain ⟨u, hu, h⟩ := Except.bind_eq_ok h
    exact ⟨u, hu, t', h⟩
  · rintro ⟨u, hu, t', h⟩
    rw [hu]
    exact ⟨t', h⟩

/-- Declarations are registered one by one: the table that is built lists those before, and the next
agrees with them or not. -/
theorem exists_registered_iff :
    (∃ t, decls.foldlM (register types) empty = .ok t) ↔ Registrable types decls := by
  induction decls using List.reverseRecOn with
  | nil =>
    have hnil : Registrable types [] :=
      ⟨List.forall_mem_nil _, List.forall_mem_nil _, List.forall_mem_nil _⟩
    exact ⟨fun _ => hnil, fun _ => ⟨empty, rfl⟩⟩
  | append_singleton decls decl ih =>
    rw [exists_foldlM_append_iff, registrable_append_iff, ← ih]
    constructor
    · rintro ⟨t, ht, hlast⟩
      exact ⟨⟨t, ht⟩, (exists_register_iff (lists_register ht)).mp hlast⟩
    · rintro ⟨⟨t, ht⟩, hlast⟩
      exact ⟨t, ht, (exists_register_iff (lists_register ht)).mpr hlast⟩

/-- A declaration can be bound if it has no body, or its name has none yet. -/
theorem exists_bind_iff {done : List FunctionDecl} (ht : t.Lists types decls (bodyOf? done))
    (hmem : decl ∈ decls) :
    (∃ t', bind t decl = .ok t') ↔ decl.body = none ∨ bodyOf? done decl.name = none := by
  rw [bind]
  cases hbody : decl.body with
  | none => exact ⟨fun _ => .inl rfl, fun _ => ⟨t, rfl⟩⟩
  | some b =>
    obtain ⟨first, hfirst⟩ := exists_firstDecl? hmem
    obtain ⟨entry, hentry, -⟩ := ht.exists_entry hfirst
    have hsame := ht.body_eq _ entry hentry
    rw [get_eq_ok_iff.mpr hentry]
    dsimp only [Bind.bind, Except.bind]
    rw [hsame]
    cases bodyOf? done decl.name with
    | none => exact ⟨fun _ => .inr rfl, fun _ => ⟨_, rfl⟩⟩
    | some b' => simp

/-- Bodies can be bound if no name has two. -/
theorem exists_bound_iff {done : List FunctionDecl} (ht : t.Lists types decls fun _ => none)
    (hdone : ∀ decl ∈ done, decl ∈ decls) :
    (∃ t', done.foldlM bind t = .ok t') ↔ ∀ name, (bodiesOf done name).length ≤ 1 := by
  induction done using List.reverseRecOn with
  | nil => exact ⟨fun _ _ => Nat.zero_le _, fun _ => ⟨t, rfl⟩⟩
  | append_singleton done decl ih =>
    rw [List.forall_mem_append, List.forall_mem_singleton] at hdone
    rw [exists_foldlM_append_iff, length_bodiesOf_append_iff, ← ih hdone.1]
    constructor
    · rintro ⟨u, hu, hlast⟩
      exact ⟨⟨u, hu⟩, (exists_bind_iff (lists_bind ht hu) hdone.2).mp hlast⟩
    · rintro ⟨⟨u, hu⟩, hlast⟩
      exact ⟨u, hu, (exists_bind_iff (lists_bind ht hu) hdone.2).mpr hlast⟩

/-- The table can be built exactly if the declarations are coherent. -/
theorem exists_build_iff {p : Program} :
    (∃ t, build types p = .ok t) ↔ Coherent types p.functions := by
  constructor
  · rintro ⟨t, h⟩
    obtain ⟨registered, hregistered, hbound⟩ := Except.bind_eq_ok h
    have hlists := lists_register hregistered
    exact ⟨exists_registered_iff.mp ⟨registered, hregistered⟩,
      (exists_bound_iff hlists fun _ => id).mp ⟨t, hbound⟩⟩
  · rintro ⟨hregistrable, hbodies⟩
    obtain ⟨registered, hregistered⟩ := exists_registered_iff.mpr hregistrable
    obtain ⟨t, ht⟩ := (exists_bound_iff (lists_register hregistered) fun _ => id).mpr hbodies
    refine ⟨t, ?_⟩
    rw [build, hregistered]
    exact ht

/-! ## The order of declarations -/

/-- Coherence does not depend on the order. -/
theorem Coherent.perm {decls' : List FunctionDecl} (h : Coherent types decls)
    (hperm : decls.Perm decls') : Coherent types decls' := by
  have hmem : ∀ d ∈ decls', d ∈ decls := fun d => hperm.mem_iff.mpr
  refine ⟨⟨fun d hd => h.names d (hmem d hd), fun d hd => h.resolves d (hmem d hd),
    fun d hd d' hd' => h.agree d (hmem d hd) d' (hmem d' hd')⟩, fun name => ?_⟩
  have hlength : (bodiesOf decls name).length = (bodiesOf decls' name).length :=
    (hperm.filterMap _).length_eq
  rw [← hlength]
  exact h.bodies name

/-- The body of a name does not depend on the order, if there is only one. -/
theorem Coherent.bodyOf?_eq {decls' : List FunctionDecl} (h : Coherent types decls)
    (hperm : decls.Perm decls') (name : String) : bodyOf? decls name = bodyOf? decls' name := by
  have hbodies : (bodiesOf decls name).Perm (bodiesOf decls' name) := hperm.filterMap _
  have hone := h.bodies name
  have hsame : bodiesOf decls name = bodiesOf decls' name := by
    cases hlist : bodiesOf decls name with
    | nil =>
      rw [hlist] at hbodies
      exact hbodies.nil_eq
    | cons b bs =>
      rw [hlist, List.length_cons] at hone
      obtain rfl : bs = [] := List.length_eq_zero_iff.mp (by omega)
      rw [hlist] at hbodies
      exact (List.perm_singleton.mp hbodies.symm).symm
  rw [← head?_bodiesOf, ← head?_bodiesOf, hsame]

end FunctionTable

end SmallCpp
