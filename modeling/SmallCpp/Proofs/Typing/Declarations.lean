import SmallCpp.Proofs.FunctionTable
import SmallCpp.Proofs.Typing.Value
import SmallCpp.Run

/-!
# Programs that declare no `void`

If no variable and no member of a record is declared `void`, then every type that a declaration
resolves to is a type of variables, with arrays that have elements all the way down. The tables of
such a program hold only such types.
-/

namespace SmallCpp

/-- A variable that can hold something. -/
def VarDecl.Holds (decl : VarDecl) : Prop :=
  decl.type.isVoid = false

/-- No variable and no member that the item declares is `void`. -/
def Item.Holds : Item → Prop
  | .function decl => ∀ b, decl.body = some b → Statement.EachDeclIn VarDecl.Holds b.statements
  | .record decl => ∀ f ∈ decl.fields, f.type.isVoid = false
  | .global decl => decl.Holds

/-- No variable and no member of a record is declared `void`. -/
def Program.Holds (p : Program) : Prop :=
  ∀ item ∈ p.items, item.Holds

/-! ## Records -/

namespace TypeTable

/-- All records have members of types of variables. -/
def Storable (t : TypeTable) : Prop :=
  ∀ r ∈ t.records, ∀ f ∈ r.2, f.2.Storable

variable {t t' : TypeTable}

/-- Without records there is nothing to store. -/
theorem storable_empty : empty.Storable := nofun

/-- The length of an array is positive. -/
theorem outerLength_pos {count : Option Nat} {bound : Option Expr} {n : Nat}
    (h : outerLength count bound = .ok n) : 0 < n := by
  cases bound with
  | some bound =>
    obtain ⟨i, -, h⟩ := Except.bind_eq_ok h
    split_ifs at h with hpos
    cases h
    omega
  | none =>
    -- Without a bound the length is the number of initializers, and there has to be one.
    rcases count with _ | _ | n
    · cases h
    · cases h
    · cases h
      omega

/-- A written type that is not `void` stands for a type of variables. -/
theorem Storable.resolve (ht : t.Storable) {count : Option Nat} {w : WrittenType} {T : ValueType}
    (h : t.resolve count w = .ok T) (hT : T ≠ .void) : T.Storable := by
  induction w generalizing count T with
  | int => cases h; exact .int
  | bool => cases h; exact .bool
  | char => cases h; exact .char
  | void => cases h; exact absurd rfl hT
  | named name =>
    rw [TypeTable.resolve] at h
    split at h
    · rename_i layout hlayout
      cases h
      -- The layout is that of a record in the table.
      obtain ⟨before, after, heq, -⟩ := List.lookup_eq_some_iff.mp hlayout
      exact .record (ht (name, layout) (by rw [heq]; simp))
    · cases h
  | array elem bound ih =>
    obtain ⟨n, hn, h⟩ := Except.bind_eq_ok h
    obtain ⟨S, hS, h⟩ := Except.bind_eq_ok h
    split_ifs at h with hvoid
    cases h
    exact .array (outerLength_pos hn) (ih hS hvoid)

/-- Only `void` stands for `void`. -/
theorem resolve_ne_void {count : Option Nat} {w : WrittenType} {T : ValueType}
    (h : t.resolve count w = .ok T) (hw : w.isVoid = false) : T ≠ .void := by
  rintro rfl
  cases w with
  | void => cases hw
  | named name =>
    rw [resolve] at h
    split at h <;> cases h
  | array elem bound =>
    obtain ⟨n, -, h⟩ := Except.bind_eq_ok h
    obtain ⟨S, -, h⟩ := Except.bind_eq_ok h
    split_ifs at h
    cases h
  | _ => cases h

/-- The layout of members that can hold something. -/
theorem Storable.layoutOf (ht : t.Storable) {name : String} {done layout : Layout}
    {fields : List FieldDecl} (hdone : ∀ f ∈ done, f.2.Storable)
    (hfields : ∀ f ∈ fields, f.type.isVoid = false)
    (h : t.layoutOf name done fields = .ok layout) : ∀ f ∈ layout, f.2.Storable := by
  induction fields generalizing done with
  | nil => cases h; exact hdone
  | cons field rest ih =>
    rw [TypeTable.layoutOf] at h
    split_ifs at h
    obtain ⟨T, hT, h⟩ := Except.bind_eq_ok h
    refine ih (fun f hf => ?_) (fun f hf => hfields f (List.mem_cons_of_mem _ hf)) h
    rcases List.mem_append.mp hf with hf | hf
    · exact hdone f hf
    · rw [List.mem_singleton.mp hf]
      exact ht.resolve hT (resolve_ne_void hT (hfields field (List.mem_cons_self ..)))

/-- A record with members that can hold something may be defined. -/
theorem Storable.define (ht : t.Storable) {decl : RecordDecl}
    (hfields : ∀ f ∈ decl.fields, f.type.isVoid = false) (h : t.define decl = .ok t') :
    t'.Storable := by
  rw [TypeTable.define] at h
  split_ifs at h
  obtain ⟨layout, hlayout, h⟩ := Except.bind_eq_ok h
  cases h
  intro r hr
  rcases List.mem_append.mp hr with hr | hr
  · exact ht r hr
  · rw [List.mem_singleton.mp hr]
    exact ht.layoutOf (List.forall_mem_nil _) hfields hlayout

/-- If no field is `void`, all records that are defined have members of types of variables. -/
theorem Storable.defineAll (ht : t.Storable) {decls : List RecordDecl}
    (hfields : ∀ r ∈ decls, ∀ f ∈ r.fields, f.type.isVoid = false)
    (h : t.defineAll decls = .ok t') : t'.Storable := by
  induction decls generalizing t with
  | nil => cases h; exact ht
  | cons decl rest ih =>
    rw [TypeTable.defineAll] at h
    split at h
    · rename_i next hnext
      exact ih (ht.define (hfields decl (List.mem_cons_self ..)) hnext)
        (fun r hr => hfields r (List.mem_cons_of_mem _ hr)) h
    · cases h

end TypeTable

/-! ## Functions -/

/-- The function's body declares no `void` variable. -/
def FunctionEntry.Holds (entry : FunctionEntry) : Prop :=
  ∀ b, entry.body = some b → Statement.EachDeclIn VarDecl.Holds b.statements

/-- The functions in a program's table have the bodies of the program. -/
theorem Program.Holds.entry {p : Program} (hp : p.Holds) {types : TypeTable} {t : FunctionTable}
    (ht : FunctionTable.build types p = .ok t) {name : String} {entry : FunctionEntry}
    (hentry : t.get name = .ok entry) : entry.Holds := by
  intro b hb
  rw [(FunctionTable.lists_build ht).body_eq name entry
    (FunctionTable.get_eq_ok_iff.mp hentry)] at hb
  obtain ⟨decl, hmem, -, hbody⟩ := exists_of_bodyOf? hb
  exact hp _ (Program.mem_functions hmem) b hbody

/-- How a sound statement ends: what it returns is sound. -/
def Flow.Sound : Flow → Prop
  | .normal => True
  | .returned v => v.Sound

/-- A call yields a value of the declared result type. -/
theorem Signature.returned_of_finish {s : Signature} {entry : String} {flow : Flow} {v : Value}
    (hflow : flow.Sound) (h : s.finish entry flow = .ok v) : v.Returned s.returns := by
  cases flow with
  | normal =>
    rw [finish] at h
    split_ifs at h with hvoid hentry
    · cases h
      exact .inl ⟨hvoid, rfl⟩
    · exact .inr (Value.hasType_of_convert (Value.sound_int 0) h)
  | returned w =>
    cases w with
    | void =>
      rw [finish] at h
      split_ifs at h with hvoid
      cases h
      exact .inl ⟨hvoid, rfl⟩
    | _ =>
      rw [finish] at h
      · split_ifs at h
        exact .inr (Value.hasType_of_convert hflow h)
      · -- The equation is for values other than `void`.
        nofun

end SmallCpp
