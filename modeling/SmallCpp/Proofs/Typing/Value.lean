import SmallCpp.Proofs.Errors
import SmallCpp.Proofs.Scalar

/-!
# Values that are of a type through and through

`Value.type` looks only at the outermost form of a value and at the first element of an array.
`Value.HasType` is the whole truth: all elements of an array have the element type and there are as
many as the type says, and a record has one value of the right type for each field. The two agree
on values that have a type at all (`Value.HasType.type_eq`), so a comparison of outermost types is
enough to convert such a value (`Value.hasType_of_convert`). Everything that operators make of sound
values is sound.
-/

namespace SmallCpp

/-- The types of variables: arrays have elements, and nothing is `void`. -/
inductive ValueType.Storable : ValueType → Prop
  | int : Storable .int
  | bool : Storable .bool
  | char : Storable .char
  | array {elem : ValueType} {length : Nat} (hpos : 0 < length) (helem : Storable elem) :
    Storable (.array elem length)
  | record {name : String} {layout : Layout} (hfields : ∀ f ∈ layout, Storable f.2) :
    Storable (.record name layout)

/-- A value is of a type, with all of its parts. -/
inductive Value.HasType : Value → ValueType → Prop
  | int (n : Int64) : HasType (.int n) .int
  | bool (b : Bool) : HasType (.bool b) .bool
  | char (c : UInt8) : HasType (.char c) .char
  | array {elems : List Value} {elem : ValueType} {length : Nat} (hlength : elems.length = length)
    (hpos : 0 < length) (helems : ∀ v ∈ elems, HasType v elem) :
    HasType (.array elems) (.array elem length)
  | record {name : String} {layout : Layout} {fields : List Value}
    (hlength : fields.length = layout.length)
    (hfields : ∀ (i : Nat) (v : Value) (f : String × ValueType),
      fields[i]? = some v → layout[i]? = some f → HasType v f.2) :
    HasType (.record name layout fields) (.record name layout)

namespace Value

/-- What an expression may yield: nothing, or a value of some type. -/
def Sound (v : Value) : Prop :=
  v = .void ∨ ∃ T, v.HasType T

/-- What a function with the given result type may return. -/
def Returned (v : Value) (returns : ValueType) : Prop :=
  (returns = .void ∧ v = .void) ∨ v.HasType returns

/-- A value with a type is sound. -/
theorem HasType.sound {v : Value} {T : ValueType} (h : v.HasType T) : v.Sound :=
  .inr ⟨T, h⟩

/-- What a function returns is sound. -/
theorem Returned.sound {v : Value} {returns : ValueType} (h : v.Returned returns) : v.Sound := by
  rcases h with ⟨-, h⟩ | h
  · exact .inl h
  · exact h.sound

/-- Integers are sound. -/
theorem sound_int (n : Int64) : (Value.int n).Sound := (HasType.int n).sound

/-- Truth values are sound. -/
theorem sound_bool (b : Bool) : (Value.bool b).Sound := (HasType.bool b).sound

/-- The type that is read off a value is the type that it has. -/
theorem HasType.type_eq {v : Value} {T : ValueType} (h : v.HasType T) : v.type = T := by
  induction h with
  | int n => rfl
  | bool b => rfl
  | char c => rfl
  | @array elems elem length hlength hpos helems ih =>
    -- The type is read off the first element, and there is one.
    cases elems with
    | nil => rw [List.length_nil] at hlength; omega
    | cons first rest =>
      rw [type, ih first (List.mem_cons_self ..), ← hlength, List.length_cons]
  | record hlength hfields ih => rfl

end Value

namespace ValueType

/-- The zero values of a layout, one for each field. -/
theorem zeros_eq_map (layout : Layout) : zeros layout = layout.map (·.2.zero) := by
  induction layout with
  | nil => rfl
  | cons f rest ih => rw [zeros, ih, List.map_cons]

/-- A variable starts with a value of its type. -/
theorem Storable.zero_hasType {T : ValueType} (h : T.Storable) : T.zero.HasType T := by
  induction h with
  | int => exact .int 0
  | bool => exact .bool false
  | char => exact .char 0
  | @array elem length hpos _ ih =>
    rw [zero]
    refine .array List.length_replicate hpos fun v hv => ?_
    rw [List.eq_of_mem_replicate hv]
    exact ih
  | @record name layout _ ih =>
    rw [zero, zeros_eq_map]
    refine .record (List.length_map _) fun i v f hv hf => ?_
    rw [List.getElem?_map, hf, Option.map_some, Option.some_inj] at hv
    rw [← hv]
    exact ih f (List.mem_of_getElem? hf)

end ValueType

/-! ## Conversions and operators -/

namespace Value

/-- A sound value whose outermost type is not `void` is of that type throughout. -/
theorem Sound.hasType {v : Value} {T : ValueType} (hv : v.Sound) (hT : v.type = T)
    (hvoid : T ≠ .void) : v.HasType T := by
  rcases hv with rfl | ⟨S, hS⟩
  · exact absurd hT.symm hvoid
  · rw [← hT, hS.type_eq]
    exact hS

/-- Conversion to a scalar type yields a value of that type. -/
theorem hasType_of_isScalar {v w : Value} {T : ValueType} (hT : T.isScalar = true)
    (h : v.convert T = .ok w) : w.HasType T := by
  cases T with
  | int =>
    obtain ⟨n, -, rfl⟩ := Except.map_eq_ok h
    exact .int n
  | bool =>
    obtain ⟨b, -, rfl⟩ := Except.map_eq_ok h
    exact .bool b
  | char =>
    obtain ⟨c, -, rfl⟩ := Except.map_eq_ok h
    exact .char c
  | void | array elem length | record name layout => cases hT

/-- Conversion of a sound value yields a value of the target type. -/
theorem hasType_of_convert {v w : Value} {T : ValueType} (hv : v.Sound)
    (h : v.convert T = .ok w) : w.HasType T := by
  cases hT : T.isScalar with
  | true => exact hasType_of_isScalar hT h
  | false =>
    obtain ⟨rfl, htype⟩ := eq_of_convert hT h
    have hvoid : T ≠ .void := by
      rintro rfl
      cases h
    exact hv.hasType htype hvoid

/-- An element of a sound array is sound. -/
theorem sound_of_element {v w : Value} {i : Int64} (hv : v.Sound) (h : v.element i = .ok w) :
    w.Sound := by
  cases v with
  | array elems =>
    rcases hv with hv | ⟨T, hv⟩
    · cases hv
    · cases hv with
      | array _ _ helems =>
        rw [element] at h
        split at h
        · rename_i part hpart
          cases h
          obtain ⟨slot, -, hget⟩ := Option.bind_eq_some_iff.mp hpart
          exact (helems w (List.mem_of_getElem? hget)).sound
        · cases h
  | _ => cases h

/-- A field of a sound record is sound. -/
theorem sound_of_member {v w : Value} {id : String} (hv : v.Sound) (h : v.member id = .ok w) :
    w.Sound := by
  cases v with
  | record name layout fields =>
    rcases hv with hv | ⟨T, hv⟩
    · cases hv
    · cases hv with
      | record hlength hfields =>
        rw [member] at h
        split at h
        · rename_i part hpart
          cases h
          obtain ⟨slot, -, hget⟩ := Option.bind_eq_some_iff.mp hpart
          have hslot : slot < layout.length := by
            rw [← hlength]
            exact (List.getElem?_eq_some_iff.mp hget).1
          exact (hfields slot w _ hget (List.getElem?_eq_getElem hslot)).sound
        · cases h
  | _ => cases h

end Value

/-- Arithmetic yields integers. -/
theorem ArithOp.sound_of_apply {op : ArithOp} {l r v : Value} (h : op.apply l r = .ok v) :
    v.Sound := by
  obtain ⟨a, -, h⟩ := Except.bind_eq_ok h
  obtain ⟨b, -, h⟩ := Except.bind_eq_ok h
  obtain ⟨n, -, h⟩ := Except.bind_eq_ok h
  cases h
  exact Value.sound_int n

/-- A comparison yields a truth value. -/
theorem CompareOp.sound_of_apply {op : CompareOp} {l r v : Value} (h : op.apply l r = .ok v) :
    v.Sound := by
  obtain ⟨a, -, h⟩ := Except.bind_eq_ok h
  obtain ⟨b, -, h⟩ := Except.bind_eq_ok h
  cases h
  exact Value.sound_bool _

/-- An operator before its operand yields an integer or a truth value. -/
theorem UnaryOp.sound_of_apply {op : UnaryOp} {operand v : Value}
    (h : op.apply operand = .ok v) : v.Sound := by
  cases op with
  | neg | plus =>
    obtain ⟨n, -, rfl⟩ := Except.map_eq_ok h
    exact Value.sound_int _
  | not =>
    obtain ⟨b, -, rfl⟩ := Except.map_eq_ok h
    exact Value.sound_bool _

end SmallCpp
