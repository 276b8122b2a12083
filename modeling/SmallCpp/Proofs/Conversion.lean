import SmallCpp.Proofs.Projection
import SmallCpp.Proofs.Regular
import SmallCpp.Proofs.Scalar

/-!
# Conversion and zero values

A value carries no declared type: its type is read off its outermost form and off first elements.
For the types of variables, whose arrays have elements all the way down, this is enough. The zero
value of such a type has that type and is kept by the conversion to it
(`ValueType.Storable.convert_zero`), and the conversions that succeed are those between scalars and
those of a value to its own type (`Value.WellFormed.exists_convert_iff`). What they give is of the
type, and converting it again changes nothing.
-/

namespace SmallCpp

/-- A type that a variable, a parameter or a field of a program that was read stands for. The number
of initializers may take the place of a bound that is left out. -/
def ValueType.Declared (T : ValueType) : Prop :=
  ∃ source p types, Program.parse source = .ok p ∧ TypeTable.empty.defineAll p.records = .ok types ∧
    ∃ item ∈ p.items, ∃ written ∈ item.heldTypes, ∃ count, types.resolve count written = .ok T

namespace ValueType

variable {T : ValueType}

/-- What is declared has arrays with elements, and nothing in it is `void`. -/
theorem Declared.storable (h : T.Declared) : T.Storable := by
  obtain ⟨source, p, types, hp, htypes, item, hitem, written, hwritten, count, hT⟩ := h
  have hholds : p.Holds := Program.holds_of_parse hp
  have htable : types.Storable :=
    TypeTable.storable_empty.defineAll (fun r hr => hholds _ (Program.mem_records hr)) htypes
  have hvoid : written.isVoid = false :=
    (Program.regular_of_parse hp).held item hitem written hwritten
  exact htable.resolve hT (TypeTable.resolve_ne_void hT hvoid)

/-- A zero value is kept by the conversion to its type. -/
theorem Storable.convert_zero (h : T.Storable) : T.zero.convert T = .ok T.zero := by
  have hzero : T.zero.HasType T := h.zero_hasType
  have hkept : T.zero.convert T.zero.type = .ok T.zero := hzero.wellFormed.convert_type
  rwa [hzero.type_eq] at hkept

end ValueType

namespace Value

variable {v w : Value} {T : ValueType}

/-- An integer converts to every scalar type. -/
theorem exists_convert_int (n : Int64) (hT : T.isScalar = true) :
    ∃ w, (int n).convert T = .ok w := by
  cases T with
  | int => exact ⟨.int n, rfl⟩
  | bool => exact ⟨.bool (n != 0), rfl⟩
  | char => exact ⟨.char (lowByte n), rfl⟩
  | void | array elem length | record name layout => cases hT

/-- What converts to a scalar type is a scalar. -/
theorem isScalar_of_convert (hT : T.isScalar = true) (h : v.convert T = .ok w) :
    v.type.isScalar = true := by
  rw [← exists_asInt_iff]
  cases T with
  | int =>
    obtain ⟨n, hn, -⟩ := Except.map_eq_ok h
    exact ⟨n, hn⟩
  | bool =>
    obtain ⟨b, hb, -⟩ := Except.map_eq_ok h
    exact exists_asInt_of_asBool hb
  | char =>
    obtain ⟨c, hc, -⟩ := Except.map_eq_ok h
    obtain ⟨n, hn, -⟩ := Except.map_eq_ok hc
    exact ⟨n, hn⟩
  | void | array elem length | record name layout => cases hT

/-- A conversion between scalars may go by way of the integer. -/
theorem convert_int_bind (hv : v.type.isScalar = true) (hT : T.isScalar = true) :
    (v.convert .int >>= fun w => w.convert T) = v.convert T := by
  obtain ⟨n, hn⟩ := exists_asInt_iff.mpr hv
  have hint : v.convert .int = .ok (.int n) := congrArg (Except.map int) hn
  rw [hint, convert_of_asInt hn hT]
  rfl

namespace WellFormed

/-- Scalars convert to scalars, and every value to its own type; nothing else converts. -/
theorem exists_convert_iff (hv : v.WellFormed) :
    (∃ w, v.convert T = .ok w) ↔
      (v.type.isScalar = true ∧ T.isScalar = true) ∨ v.type = T := by
  constructor
  · rintro ⟨w, hw⟩
    cases hT : T.isScalar with
    | true => exact .inl ⟨isScalar_of_convert hT hw, rfl⟩
    | false => exact .inr (eq_of_convert hT hw).2
  · rintro (⟨hscalar, hT⟩ | rfl)
    · obtain ⟨n, hn⟩ := exists_asInt_iff.mpr hscalar
      rw [convert_of_asInt hn hT]
      exact exists_convert_int n hT
    · exact ⟨v, hv.convert_type⟩

/-- To convert again changes nothing. -/
theorem convert_convert (hv : v.WellFormed) (h : v.convert T = .ok w) : w.convert T = .ok w := by
  obtain ⟨hw, htype⟩ := hv.convert h
  have hkept : w.convert w.type = .ok w := hw.convert_type
  rwa [htype] at hkept

end WellFormed

end Value

/-- Conversion and zero values respect types. All declared types are types of variables. A zero
value is well formed, of its type throughout, and kept by the conversion to it. A well-formed value
converts to a type if both are scalars or the type is its own; the result is of the type, converting
it again changes nothing, and between scalars the conversion may go by way of the integer. -/
theorem conversion_respects_types :
    (∀ T : ValueType, T.Declared → T.Storable) ∧
      (∀ T : ValueType, T.Storable → T.zero.WellFormed ∧ T.zero.type = T ∧ T.zero.HasType T ∧
        T.zero.convert T = .ok T.zero) ∧
      ∀ (T : ValueType) (v : Value), T.Storable → v.WellFormed →
        ((∃ w, v.convert T = .ok w) ↔
          (v.type.isScalar = true ∧ T.isScalar = true) ∨ v.type = T) ∧
        (∀ w, v.convert T = .ok w →
          w.WellFormed ∧ w.type = T ∧ w.HasType T ∧ w.convert T = .ok w) ∧
        (v.type.isScalar = true → T.isScalar = true →
          (v.convert .int >>= fun w => w.convert T) = v.convert T) := by
  refine ⟨fun T hT => hT.storable, fun T hT => ?_, fun T v hT hv => ⟨hv.exists_convert_iff, ?_, ?_⟩⟩
  · have hzero : T.zero.HasType T := hT.zero_hasType
    exact ⟨hzero.wellFormed, hzero.type_eq, hzero, hT.convert_zero⟩
  · intro w hw
    obtain ⟨hformed, htype⟩ := hv.convert hw
    exact ⟨hformed, htype, hformed.hasType hT htype, hv.convert_convert hw⟩
  · exact Value.convert_int_bind

/-- A source with an array of records that hold an array. -/
def tagsSource : String :=
  "struct P { int x; char tag[2]; }; P a[3];"

/-- The type of `a` there. -/
def tagsType : ValueType :=
  .array (.record "P" [("x", .int), ("tag", .array .char 2)]) 3

/-- The type is declared, by the source above. -/
theorem declared_tagsType : tagsType.Declared := by
  have hresolved : ((Program.parse tagsSource).toOption.bind fun p =>
      (TypeTable.empty.defineAll p.records).toOption.map fun types =>
        decide (∃ item ∈ p.items, ∃ written ∈ item.heldTypes,
          (types.resolve none written).toOption = some tagsType)) = some true := by
    decide +kernel
  obtain ⟨p, hp, hresolved⟩ := Option.bind_eq_some_iff.mp hresolved
  obtain ⟨types, htypes, hresolved⟩ := Option.map_eq_some_iff.mp hresolved
  obtain ⟨item, hitem, written, hwritten, hT⟩ := of_decide_eq_true hresolved
  exact ⟨tagsSource, p, types, Except.eq_ok_of_toOption hp, Except.eq_ok_of_toOption htypes, item,
    hitem, written, hwritten, none, Except.eq_ok_of_toOption hT⟩

/-- The zero value of the type is kept, and it does not convert to `int`; an integer that is too
large for a character does convert to one. -/
theorem conversion_respects_types_tagsType :
    tagsType.Declared ∧ tagsType.zero.HasType tagsType ∧
      tagsType.zero.convert tagsType = .ok tagsType.zero ∧
      (¬∃ w, tagsType.zero.convert .int = .ok w) ∧
      ∃ w, (Value.int 321).convert .char = .ok w ∧ w.convert .char = .ok w := by
  obtain ⟨hstorable, hzero, hconvert⟩ := conversion_respects_types
  obtain ⟨hformed, -, htype, hkept⟩ := hzero tagsType (hstorable tagsType declared_tagsType)
  refine ⟨declared_tagsType, htype, hkept, ?_, ?_⟩
  · rw [(hconvert .int _ .int hformed).1]
    decide
  · obtain ⟨hsucceeds, hresult, -⟩ := hconvert .char (.int 321) .char (.int 321)
    obtain ⟨w, hw⟩ := hsucceeds.mpr (.inl ⟨rfl, rfl⟩)
    exact ⟨w, hw, (hresult w hw).2.2.2⟩

end SmallCpp
