import SmallCpp.Proofs.Lens.Value
import SmallCpp.Proofs.Typing.Store

/-!
# Slots of a type

A brace list fills the slots of a type in order: the elements of an array, the fields of a record,
or a scalar as a whole. `ValueType.slots`, `ValueType.toSlot` and `ValueType.assemble` say so of all
types at once, so that arrays, records and braced scalars need not be told apart any more.
`Fills` relates the items of a list to what is in the slots: the first slots get what the items
give, and the others are zero.
-/

namespace SmallCpp

namespace ValueType

/-- The types of the slots that a brace list fills: those of the elements, those of the fields, or
the type itself if it has neither. -/
def slots : ValueType → List ValueType
  | array elem length => List.replicate length elem
  | record _ layout => layout.map (·.2)
  | T => [T]

/-- The way from a value of the type to what is in one of its slots. -/
def toSlot : ValueType → Nat → List Step
  | array _ _, i => [.elem i]
  | record _ _, i => [.field i]
  | _, _ => []

/-- The value of the type with the given parts in its slots. -/
def assemble : ValueType → List Value → Value
  | array _ _, parts => .array parts
  | record name layout, parts => .record name layout parts
  | T, parts => parts.headD T.zero

variable {S T U : ValueType} {parts : List Value} {i : Nat}

/-- The slots of an array are its elements. -/
theorem getElem?_slots_array {elem : ValueType} {length : Nat} :
    (array elem length).slots[i]? = some U ↔ i < length ∧ elem = U := by
  rw [slots, List.getElem?_replicate]
  split_ifs with hi
  · rw [Option.some_inj]
    exact ⟨fun h => ⟨hi, h⟩, fun h => h.2⟩
  · exact ⟨nofun, fun h => absurd h.1 hi⟩

/-- The slots of a record are its fields. -/
theorem getElem?_slots_record {name : String} {layout : Layout} :
    (record name layout).slots[i]? = some U ↔ ∃ f, layout[i]? = some f ∧ f.2 = U := by
  rw [slots, List.getElem?_map, Option.map_eq_some_iff]

/-- The only slot of a type without elements and fields. -/
theorem eq_of_singleton (h : [T][i]? = some U) : i = 0 ∧ T = U := by
  cases i with
  | zero => exact ⟨rfl, Option.some.inj h⟩
  | succ i => cases h

/-- A zero value has zeros in its slots. -/
theorem zero_eq_assemble (T : ValueType) : T.zero = T.assemble (T.slots.map zero) := by
  cases T with
  | array elem length => rw [zero, slots, List.map_replicate, assemble]
  | record name layout =>
    rw [zero, zeros_eq_map, slots, List.map_map, assemble]
    rfl
  | _ => rfl

/-- A path that goes to a slot first goes on inside the type of the slot. -/
theorem at?_toSlot (h : T.slots[i]? = some U) (path : List Step) :
    T.at? (T.toSlot i ++ path) = U.at? path := by
  cases T with
  | array elem length =>
    obtain ⟨hi, rfl⟩ := getElem?_slots_array.mp h
    exact if_pos hi
  | record name layout =>
    obtain ⟨f, hf, rfl⟩ := getElem?_slots_record.mp h
    rw [toSlot, List.singleton_append, at?, hf]
    rfl
  | _ =>
    obtain ⟨-, rfl⟩ := eq_of_singleton h
    rfl

/-- The first step of a path inside a type goes to a slot. -/
theorem exists_toSlot {step : Step} {path : List Step} (h : T.at? (step :: path) = some S) :
    ∃ i U, T.slots[i]? = some U ∧ T.toSlot i = [step] := by
  cases T with
  | array elem length =>
    cases step with
    | elem i =>
      rw [at?] at h
      split_ifs at h with hi
      exact ⟨i, elem, getElem?_slots_array.mpr ⟨hi, rfl⟩, rfl⟩
    | field i => cases h
  | record name layout =>
    cases step with
    | elem i => cases h
    | field i =>
      obtain ⟨f, hf, -⟩ := Option.bind_eq_some_iff.mp h
      exact ⟨i, f.2, getElem?_slots_record.mpr ⟨f, hf, rfl⟩, rfl⟩
  | _ => cases step <;> cases h

/-- What is in a slot is found there. -/
theorem follow_assemble {part : Value} (hlength : parts.length = T.slots.length)
    (h : parts[i]? = some part) : (T.assemble parts).follow (T.toSlot i) = .ok part := by
  cases T with
  | array elem length => exact Value.follow_cons_eq_ok.mpr ⟨part, h, rfl⟩
  | record name layout => exact Value.follow_cons_eq_ok.mpr ⟨part, h, rfl⟩
  | _ =>
    obtain ⟨only, rfl⟩ := List.length_eq_one_iff.mp hlength
    cases i with
    | zero => exact congrArg _ (Option.some.inj h)
    | succ i => cases h

/-- A zero value has a zero value wherever there is a part. -/
theorem follow_zero {path : List Step} (h : T.at? path = some U) :
    T.zero.follow path = .ok U.zero := by
  induction path generalizing T with
  | nil =>
    cases h
    rfl
  | cons step path ih =>
    obtain ⟨i, V, hV, hstep⟩ := exists_toSlot h
    have hpath : step :: path = T.toSlot i ++ path := by rw [hstep, List.singleton_append]
    have hzero : (T.slots.map zero)[i]? = some V.zero := by
      rw [List.getElem?_map, hV, Option.map_some]
    rw [hpath, at?_toSlot hV] at h
    rw [hpath, zero_eq_assemble, Value.follow_append (follow_assemble (List.length_map _) hzero)]
    exact ih h

/-- What can be stored has slots that can. -/
theorem Storable.slots (hT : T.Storable) (hU : U ∈ T.slots) : U.Storable := by
  cases hT with
  | array hpos helem => exact List.eq_of_mem_replicate hU ▸ helem
  | record hfields =>
    obtain ⟨f, hf, rfl⟩ := List.mem_map.mp hU
    exact hfields f hf
  | int => exact List.mem_singleton.mp hU ▸ .int
  | bool => exact List.mem_singleton.mp hU ▸ .bool
  | char => exact List.mem_singleton.mp hU ▸ .char

/-- Parts of the types of the slots make a value of the type. -/
theorem Storable.assemble_hasType (hT : T.Storable) (hlength : parts.length = T.slots.length)
    (hparts : ∀ (i : Nat) part U, parts[i]? = some part → T.slots[i]? = some U → part.HasType U) :
    (T.assemble parts).HasType T := by
  have honly : ∀ {T : ValueType}, T.slots = [T] → parts.length = T.slots.length →
      (∀ (i : Nat) part U, parts[i]? = some part → T.slots[i]? = some U → part.HasType U) →
      (parts.headD T.zero).HasType T := by
    intro T hslots hlength hparts
    rw [hslots] at hlength hparts
    obtain ⟨only, rfl⟩ := List.length_eq_one_iff.mp hlength
    exact hparts 0 only T rfl rfl
  cases hT with
  | @array elem length hpos helem =>
    rw [ValueType.slots, List.length_replicate] at hlength
    refine .array hlength hpos fun part hpart => ?_
    obtain ⟨i, hi, hget⟩ := List.getElem_of_mem hpart
    refine hparts i part elem (List.getElem?_eq_some_iff.mpr ⟨hi, hget⟩) ?_
    exact getElem?_slots_array.mpr ⟨by omega, rfl⟩
  | @record name layout hfields =>
    rw [ValueType.slots, List.length_map] at hlength
    refine .record hlength fun i part f hpart hf => hparts i part f.2 hpart ?_
    exact getElem?_slots_record.mpr ⟨f, hf, rfl⟩
  | int => exact honly rfl hlength hparts
  | bool => exact honly rfl hlength hparts
  | char => exact honly rfl hlength hparts

/-- A value takes its type from what is in its slots. -/
theorem type_assemble (hT : T = .void ∨ T.Storable) (hlength : parts.length = T.slots.length)
    (hparts : ∀ (i : Nat) part U, parts[i]? = some part → T.slots[i]? = some U → part.type = U) :
    (T.assemble parts).type = T := by
  cases T with
  | array elem length =>
    have hpos : 0 < length := by
      rcases hT with hvoid | hT
      · cases hvoid
      · cases hT with
        | array hpos _ => exact hpos
    rw [slots, List.length_replicate] at hlength
    -- The type is read off the first element, and there is one.
    cases parts with
    | nil => rw [List.length_nil] at hlength; omega
    | cons first rest =>
      have hfirst := hparts 0 first elem rfl (getElem?_slots_array.mpr ⟨hpos, rfl⟩)
      rw [assemble, Value.type, hfirst, ← hlength, List.length_cons]
  | record name layout => rfl
  | _ =>
    obtain ⟨only, rfl⟩ := List.length_eq_one_iff.mp hlength
    exact hparts 0 only _ rfl rfl

end ValueType

/-! ## Slots that are filled in order -/

/-- The items give what is in the first slots, and what is in the slots behind them is zero. -/
inductive Fills (G : Initializer → ValueType → Value → Prop) :
    List Initializer → List ValueType → List Value → Prop
  | rest (types : List ValueType) : Fills G [] types (types.map ValueType.zero)
  | item {item : Initializer} {T : ValueType} {v : Value} {items : List Initializer}
    {types : List ValueType} {parts : List Value} (h : G item T v)
    (hrest : Fills G items types parts) : Fills G (item :: items) (T :: types) (v :: parts)

namespace Fills

variable {G : Initializer → ValueType → Value → Prop} {items : List Initializer}
  {types : List ValueType} {parts : List Value}

/-- Every slot is filled. -/
theorem length_eq (h : Fills G items types parts) : parts.length = types.length := by
  induction h with
  | rest types => exact List.length_map _
  | item _ _ ih => rw [List.length_cons, List.length_cons, ih]

/-- There are no more items than slots. -/
theorem length_le (h : Fills G items types parts) : items.length ≤ types.length := by
  induction h with
  | rest types => exact Nat.zero_le _
  | item _ _ ih => exact Nat.succ_le_succ ih

/-- Each slot has its item, or it is zero. -/
theorem get (h : Fills G items types parts) {i : Nat} {U : ValueType} (hU : types[i]? = some U) :
    ∃ part, parts[i]? = some part ∧
      ((∃ item, items[i]? = some item ∧ G item U part) ∨ (items[i]? = none ∧ part = U.zero)) := by
  induction h generalizing i with
  | rest types =>
    refine ⟨U.zero, ?_, .inr ⟨rfl, rfl⟩⟩
    rw [List.getElem?_map, hU, Option.map_some]
  | @item item T v _ _ _ h _ ih =>
    cases i with
    | zero => exact ⟨v, rfl, .inl ⟨item, rfl, Option.some.inj hU ▸ h⟩⟩
    | succ i => exact ih hU

/-- Items that fit into the slots fill them, if each gives a value. -/
theorem exists_of_forall (hlength : items.length ≤ types.length)
    (h : ∀ (i : Nat) item U, items[i]? = some item → types[i]? = some U → ∃ v, G item U v) :
    ∃ parts, Fills G items types parts := by
  induction items generalizing types with
  | nil => exact ⟨_, .rest types⟩
  | cons item items ih =>
    cases types with
    | nil => exact absurd hlength (Nat.not_succ_le_zero _)
    | cons T types =>
      obtain ⟨v, hv⟩ := h 0 item T rfl rfl
      obtain ⟨parts, hparts⟩ := ih (Nat.le_of_succ_le_succ hlength)
        fun i item U hitem hU => h (i + 1) item U hitem hU
      exact ⟨_, .item hv hparts⟩

/-- Without items all slots are zero. -/
theorem nil_iff : Fills G [] types parts ↔ parts = types.map ValueType.zero :=
  ⟨fun h => by cases h; rfl, fun h => h ▸ .rest types⟩

/-- The first item gives the first slot, the others the rest. -/
theorem cons_iff {item : Initializer} {T : ValueType} :
    Fills G (item :: items) (T :: types) parts ↔
      ∃ v rest, G item T v ∧ Fills G items types rest ∧ v :: rest = parts := by
  constructor
  · rintro (_ | ⟨h, hrest⟩)
    exact ⟨_, _, h, hrest, rfl⟩
  · rintro ⟨v, rest, h, hrest, rfl⟩
    exact .item h hrest

end Fills

end SmallCpp
