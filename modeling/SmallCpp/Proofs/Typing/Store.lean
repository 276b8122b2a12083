import SmallCpp.Proofs.Store
import SmallCpp.Proofs.Typing.Value

/-!
# Storage of known types

A row of types says what each cell was declared to hold. A place has a type if its path is valid
inside the type of its cell; whether it does depends on the types only and not on the values. In a
store that holds what its types say, a place with a type can be read, what it yields is of that
type, and a write keeps the store so. No path then leads nowhere.
-/

namespace SmallCpp

namespace ValueType

/-- The type of the part at the end of a path, if the path is valid inside the type. -/
def at? : List Step → ValueType → Option ValueType
  | [], T => some T
  | .elem slot :: path, array elem length => if slot < length then elem.at? path else none
  | .field slot :: path, record _ layout => layout[slot]? >>= fun f => f.2.at? path
  | _ :: _, _ => none

/-- A path with one more step is that step inside the type at its end. -/
theorem at?_append (path : List Step) (step : Step) (S : ValueType) :
    S.at? (path ++ [step]) = S.at? path >>= fun T => T.at? [step] := by
  induction path generalizing S with
  | nil => rfl
  | cons first path ih =>
    cases first with
    | elem slot =>
      cases S with
      | array elem length =>
        simp only [List.cons_append, at?, ih]
        split <;> rfl
      | _ => rfl
    | field slot =>
      cases S with
      | record name layout =>
        simp only [List.cons_append, at?, ih]
        cases layout[slot]? <;> rfl
      | _ => rfl

end ValueType

namespace Value

/-- One step along a valid path: there is a part, it is of the type there, and it may be exchanged
for another of that type. -/
theorem HasType.exists_part {v : Value} {S T : ValueType} {step : Step} {path : List Step}
    (hv : v.HasType S) (hp : S.at? (step :: path) = some T) :
    ∃ part U, v.part? step = some part ∧ part.HasType U ∧ U.at? path = some T ∧
      ∀ new : Value, new.HasType U → (v.setPart step new).HasType S := by
  cases step with
  | elem slot =>
    cases hv with
    | @array elems elem length hlength hpos helems =>
      simp only [ValueType.at?] at hp
      split_ifs at hp with hslot
      have hget : elems[slot]? = some elems[slot] := List.getElem?_eq_getElem (hlength ▸ hslot)
      refine ⟨_, elem, hget, helems _ (List.mem_of_getElem? hget), hp, fun new hnew => ?_⟩
      refine .array (by rw [List.length_set, hlength]) hpos fun u hu => ?_
      rcases List.mem_or_eq_of_mem_set hu with hu | rfl
      · exact helems u hu
      · exact hnew
    | _ => cases hp
  | field slot =>
    cases hv with
    | @record name layout fields hlength hfields =>
      obtain ⟨g, hg, hp⟩ := Option.bind_eq_some_iff.mp hp
      have hslot : slot < fields.length := by
        rw [hlength]
        exact (List.getElem?_eq_some_iff.mp hg).1
      have hget : fields[slot]? = some fields[slot] := List.getElem?_eq_getElem hslot
      refine ⟨_, g.2, hget, hfields slot _ g hget hg, hp, fun new hnew => ?_⟩
      refine .record (by rw [List.length_set, hlength]) fun i u k hu hk => ?_
      -- Only the field at the slot is another one, and it is of the same type.
      rw [List.getElem?_set] at hu
      split_ifs at hu with hi
      · subst hi
        cases hu
        rw [hg, Option.some_inj] at hk
        exact hk ▸ hnew
      · exact hfields i u k hu hk
    | _ => cases hp

/-- A value of a type has, at the end of every valid path, a part of the part's type. -/
theorem HasType.follow {v : Value} {S T : ValueType} {path : List Step} (hv : v.HasType S)
    (hp : S.at? path = some T) : ∃ w, v.follow path = .ok w ∧ w.HasType T := by
  induction path generalizing v S with
  | nil =>
    cases hp
    exact ⟨v, rfl, hv⟩
  | cons step path ih =>
    obtain ⟨part, U, hpart, hU, hpath, -⟩ := hv.exists_part hp
    obtain ⟨w, hw, hT⟩ := ih hU hpath
    exact ⟨w, follow_cons_eq_ok.mpr ⟨part, hpart, hw⟩, hT⟩

/-- A change of a part that keeps the part's type keeps the type of the whole, and fails only if
the change of the part does. -/
theorem HasType.modify {f : Value → Except RuntimeError Value} {v : Value} {S T : ValueType}
    {path : List Step} (hv : v.HasType S) (hp : S.at? path = some T)
    (hf : ∀ old, old.HasType T → NeverLost (f old) ∧ ∀ new, f old = .ok new → new.HasType T) :
    NeverLost (v.modify f path) ∧ ∀ v', v.modify f path = .ok v' → v'.HasType S := by
  induction path generalizing v S with
  | nil =>
    cases hp
    exact hf v hv
  | cons step path ih =>
    obtain ⟨part, U, hpart, hU, hpath, hset⟩ := hv.exists_part hp
    obtain ⟨hlost, hnew⟩ := ih hU hpath
    rw [modify_cons, hpart]
    refine ⟨hlost.map _, fun v' h => ?_⟩
    obtain ⟨new, hpart', rfl⟩ := Except.map_eq_ok h
    exact hset new (hnew new hpart')

end Value

/-- A slot of an array lies inside it. -/
theorem Value.lt_of_slot? {i : Int64} {length slot : Nat} (h : slot? i length = some slot) :
    slot < length := by
  rw [slot?] at h
  split_ifs at h with hi
  cases h
  omega

/-- A place has a type: its path is valid inside the type of its cell and ends at that type. -/
def Place.HasType (types : List ValueType) (p : Place) (T : ValueType) : Prop :=
  ∃ S, types[p.cell]? = some S ∧ S.at? p.path = some T

/-- More cells leave the types of places as they are. -/
theorem Place.HasType.mono {types types' : List ValueType} {p : Place} {T : ValueType}
    (h : p.HasType types T) (hpre : types <+: types') : p.HasType types' T := by
  obtain ⟨S, hS, hp⟩ := h
  obtain ⟨more, rfl⟩ := hpre
  exact ⟨S, by rw [List.getElem?_append_left (List.getElem?_eq_some_iff.mp hS).1, hS], hp⟩

namespace Store

/-- The store holds what the types say: one cell for each, with a value of that type throughout. -/
structure Typed (s : Store) (types : List ValueType) : Prop where
  /-- There are as many cells as types. -/
  size_eq : s.cells.size = types.length
  /-- Each cell holds a value of its type. -/
  cell : ∀ (n : Nat) (S : ValueType), types[n]? = some S → (s.cell n).HasType S

/-- The empty store holds nothing of any type. -/
theorem typed_empty : Store.empty.Typed [] :=
  ⟨rfl, fun n S h => by simp at h⟩

variable {s : Store} {types : List ValueType} {p : Place} {T : ValueType}

/-- A place with a type can be read, and yields a value of the type. -/
theorem Typed.read (hs : s.Typed types) (hp : p.HasType types T) :
    ∃ v, s.read p = .ok v ∧ v.HasType T := by
  obtain ⟨S, hS, hpath⟩ := hp
  exact (hs.cell _ _ hS).follow hpath

/-- What is read at a place with a type has that type. -/
theorem Typed.hasType_of_read {v : Value} (hs : s.Typed types) (hp : p.HasType types T)
    (h : s.read p = .ok v) : v.HasType T := by
  obtain ⟨w, hw, hT⟩ := hs.read hp
  rw [hw] at h
  cases h
  exact hT

/-- The type found at a place is the type of the place. -/
theorem Typed.typeAt (hs : s.Typed types) (hp : p.HasType types T) : s.typeAt p = .ok T := by
  obtain ⟨v, hv, hT⟩ := hs.read hp
  rw [Store.typeAt, hv, Except.map, hT.type_eq]

/-- A new cell holds what it is given, and the other cells are as before. -/
theorem Typed.alloc {v : Value} (hs : s.Typed types) (hv : v.HasType T) :
    (s.alloc v).2.Typed (types ++ [T]) := by
  refine ⟨by rw [size_alloc, hs.size_eq, List.length_append, List.length_singleton],
    fun n S hS => ?_⟩
  rcases Nat.lt_trichotomy n types.length with hn | rfl | hn
  · rw [List.getElem?_append_left hn] at hS
    rw [cell_alloc_of_lt s v (hs.size_eq ▸ hn)]
    exact hs.cell n S hS
  · rw [List.getElem?_append_right (Nat.le_refl _), Nat.sub_self, List.getElem?_cons_zero,
      Option.some_inj] at hS
    rw [← hs.size_eq, cell_alloc_self]
    exact hS ▸ hv
  · rw [List.getElem?_eq_none (by rw [List.length_append, List.length_singleton]; omega)] at hS
    cases hS

/-- A write of a sound value at a place with a type keeps the store typed. -/
theorem Typed.updated {v : Value} (hs : s.Typed types) (hp : p.HasType types T) (hv : v.Sound) :
    NeverLost (s.updated p v) ∧
      ∀ held, s.updated p v = .ok held → (s.setCell p.cell held).Typed types := by
  obtain ⟨S, hS, hpath⟩ := hp
  have hmod := (hs.cell _ _ hS).modify (f := fun old => v.convert old.type) hpath
    fun old hold => ⟨(v.ordinary_convert _).neverLost, fun new hnew => by
      rw [hold.type_eq] at hnew
      exact Value.hasType_of_convert hv hnew⟩
  refine ⟨hmod.1, fun held hheld => ⟨by rw [size_setCell, hs.size_eq], fun n U hU => ?_⟩⟩
  by_cases hn : p.cell = n
  · subst hn
    rw [hS, Option.some_inj] at hU
    have hlt : p.cell < s.cells.size := by
      rw [hs.size_eq]
      exact (List.getElem?_eq_some_iff.mp hS).1
    rw [cell_setCell_self s held hlt]
    exact hU ▸ hmod.2 held hheld
  · rw [cell_setCell_of_ne s held hn]
    exact hs.cell n U hU

/-- A place with a type is never lost. -/
theorem Typed.neverLost_read (hs : s.Typed types) (hp : p.HasType types T) :
    NeverLost (s.read p) := by
  obtain ⟨v, hv, -⟩ := hs.read hp
  rw [hv]
  exact .ok v

/-- An element of a place with a type is a place with a type, and is never lost. -/
theorem Typed.element {i : Int64} (hs : s.Typed types) (hp : p.HasType types T) :
    NeverLost (s.element p i) ∧ ∀ q, s.element p i = .ok q → ∃ U, q.HasType types U := by
  obtain ⟨v, hv, hT⟩ := hs.read hp
  obtain ⟨S, hS, hpath⟩ := hp
  rw [Store.element, hv]
  cases hT with
  | @array elems elem length hlength hpos helems =>
    dsimp only [bind, Except.bind]
    cases hslot : Value.slot? i elems.length with
    | none => exact ⟨.error rfl, nofun⟩
    | some slot =>
      refine ⟨.ok _, ?_⟩
      rintro q ⟨⟩
      have hlt : slot < length := hlength ▸ Value.lt_of_slot? hslot
      refine ⟨elem, S, hS, ?_⟩
      rw [Place.extend, ValueType.at?_append, hpath]
      simp [ValueType.at?, hlt]
  | _ => exact ⟨.error rfl, nofun⟩

/-- A field of a place with a type is a place with a type, and is never lost. -/
theorem Typed.member {id : String} (hs : s.Typed types) (hp : p.HasType types T) :
    NeverLost (s.member p id) ∧ ∀ q, s.member p id = .ok q → ∃ U, q.HasType types U := by
  obtain ⟨v, hv, hT⟩ := hs.read hp
  obtain ⟨S, hS, hpath⟩ := hp
  rw [Store.member, hv]
  cases hT with
  | @record name layout fields hlength hfields =>
    dsimp only [bind, Except.bind]
    cases hslot : Layout.indexOf? layout id with
    | none => exact ⟨.error rfl, nofun⟩
    | some slot =>
      refine ⟨.ok _, ?_⟩
      rintro q ⟨⟩
      have hlt : slot < layout.length := (List.findIdx?_eq_some_iff_getElem.mp hslot).1
      refine ⟨layout[slot].2, S, hS, ?_⟩
      rw [Place.extend, ValueType.at?_append, hpath]
      simp [ValueType.at?, List.getElem?_eq_getElem hlt]
  | _ => exact ⟨.error rfl, nofun⟩

end Store

end SmallCpp
