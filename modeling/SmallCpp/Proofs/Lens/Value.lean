import SmallCpp.Proofs.Scalar
import SmallCpp.Proofs.Store

/-!
# Parts of well-formed values

The type of a value is read off its outermost form and off first elements only. In a well-formed
value, whose arrays are uniform and whose records keep to their layouts, that is enough: two
well-formed values of one type have the same parts at the same paths, with the same types
(`Value.WellFormed.exists_follow`), and a part may be exchanged for another of its type
(`Value.WellFormed.modify`). Apart from that, a change at the end of a path behaves as one would
expect of any value: what is put there is found there, and to put back what is there changes
nothing.
-/

namespace SmallCpp

namespace Value

/-- The elements of an array agree in type, a record has a value for each field of its layout, and
nothing is `void`. The type of a field is compared with that of its zero value, since the only value
of an array type without elements counts as an array of `int`. -/
inductive WellFormed : Value → Prop
  | int (n : Int64) : WellFormed (.int n)
  | bool (b : Bool) : WellFormed (.bool b)
  | char (c : UInt8) : WellFormed (.char c)
  | array {elems : List Value} (helems : ∀ v ∈ elems, WellFormed v)
    (huniform : ∀ v ∈ elems, ∀ w ∈ elems, v.type = w.type) : WellFormed (.array elems)
  | record {name : String} {layout : Layout} {fields : List Value}
    (hlength : fields.length = layout.length) (hfields : ∀ v ∈ fields, WellFormed v)
    (htypes : ∀ (i : Nat) (v : Value) (f : String × ValueType),
      fields[i]? = some v → layout[i]? = some f → v.type = f.2.zero.type) :
    WellFormed (.record name layout fields)

/-! ### Types -/

/-- Every element of a uniform array tells the type of the array. -/
theorem type_array {elems : List Value} {v : Value} (hv : v ∈ elems)
    (huniform : ∀ v ∈ elems, ∀ w ∈ elems, v.type = w.type) :
    (array elems).type = .array v.type elems.length := by
  cases elems with
  | nil => cases hv
  | cons first rest => rw [type, huniform first List.mem_cons_self v hv, List.length_cons]

/-- The type of an array tells how many elements it has. -/
theorem length_eq_of_type {elems elems' : List Value}
    (h : (array elems).type = (array elems').type) : elems.length = elems'.length := by
  cases elems <;> cases elems' <;> simp_all [type]

/-- Conversion gives a scalar of the type, or keeps a value that is of the type. -/
theorem convert_cases {v w : Value} {T : ValueType} (h : v.convert T = .ok w) :
    w.WellFormed ∧ w.type = T ∨ w = v ∧ v.type = T := by
  cases T with
  | int =>
    obtain ⟨n, -, rfl⟩ := Except.map_eq_ok h
    exact .inl ⟨.int n, rfl⟩
  | bool =>
    obtain ⟨b, -, rfl⟩ := Except.map_eq_ok h
    exact .inl ⟨.bool b, rfl⟩
  | char =>
    obtain ⟨c, -, rfl⟩ := Except.map_eq_ok h
    exact .inl ⟨.char c, rfl⟩
  | void => cases h
  | array elem length | record name layout => exact .inr (eq_of_convert rfl h)

/-- What a conversion gives is of the type. -/
theorem type_of_convert {v w : Value} {T : ValueType} (h : v.convert T = .ok w) : w.type = T := by
  rcases convert_cases h with ⟨-, htype⟩ | ⟨rfl, htype⟩ <;> exact htype

namespace WellFormed

variable {v w part new : Value} {step : Step} {path : List Step}

/-- Conversion to the type of a well-formed value gives a well-formed value of that type. -/
theorem convert (hv : v.WellFormed) {T : ValueType} (h : v.convert T = .ok w) :
    w.WellFormed ∧ w.type = T := by
  rcases convert_cases h with hw | ⟨rfl, htype⟩
  · exact hw
  · exact ⟨hv, htype⟩

/-- A character is the lowest byte of its integer. -/
theorem lowByte_ofNat (c : UInt8) : lowByte (Int64.ofNat c.toNat) = c := by
  simp [lowByte]

/-- A value converts to its own type, and stays as it is. -/
theorem convert_type (h : v.WellFormed) : v.convert v.type = .ok v := by
  cases h with
  | int n | bool b => rfl
  | char c => rw [type, Value.convert, asChar, asInt, Except.map, lowByte_ofNat]; rfl
  | @array elems _ _ =>
    cases elems with
    | nil => rfl
    | cons first rest => exact if_pos rfl
  | record _ _ _ => exact if_pos rfl

/-! ### Parts -/

/-- The parts of a well-formed value are well formed. -/
theorem of_part? (hv : v.WellFormed) (h : v.part? step = some part) : part.WellFormed := by
  cases hv with
  | array helems _ =>
    cases step with
    | elem slot => exact helems part (List.mem_of_getElem? h)
    | field slot => cases h
  | record _ hfields _ =>
    cases step with
    | elem slot => cases h
    | field slot => exact hfields part (List.mem_of_getElem? h)
  | _ => cases step <;> cases h

/-- Where a well-formed value has a part, every other one of the same type has a part of the same
type. -/
theorem exists_part (hv : v.WellFormed) (hw : w.WellFormed) (htype : v.type = w.type)
    (h : v.part? step = some part) : ∃ part', w.part? step = some part' ∧
      part'.type = part.type := by
  cases hv with
  | @array elems helems huniform =>
    cases hw with
    | @array elems' helems' huniform' =>
      cases step with
      | field slot => cases h
      | elem slot =>
        -- The type gives the length of both arrays and the type of all their elements.
        have hslot : slot < elems'.length := by
          rw [← length_eq_of_type htype]
          exact (List.getElem?_eq_some_iff.mp h).1
        have hget : elems'[slot]? = some elems'[slot] := List.getElem?_eq_getElem hslot
        refine ⟨_, hget, ?_⟩
        rw [type_array (List.mem_of_getElem? h) huniform,
          type_array (List.mem_of_getElem? hget) huniform'] at htype
        injection htype with helem
        exact helem.symm
    | _ => cases elems <;> cases htype
  | @record name layout fields hlength hfields htypes =>
    cases hw with
    | @record name' layout' fields' hlength' hfields' htypes' =>
      cases step with
      | elem slot => cases h
      | field slot =>
        cases htype
        -- The type gives the layout of both records, and the layout the types of the fields.
        have hslot : slot < fields.length := (List.getElem?_eq_some_iff.mp h).1
        have hget : fields'[slot]? = some fields'[slot] :=
          List.getElem?_eq_getElem (by omega)
        have hfield : layout[slot]? = some layout[slot] := List.getElem?_eq_getElem (by omega)
        refine ⟨_, hget, ?_⟩
        rw [htypes slot _ _ h hfield, htypes' slot _ _ hget hfield]
    | @array elems' _ _ => cases elems' <;> cases htype
    | _ => cases htype
  | _ => cases step <;> cases h

/-- A part may be exchanged for another of its type. -/
theorem setPart (hv : v.WellFormed) (h : v.part? step = some part) (hnew : new.WellFormed)
    (htype : new.type = part.type) :
    (v.setPart step new).WellFormed ∧ (v.setPart step new).type = v.type := by
  cases hv with
  | @array elems helems huniform =>
    cases step with
    | field slot => cases h
    | elem slot =>
      have hpart : part ∈ elems := List.mem_of_getElem? h
      -- The new element has the type of the others, so the array stays uniform.
      have htypes : ∀ u ∈ elems.set slot new, u.type = part.type := by
        intro u hu
        rcases List.mem_or_eq_of_mem_set hu with hu | rfl
        · exact huniform u hu part hpart
        · exact htype
      have huniform' : ∀ u ∈ elems.set slot new, ∀ u' ∈ elems.set slot new, u.type = u'.type :=
        fun u hu u' hu' => (htypes u hu).trans (htypes u' hu').symm
      have hmem : new ∈ elems.set slot new :=
        List.mem_set (List.getElem?_eq_some_iff.mp h).1 new
      refine ⟨.array (fun u hu => ?_) huniform', ?_⟩
      · rcases List.mem_or_eq_of_mem_set hu with hu | rfl
        · exact helems u hu
        · exact hnew
      · rw [Value.setPart, type_array hmem huniform', type_array hpart huniform, htype,
          List.length_set]
  | @record name layout fields hlength hfields htypes =>
    cases step with
    | elem slot => cases h
    | field slot =>
      refine ⟨.record (by rw [List.length_set, hlength]) (fun u hu => ?_)
        fun i u f hu hf => ?_, rfl⟩
      · rcases List.mem_or_eq_of_mem_set hu with hu | rfl
        · exact hfields u hu
        · exact hnew
      · -- Only the field at the step is new, and it has the type that the layout gives it.
        rw [List.getElem?_set] at hu
        split_ifs at hu with hi
        · subst hi
          cases hu
          exact htype.trans (htypes _ _ f h hf)
        · exact htypes i u f hu hf
  | _ => cases step <;> cases h

/-! ### Paths -/

/-- What a path leads to in a well-formed value is well formed. -/
theorem follow (hv : v.WellFormed) (h : v.follow path = .ok part) : part.WellFormed := by
  induction path generalizing v with
  | nil =>
    cases h
    exact hv
  | cons step path ih =>
    obtain ⟨inner, hinner, hrest⟩ := follow_cons_eq_ok.mp h
    exact ih (hv.of_part? hinner) hrest

/-- Well-formed values of one type have parts of the same types at the same paths. -/
theorem exists_follow (hv : v.WellFormed) (hw : w.WellFormed) (htype : v.type = w.type)
    (h : v.follow path = .ok part) : ∃ part', w.follow path = .ok part' ∧
      part'.type = part.type := by
  induction path generalizing v w with
  | nil =>
    cases h
    exact ⟨w, rfl, htype.symm⟩
  | cons step path ih =>
    obtain ⟨inner, hinner, hrest⟩ := follow_cons_eq_ok.mp h
    obtain ⟨inner', hinner', hsame⟩ := hv.exists_part hw htype hinner
    obtain ⟨part', hpart', htype'⟩ := ih (hv.of_part? hinner) (hw.of_part? hinner') hsame.symm hrest
    exact ⟨part', follow_cons_eq_ok.mpr ⟨inner', hinner', hpart'⟩, htype'⟩

/-- A change that gives a part of the same type keeps the whole well formed and its type. -/
theorem modify {f : Value → Except RuntimeError Value} {v' : Value} (hv : v.WellFormed)
    (hf : ∀ old new, old.WellFormed → f old = .ok new → new.WellFormed ∧ new.type = old.type)
    (h : v.modify f path = .ok v') : v'.WellFormed ∧ v'.type = v.type := by
  induction path generalizing v v' with
  | nil => exact hf v v' hv h
  | cons step path ih =>
    obtain ⟨inner, new, hinner, hnew, rfl⟩ := modify_cons_eq_ok h
    obtain ⟨hformed, htype⟩ := ih (hv.of_part? hinner) hnew
    exact hv.setPart hinner hformed htype

end WellFormed

/-! ### Changes at the end of a path -/

variable {v old : Value} {path : List Step}

/-- A longer path is followed from the part at the end of a shorter one. -/
theorem follow_append (h : v.follow path = .ok old) (more : List Step) :
    v.follow (path ++ more) = old.follow more := by
  induction path generalizing v with
  | nil =>
    cases h
    rfl
  | cons step path ih =>
    obtain ⟨inner, hinner, hrest⟩ := follow_cons_eq_ok.mp h
    rw [List.cons_append, follow_cons, hinner]
    exact ih hrest

/-- To set a part to what it is changes nothing. -/
theorem setPart_self {part : Value} {step : Step} (h : v.part? step = some part) :
    v.setPart step part = v := by
  cases v with
  | array elems =>
    cases step with
    | elem slot =>
      obtain ⟨hslot, rfl⟩ := List.getElem?_eq_some_iff.mp h
      rw [setPart, List.set_getElem_self]
    | field slot => cases h
  | record name layout fields =>
    cases step with
    | elem slot => cases h
    | field slot =>
      obtain ⟨hslot, rfl⟩ := List.getElem?_eq_some_iff.mp h
      rw [setPart, List.set_getElem_self]
  | _ => cases step <;> cases h

/-- A change at the end of a path fails as the change of the part does. -/
theorem modify_of_error {f : Value → Except RuntimeError Value} {e : RuntimeError}
    (h : v.follow path = .ok old) (hf : f old = .error e) : v.modify f path = .error e := by
  induction path generalizing v with
  | nil =>
    cases h
    exact hf
  | cons step path ih =>
    obtain ⟨inner, hinner, hrest⟩ := follow_cons_eq_ok.mp h
    rw [modify_cons, hinner]
    dsimp only
    rw [ih hrest]
    rfl

/-- What is put at the end of a path is found there. -/
theorem exists_modify {f : Value → Except RuntimeError Value} {new : Value}
    (h : v.follow path = .ok old) (hf : f old = .ok new) :
    ∃ v', v.modify f path = .ok v' ∧ v'.follow path = .ok new := by
  induction path generalizing v with
  | nil =>
    cases h
    exact ⟨new, hf, rfl⟩
  | cons step path ih =>
    obtain ⟨inner, hinner, hrest⟩ := follow_cons_eq_ok.mp h
    obtain ⟨inner', hinner', hfound⟩ := ih hrest
    refine ⟨v.setPart step inner', ?_, ?_⟩
    · rw [modify_cons, hinner]
      dsimp only
      rw [hinner']
      rfl
    · exact follow_cons_eq_ok.mpr ⟨inner', part?_setPart_self hinner inner', hfound⟩

/-- To put back what is at the end of a path changes nothing. -/
theorem modify_self {f : Value → Except RuntimeError Value} (h : v.follow path = .ok old)
    (hf : f old = .ok old) : v.modify f path = .ok v := by
  induction path generalizing v with
  | nil =>
    cases h
    exact hf
  | cons step path ih =>
    obtain ⟨inner, hinner, hrest⟩ := follow_cons_eq_ok.mp h
    rw [modify_cons, hinner]
    dsimp only
    rw [ih hrest]
    exact congrArg Except.ok (setPart_self hinner)

end Value

end SmallCpp
