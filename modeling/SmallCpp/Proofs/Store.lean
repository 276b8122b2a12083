import SmallCpp.Proofs.Except
import SmallCpp.Store

/-!
# Laws of storage

What the cells hold after a new cell is made and after a cell is given another value, and what a
write leaves as it was: every place in another cell, and every place in the same cell that neither
contains the written one nor lies in it.
-/

namespace SmallCpp

/-! ## Parts of a value -/

namespace Value

/-- The part of a value one step in. -/
def part? : Value → Step → Option Value
  | array elems, .elem slot => elems[slot]?
  | record _ _ fields, .field slot => fields[slot]?
  | _, _ => none

/-- The value with another part one step in. -/
def setPart : Value → Step → Value → Value
  | array elems, .elem slot, part => array (elems.set slot part)
  | record name layout fields, .field slot, part => record name layout (fields.set slot part)
  | v, _, _ => v

/-- A part that is there is the new one after it has been set. -/
theorem part?_setPart_self {v old : Value} {step : Step} (h : v.part? step = some old)
    (new : Value) : (v.setPart step new).part? step = some new := by
  cases v with
  | array elems =>
    cases step with
    | elem slot =>
      have hslot : slot < elems.length := (List.getElem?_eq_some_iff.mp h).1
      simp only [setPart, part?, List.getElem?_set_self hslot]
    | field slot => cases h
  | record name layout fields =>
    cases step with
    | elem slot => cases h
    | field slot =>
      have hslot : slot < fields.length := (List.getElem?_eq_some_iff.mp h).1
      simp only [setPart, part?, List.getElem?_set_self hslot]
  | _ => cases h

/-- Another part in one place leaves the parts in the others as they are. -/
theorem part?_setPart_of_ne {step step' : Step} (h : step ≠ step') (v new : Value) :
    (v.setPart step new).part? step' = v.part? step' := by
  cases v with
  | array elems =>
    cases step with
    | field slot => rfl
    | elem slot =>
      cases step' with
      | field slot' => rfl
      | elem slot' =>
        have hslot : slot ≠ slot' := fun heq => h (congrArg Step.elem heq)
        simp only [setPart, part?, List.getElem?_set_ne hslot]
  | record name layout fields =>
    cases step with
    | elem slot => rfl
    | field slot =>
      cases step' with
      | elem slot' => rfl
      | field slot' =>
        have hslot : slot ≠ slot' := fun heq => h (congrArg Step.field heq)
        simp only [setPart, part?, List.getElem?_set_ne hslot]
  | _ => rfl

/-- A path is followed one step, and then the rest of it from the part there. -/
theorem follow_cons (v : Value) (step : Step) (path : List Step) :
    v.follow (step :: path) =
      match v.part? step with
      | some part => part.follow path
      | none => .error (.typeMismatch (.notSteppable v.shape)) := by
  cases v with
  | array elems => cases step <;> rfl
  | record name layout fields => cases step <;> rfl
  | _ => cases step <;> rfl

/-- A value is changed at the end of a path by changing the part one step in. -/
theorem modify_cons (f : Value → Except RuntimeError Value) (v : Value) (step : Step)
    (path : List Step) :
    v.modify f (step :: path) =
      match v.part? step with
      | some part => (part.modify f path).map (v.setPart step)
      | none => .error (.typeMismatch (.notSteppable v.shape)) := by
  cases v with
  | array elems =>
    cases step with
    | elem slot =>
      simp only [modify, part?]
      cases elems[slot]? with
      | none => rfl
      | some part => cases part.modify f path <;> rfl
    | field slot => rfl
  | record name layout fields =>
    cases step with
    | elem slot => rfl
    | field slot =>
      simp only [modify, part?]
      cases fields[slot]? with
      | none => rfl
      | some part => cases part.modify f path <;> rfl
  | _ => cases step <;> rfl

/-- What is found through a path is found through the part at its first step. -/
theorem follow_cons_eq_ok {v w : Value} {step : Step} {path : List Step} :
    v.follow (step :: path) = .ok w ↔
      ∃ part, v.part? step = some part ∧ part.follow path = .ok w := by
  rw [follow_cons]
  cases v.part? step <;> simp

/-- A change along a path changes a part that is there, and puts it back. -/
theorem modify_cons_eq_ok {f : Value → Except RuntimeError Value} {v w : Value} {step : Step}
    {path : List Step} (h : v.modify f (step :: path) = .ok w) :
    ∃ part new, v.part? step = some part ∧ part.modify f path = .ok new ∧
      v.setPart step new = w := by
  rw [modify_cons] at h
  cases hpart : v.part? step with
  | none => rw [hpart] at h; cases h
  | some part =>
    rw [hpart] at h
    obtain ⟨new, hnew, hw⟩ := Except.map_eq_ok h
    exact ⟨part, new, rfl, hnew, hw⟩

/-- A change at the end of one path leaves what is at the end of another as it was, if neither path
goes on from the other. -/
theorem follow_of_modify {f : Value → Except RuntimeError Value} {path path' : List Step}
    {v v' w : Value} (hmodify : v.modify f path = .ok v') (h : ¬path <+: path')
    (h' : ¬path' <+: path) (hfollow : v.follow path' = .ok w) : v'.follow path' = .ok w := by
  induction path generalizing path' v v' with
  | nil => exact absurd List.nil_prefix h
  | cons step path ih =>
    cases path' with
    | nil => exact absurd List.nil_prefix h'
    | cons step' path' =>
      obtain ⟨part, new, hpart, hnew, rfl⟩ := modify_cons_eq_ok hmodify
      obtain ⟨part', hpart', hrest⟩ := follow_cons_eq_ok.mp hfollow
      by_cases hstep : step = step'
      · -- The two paths part further in, below the same part of the value.
        subst hstep
        obtain rfl : part' = part := Option.some.inj (hpart'.symm.trans hpart)
        rw [List.cons_prefix_cons, not_and] at h h'
        have hfound := ih hnew (h rfl) (h' rfl) hrest
        exact follow_cons_eq_ok.mpr ⟨new, part?_setPart_self hpart new, hfound⟩
      · have hsame := (part?_setPart_of_ne hstep v new).trans hpart'
        exact follow_cons_eq_ok.mpr ⟨part', hsame, hrest⟩

end Value

/-! ## Places that lie in one another -/

namespace Place

/-- The place is another one or a part of it. -/
structure Within (p r : Place) : Prop where
  cell_eq : p.cell = r.cell
  path_prefix : r.path <+: p.path

/-- One of the two places lies in the other. -/
def Overlaps (p q : Place) : Prop :=
  p.Within q ∨ q.Within p

variable {p q r : Place}

/-- A place lies within itself. -/
theorem Within.refl (p : Place) : p.Within p :=
  ⟨rfl, List.prefix_refl _⟩

/-- A part of a part is a part. -/
theorem Within.trans (h : p.Within q) (h' : q.Within r) : p.Within r :=
  ⟨h.cell_eq.trans h'.cell_eq, h'.path_prefix.trans h.path_prefix⟩

/-- One step on is inside. -/
theorem within_extend (p : Place) (step : Step) : (p.extend step).Within p :=
  ⟨rfl, List.prefix_append _ _⟩

/-- A place that has nothing to do with another has nothing to do with its parts. -/
theorem Within.not_overlaps (h : q.Within r) (hp : ¬p.Overlaps r) : ¬p.Overlaps q := by
  rintro (hpq | hqp)
  · exact hp (.inl (hpq.trans h))
  · -- Both contain `q`, so that one of them contains the other.
    have hcell : p.cell = r.cell := hqp.cell_eq.symm.trans h.cell_eq
    rcases List.prefix_or_prefix_of_prefix hqp.path_prefix h.path_prefix with hpre | hpre
    · exact hp (.inr ⟨hcell.symm, hpre⟩)
    · exact hp (.inl ⟨hcell, hpre⟩)

/-- Two parts of one place, one step in, do not overlap. -/
theorem not_overlaps_extend {step step' : Step} (h : step ≠ step') :
    ¬(p.extend step).Overlaps (p.extend step') := by
  have hpath : ∀ {s s' : Step}, (p.extend s).path <+: (p.extend s').path → s = s' := by
    intro s s' hpre
    have heq := List.prefix_append_right_inj p.path |>.mp hpre
    exact (List.cons_prefix_cons.mp heq).1
  rintro (hw | hw)
  · exact h (hpath hw.path_prefix).symm
  · exact h (hpath hw.path_prefix)

end Place

/-! ## Cells -/

namespace Store

variable (s : Store) (v : Value)

/-- New storage adds one cell. -/
@[simp] theorem size_alloc : (s.alloc v).2.cells.size = s.cells.size + 1 := by
  simp [alloc]

/-- A new value in a cell adds none. -/
@[simp] theorem size_setCell (n : Nat) : (s.setCell n v).cells.size = s.cells.size := by
  simp [setCell]

/-- A new cell holds what it is given. -/
theorem cell_alloc_self : (s.alloc v).2.cell s.cells.size = v := by
  simp [alloc, cell, Array.getD]

/-- A new cell leaves the others as they are. -/
theorem cell_alloc_of_lt {n : Nat} (h : n < s.cells.size) : (s.alloc v).2.cell n = s.cell n := by
  simp [alloc, cell, Array.getD, h, Nat.lt_succ_of_lt h, Array.getElem_push]

/-- A cell holds what is put into it. -/
theorem cell_setCell_self {n : Nat} (h : n < s.cells.size) : (s.setCell n v).cell n = v := by
  simp [setCell, cell, Array.getD, h]

/-- What is put into a cell leaves the others as they are. -/
theorem cell_setCell_of_ne {n k : Nat} (h : n ≠ k) : (s.setCell n v).cell k = s.cell k := by
  simp only [setCell, cell, Array.getD_eq_getD_getElem?, Array.getElem?_setIfInBounds_ne h]

/-- The cells that were there can be read as before. -/
theorem read_alloc_of_lt {q : Place} (h : q.cell < s.cells.size) :
    (s.alloc v).2.read q = s.read q := by
  rw [read, read, cell_alloc_of_lt s v h]

variable {s v}

/-- A write leaves the places as they are that do not overlap with the one written. -/
theorem read_of_updated {p q : Place} {held w : Value} (hheld : s.updated p v = .ok held)
    (hq : q.cell < s.cells.size) (h : ¬q.Overlaps p) (hread : s.read q = .ok w) :
    (s.setCell p.cell held).read q = .ok w := by
  by_cases hcell : p.cell = q.cell
  · rw [updated, hcell] at hheld
    rw [read, hcell, cell_setCell_self s held hq]
    refine Value.follow_of_modify hheld (fun hpre => h ?_) (fun hpre => h ?_) hread
    · exact .inl ⟨hcell.symm, hpre⟩
    · exact .inr ⟨hcell, hpre⟩
  · rw [read, cell_setCell_of_ne s held hcell]
    exact hread

/-- An element is one step on from its array. -/
theorem extend_of_element {p q : Place} {i : Int64} (h : s.element p i = .ok q) :
    ∃ step, q = p.extend step := by
  obtain ⟨v, -, h⟩ := Except.bind_eq_ok h
  cases v with
  | array elems =>
    dsimp only at h
    split at h
    · cases h
      exact ⟨_, rfl⟩
    · cases h
  | _ => cases h

/-- A field is one step on from its record. -/
theorem extend_of_member {p q : Place} {id : String} (h : s.member p id = .ok q) :
    ∃ step, q = p.extend step := by
  obtain ⟨v, -, h⟩ := Except.bind_eq_ok h
  cases v with
  | record name layout fields =>
    dsimp only at h
    split at h
    · cases h
      exact ⟨_, rfl⟩
    · cases h
  | _ => cases h

end Store

end SmallCpp
