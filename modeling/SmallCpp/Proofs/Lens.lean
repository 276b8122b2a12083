import SmallCpp.Proofs.Effect
import SmallCpp.Proofs.Lens.Value
import SmallCpp.Proofs.Operation
import SmallCpp.Proofs.Ownership
import SmallCpp.Proofs.Typing.Store

/-!
# Places are lenses and stay valid

A `Session` is an environment together with all places that were obtained from it so far. It goes on
by operations that are given well-formed values and places that were obtained before. Along a
session every cell keeps the type of its first value (`Store.Extends`), so that a place once
obtained leads to a value of the same type for good, whatever is written around it and whatever
scopes and frames are left. `Session.Lens` collects the laws of reading and writing at such a place.
-/

namespace SmallCpp

/-! ## Stores -/

namespace Store

/-- Every cell holds a well-formed value. -/
def Sound (s : Store) : Prop :=
  ∀ n < s.cells.size, (s.cell n).WellFormed

/-- The place is one of a cell that was made, and leads to a value. -/
def Holds (s : Store) (p : Place) : Prop :=
  p.cell < s.cells.size ∧ ∃ v, s.read p = .ok v

/-- Cells may have been made and changed, but each still holds a well-formed value of the type that
it had. -/
structure Extends (s s' : Store) : Prop where
  size_le : s.cells.size ≤ s'.cells.size
  sound : s'.Sound
  type_eq : ∀ n < s.cells.size, (s'.cell n).type = (s.cell n).type

variable {s s' s'' : Store} {p q : Place} {v w held : Value}

/-- A sound store extends itself. -/
theorem Extends.refl (h : s.Sound) : s.Extends s :=
  ⟨Nat.le_refl _, h, fun _ _ => rfl⟩

/-- What extends an extension extends the first store. -/
theorem Extends.trans (h : s.Extends s') (h' : s'.Extends s'') : s.Extends s'' :=
  ⟨Nat.le_trans h.size_le h'.size_le, h'.sound, fun n hn =>
    (h'.type_eq n (Nat.lt_of_lt_of_le hn h.size_le)).trans (h.type_eq n hn)⟩

/-- A place that leads to a value leads to one of the same type from then on. -/
theorem Extends.exists_read (h : s.Extends s') (hs : s.Sound) (hp : p.cell < s.cells.size)
    (hread : s.read p = .ok v) : ∃ v', s'.read p = .ok v' ∧ v'.type = v.type :=
  (hs p.cell hp).exists_follow (h.sound p.cell (Nat.lt_of_lt_of_le hp h.size_le))
    (h.type_eq p.cell hp).symm hread

/-- A place that leads to a value does so from then on. -/
theorem Extends.holds (h : s.Extends s') (hs : s.Sound) (hp : s.Holds p) : s'.Holds p := by
  obtain ⟨hcell, v, hv⟩ := hp
  obtain ⟨v', hv', -⟩ := h.exists_read hs hcell hv
  exact ⟨Nat.lt_of_lt_of_le hcell h.size_le, v', hv'⟩

/-- A new cell holds a well-formed value, and leaves the others as they are. -/
theorem extends_alloc (hs : s.Sound) (hv : v.WellFormed) : s.Extends (s.alloc v).2 := by
  refine ⟨by rw [size_alloc]; omega, fun n hn => ?_, fun n hn => by rw [cell_alloc_of_lt s v hn]⟩
  rw [size_alloc] at hn
  -- The cell is an old one or the new one.
  rcases Nat.lt_or_eq_of_le (Nat.le_of_lt_succ hn) with hlt | rfl
  · rw [cell_alloc_of_lt s v hlt]
    exact hs n hlt
  · rw [cell_alloc_self]
    exact hv

/-- A write keeps the type of the cell, since it converts to the type that is there. -/
theorem extends_setCell (hs : s.Sound) (hv : v.WellFormed) (hp : p.cell < s.cells.size)
    (hheld : s.updated p v = .ok held) : s.Extends (s.setCell p.cell held) := by
  obtain ⟨hformed, htype⟩ := (hs p.cell hp).modify
    (fun old new hold hnew => hv.convert hnew) hheld
  refine ⟨Nat.le_of_eq (size_setCell s held p.cell).symm, fun n hn => ?_, fun n hn => ?_⟩
  · rw [size_setCell] at hn
    -- The cell that was written holds the converted value, the others what they held.
    by_cases hcell : p.cell = n
    · rw [← hcell, cell_setCell_self s held hp]
      exact hformed
    · rw [cell_setCell_of_ne s held hcell]
      exact hs n hn
  · by_cases hcell : p.cell = n
    · rw [← hcell, cell_setCell_self s held hp, htype]
    · rw [cell_setCell_of_ne s held hcell]

/-- The cells are as before if one gets what it holds. -/
theorem setCell_cell (s : Store) (n : Nat) : s.setCell n (s.cell n) = s := by
  rcases s with ⟨cells⟩
  refine congrArg Store.mk (Array.ext (Array.size_setIfInBounds ..) fun i hi hi' => ?_)
  rw [Array.getElem_setIfInBounds hi']
  split_ifs with hn
  · subst hn
    exact (Array.getElem_eq_getD Value.void).symm
  · rfl

/-- A step from a place leads to the part one step in. -/
theorem read_extend {part : Value} {step : Step} (hread : s.read p = .ok v)
    (hpart : v.part? step = some part) : s.read (p.extend step) = .ok part := by
  have hfollow : v.follow [step] = .ok part := Value.follow_cons_eq_ok.mpr ⟨part, hpart, rfl⟩
  have happend := Value.follow_append hread [step]
  rw [read, Place.extend, happend, hfollow]

/-- An element that is inside its array can be read. -/
theorem Holds.element {i : Int64} (hp : s.Holds p) (h : s.element p i = .ok q) : s.Holds q := by
  obtain ⟨hcell, v, hv⟩ := hp
  rw [Store.element, hv] at h
  cases v with
  | array elems =>
    dsimp only [bind, Except.bind] at h
    -- Only an index inside the array has a slot.
    cases hslot : Value.slot? i elems.length with
    | none =>
      rw [hslot] at h
      cases h
    | some slot =>
      rw [hslot] at h
      cases h
      have hlt : slot < elems.length := Value.lt_of_slot? hslot
      have hget : elems[slot]? = some elems[slot] := List.getElem?_eq_getElem hlt
      exact ⟨hcell, _, read_extend hv hget⟩
  | _ => cases h

/-- A field can be read, since the record has a value for each. -/
theorem Sound.holds_member {id : String} (hs : s.Sound) (hp : s.Holds p)
    (h : s.member p id = .ok q) : s.Holds q := by
  obtain ⟨hcell, v, hv⟩ := hp
  have hformed : v.WellFormed := (hs p.cell hcell).follow hv
  rw [Store.member, hv] at h
  cases hformed with
  | @record name layout fields hlength hfields htypes =>
    dsimp only [bind, Except.bind] at h
    -- Only a field that the record has leads to a slot.
    cases hslot : Layout.indexOf? layout id with
    | none =>
      rw [hslot] at h
      cases h
    | some slot =>
      rw [hslot] at h
      cases h
      have hlt : slot < layout.length := (List.findIdx?_eq_some_iff_getElem.mp hslot).1
      have hget : fields[slot]? = some fields[slot] := List.getElem?_eq_getElem (by omega)
      exact ⟨hcell, _, read_extend hv hget⟩
  | _ => cases h

end Store

/-! ## Environments -/

namespace Environment

/-- The names of all scopes with what they stand for. -/
def entries (env : Environment) : List (String × Binding) :=
  env.scopes.flatten

/-- Every cell holds a well-formed value, and every name stands for a place that leads to one. -/
structure Sound (env : Environment) : Prop where
  store : env.store.Sound
  entries : ∀ entry ∈ env.entries, env.store.Holds entry.2.place

variable {env : Environment}

/-- The empty environment is sound. -/
theorem sound_empty : Environment.empty.Sound :=
  ⟨fun n hn => absurd hn (Nat.not_lt_zero n), nofun⟩

/-- Binding a name adds one entry, to whichever scope is innermost. -/
theorem mem_entries_bind {name : String} {b : Binding} {entry : String × Binding}
    (h : entry ∈ (env.bind name b).entries) : entry = (name, b) ∨ entry ∈ env.entries := by
  -- The innermost scope is that of the globals, a frame's first, or its latest.
  rcases env with ⟨store, globals, _ | ⟨⟨function, _ | ⟨scope, outer⟩⟩, callers⟩⟩
  all_goals
    simp only [entries, scopes, bind, List.flatMap_nil, List.flatMap_cons, List.nil_append,
      List.cons_append, List.flatten_append, List.flatten_cons, List.mem_append,
      List.mem_cons] at h ⊢
    tauto

/-- A new scope has no names. -/
theorem entries_enter (env : Environment) : env.enter.entries = env.entries := by
  rcases env with ⟨store, globals, _ | ⟨frame, callers⟩⟩ <;> rfl

/-- Leaving a scope only drops names; the last scope of a frame stays. -/
theorem mem_entries_leave {entry : String × Binding} (h : entry ∈ env.leave.entries) :
    entry ∈ env.entries := by
  rcases env with ⟨store, globals, _ | ⟨⟨function, _ | ⟨scope, _ | ⟨outer, scopes⟩⟩⟩, callers⟩⟩
  · exact h
  · exact h
  · exact h
  · exact List.mem_append_right scope h

/-- Leaving a call only drops names. -/
theorem mem_entries_popFrame {entry : String × Binding} (h : entry ∈ env.popFrame.entries) :
    entry ∈ env.entries := by
  rcases env with ⟨store, globals, _ | ⟨frame, callers⟩⟩
  · exact h
  · simp_all [entries, scopes, popFrame]

/-- What a name leads to is the place of an entry. -/
theorem exists_entry_of_lookup {name : String} {p : Place} (h : env.lookup name = .ok p) :
    ∃ entry ∈ env.entries, entry.2.place = p := by
  obtain ⟨scope, hscope, b, hb, rfl⟩ := exists_of_lookup_eq_ok h
  refine ⟨(name, b), List.mem_flatten.mpr ⟨scope, ?_, hb⟩, rfl⟩
  rcases env with ⟨store, globals, _ | ⟨frame, callers⟩⟩
  · exact hscope
  · rcases List.mem_append.mp hscope with hscope | hscope
    · exact List.mem_append_left _ (List.mem_append_left _ hscope)
    · exact List.mem_append_right _ hscope

/-- The names may be others, as long as the storage only grows and they stand for places in it. -/
theorem Sound.of_extends {env' : Environment} (h : env.Sound)
    (hstore : env.store.Extends env'.store)
    (hentries : ∀ entry ∈ env'.entries, entry ∈ env.entries ∨ env'.store.Holds entry.2.place) :
    env'.Sound := by
  refine ⟨hstore.sound, fun entry hentry => ?_⟩
  rcases hentries entry hentry with hold | hnew
  · exact hstore.holds h.store (h.entries entry hold)
  · exact hnew

/-- A write to a place that leads to a value. -/
theorem Sound.setCell {p : Place} {v held : Value} (h : env.Sound) (hp : env.store.Holds p)
    (hv : v.WellFormed) (hheld : env.store.updated p v = .ok held) :
    (env.setCell p.cell held).Sound ∧ env.store.Extends (env.setCell p.cell held).store := by
  have hextends := Store.extends_setCell h.store hv hp.1 hheld
  exact ⟨h.of_extends hextends fun _ hentry => .inl hentry, hextends⟩

end Environment

/-! ## Sessions -/

namespace Operation

/-- The place that the operation is given. -/
def place? : Operation → Option Place
  | declareAlias _ p | element p _ | member p _ | read p | write p _ => some p
  | _ => none

/-- The value that the operation is given. -/
def value? : Operation → Option Value
  | declare _ v | assign _ v | write _ v => some v
  | _ => none

/-- The place that the operation obtains. -/
def obtained? : Operation → Environment → Option Place
  | lookup name, env => (env.lookup name).toOption
  | element p index, env => (env.store.element p index).toOption
  | member p id, env => (env.store.member p id).toOption
  | _, _ => none

end Operation

namespace Environment

variable {env : Environment} {op : Operation}

/-- An operation that is given places that lead to values, and well-formed values, keeps the
environment sound and the types of its cells. -/
theorem Sound.after (h : env.Sound) (hplace : ∀ p ∈ op.place?, env.store.Holds p)
    (hvalue : ∀ v ∈ op.value?, v.WellFormed) :
    (env.after op).Sound ∧ env.store.Extends (env.after op).store := by
  have hsame : env.store.Extends env.store := .refl h.store
  -- An operation that fails leaves the environment as it is.
  rcases env.after_cases op with heq | hchanges
  · rw [heq]
    exact ⟨h, hsame⟩
  · generalize env.after op = env' at hchanges
    cases op with
    -- The new name stands for the new cell, the others for what they stood for.
    | declare name v =>
      obtain ⟨-, rfl⟩ := hchanges
      have hv : v.WellFormed := hvalue v rfl
      have hextends : env.store.Extends (env.bindNew name v).store := by
        rw [bindNew, store_bind]
        exact Store.extends_alloc h.store hv
      refine ⟨h.of_extends hextends fun entry hentry => ?_, hextends⟩
      rcases mem_entries_bind hentry with rfl | hold
      · right
        rw [bindNew, store_bind]
        refine ⟨?_, v, congrArg (Value.follow []) (Store.cell_alloc_self env.store v)⟩
        rw [Store.size_alloc]
        exact Nat.lt_succ_self _
      · exact .inl hold
    -- The new name stands for the place that was given, which leads to a value.
    | declareAlias name p =>
      obtain ⟨-, rfl⟩ := hchanges
      have hstore : (env.bind name ⟨p, .alias⟩).store = env.store := store_bind ..
      have hextends : env.store.Extends (env.bind name ⟨p, .alias⟩).store := hstore ▸ hsame
      refine ⟨h.of_extends hextends fun entry hentry => ?_, hextends⟩
      rcases mem_entries_bind hentry with rfl | hold
      · right
        rw [hstore]
        exact hplace p rfl
      · exact .inl hold
    -- The name is one of an entry, so its place leads to a value.
    | assign name v =>
      obtain ⟨p, held, hp, hheld, rfl⟩ := hchanges
      obtain ⟨entry, hentry, rfl⟩ := exists_entry_of_lookup hp
      exact h.setCell (h.entries entry hentry) (hvalue v rfl) hheld
    | write p v =>
      obtain ⟨held, hheld, rfl⟩ := hchanges
      exact h.setCell (hplace p rfl) (hvalue v rfl) hheld
    -- Asking changes nothing.
    | lookup _ | element _ _ | member _ _ | read _ =>
      obtain rfl : env' = env := hchanges
      exact ⟨h, hsame⟩
    -- Scopes and frames come and go without any change to the cells.
    | enter =>
      obtain rfl : env' = env.enter := hchanges
      have hstore : env.enter.store = env.store := by
        rcases env with ⟨store, globals, _ | ⟨frame, callers⟩⟩ <;> rfl
      have hextends : env.store.Extends env.enter.store := hstore ▸ hsame
      exact ⟨h.of_extends hextends fun entry hentry => .inl (env.entries_enter ▸ hentry), hextends⟩
    | leave =>
      obtain rfl : env' = env.leave := hchanges
      have hstore : env.leave.store = env.store := by
        unfold Environment.leave
        split <;> rfl
      have hextends : env.store.Extends env.leave.store := hstore ▸ hsame
      exact ⟨h.of_extends hextends fun entry hentry => .inl (mem_entries_leave hentry), hextends⟩
    | pushFrame function =>
      obtain rfl : env' = env.pushFrame function := hchanges
      exact ⟨h.of_extends hsame fun entry hentry => .inl hentry, hsame⟩
    | popFrame =>
      obtain rfl : env' = env.popFrame := hchanges
      exact ⟨h.of_extends hsame fun entry hentry => .inl (mem_entries_popFrame hentry), hsame⟩

/-- A place that is obtained leads to a value. -/
theorem Sound.holds_obtained (h : env.Sound) (hplace : ∀ p ∈ op.place?, env.store.Holds p)
    {q : Place} (hq : q ∈ op.obtained? env) : env.store.Holds q := by
  have hok : ∀ {r : Except RuntimeError Place}, q ∈ r.toOption → r = .ok q := by
    rintro (_ | _) ⟨⟩
    rfl
  cases op with
  | lookup name =>
    obtain ⟨entry, hentry, rfl⟩ := exists_entry_of_lookup (hok hq)
    exact h.entries entry hentry
  | element p index => exact (hplace p rfl).element (hok hq)
  | member p id => exact h.store.holds_member (hplace p rfl) (hok hq)
  | _ => cases hq

end Environment

/-- An environment, and the places that were obtained from it so far. -/
structure Session where
  /-- The environment as it is now. -/
  env : Environment
  /-- The places, in the order in which they were obtained. -/
  places : List Place

namespace Session

/-- A new environment. -/
def start : Session :=
  ⟨Environment.empty, []⟩

/-- The session after an operation. -/
def after (s : Session) (op : Operation) : Session :=
  ⟨s.env.after op, s.places ++ (op.obtained? s.env).toList⟩

/-- The operation is given a place that was obtained before, if any, and a well-formed value, if
any. -/
structure Admits (s : Session) (op : Operation) : Prop where
  place : ∀ p ∈ op.place?, p ∈ s.places
  value : ∀ v ∈ op.value?, v.WellFormed

/-- The session goes on by operations, successful or not. -/
inductive Reaches : Session → Session → Prop
  | refl (s : Session) : Reaches s s
  | step {s t : Session} {op : Operation} (h : Reaches s t) (hop : t.Admits op) :
    Reaches s (t.after op)

/-- The environment is sound, and every place leads to a value. -/
structure Sound (s : Session) : Prop where
  env : s.env.Sound
  places : ∀ p ∈ s.places, s.env.store.Holds p

variable {s t : Session} {op : Operation}

/-- A new session is sound. -/
theorem sound_start : start.Sound :=
  ⟨Environment.sound_empty, nofun⟩

/-- An operation that is admitted keeps the session sound and the types of its cells. -/
theorem Sound.after (h : s.Sound) (hop : s.Admits op) :
    (s.after op).Sound ∧ s.env.store.Extends (s.after op).env.store := by
  have hplace : ∀ p ∈ op.place?, s.env.store.Holds p := fun p hp => h.places p (hop.place p hp)
  obtain ⟨hsound, hextends⟩ := h.env.after hplace hop.value
  refine ⟨⟨hsound, fun p hp => ?_⟩, hextends⟩
  -- The place was obtained earlier, or by this operation.
  rcases List.mem_append.mp hp with hp | hp
  · exact hextends.holds h.env.store (h.places p hp)
  · exact hextends.holds h.env.store (h.env.holds_obtained hplace (Option.mem_toList.mp hp))

/-- All along a session the types of the cells are kept, and so are the places obtained. -/
theorem Sound.of_reaches (hs : s.Sound) (h : s.Reaches t) :
    t.Sound ∧ s.env.store.Extends t.env.store ∧ ∀ p ∈ s.places, p ∈ t.places := by
  induction h with
  | refl => exact ⟨hs, .refl hs.env.store, fun _ hp => hp⟩
  | step _ hop ih =>
    obtain ⟨ht, hextends, hplaces⟩ := ih
    obtain ⟨hsound, hstep⟩ := ht.after hop
    exact ⟨hsound, hextends.trans hstep, fun p hp => List.mem_append_left _ (hplaces p hp)⟩

/-- The laws of reading and writing at a place of the given type. -/
structure Lens (s : Session) (p : Place) (T : ValueType) : Prop where
  /-- The place can be read, and yields a value of the type. -/
  read : ∃ v, s.env.store.read p = .ok v ∧ v.type = T
  /-- What is written is found there, converted to the type. -/
  read_write : ∀ v env', s.env.write p v = .ok env' →
    ∃ w, v.convert T = .ok w ∧ env'.store.read p = .ok w
  /-- A write fails only if the value cannot be converted to the type. -/
  write_error : ∀ v e, s.env.write p v = .error e → v.convert T = .error e
  /-- A write leaves alone every place that neither lies in this one nor holds it. -/
  apart : ∀ v env', s.env.write p v = .ok env' → ∀ q ∈ s.places, ¬q.Overlaps p →
    env'.store.read q = s.env.store.read q
  /-- To write back what is there changes nothing. -/
  write_read : ∀ v, s.env.store.read p = .ok v → s.env.write p v = .ok s.env

/-- A place that leads to a value obeys the laws of reading and writing at the value's type. -/
theorem Sound.lens (h : s.Sound) {p : Place} (hp : p ∈ s.places) {v : Value}
    (hread : s.env.store.read p = .ok v) : s.Lens p v.type := by
  obtain ⟨hcell, -⟩ := h.places p hp
  have hformed : v.WellFormed := (h.env.store p.cell hcell).follow hread
  refine ⟨⟨v, hread, rfl⟩, fun new env' hwrite => ?_, fun new e hwrite => ?_,
    fun new env' hwrite q hq hapart => ?_, fun w hw => ?_⟩
  · -- What is read after a write is the value, converted.
    obtain ⟨held, hheld, rfl⟩ := Except.map_eq_ok hwrite
    cases hconvert : new.convert v.type with
    | error e =>
      rw [Store.updated, Value.modify_of_error hread hconvert] at hheld
      cases hheld
    | ok w =>
      obtain ⟨held', hheld', hfound⟩ :=
        Value.exists_modify (f := fun old => new.convert old.type) hread hconvert
      obtain rfl : held' = held := Except.ok.inj (hheld'.symm.trans hheld)
      refine ⟨w, rfl, ?_⟩
      rw [Environment.setCell, Store.read, Store.cell_setCell_self _ _ hcell]
      exact hfound
  · -- The path leads to a value, so only the conversion can fail.
    cases hconvert : new.convert v.type with
    | error e' =>
      have hfails : s.env.store.updated p new = .error e' := Value.modify_of_error hread hconvert
      rw [Environment.write, hfails] at hwrite
      cases hwrite
      rfl
    | ok w =>
      obtain ⟨held, hheld, -⟩ :=
        Value.exists_modify (f := fun old => new.convert old.type) hread hconvert
      rw [Environment.write, Store.updated, hheld] at hwrite
      cases hwrite
  · -- A place that does not overlap lies in another cell or in another part of the cell.
    obtain ⟨held, hheld, rfl⟩ := Except.map_eq_ok hwrite
    obtain ⟨hqcell, w, hw⟩ := h.places q hq
    rw [hw]
    exact Store.read_of_updated hheld hqcell hapart hw
  · -- The value that is there is of the place's type, so its conversion is itself.
    obtain rfl : v = w := Except.ok.inj (hread.symm.trans hw)
    have hheld : s.env.store.updated p v = .ok (s.env.store.cell p.cell) :=
      Value.modify_self hread hformed.convert_type
    rw [Environment.write, hheld]
    exact congrArg Except.ok (congrArg (fun store => { s.env with store })
      (Store.setCell_cell s.env.store p.cell))

/-- An operation that fails leaves the session as it was. -/
theorem after_of_error {e : RuntimeError} (h : op.apply s.env = .error e) : s.after op = s := by
  have hnone : ∀ {r : Except RuntimeError Place},
      r.map (fun _ => s.env) = .error e → r.toOption = none := by
    rintro (_ | _) ⟨⟩
    rfl
  have hobtained : op.obtained? s.env = none := by
    cases op with
    | lookup _ | element _ _ | member _ _ => exact hnone h
    | _ => rfl
  rw [after, hobtained, Environment.after, h]
  exact congrArg (Session.mk s.env) (List.append_nil s.places)

/-- Every place that was obtained in a session is a lens of one type, when it was obtained and ever
after. What fails changes nothing: neither an operation on the environment, nor an effect of a
program on the machine that runs it. -/
theorem places_keep_laws (hs : start.Reaches s) (ht : s.Reaches t) :
    (∀ p ∈ s.places, ∃ T, s.Lens p T ∧ t.Lens p T) ∧
      (∀ (op : Operation) (e : RuntimeError), op.apply t.env = .error e → t.after op = t) ∧
      ∀ (σ : Type) (ctx : Context σ) (m m' : Machine σ) (f : Effect) (stop : Stop),
        m.env = t.env → f.run ctx m = .error stop m' → m'.env = t.env := by
  obtain ⟨hsound, -, -⟩ := sound_start.of_reaches hs
  obtain ⟨hsound', hextends, hplaces⟩ := hsound.of_reaches ht
  refine ⟨fun p hp => ?_, fun op e h => after_of_error h, fun σ ctx m m' f stop henv hrun => ?_⟩
  · obtain ⟨hcell, v, hv⟩ := hsound.places p hp
    obtain ⟨v', hv', htype⟩ := hextends.exists_read hsound.env.store hcell hv
    exact ⟨v.type, hsound.lens hp hv, htype ▸ hsound'.lens (hplaces p hp) hv'⟩
  · exact (Effect.refuses_of_run hrun).1.trans henv

/-- A two-dimensional array of one row. -/
def grid (n m : Int64) : Value :=
  .array [.array [.int n, .int m]]

/-- The grid is well formed: its only row holds two numbers. -/
theorem wellFormed_grid (n m : Int64) : (grid n m).WellFormed := by
  have hrow : ∀ v ∈ [Value.int n, Value.int m], v.WellFormed ∧ v.type = .int := by
    intro v hv
    rcases List.mem_cons.mp hv with rfl | hv
    · exact ⟨.int n, rfl⟩
    · obtain rfl := List.mem_singleton.mp hv
      exact ⟨.int m, rfl⟩
  refine .array (fun v hv => ?_) (fun v hv w hw => ?_)
  · obtain rfl := List.mem_singleton.mp hv
    exact .array (fun v hv => (hrow v hv).1) fun v hv w hw => (hrow v hv).2.trans (hrow w hw).2.symm
  · obtain rfl := List.mem_singleton.mp hv
    obtain rfl := List.mem_singleton.mp hw
    rfl

/-- A call declares `a` as an array of two dimensions, and finds the place of `a[0][1]`. -/
def gridDeclared : Session :=
  ((((start.after (.pushFrame "f")).after (.declare "a" (grid 1 2))).after (.lookup "a")).after
    (.element ⟨0, []⟩ 0)).after (.element ⟨0, [.elem 0]⟩ 1)

/-- The call is left, all of `a` is overwritten, and then a letter is written to `a[0][1]`. -/
def gridOverwritten : Session :=
  ((gridDeclared.after .popFrame).after (.write ⟨0, []⟩ (grid 3 4))).after
    (.write ⟨0, [.elem 0, .elem 1]⟩ (.char 104))

/-- Each operation is given what was obtained before it. -/
theorem reaches_gridDeclared : start.Reaches gridDeclared := by
  refine .step (.step (.step (.step (.step (.refl start) ?_) ?_) ?_) ?_) ?_
  · exact ⟨nofun, nofun⟩
  · exact ⟨nofun, fun v hv => Option.some.inj hv ▸ wellFormed_grid 1 2⟩
  · exact ⟨nofun, nofun⟩
  · exact ⟨fun p hp => Option.some.inj hp ▸ by decide, nofun⟩
  · exact ⟨fun p hp => Option.some.inj hp ▸ by decide, nofun⟩

/-- The place that was obtained inside the call is used after it. -/
theorem reaches_gridOverwritten : gridDeclared.Reaches gridOverwritten := by
  refine .step (.step (.step (.refl gridDeclared) ?_) ?_) ?_
  · exact ⟨nofun, nofun⟩
  · exact ⟨fun p hp => Option.some.inj hp ▸ by decide,
      fun v hv => Option.some.inj hv ▸ wellFormed_grid 3 4⟩
  · exact ⟨fun p hp => Option.some.inj hp ▸ by decide, fun v hv => Option.some.inj hv ▸ .char 104⟩

/-- The place of `a[0][1]` outlives its call and both writes, and still holds a number. -/
theorem places_keep_laws_grid :
    (start.Reaches gridDeclared ∧ gridDeclared.Reaches gridOverwritten) ∧
      ⟨0, [.elem 0, .elem 1]⟩ ∈ gridDeclared.places ∧
      gridDeclared.env.store.read ⟨0, [.elem 0, .elem 1]⟩ = .ok (.int 2) ∧
      gridOverwritten.env.store.read ⟨0, [.elem 0, .elem 1]⟩ = .ok (.int 104) ∧
      ∃ T, gridDeclared.Lens ⟨0, [.elem 0, .elem 1]⟩ T ∧
        gridOverwritten.Lens ⟨0, [.elem 0, .elem 1]⟩ T :=
  ⟨⟨reaches_gridDeclared, reaches_gridOverwritten⟩, by decide, rfl, rfl,
    (places_keep_laws reaches_gridDeclared reaches_gridOverwritten).1 _ (by decide)⟩

end Session

end SmallCpp
