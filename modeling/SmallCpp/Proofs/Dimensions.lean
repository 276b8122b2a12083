import SmallCpp.Proofs.Assignment
import SmallCpp.Proofs.Initialization.Slots

/-!
# Arrays of several dimensions

The bounds of a declaration `T x[n₁]..[nₖ];` are read off the declarator, folded into a written
type, resolved to a type, and come back as the lengths of nested zero values; the subscripts of
`x[i₁]..[iₘ]` are followed from place to place. `ValueType.arrays` and `Step.chain` say what the two
have in common: the first bound and the first subscript are the outermost
(`ValueType.at?_chain`). From there on an array of any number of dimensions behaves like a table
that is indexed by whole vectors: `Contents` says what each vector holds after a log of assignments,
and every assignment keeps it up (`Contents.assign`).
-/

namespace SmallCpp

variable {σ : Type}

/-! ## Types of several dimensions -/

/-- The type of scalars that is written so. -/
inductive Scalar : WrittenType → ValueType → Prop
  | int : Scalar .int .int
  | bool : Scalar .bool .bool
  | char : Scalar .char .char

/-- The bounds are constant and positive, and these are their values. -/
def Bounded (bounds : List Expr) (lengths : List Nat) : Prop :=
  List.Forall₂ (fun (bound : Expr) (n : Nat) => 0 < n ∧ ∃ c, bound.constant = .ok c ∧ c.toInt = n)
    bounds lengths

/-- The type with one array layer for each length, the first outermost. -/
def ValueType.arrays (T : ValueType) (lengths : List Nat) : ValueType :=
  lengths.foldr (fun n elem => .array elem n) T

/-- The index lies inside an array of the length. -/
def Inside (i : Int64) (n : Nat) : Prop :=
  0 ≤ i.toInt ∧ i.toInt < n

/-- Every index lies inside the dimension at its place. -/
def AllInside (indices : List Int64) (lengths : List Nat) : Prop :=
  ∀ (j : Nat) i n, indices[j]? = some i → lengths[j]? = some n → Inside i n

/-- The way to the element at a list of indices. -/
def Step.chain (indices : List Int64) : List Step :=
  indices.map fun i => .elem i.toInt.toNat

variable {W : WrittenType} {T : ValueType} {lengths : List Nat} {indices : List Int64}

/-- Scalars can be stored. -/
theorem Scalar.storable (h : Scalar W T) : T.Storable := by
  cases h
  · exact .int
  · exact .bool
  · exact .char

/-- No scalar is `void`. -/
theorem Scalar.ne_void (h : Scalar W T) : T ≠ .void := by
  rintro rfl
  cases h

/-- Without indices there is none outside. -/
theorem AllInside.nil (lengths : List Nat) : AllInside [] lengths := nofun

/-- One more index, inside one more dimension in front. -/
theorem AllInside.cons {i : Int64} {n : Nat} (hi : Inside i n) (h : AllInside indices lengths) :
    AllInside (i :: indices) (n :: lengths) := by
  intro j k l hk hl
  cases j with
  | zero => exact Option.some.inj hk ▸ Option.some.inj hl ▸ hi
  | succ j => exact h j k l hk hl

/-- The first index lies inside the first dimension. -/
theorem AllInside.head {i : Int64} {n : Nat} (h : AllInside (i :: indices) (n :: lengths)) :
    Inside i n :=
  h 0 i n rfl rfl

/-- The other indices lie inside the other dimensions. -/
theorem AllInside.tail {i : Int64} {n : Nat} (h : AllInside (i :: indices) (n :: lengths)) :
    AllInside indices lengths :=
  fun j k l hk hl => h (j + 1) k l hk hl

/-- If not all indices lie inside, there is a first one that does not. -/
theorem AllInside.exists_first (h : ¬AllInside indices lengths) :
    ∃ (j : Nat) (i : Int64) (n : Nat), indices[j]? = some i ∧ lengths[j]? = some n ∧ ¬Inside i n ∧
      AllInside (indices.take j) lengths := by
  induction indices generalizing lengths with
  | nil => exact absurd (.nil lengths) h
  | cons i indices ih =>
    cases lengths with
    | nil => exact absurd nofun h
    | cons n lengths =>
      by_cases hi : Inside i n
      · obtain ⟨j, k, l, hk, hl, hout, hbefore⟩ := ih fun hrest => h (.cons hi hrest)
        exact ⟨j + 1, k, l, hk, hl, hout, .cons hi hbefore⟩
      · exact ⟨0, i, n, rfl, rfl, hi, .nil _⟩

namespace ValueType

/-- An array is not `void`, so only the type of the elements could be. -/
theorem arrays_ne_void (hT : T ≠ .void) : T.arrays lengths ≠ .void := by
  cases lengths with
  | nil => exact hT
  | cons n lengths => nofun

/-- Arrays of positive lengths can be stored if their elements can. -/
theorem Storable.arrays (hT : T.Storable) (hlengths : ∀ n ∈ lengths, 0 < n) :
    (T.arrays lengths).Storable := by
  induction lengths with
  | nil => exact hT
  | cons n lengths ih =>
    obtain ⟨hn, hrest⟩ := List.forall_mem_cons.mp hlengths
    exact .array hn (ih hrest)

/-- Each index takes one layer off the type, the outermost first. -/
theorem at?_chain (hlength : indices.length ≤ lengths.length) (h : AllInside indices lengths) :
    (T.arrays lengths).at? (Step.chain indices) =
      some (T.arrays (lengths.drop indices.length)) := by
  induction indices generalizing lengths with
  | nil => rfl
  | cons i indices ih =>
    cases lengths with
    | nil => exact absurd hlength (Nat.not_succ_le_zero _)
    | cons n lengths =>
      have hi : i.toInt.toNat < n := by
        obtain ⟨hpos, hlt⟩ := h.head
        omega
      exact (if_pos hi).trans (ih (Nat.le_of_succ_le_succ hlength) h.tail)

end ValueType

/-- The lengths that bounds give are positive. -/
theorem Bounded.pos {bounds : List Expr} (h : Bounded bounds lengths) : ∀ n ∈ lengths, 0 < n := by
  induction h with
  | nil => nofun
  | cons hbound _ ih => exact List.forall_mem_cons.mpr ⟨hbound.1, ih⟩

/-- A constant positive bound is the length of an array. -/
theorem Expr.arrayLength_of_constant {bound : Expr} {c : Int64} {n : Nat}
    (hc : bound.constant = .ok c) (hn : 0 < n) (heq : c.toInt = n) : bound.arrayLength = .ok n := by
  rw [arrayLength, hc]
  change (if 0 < c.toInt then _ else _) = _
  rw [if_pos (by omega), heq, Int.toNat_natCast]
  rfl

/-- A written type with bounds stands for the type with their values as lengths, in the same
order. -/
theorem TypeTable.resolve_withBounds (hT : Scalar W T) {bounds : List Expr}
    (h : Bounded bounds lengths) (t : TypeTable) (count : Option Nat) :
    t.resolve count (W.withBounds (bounds.map some)) = .ok (T.arrays lengths) := by
  induction h generalizing count with
  | nil => cases hT <;> rfl
  | @cons bound n bounds lengths hbound _ ih =>
    obtain ⟨hn, c, hc, heq⟩ := hbound
    change t.resolve count (.array (W.withBounds (bounds.map some)) (some bound)) = _
    rw [resolve, outerLength, Expr.arrayLength_of_constant hc hn heq, ih none]
    exact if_neg (ValueType.arrays_ne_void hT.ne_void)

/-- Indices that lie inside are told apart by the way they lead. -/
theorem Step.chain_inj {indices' : List Int64} (h : ∀ i ∈ indices, 0 ≤ i.toInt)
    (h' : ∀ i ∈ indices', 0 ≤ i.toInt) (heq : chain indices = chain indices') :
    indices = indices' := by
  induction indices generalizing indices' with
  | nil =>
    cases indices' with
    | nil => rfl
    | cons i' indices' => cases heq
  | cons i indices ih =>
    cases indices' with
    | nil => cases heq
    | cons i' indices' =>
      obtain ⟨hi, hrest⟩ := List.forall_mem_cons.mp h
      obtain ⟨hi', hrest'⟩ := List.forall_mem_cons.mp h'
      obtain ⟨hhead, htail⟩ := List.cons.inj heq
      have hslots : i.toInt.toNat = i'.toInt.toNat := Step.elem.inj hhead
      rw [Int64.toInt_inj.mp (by omega : i.toInt = i'.toInt), ih hrest hrest' htail]

/-! ## Places of elements -/

/-- The element of an expression at a list of subscripts, each with its place in the source. -/
def Expr.indexed (base : Expr) (subscripts : List (Expr × Span)) : Expr :=
  subscripts.foldl (fun base s => .index base s.1 s.2) base

/-- The subscripts yield the indices and change nothing. -/
def Subscripts (ctx : Context σ) (fuel : Nat) (m : Machine σ) (subscripts : List (Expr × Span))
    (indices : List Int64) : Prop :=
  List.Forall₂ (fun (s : Expr × Span) i =>
    ∃ v, Exec.eval ctx fuel s.1 m = .ok v m ∧ v.asInt = .ok i) subscripts indices

/-- An indexed place is a place. -/
theorem Expr.isPlace_indexed (base : Expr) (h : base.isPlace = true)
    (subscripts : List (Expr × Span)) : (base.indexed subscripts).isPlace = true := by
  induction subscripts generalizing base with
  | nil => exact h
  | cons s subscripts ih => exact ih (.index base s.1 s.2) h

namespace Store

variable {s : Store} {p : Place} {u : Value} {elem : ValueType} {n : Nat} {i : Int64}

/-- An index that lies inside leads to an element. -/
theorem element_of_inside (hread : s.read p = .ok u) (hu : u.HasType (.array elem n))
    (hi : Inside i n) : ∃ part, s.element p i = .ok (p.extend (.elem i.toInt.toNat)) ∧
      s.read (p.extend (.elem i.toInt.toNat)) = .ok part ∧ part.HasType elem := by
  cases hu with
  | @array elems _ _ hlength hpos helems =>
    obtain ⟨hnonneg, hlt⟩ := hi
    have hslot : Value.slot? i elems.length = some i.toInt.toNat := if_pos ⟨hnonneg, by omega⟩
    have hget : elems[i.toInt.toNat]? = some elems[i.toInt.toNat] :=
      List.getElem?_eq_getElem (by omega)
    refine ⟨_, ?_, read_extend hread hget, helems _ (List.mem_of_getElem? hget)⟩
    rw [element, hread]
    dsimp only [bind, Except.bind]
    rw [hslot]
    rfl

/-- An index that lies outside is reported with the length of the array. -/
theorem element_of_outside (hread : s.read p = .ok u) (hu : u.HasType (.array elem n))
    (hi : ¬Inside i n) : s.element p i = .error (.indexOutOfRange i n) := by
  cases hu with
  | @array elems _ _ hlength hpos helems =>
    have hslot : Value.slot? i elems.length = none := if_neg (hlength.symm ▸ hi)
    rw [element, hread]
    dsimp only [bind, Except.bind]
    rw [hslot, hlength]

end Store

namespace Exec

variable {ctx : Context σ} {m : Machine σ} {base : Expr} {p : Place} {u : Value} {fuel : Nat}
  {subscripts : List (Expr × Span)}

/-- One subscript more asks for an element of the place of the base. -/
theorem place_index {s : Expr × Span} {v : Value} {i : Int64} {k : Nat}
    (hbase : place ctx k base m = .ok p m) (hs : eval ctx k s.1 m = .ok v m)
    (hi : v.asInt = .ok i) :
    place ctx (k + 1) (.index base s.1 s.2) m = ask (·.store.element p i) m := by
  rw [place, EStateM.bind_of_ok hbase, EStateM.bind_of_ok hs, hi]
  rfl

/-- One subscript more, with any larger number of steps. -/
theorem place_index_of_le {s : Expr × Span} {v : Value} {i : Int64} {k : Nat} (hfuel : fuel ≤ k)
    (hbase : ∀ k', k ≤ k' → place ctx k' base m = .ok p m) (hs : eval ctx fuel s.1 m = .ok v m)
    (hi : v.asInt = .ok i) (k' : Nat) (hk : k + 1 ≤ k') :
    place ctx k' (.index base s.1 s.2) m = ask (·.store.element p i) m := by
  obtain ⟨l, rfl⟩ : ∃ l, k' = l + 1 := ⟨k' - 1, by omega⟩
  exact place_index (hbase l (by omega)) (eval_ok_of_le hs (by omega)) hi

/-- Indices that lie inside lead to the place at the end of their chain. -/
theorem place_of_allInside {k : Nat} (hfuel : fuel ≤ k)
    (hbase : ∀ k', k ≤ k' → place ctx k' base m = .ok p m) (hread : m.env.store.read p = .ok u)
    (hu : u.HasType (T.arrays lengths)) (hsubs : Subscripts ctx fuel m subscripts indices)
    (hlength : indices.length ≤ lengths.length) (h : AllInside indices lengths) (k' : Nat)
    (hk : k + subscripts.length ≤ k') :
    place ctx k' (base.indexed subscripts) m = .ok ⟨p.cell, p.path ++ Step.chain indices⟩ m := by
  -- On the subscripts; the base grows by one of them in each step.
  induction hsubs generalizing base p u lengths k with
  | nil =>
    rw [Step.chain, List.map_nil, List.append_nil]
    exact hbase k' hk
  | @cons s i subscripts indices hs _ ih =>
    cases lengths with
    | nil => exact absurd hlength (Nat.not_succ_le_zero _)
    | cons n lengths =>
      obtain ⟨v, hv, hi⟩ := hs
      obtain ⟨part, helem, hpart, htype⟩ := Store.element_of_inside hread hu h.head
      have hnext : ∀ k', k + 1 ≤ k' → place ctx k' (.index base s.1 s.2) m =
          .ok (p.extend (.elem i.toInt.toNat)) m := by
        intro k' hk'
        rw [place_index_of_le hfuel hbase hv hi k' hk', ask, helem]
        rfl
      have hrest := ih (by omega) hnext hpart htype (Nat.le_of_succ_le_succ hlength) h.tail
        (by rw [List.length_cons] at hk; omega)
      rw [Place.extend, List.append_assoc, List.singleton_append] at hrest
      exact hrest

/-- A base that fails fails under all subscripts. -/
theorem place_of_error (base : Expr) (k : Nat) {stop : Stop}
    (hbase : ∀ k', k ≤ k' → place ctx k' base m = .error stop m) (k' : Nat)
    (hk : k + subscripts.length ≤ k') :
    place ctx k' (base.indexed subscripts) m = .error stop m := by
  induction subscripts generalizing base k with
  | nil => exact hbase k' hk
  | cons s subscripts ih =>
    refine ih (.index base s.1 s.2) (k + 1) (fun l hl => ?_)
      (by rw [List.length_cons] at hk; omega)
    obtain ⟨l, rfl⟩ : ∃ j, l = j + 1 := ⟨l - 1, by omega⟩
    rw [place, EStateM.bind_of_error (hbase l (by omega))]

/-- The first index that lies outside is reported, with the length of its dimension. -/
theorem place_of_outside {k : Nat} (hfuel : fuel ≤ k)
    (hbase : ∀ k', k ≤ k' → place ctx k' base m = .ok p m) (hread : m.env.store.read p = .ok u)
    (hu : u.HasType (T.arrays lengths)) (hsubs : Subscripts ctx fuel m subscripts indices) {j : Nat}
    {i : Int64} {n : Nat} (hi : indices[j]? = some i) (hn : lengths[j]? = some n)
    (hout : ¬Inside i n) (hbefore : AllInside (indices.take j) lengths) (k' : Nat)
    (hk : k + subscripts.length ≤ k') :
    place ctx k' (base.indexed subscripts) m = .error (.fault (.indexOutOfRange i n) none) m := by
  induction hsubs generalizing base p u lengths k j with
  | nil => cases hi
  | @cons s i' subscripts indices hs _ ih =>
    cases lengths with
    | nil => cases hn
    | cons n' lengths =>
      obtain ⟨v, hv, hi'⟩ := hs
      rw [List.length_cons] at hk
      -- The index outside is the next one, or the next one lies inside and leads to an element.
      cases j with
      | zero =>
        cases hi
        cases hn
        refine place_of_error (.index base s.1 s.2) (k + 1) (fun l hl => ?_) k' (by omega)
        rw [place_index_of_le hfuel hbase hv hi' l hl, ask, Store.element_of_outside hread hu hout]
        rfl
      | succ j =>
        rw [List.take_succ_cons] at hbefore
        obtain ⟨part, helem, hpart, htype⟩ := Store.element_of_inside hread hu hbefore.head
        have hnext : ∀ l, k + 1 ≤ l → place ctx l (.index base s.1 s.2) m =
            .ok (p.extend (.elem i'.toInt.toNat)) m := by
          intro l hl
          rw [place_index_of_le hfuel hbase hv hi' l hl, ask, helem]
          rfl
        exact ih (by omega) hnext hpart htype hi hn hbefore.tail (by omega)

end Exec

/-! ## Contents of an array -/

/-- What the element at the indices holds after a log of assignments, the latest of which stands
first: the last value that was assigned to just these indices, or zero. -/
def ValueType.latest (T : ValueType) (log : List (List Int64 × Value)) (indices : List Int64) :
    Except RuntimeError Value :=
  match log.lookup indices with
  | some v => v.convert T
  | none => .ok T.zero

/-- The array holds in each of its elements what the log says. -/
structure Contents (T : ValueType) (lengths : List Nat) (log : List (List Int64 × Value))
    (v : Value) : Prop where
  hasType : v.HasType (T.arrays lengths)
  follow : ∀ indices, indices.length = lengths.length → AllInside indices lengths →
    ∃ w, T.latest log indices = .ok w ∧ v.follow (Step.chain indices) = .ok w

/-- What is converted to a scalar type has that type. -/
theorem Scalar.hasType_of_convert (hT : Scalar W T) {v w : Value} (h : v.convert T = .ok w) :
    w.HasType T := by
  cases hT <;> exact Value.hasType_of_isScalar rfl h

/-- Indices in all dimensions lead to a scalar. -/
theorem ValueType.at?_chain_full (hlength : indices.length = lengths.length)
    (h : AllInside indices lengths) : (T.arrays lengths).at? (Step.chain indices) = some T := by
  rw [at?_chain (Nat.le_of_eq hlength) h, hlength, List.drop_length]
  rfl

/-- Indices inside are not negative. -/
theorem AllInside.nonneg (h : AllInside indices lengths)
    (hlength : indices.length ≤ lengths.length) : ∀ i ∈ indices, 0 ≤ i.toInt := by
  intro i hi
  obtain ⟨j, hj, hget⟩ := List.getElem_of_mem hi
  have hn : lengths[j]? = some lengths[j] := List.getElem?_eq_getElem (by omega)
  exact (h j i _ (List.getElem?_eq_some_iff.mpr ⟨hj, hget⟩) hn).1

namespace Contents

variable {log : List (List Int64 × Value)} {v : Value}

/-- Before the first assignment all elements are zero. -/
theorem zero (hT : T.Storable) (hlengths : ∀ n ∈ lengths, 0 < n) :
    Contents T lengths [] (T.arrays lengths).zero := by
  refine ⟨(hT.arrays hlengths).zero_hasType, fun indices hlength h => ⟨T.zero, rfl, ?_⟩⟩
  exact ValueType.follow_zero (ValueType.at?_chain_full hlength h)

/-- An assignment is seen at its own indices and nowhere else. -/
theorem assign (hT : Scalar W T) (hv : Contents T lengths log v)
    (hlength : indices.length = lengths.length) (hinside : AllInside indices lengths) {a w : Value}
    (ha : a.convert T = .ok w) :
    ∃ v', v.modify (fun old => a.convert old.type) (Step.chain indices) = .ok v' ∧
      v'.follow (Step.chain indices) = .ok w ∧ Contents T lengths ((indices, a) :: log) v' := by
  have hpath := ValueType.at?_chain_full (T := T) hlength hinside
  obtain ⟨old, hold, htype⟩ := hv.hasType.follow hpath
  have hconvert : a.convert old.type = .ok w := by rw [htype.type_eq, ha]
  obtain ⟨v', hmodify, hfound⟩ :=
    Value.exists_modify (f := fun old => a.convert old.type) hold hconvert
  have hkept := hv.hasType.modify (f := fun old => a.convert old.type) hpath fun old hold =>
    ⟨(a.ordinary_convert _).neverLost, fun new hnew => by
      rw [hold.type_eq] at hnew
      exact hT.hasType_of_convert hnew⟩
  refine ⟨v', hmodify, hfound, hkept.2 v' hmodify, fun indices' hlength' hinside' => ?_⟩
  rw [ValueType.latest, List.lookup_cons]
  by_cases heq : indices' = indices
  · subst heq
    rw [beq_self_eq_true]
    exact ⟨w, ha, hfound⟩
  · rw [beq_false_of_ne heq]
    obtain ⟨w', hlatest, hfollow⟩ := hv.follow indices' hlength' hinside'
    -- Neither path goes on from the other, since both go through all dimensions.
    have hne : Step.chain indices ≠ Step.chain indices' := fun hchain =>
      heq (Step.chain_inj (hinside.nonneg (by omega)) (hinside'.nonneg (by omega)) hchain).symm
    have hsame : (Step.chain indices).length = (Step.chain indices').length := by
      rw [Step.chain, Step.chain, List.length_map, List.length_map, hlength, hlength']
    refine ⟨w', hlatest, Value.follow_of_modify hmodify ?_ ?_ hfollow⟩
    · exact fun hpre => hne (hpre.eq_of_length hsame)
    · exact fun hpre => hne (hpre.eq_of_length hsame.symm).symm

end Contents

namespace Environment

/-- The name stands for a whole cell, which holds the value. -/
structure Holds (env : Environment) (id : String) (c : Nat) (v : Value) : Prop where
  lookup : env.lookup id = .ok ⟨c, []⟩
  cell_lt : c < env.store.cells.size
  cell_eq : env.store.cell c = v

variable {env : Environment} {id : String} {c : Nat} {v : Value}

/-- A name that was bound just now is the first that is found. -/
theorem lookup_bind_self (env : Environment) (id : String) (b : Binding) :
    (env.bind id b).lookup id = .ok b.place := by
  obtain ⟨store, globals, frames⟩ := env
  rw [lookup, binding, visibleScopes, bind]
  rcases frames with _ | ⟨⟨function, _ | ⟨scope, scopes⟩⟩, callers⟩ <;>
    simp [Except.map]

/-- A new name stands for a cell of its own. -/
theorem holds_bindNew (env : Environment) (id : String) (v : Value) :
    (env.bindNew id v).Holds id env.store.cells.size v := by
  have hstore : (env.bindNew id v).store = (env.store.alloc v).2 := store_bind _ _ _
  refine ⟨lookup_bind_self _ id _, ?_, ?_⟩
  · rw [hstore, Store.size_alloc]
    exact Nat.lt_succ_self _
  · rw [hstore, Store.cell_alloc_self]

/-- What a path leads to in the cell of a name is read there. -/
theorem Holds.read (h : env.Holds id c v) (path : List Step) :
    env.store.read ⟨c, path⟩ = v.follow path := by
  rw [Store.read, h.cell_eq]

/-- A new value for the whole cell. -/
theorem Holds.setCell (h : env.Holds id c v) (v' : Value) : (env.setCell c v').Holds id c v' :=
  ⟨h.lookup, by rw [Environment.setCell, Store.size_setCell]; exact h.cell_lt,
    Store.cell_setCell_self _ _ h.cell_lt⟩

end Environment

/-! ## Reads and assignments -/

namespace Exec

variable {ctx : Context σ} {m : Machine σ} {x : String} {c : Nat} {v : Value} {fuel : Nat}
  {position span : Span} {subscripts : List (Expr × Span)}

/-- The place of a variable is its cell. One step is enough to find it. -/
theorem place_name (ctx : Context σ) (position : Span) (h : m.env.Holds x c v) (k : Nat)
    (hk : fuel + 1 ≤ k) : place ctx k (.name x position) m = .ok ⟨c, []⟩ m := by
  obtain ⟨l, rfl⟩ : ∃ l, k = l + 1 := ⟨k - 1, by omega⟩
  rw [place, ask, h.lookup]
  rfl

/-- An element of a variable is read at its place. -/
theorem eval_indexed_name (subscripts : List (Expr × Span)) (k : Nat) :
    eval ctx (k + 2) ((Expr.name x position).indexed subscripts) =
      place ctx (k + 1) ((Expr.name x position).indexed subscripts) >>= fun p =>
        ask (·.store.read p) :=
  eval_of_isPlace (Expr.isPlace_indexed (.name x position) rfl subscripts) k

/-- Indices that lie inside lead to the place of a part of the variable. -/
theorem place_of_holds (position : Span) (h : m.env.Holds x c v) (hv : v.HasType (T.arrays lengths))
    (hsubs : Subscripts ctx fuel m subscripts indices) (hlength : indices.length ≤ lengths.length)
    (hinside : AllInside indices lengths) :
    place ctx (fuel + subscripts.length + 1) ((Expr.name x position).indexed subscripts) m =
      .ok ⟨c, Step.chain indices⟩ m :=
  place_of_allInside (k := fuel + 1) (Nat.le_succ fuel) (place_name ctx position h) (h.read []) hv
    hsubs hlength hinside _ (by omega)

/-- Indices that lie inside yield the part of the variable at the end of their chain. -/
theorem eval_of_allInside (position : Span) (h : m.env.Holds x c v)
    (hv : v.HasType (T.arrays lengths)) (hsubs : Subscripts ctx fuel m subscripts indices)
    (hlength : indices.length ≤ lengths.length)
    (hinside : AllInside indices lengths) {w : Value} (hw : v.follow (Step.chain indices) = .ok w) :
    eval ctx (fuel + subscripts.length + 2) ((Expr.name x position).indexed subscripts) m =
      .ok w m := by
  have hplace := place_of_holds position h hv hsubs hlength hinside
  rw [eval_indexed_name, EStateM.bind_of_ok hplace, ask, h.read, hw]
  rfl

/-- The first index that lies outside is reported. -/
theorem eval_of_outside (h : m.env.Holds x c v) (hv : v.HasType (T.arrays lengths))
    (hsubs : Subscripts ctx fuel m subscripts indices) {j : Nat} {i : Int64} {n : Nat}
    (hi : indices[j]? = some i) (hn : lengths[j]? = some n) (hout : ¬Inside i n)
    (hbefore : AllInside (indices.take j) lengths) :
    eval ctx (fuel + subscripts.length + 2) ((Expr.name x position).indexed subscripts) m =
      .error (.fault (.indexOutOfRange i n) none) m := by
  have hplace := place_of_outside (k := fuel + 1) (Nat.le_succ fuel)
    (place_name ctx position h) (h.read []) hv hsubs hi hn hout hbefore
    (fuel + subscripts.length + 1) (by omega)
  rw [eval_indexed_name, EStateM.bind_of_error hplace]

/-- An assignment stores what its right side yields, converted to what is held, and yields that. -/
theorem eval_assign_apply {k : Nat} {t rhs : Expr} {p : Place} {a : Value}
    (hrhs : eval ctx k rhs m = .ok a m) (hplace : place ctx k t m = .ok p m) :
    eval ctx (k + 1) (.assign none t rhs span) m =
      (write p a >>= fun _ => ask (·.store.read p)) m := by
  rw [eval_assign_none, EStateM.bind_of_ok hrhs, EStateM.bind_of_ok hplace]

/-- An assignment to an element in all dimensions of a value that can be converted goes through, and
is seen there and nowhere else. -/
theorem eval_assign_element (position span : Span) (hT : Scalar W T)
    {log : List (List Int64 × Value)} (h : m.env.Holds x c v) (hv : Contents T lengths log v)
    (hsubs : Subscripts ctx fuel m subscripts indices) (hlength : indices.length = lengths.length)
    (hinside : AllInside indices lengths) {rhs : Expr} {a w : Value}
    (hrhs : eval ctx fuel rhs m = .ok a m) (ha : a.convert T = .ok w) :
    ∃ m' v', eval ctx (fuel + subscripts.length + 2)
        (.assign none ((Expr.name x position).indexed subscripts) rhs span) m = .ok w m' ∧
      m'.env.Holds x c v' ∧ Contents T lengths ((indices, a) :: log) v' := by
  obtain ⟨v', hmodify, hfound, hcontents⟩ := hv.assign hT hlength hinside ha
  have hplace := place_of_holds position h hv.hasType hsubs (Nat.le_of_eq hlength)
    hinside
  have hrhs : eval ctx (fuel + subscripts.length + 1) rhs m = .ok a m :=
    eval_ok_of_le hrhs (by omega)
  have hupdated : m.env.store.updated ⟨c, Step.chain indices⟩ a = .ok v' := by
    rw [Store.updated, h.cell_eq, hmodify]
  have hwrite : write ⟨c, Step.chain indices⟩ a m =
      .ok () { m with env := m.env.setCell c v' } := by
    rw [write_apply, hupdated]
  have hholds := h.setCell v'
  refine ⟨{ m with env := m.env.setCell c v' }, v', ?_, hholds, hcontents⟩
  rw [eval_assign_apply hrhs hplace, EStateM.bind_of_ok hwrite, ask, hholds.read, hfound]
  rfl

/-- An assignment of a value that cannot be converted fails. -/
theorem eval_assign_of_error (h : m.env.Holds x c v) (hv : v.HasType (T.arrays lengths))
    (hsubs : Subscripts ctx fuel m subscripts indices) (hlength : indices.length = lengths.length)
    (hinside : AllInside indices lengths) {rhs : Expr} {a : Value} {e : RuntimeError}
    (hrhs : eval ctx fuel rhs m = .ok a m) (ha : a.convert T = .error e) :
    eval ctx (fuel + subscripts.length + 2)
      (.assign none ((Expr.name x position).indexed subscripts) rhs span) m =
        .error (.fault e none) m := by
  have hplace := place_of_holds position h hv hsubs (Nat.le_of_eq hlength) hinside
  have hrhs : eval ctx (fuel + subscripts.length + 1) rhs m = .ok a m :=
    eval_ok_of_le hrhs (by omega)
  obtain ⟨old, hold, htype⟩ := hv.follow (ValueType.at?_chain_full hlength hinside)
  have hupdated : m.env.store.updated ⟨c, Step.chain indices⟩ a = .error e := by
    rw [Store.updated, h.cell_eq]
    exact Value.modify_of_error hold (by rw [htype.type_eq, ha])
  have hwrite : write ⟨c, Step.chain indices⟩ a m = .error (.fault e none) m := by
    rw [write_apply, hupdated]
  rw [eval_assign_apply hrhs hplace, EStateM.bind_of_error hwrite]

/-- The declaration of an array gives its name a cell with zeros. -/
theorem declareVar_array (ctx : Context σ) (fuel : Nat) (span : Span) (hT : Scalar W T)
    {bounds : List Expr} (hbounds : Bounded bounds lengths)
    (hfresh : m.env.declares x = false) : ∃ m' c,
      declareVar ctx (fuel + 1) ⟨x, W.withBounds (bounds.map some), false, none, span⟩ m =
        .ok () m' ∧ m'.env.Holds x c (T.arrays lengths).zero := by
  have hresolve := TypeTable.resolve_withBounds hT hbounds ctx.types none
  have hlift : lift (ctx.types.resolve none (W.withBounds (bounds.map some))) m =
      .ok (T.arrays lengths) m := by
    rw [hresolve]
    rfl
  refine ⟨{ m with env := m.env.bindNew x (T.arrays lengths).zero }, _, ?_,
    m.env.holds_bindNew x _⟩
  rw [declareVar]
  refine (EStateM.bind_of_ok hlift).trans ?_
  change (if m.env.declares x then fail _ else change _) m = _
  rw [hfresh]
  rfl

end Exec

/-- The variable has been assigned to at full lists of indices that lie inside, and nothing else has
happened; the log has the indices and the values of the right sides, the latest first. -/
inductive Assigned (ctx : Context σ) (x : String) (lengths : List Nat) (m₀ : Machine σ) :
    List (List Int64 × Value) → Machine σ → Prop
  | start : Assigned ctx x lengths m₀ [] m₀
  | assign {log : List (List Int64 × Value)} {m m' : Machine σ} {position span : Span}
    {subscripts : List (Expr × Span)} {indices : List Int64} {rhs : Expr} {a w : Value} {fuel : Nat}
    (h : Assigned ctx x lengths m₀ log m) (hsubs : Subscripts ctx fuel m subscripts indices)
    (hlength : indices.length = lengths.length) (hinside : AllInside indices lengths)
    (hrhs : Exec.eval ctx fuel rhs m = .ok a m)
    (hrun : Exec.eval ctx (fuel + subscripts.length + 2)
      (.assign none ((Expr.name x position).indexed subscripts) rhs span) m = .ok w m') :
    Assigned ctx x lengths m₀ ((indices, a) :: log) m'

/-- After a sequence of assignments the array holds what the log says. -/
theorem Assigned.contents {ctx : Context σ} {x : String} {c : Nat} {m₀ m : Machine σ}
    {log : List (List Int64 × Value)} (hT : Scalar W T) (h : Assigned ctx x lengths m₀ log m)
    {v₀ : Value} (hholds : m₀.env.Holds x c v₀) (hcontents : Contents T lengths [] v₀) :
    ∃ v, m.env.Holds x c v ∧ Contents T lengths log v := by
  induction h with
  | start => exact ⟨v₀, hholds, hcontents⟩
  | @assign _ _ _ position span _ _ _ a _ _ _ hsubs hlength hinside hrhs hrun ih =>
    obtain ⟨v, hv, hlog⟩ := ih
    cases ha : a.convert T with
    | error e =>
      rw [Exec.eval_assign_of_error hv hlog.hasType hsubs hlength hinside hrhs ha] at hrun
      cases hrun
    | ok w =>
      obtain ⟨m', v', hrun', hv', hlog'⟩ := Exec.eval_assign_element position span
        hT hv hlog hsubs hlength hinside hrhs ha
      rw [hrun'] at hrun
      cases hrun
      exact ⟨v', hv', hlog'⟩

/-- An array of several dimensions is indexed outermost dimension first. After its declaration, a
list of indices yields the zero value of the type that remains if every index lies inside its
dimension, and otherwise the first one that does not is reported with the length of its dimension.
After any sequence of assignments at full lists of indices, each element holds the last value that
was assigned to just its indices, converted to the type of the elements, or zero; and a further
assignment of a value that can be converted goes through. -/
theorem dimensions_are_outermost_first (hT : Scalar W T) {bounds : List Expr}
    (hbounds : Bounded bounds lengths) (ctx : Context σ) (m₀ : Machine σ) (x : String)
    (hfresh : m₀.env.declares x = false) (span : Span) (fuel₀ : Nat) :
    ∃ m, Exec.declareVar ctx (fuel₀ + 1)
        ⟨x, W.withBounds (bounds.map some), false, none, span⟩ m₀ = .ok () m ∧
      (∀ position subscripts indices fuel, Subscripts ctx fuel m subscripts indices →
        indices.length ≤ lengths.length →
        ((∃ v m', Exec.eval ctx (fuel + subscripts.length + 2)
          ((Expr.name x position).indexed subscripts) m = .ok v m') ↔ AllInside indices lengths) ∧
        (AllInside indices lengths → Exec.eval ctx (fuel + subscripts.length + 2)
          ((Expr.name x position).indexed subscripts) m =
            .ok (T.arrays (lengths.drop indices.length)).zero m) ∧
        ∀ (j : Nat) i n, indices[j]? = some i → lengths[j]? = some n → ¬Inside i n →
          AllInside (indices.take j) lengths → Exec.eval ctx (fuel + subscripts.length + 2)
            ((Expr.name x position).indexed subscripts) m =
              .error (.fault (.indexOutOfRange i n) none) m) ∧
      ∀ log m', Assigned ctx x lengths m log m' →
        ∀ position subscripts indices fuel, Subscripts ctx fuel m' subscripts indices →
          indices.length = lengths.length → AllInside indices lengths →
          (∃ v, T.latest log indices = .ok v ∧ Exec.eval ctx (fuel + subscripts.length + 2)
            ((Expr.name x position).indexed subscripts) m' = .ok v m') ∧
          ∀ rhs a w span', Exec.eval ctx fuel rhs m' = .ok a m' → a.convert T = .ok w →
            ∃ m'', Exec.eval ctx (fuel + subscripts.length + 2)
              (.assign none ((Expr.name x position).indexed subscripts) rhs span') m' =
                .ok w m'' := by
  have hzero := Contents.zero hT.storable hbounds.pos
  obtain ⟨m, c, hdeclare, hholds⟩ := Exec.declareVar_array ctx fuel₀ span hT hbounds hfresh
  refine ⟨m, hdeclare, ?_, ?_⟩
  · -- Right after the declaration every element is zero.
    intro position subscripts indices fuel hsubs hlength
    have hinside (h : AllInside indices lengths) :=
      Exec.eval_of_allInside position hholds hzero.hasType hsubs hlength h
        (ValueType.follow_zero (ValueType.at?_chain hlength h))
    refine ⟨⟨fun ⟨v, m', hv⟩ => ?_, fun h => ⟨_, m, hinside h⟩⟩, hinside,
      fun j i n => Exec.eval_of_outside hholds hzero.hasType hsubs⟩
    -- Of indices that do not all lie inside, the first outside is reported.
    by_contra hnot
    obtain ⟨j, i, n, hi, hn, hout, hbefore⟩ := AllInside.exists_first hnot
    rw [Exec.eval_of_outside hholds hzero.hasType hsubs hi hn hout hbefore] at hv
    cases hv
  · -- After assignments every element holds what the log says.
    intro log m' hlog position subscripts indices fuel hsubs hlength hinside
    obtain ⟨v, hv, hcontents⟩ := hlog.contents hT hholds hzero
    obtain ⟨w, hlatest, hw⟩ := hcontents.follow indices hlength hinside
    refine ⟨⟨w, hlatest, ?_⟩, fun rhs a w span' hrhs ha => ?_⟩
    · exact Exec.eval_of_allInside position hv hcontents.hasType hsubs (Nat.le_of_eq hlength)
        hinside hw
    · obtain ⟨m'', _, hrun, -⟩ :=
        Exec.eval_assign_element position span' hT hv hcontents hsubs hlength hinside hrhs ha
      exact ⟨m'', hrun⟩

/-- The element `a[i][k]`. -/
def elementOfA (i k : Int64) : Expr :=
  (Expr.name "a" default).indexed
    [(.literal (.int i) default, default), (.literal (.int k) default, default)]

/-- After `char a[2][3];` there is no `a[2][0]`, and `a[1][2] = 321` changes `a[1][2]` but leaves
`a[0][2]` as it was. -/
theorem dimensions_are_outermost_first_bytes :
    let ctx : Context (Array Event) := ⟨TypeTable.empty, FunctionTable.empty, {}, Sink.recording⟩
    let bounds : List Expr := [.literal (.int 2) default, .literal (.int 3) default]
    Bounded bounds [2, 3] ∧ Environment.empty.declares "a" = false ∧
      ∃ m m', Exec.declareVar ctx 1
          ⟨"a", WrittenType.withBounds .char (bounds.map some), false, none, default⟩
          ⟨Environment.empty, #[]⟩ = .ok () m ∧
        Exec.eval ctx 5 (elementOfA 2 0) m = .error (.fault (.indexOutOfRange 2 2) none) m ∧
        Exec.eval ctx 5 (.assign none (elementOfA 1 2) (.literal (.int 321) default) default) m =
          .ok (.char 65) m' ∧
        Exec.eval ctx 5 (elementOfA 1 2) m' = .ok (.char 65) m' ∧
        Exec.eval ctx 5 (elementOfA 0 2) m' = .ok (.char 0) m' := by
  intro ctx bounds
  have hbounds : Bounded bounds [2, 3] :=
    .cons ⟨by decide, 2, rfl, by decide⟩ (.cons ⟨by decide, 3, rfl, by decide⟩ .nil)
  have hsubs : ∀ (m : Machine (Array Event)) (i k : Int64), Subscripts ctx 1 m
      [(.literal (.int i) default, default), (.literal (.int k) default, default)] [i, k] :=
    fun m i k => .cons ⟨.int i, rfl, rfl⟩ (.cons ⟨.int k, rfl, rfl⟩ .nil)
  have hinside : ∀ i k : Int64, Inside i 2 → Inside k 3 → AllInside [i, k] [2, 3] :=
    fun i k hi hk => .cons hi (.cons hk (.nil _))
  obtain ⟨m, hdeclare, hread, hassign⟩ := dimensions_are_outermost_first Scalar.char hbounds ctx
    ⟨Environment.empty, #[]⟩ "a" rfl default 0
  obtain ⟨m', hrun⟩ := (hassign [] m .start default _ _ 1 (hsubs m 1 2) rfl
    (hinside 1 2 ⟨by decide, by decide⟩ ⟨by decide, by decide⟩)).2 (.literal (.int 321) default) _ _
      default rfl rfl
  have hlog : Assigned ctx "a" [2, 3] m [([1, 2], .int 321)] m' :=
    .assign .start (hsubs m 1 2) rfl (hinside 1 2 ⟨by decide, by decide⟩ ⟨by decide, by decide⟩) rfl
      hrun
  refine ⟨hbounds, rfl, m, m', hdeclare, ?_, hrun, ?_, ?_⟩
  · -- `a[2][0]` lies outside of the first dimension.
    exact ((hread default _ _ 1 (hsubs m 2 0) (by decide)).2.2 0 2 2 rfl rfl
      (fun h => absurd h.2 (by decide)) (.nil _))
  · -- `a[1][2]` was assigned to.
    obtain ⟨⟨v, hlatest, hv⟩, -⟩ := hassign _ m' hlog default _ _ 1 (hsubs m' 1 2) rfl
      (hinside 1 2 ⟨by decide, by decide⟩ ⟨by decide, by decide⟩)
    cases hlatest
    exact hv
  · -- `a[0][2]` was not.
    obtain ⟨⟨v, hlatest, hv⟩, -⟩ := hassign _ m' hlog default _ _ 1 (hsubs m' 0 2) rfl
      (hinside 0 2 ⟨by decide, by decide⟩ ⟨by decide, by decide⟩)
    cases hlatest
    exact hv

end SmallCpp
