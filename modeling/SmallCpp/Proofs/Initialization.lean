import SmallCpp.Proofs.Initialization.Slots
import SmallCpp.Proofs.Projection

/-!
# Initialization of aggregates

`Initializer.builds_list_iff` is the one rule for brace lists: the first slots of the type get what
the items build, and the others are zero. What is known of whole trees follows by induction on the
items: where a leaf lands (`Initializer.Lands`), when there is no room for an item
(`Initializer.Crowded`), and what is in the slots that no leaf reaches.
-/

namespace SmallCpp

variable {σ : Type}

/-! ## What an initializer builds -/

namespace Initializer

/-- The initializer gives the value to a place of the type. -/
def Builds (ctx : Context σ) (m : Machine σ) (init : Initializer) (T : ValueType) (w : Value) :
    Prop :=
  (Task.build init T).ComesTo ctx m w

variable {ctx : Context σ} {m : Machine σ} {items : List Initializer} {T : ValueType} {w : Value}

/-- An expression builds its value, converted to the type of the place. -/
theorem builds_expr_iff {e : Expr} (he : e.quiet = true) :
    (Initializer.expr e).Builds ctx m T w ↔
      ∃ v, (Task.eval e).ComesTo ctx m v ∧ v.convert T = .ok w := by
  rw [Builds, Task.Quiet.comesTo_iff (t := .build (.expr e) T) he]
  exact exists_congr fun v => and_congr_right fun _ => Script.comesTo_lift

/-- The elements of an array are what the items build, and zeros behind them. -/
theorem fills_replicate_iff (hitems : allQuiet items = true) {n : Nat} (hlength : items.length ≤ n)
    {parts : List Value} : Fills (Builds ctx m) items (List.replicate n T) parts ↔
      ∃ values, (Task.buildElems items T).ComesTo ctx m values ∧
        values ++ List.replicate (n - items.length) T.zero = parts := by
  induction items generalizing n parts with
  | nil =>
    rw [Fills.nil_iff, List.map_replicate]
    have hnil : ∀ values, (Task.buildElems [] T).ComesTo ctx m values ↔ [] = values := fun values =>
      Task.Quiet.comesTo_iff (t := .buildElems [] T) rfl
    constructor
    · rintro rfl
      exact ⟨[], (hnil []).mpr rfl, rfl⟩
    · rintro ⟨values, hvalues, rfl⟩
      rw [← (hnil values).mp hvalues]
      rfl
  | cons item items ih =>
    obtain ⟨hitem, hrest⟩ := Bool.and_eq_true_iff.mp hitems
    obtain ⟨k, rfl⟩ : ∃ k, n = k + 1 := ⟨n - 1, by rw [List.length_cons] at hlength; omega⟩
    have hcons : ∀ values, (Task.buildElems (item :: items) T).ComesTo ctx m values ↔
        ∃ v, item.Builds ctx m T v ∧
          ∃ vs, (Task.buildElems items T).ComesTo ctx m vs ∧ v :: vs = values := fun values =>
      Task.Quiet.comesTo_iff (t := .buildElems (item :: items) T) hitems
    -- The first item takes one slot, so equally many slots stay behind the items.
    rw [List.replicate_succ, Fills.cons_iff, List.length_cons, Nat.add_sub_add_right]
    constructor
    · rintro ⟨v, rest, hv, hfills, rfl⟩
      obtain ⟨vs, hvs, rfl⟩ := (ih hrest (Nat.le_of_succ_le_succ hlength)).mp hfills
      exact ⟨v :: vs, (hcons _).mpr ⟨v, hv, vs, hvs, rfl⟩, rfl⟩
    · rintro ⟨values, hvalues, rfl⟩
      obtain ⟨v, hv, vs, hvs, rfl⟩ := (hcons values).mp hvalues
      exact ⟨v, _, hv, (ih hrest (Nat.le_of_succ_le_succ hlength)).mpr ⟨vs, hvs, rfl⟩, rfl⟩

/-- The fields of a record are what the items build, and zeros behind them. -/
theorem fills_layout_iff (hitems : allQuiet items = true) {layout : Layout}
    (hlength : items.length ≤ layout.length) {parts : List Value} :
    Fills (Builds ctx m) items (layout.map (·.2)) parts ↔
      (Task.buildFields items layout).ComesTo ctx m parts := by
  induction items generalizing layout parts with
  | nil =>
    have hnil : (Task.buildFields [] layout).ComesTo ctx m parts ↔
        ValueType.zeros layout = parts := Task.Quiet.comesTo_iff (t := .buildFields [] layout) rfl
    rw [Fills.nil_iff, hnil, ValueType.zeros_eq_map, List.map_map, eq_comm]
    rfl
  | cons item items ih =>
    cases layout with
    | nil => exact absurd hlength (Nat.not_succ_le_zero _)
    | cons f layout =>
      obtain ⟨hitem, hrest⟩ := Bool.and_eq_true_iff.mp hitems
      have hcons : (Task.buildFields (item :: items) (f :: layout)).ComesTo ctx m parts ↔
          ∃ v, item.Builds ctx m f.2 v ∧
            ∃ vs, (Task.buildFields items layout).ComesTo ctx m vs ∧ v :: vs = parts :=
        Task.Quiet.comesTo_iff (t := .buildFields (item :: items) (f :: layout)) hitems
      rw [List.map_cons, Fills.cons_iff, hcons]
      refine exists_congr fun v => ?_
      rw [exists_and_left]
      refine and_congr_right fun _ => exists_congr fun vs => and_congr_left fun _ => ?_
      exact ih hrest (Nat.le_of_succ_le_succ hlength)

/-- A brace list fills the slots of the type. -/
theorem builds_list_iff (hitems : allQuiet items = true) {span : Span} :
    (Initializer.list items span).Builds ctx m T w ↔
      ∃ parts, Fills (Builds ctx m) items T.slots parts ∧ T.assemble parts = w := by
  rw [Builds, Task.Quiet.comesTo_iff (t := .build (.list items span) T) hitems]
  cases T with
  | array elem length =>
    refine Script.comesTo_guard.trans ?_
    rw [Nat.not_lt]
    constructor
    · rintro ⟨hlength, values, hvalues, rfl⟩
      exact ⟨_, (fills_replicate_iff hitems hlength).mpr ⟨values, hvalues, rfl⟩, rfl⟩
    · rintro ⟨parts, hfills, rfl⟩
      have hlength : items.length ≤ length := by
        simpa only [ValueType.slots, List.length_replicate] using hfills.length_le
      obtain ⟨values, hvalues, rfl⟩ := (fills_replicate_iff hitems hlength).mp hfills
      exact ⟨hlength, values, hvalues, rfl⟩
  | record name layout =>
    refine Script.comesTo_guard.trans ?_
    rw [Nat.not_lt]
    constructor
    · rintro ⟨hlength, values, hvalues, rfl⟩
      exact ⟨values, (fills_layout_iff hitems hlength).mpr hvalues, rfl⟩
    · rintro ⟨parts, hfills, rfl⟩
      have hlength : items.length ≤ layout.length := by
        simpa only [ValueType.slots, List.length_map] using hfills.length_le
      exact ⟨hlength, parts, (fills_layout_iff hitems hlength).mp hfills, rfl⟩
  | _ =>
    -- A type without elements and fields is its own only slot, so one item is the most.
    rcases items with _ | ⟨item, _ | ⟨second, items⟩⟩
    · refine ⟨fun h => ⟨_, .rest _, h⟩, ?_⟩
      rintro ⟨parts, hfills, rfl⟩
      rw [Fills.nil_iff.mp hfills]
      rfl
    · refine Script.comesTo_task.trans ⟨fun h => ⟨_, .item h (.rest []), rfl⟩, ?_⟩
      rintro ⟨parts, hfills, rfl⟩
      obtain ⟨v, rest, hv, -, rfl⟩ := Fills.cons_iff.mp hfills
      exact hv
    · refine ⟨fun h => h.elim, ?_⟩
      rintro ⟨parts, hfills, -⟩
      exact absurd hfills.length_le (by simp [ValueType.slots])

/-! ## Trees of initializers -/

/-- What holds of all expressions, and of a list if it holds of its items, holds of all
initializers. -/
@[elab_as_elim]
theorem tree_induction {P : Initializer → Prop} (expr : ∀ e, P (.expr e))
    (list : ∀ items span, (∀ item ∈ items, P item) → P (.list items span)) (init : Initializer) :
    P init :=
  @Initializer.rec P (fun items => ∀ item ∈ items, P item) expr list nofun
    (fun _ _ hitem hitems => List.forall_mem_cons.mpr ⟨hitem, hitems⟩) init

/-- In a quiet list every item is quiet. -/
theorem quiet_of_mem (hitems : allQuiet items = true) {item : Initializer} (h : item ∈ items) :
    item.quiet = true := by
  induction items with
  | nil => cases h
  | cons first rest ih =>
    obtain ⟨hfirst, hrest⟩ := Bool.and_eq_true_iff.mp hitems
    rcases List.mem_cons.mp h with rfl | h
    · exact hfirst
    · exact ih hrest h

/-- The tree has the expression as a leaf, and the leaf lands at the end of the path, on a slot of
the last type. -/
inductive Lands : Initializer → ValueType → List Step → Expr → ValueType → Prop
  | leaf (e : Expr) (T : ValueType) : Lands (.expr e) T [] e T
  | item {items : List Initializer} {span : Span} {T U V : ValueType} {i : Nat}
    {item : Initializer} {path : List Step} {e : Expr} (hitem : items[i]? = some item)
    (hslot : T.slots[i]? = some U) (h : Lands item U path e V) :
    Lands (.list items span) T (T.toSlot i ++ path) e V

/-- Somewhere in the tree a brace list has more items than there are slots. -/
inductive Crowded : Initializer → ValueType → Prop
  | here {items : List Initializer} {span : Span} {T : ValueType}
    (h : T.slots.length < items.length) : Crowded (.list items span) T
  | item {items : List Initializer} {span : Span} {T U : ValueType} {i : Nat} {item : Initializer}
    (hitem : items[i]? = some item) (hslot : T.slots[i]? = some U) (h : Crowded item U) :
    Crowded (.list items span) T

variable {init : Initializer}

/-- An item is lower than its list. -/
theorem height_lt_of_mem {item : Initializer} {span : Span} (h : item ∈ items) :
    item.height < (Initializer.list items span).height := by
  rw [height, Nat.lt_succ_iff]
  induction items with
  | nil => cases h
  | cons first rest ih =>
    rw [heights]
    rcases List.mem_cons.mp h with rfl | h
    · omega
    · have hrest := ih h
      omega

/-- A leaf is smaller than its tree, and as quiet. -/
theorem Lands.leaf_of_tree {path : List Step} {e : Expr} {U : ValueType}
    (h : init.Lands T path e U) (hinit : init.quiet = true) :
    e.quiet = true ∧ e.height < init.height := by
  induction h with
  | leaf e T => exact ⟨hinit, Nat.lt_succ_self _⟩
  | item hitem _ _ ih =>
    have hmem := List.mem_of_getElem? hitem
    obtain ⟨hquiet, hheight⟩ := ih (quiet_of_mem hinit hmem)
    exact ⟨hquiet, Nat.lt_trans hheight (height_lt_of_mem hmem)⟩

/-- A list that builds a value has a slot for each item, and the item builds what is there. -/
theorem Builds.item {span : Span} (hitems : allQuiet items = true)
    (hw : (Initializer.list items span).Builds ctx m T w) {i : Nat} {item : Initializer}
    {U : ValueType} (hitem : items[i]? = some item) (hslot : T.slots[i]? = some U) :
    ∃ part, item.Builds ctx m U part ∧ w.follow (T.toSlot i) = .ok part := by
  obtain ⟨parts, hfills, rfl⟩ := (builds_list_iff hitems).mp hw
  obtain ⟨part, hpart, ⟨_, hitem', hbuilds⟩ | ⟨hnone, -⟩⟩ := hfills.get hslot
  · rw [hitem] at hitem'
    cases hitem'
    exact ⟨part, hbuilds, ValueType.follow_assemble hfills.length_eq hpart⟩
  · rw [hitem] at hnone
    cases hnone

/-- Where a leaf lands, the value has what the leaf is converted to. -/
theorem Builds.lands (hinit : init.quiet = true) (hw : init.Builds ctx m T w) {path : List Step}
    {e : Expr} {U : ValueType} (h : init.Lands T path e U) :
    ∃ v u, (Task.eval e).ComesTo ctx m v ∧ v.convert U = .ok u ∧ w.follow path = .ok u := by
  induction h generalizing w with
  | leaf e T =>
    obtain ⟨v, hv, hconvert⟩ := (builds_expr_iff hinit).mp hw
    exact ⟨v, w, hv, hconvert, rfl⟩
  | item hitem hslot _ ih =>
    obtain ⟨part, hpart, hfollow⟩ := Builds.item hinit hw hitem hslot
    obtain ⟨v, u, hv, hconvert, hu⟩ := ih (quiet_of_mem hinit (List.mem_of_getElem? hitem)) hpart
    exact ⟨v, u, hv, hconvert, (Value.follow_append hfollow _).trans hu⟩

/-- What builds a value has a slot for every item, on every level of the tree. -/
theorem Builds.not_crowded (hinit : init.quiet = true) (hw : init.Builds ctx m T w) :
    ¬init.Crowded T := by
  intro h
  induction h generalizing w with
  | here h =>
    obtain ⟨parts, hfills, -⟩ := (builds_list_iff hinit).mp hw
    exact absurd hfills.length_le (Nat.not_le_of_lt h)
  | item hitem hslot _ ih =>
    obtain ⟨part, hpart, -⟩ := Builds.item hinit hw hitem hslot
    exact ih (quiet_of_mem hinit (List.mem_of_getElem? hitem)) hpart

/-- A tree that is not crowded builds a value if all its leaves can be converted. -/
theorem exists_builds (hinit : init.quiet = true) (hroom : ¬init.Crowded T)
    (hleaves : ∀ path e U, init.Lands T path e U →
      ∃ v u, (Task.eval e).ComesTo ctx m v ∧ v.convert U = .ok u) :
    ∃ w, init.Builds ctx m T w := by
  induction init using tree_induction generalizing T with
  | expr e =>
    obtain ⟨v, w, hv, hw⟩ := hleaves [] e T (.leaf e T)
    exact ⟨w, (builds_expr_iff hinit).mpr ⟨v, hv, hw⟩⟩
  | list items span ih =>
    have hlength : items.length ≤ T.slots.length := Nat.le_of_not_lt fun h => hroom (.here h)
    obtain ⟨parts, hparts⟩ := Fills.exists_of_forall (G := Builds ctx m) hlength <| by
      intro i item U hitem hslot
      have hmem : item ∈ items := List.mem_of_getElem? hitem
      refine ih item hmem (quiet_of_mem hinit hmem) (fun h => hroom (.item hitem hslot h)) ?_
      exact fun path e V h => hleaves _ e V (.item hitem hslot h)
    exact ⟨_, (builds_list_iff hinit).mpr ⟨parts, hparts, rfl⟩⟩

/-- What no leaf reaches is zero: neither does a leaf land on a part of it, nor is it a part of what
a leaf lands on. -/
theorem Builds.unreached (hinit : init.quiet = true) (hw : init.Builds ctx m T w)
    {path : List Step} {U : ValueType} (hpath : T.at? path = some U)
    (h : ∀ path' e V, init.Lands T path' e V → ¬path' <+: path ∧ ¬path <+: path') :
    w.follow path = .ok U.zero := by
  induction init using tree_induction generalizing T w path U with
  | expr e => exact absurd List.nil_prefix (h [] e T (.leaf e T)).1
  | list items span ih =>
    obtain ⟨parts, hfills, rfl⟩ := (builds_list_iff hinit).mp hw
    cases path with
    | nil =>
      -- There is no leaf at all, so that all slots are zero.
      obtain rfl : T = U := Option.some.inj hpath
      have hparts : parts = T.slots.map ValueType.zero := by
        refine List.ext_getElem? fun i => ?_
        rw [List.getElem?_map]
        cases hslot : T.slots[i]? with
        | none =>
          rw [Option.map_none, List.getElem?_eq_none_iff, hfills.length_eq]
          exact List.getElem?_eq_none_iff.mp hslot
        | some V =>
          obtain ⟨part, hpart, ⟨item, hitem, hbuilds⟩ | ⟨-, rfl⟩⟩ := hfills.get hslot
          · have hmem : item ∈ items := List.mem_of_getElem? hitem
            have hzero : part.follow [] = .ok V.zero :=
              ih item hmem (quiet_of_mem hinit hmem) hbuilds rfl fun path' e V' hlands =>
                absurd List.nil_prefix (h _ e V' (.item hitem hslot hlands)).2
            rw [hpart]
            cases hzero
            rfl
          · exact hpart
      rw [hparts, ← ValueType.zero_eq_assemble]
      rfl
    | cons step path =>
      obtain ⟨i, V, hslot, hstep⟩ := ValueType.exists_toSlot hpath
      have hsplit : step :: path = T.toSlot i ++ path := by rw [hstep, List.singleton_append]
      rw [hsplit] at hpath h ⊢
      rw [ValueType.at?_toSlot hslot] at hpath
      obtain ⟨part, hpart, hcases⟩ := hfills.get hslot
      rw [Value.follow_append (ValueType.follow_assemble hfills.length_eq hpart)]
      rcases hcases with ⟨item, hitem, hbuilds⟩ | ⟨-, rfl⟩
      · have hmem : item ∈ items := List.mem_of_getElem? hitem
        refine ih item hmem (quiet_of_mem hinit hmem) hbuilds hpath fun path' e V' hlands => ?_
        -- Both paths go to the same slot first.
        have hapart := h _ e V' (.item hitem hslot hlands)
        rwa [List.prefix_append_right_inj, List.prefix_append_right_inj] at hapart
      · exact ValueType.follow_zero hpath

/-- What holds of converted leaves and of zeros, and of a value if it holds of what is in its slots,
holds of all that is built. -/
theorem Builds.induction {P : ValueType → Value → Prop}
    (hleaf : ∀ e v T w, e.quiet = true → (Task.eval e).ComesTo ctx m v → v.convert T = .ok w →
      P T w)
    (hassemble : ∀ T parts, parts.length = T.slots.length →
      (∀ (i : Nat) part U, parts[i]? = some part → T.slots[i]? = some U →
        part = U.zero ∨ P U part) →
      P T (T.assemble parts))
    (hinit : init.quiet = true) (hw : init.Builds ctx m T w) : P T w := by
  induction init using tree_induction generalizing T w with
  | expr e =>
    obtain ⟨v, hv, hconvert⟩ := (builds_expr_iff hinit).mp hw
    exact hleaf e v T w hinit hv hconvert
  | list items span ih =>
    obtain ⟨parts, hfills, rfl⟩ := (builds_list_iff hinit).mp hw
    refine hassemble T parts hfills.length_eq fun i part U hpart hslot => ?_
    obtain ⟨part', hpart', hcases⟩ := hfills.get hslot
    rw [hpart] at hpart'
    cases hpart'
    -- A slot has an item, to which the induction applies, or it is zero.
    rcases hcases with ⟨item, hitem, hbuilds⟩ | ⟨-, hzero⟩
    · have hmem : item ∈ items := List.mem_of_getElem? hitem
      exact .inr (ih item hmem (quiet_of_mem hinit hmem) hbuilds)
    · exact .inl hzero

/-- What is built for a type has that type. -/
theorem Builds.type_eq (hinit : init.quiet = true) (hw : init.Builds ctx m T w)
    (hT : T = .void ∨ T.Storable) : w.type = T := by
  refine Builds.induction (P := fun T w => T = .void ∨ T.Storable → w.type = T)
    (fun e v T w _ _ hconvert _ => Value.type_of_convert hconvert) ?_ hinit hw hT
  intro T parts hlength hparts hT
  refine ValueType.type_assemble hT hlength fun i part U hpart hslot => ?_
  have hU : U = .void ∨ U.Storable := by
    rcases hT with rfl | hT
    · exact .inl (ValueType.eq_of_singleton hslot).2.symm
    · exact .inr (hT.slots (List.mem_of_getElem? hslot))
  rcases hparts i part U hpart hslot with rfl | hpart
  · rcases hU with rfl | hU
    · rfl
    · exact hU.zero_hasType.type_eq
  · exact hpart hU

/-- Where every name can be read, what is built for a type of variables is of that type with all of
its parts. -/
theorem Builds.hasType (hinit : init.quiet = true) (hw : init.Builds ctx m T w)
    (hnames : m.env.Readable) (hT : T.Storable) : w.HasType T := by
  refine Builds.induction (P := fun T w => T.Storable → w.HasType T) ?_ ?_ hinit hw hT
  · intro e v T w he hv hconvert hT
    rcases hnames.value he hv with rfl | hformed
    · exact Value.hasType_of_convert (.inl rfl) hconvert
    · obtain ⟨hw, htype⟩ := hformed.convert hconvert
      exact hw.hasType hT htype
  · intro T parts hlength hparts hT
    refine hT.assemble_hasType hlength fun i part U hpart hslot => ?_
    have hU : U.Storable := hT.slots (List.mem_of_getElem? hslot)
    rcases hparts i part U hpart hslot with rfl | hpart
    · exact hU.zero_hasType
    · exact hpart hU

end Initializer

/-- A tree of initializers without side effects builds a value if and only if no brace list has
more items than its type has slots, and every leaf yields a value that can be converted to the type
of the slot it lands on. The value has the type. At the end of the path of a leaf it holds the
converted value of the leaf, and what no leaf reaches is zero. The machine stays as it is in any
case. -/
theorem aggregates_are_filled (ctx : Context σ) (m : Machine σ) (init : Initializer) (T : ValueType)
    (hinit : init.quiet = true) (fuel : Nat) (hfuel : (Task.build init T).weight < fuel) :
    ((∃ w, Exec.build ctx fuel init T m = .ok w m) ∨
        ∃ error span, Exec.build ctx fuel init T m = .error (.fault error span) m) ∧
      ((∃ w, Exec.build ctx fuel init T m = .ok w m) ↔
        ¬init.Crowded T ∧ ∀ path e U, init.Lands T path e U →
          ∃ v u, Exec.eval ctx fuel e m = .ok v m ∧ v.convert U = .ok u) ∧
      ∀ w, Exec.build ctx fuel init T m = .ok w m →
        (T = .void ∨ T.Storable → w.type = T) ∧
        (T.Storable → m.env.Readable → w.HasType T) ∧
        (∀ path e U, init.Lands T path e U → ∃ v u, Exec.eval ctx fuel e m = .ok v m ∧
          v.convert U = .ok u ∧ w.follow path = .ok u) ∧
        ∀ path U, T.at? path = some U →
          (∀ path' e V, init.Lands T path' e V → ¬path' <+: path ∧ ¬path <+: path') →
          w.follow path = .ok U.zero := by
  have hbuild : ∀ w, Exec.build ctx fuel init T m = .ok w m ↔ init.Builds ctx m T w := fun w =>
    ⟨fun h => ⟨fuel, h⟩, fun h => Task.ComesTo.run_eq h hinit hfuel⟩
  -- The leaves are evaluated with fewer steps inside the tree, which makes no difference.
  have heval : ∀ {path e U v}, init.Lands T path e U → (Task.eval e).ComesTo ctx m v →
      Exec.eval ctx fuel e m = .ok v m := by
    intro path e U v hlands hv
    obtain ⟨hquiet, hheight⟩ := hlands.leaf_of_tree hinit
    rw [Task.weight] at hfuel
    exact Task.ComesTo.run_eq hv hquiet (show 2 * e.height + 1 < fuel by omega)
  refine ⟨Task.Quiet.outcome (t := .build init T) hinit ctx hfuel m, ⟨?_, ?_⟩, ?_⟩
  · rintro ⟨w, hw⟩
    rw [hbuild] at hw
    refine ⟨hw.not_crowded hinit, fun path e U hlands => ?_⟩
    obtain ⟨v, u, hv, hconvert, -⟩ := hw.lands hinit hlands
    exact ⟨v, u, heval hlands hv, hconvert⟩
  · rintro ⟨hroom, hleaves⟩
    obtain ⟨w, hw⟩ := Initializer.exists_builds hinit hroom fun path e U hlands => by
      obtain ⟨v, u, hv, hconvert⟩ := hleaves path e U hlands
      exact ⟨v, u, ⟨fuel, hv⟩, hconvert⟩
    exact ⟨w, (hbuild w).mpr hw⟩
  · intro w hw
    rw [hbuild] at hw
    refine ⟨hw.type_eq hinit, fun hT hnames => hw.hasType hinit hnames hT, ?_, ?_⟩
    · intro path e U hlands
      obtain ⟨v, u, hv, hconvert, hfollow⟩ := hw.lands hinit hlands
      exact ⟨v, u, heval hlands hv, hconvert, hfollow⟩
    · exact fun path U hpath h => hw.unreached hinit hpath h

/-- The initializer `{{{321}}, s}`. -/
def Initializer.shortWords : Initializer :=
  .list [.list [.list [.expr (.literal (.int 321) default)] default] default,
    .expr (.name "s" default)] default

/-- Of three records, the first starts with the byte of 321 and goes on with zero, the second is a
copy of `s`, and the third is zero. -/
theorem aggregates_are_filled_shortWords :
    Initializer.shortWords.quiet = true ∧
      ∃ w, Exec.build ⟨TypeTable.empty, FunctionTable.empty, {}, Sink.recording⟩ 20
          Initializer.shortWords (.array Session.wordType 3) ⟨Session.wordDeclared.env, #[]⟩ =
            .ok w ⟨Session.wordDeclared.env, #[]⟩ ∧
        w.HasType (.array Session.wordType 3) ∧
        w.follow [.elem 0, .field 0, .elem 0] = .ok (.char 65) ∧
        w.follow [.elem 0, .field 0, .elem 1] = .ok (.char 0) ∧
        w.follow [.elem 1] = .ok Session.wordType.zero ∧
        w.follow [.elem 2] = .ok Session.wordType.zero := by
  have hnames : Session.wordDeclared.env.Readable :=
    (Session.sound_start.of_reaches Session.reaches_wordDeclared).1.env.readable
  have hlands : ∀ {path e V}, Initializer.shortWords.Lands (.array Session.wordType 3) path e V →
      path = [.elem 0, .field 0, .elem 0] ∨ path = [.elem 1] := by
    -- The leaves are the literal, three lists deep, and `s`.
    rintro path e V (_ | @⟨_, _, _, _, _, _ | _ | i, _, _, _, hitem, hslot, h⟩)
    · cases hitem
      cases hslot
      rcases h with _ | @⟨_, _, _, _, _, _ | i, _, _, _, hitem, hslot, h⟩
      · cases hitem
        cases hslot
        rcases h with _ | @⟨_, _, _, _, _, _ | i, _, _, _, hitem, hslot, h⟩
        · cases hitem
          cases h
          exact .inl rfl
        · cases hitem
      · cases hitem
    · cases hitem
      cases h
      exact .inr rfl
    · cases hitem
  obtain ⟨-, -, h⟩ := aggregates_are_filled
    ⟨TypeTable.empty, FunctionTable.empty, {}, Sink.recording⟩ ⟨Session.wordDeclared.env, #[]⟩
    Initializer.shortWords (.array Session.wordType 3) rfl 20 (by decide)
  obtain ⟨-, htyped, hleaves, hzero⟩ := h _ rfl
  refine ⟨rfl, _, rfl, htyped (.array (by decide) Session.storable_wordType) hnames, ?_, ?_, ?_, ?_⟩
  · -- what the literal is converted to
    obtain ⟨v, u, hv, hu, hfollow⟩ := hleaves [.elem 0, .field 0, .elem 0] _ .char
      (.item rfl rfl (.item rfl rfl (.item rfl rfl (.leaf _ _))))
    cases hv
    cases hu
    exact hfollow
  · -- No leaf lands on the byte behind it.
    refine hzero _ .char rfl fun path' e V h => ?_
    rcases hlands h with rfl | rfl <;> decide
  · -- the copy of `s`
    obtain ⟨v, u, hv, hu, hfollow⟩ := hleaves [.elem 1] _ Session.wordType
      (.item rfl rfl (.leaf _ _))
    cases hv
    cases hu
    exact hfollow
  · -- No leaf lands in the third record.
    refine hzero _ Session.wordType rfl fun path' e V h => ?_
    rcases hlands h with rfl | rfl <;> decide

end SmallCpp
