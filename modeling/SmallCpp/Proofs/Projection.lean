import SmallCpp.Proofs.Lens
import SmallCpp.Proofs.Quiet
import SmallCpp.Proofs.Typing.Run

/-!
# Two ways to a part of a variable

An element or a field of a variable can be reached in two ways. The evaluator goes from place to
place and reads the last one. Where the base is no place, it takes the value of the base as a whole
and projects it. `Store.element_cases` and `Store.member_cases` compare one step of the two: from a
place that holds a well-formed value both lead to the same part, or both fail with the same error.
`Exec.projected` evaluates a whole expression by projections only, and `Exec.projected_of_place`
carries the comparison from step to step. Wherever every name can be read, all values of expressions
without side effects are well formed (`Environment.Readable.value`).
-/

namespace SmallCpp

variable {σ : Type}

/-! ## Well-formed values and values of a type -/

namespace Value

variable {v : Value} {T : ValueType}

/-- Only a type of variables has values. -/
theorem HasType.storable (h : v.HasType T) : T.Storable := by
  induction h with
  | int n => exact .int
  | bool b => exact .bool
  | char c => exact .char
  | @array elems elem length hlength hpos helems ih =>
    -- There is an element, and it tells the type of all.
    have hfirst : elems[0]? = some elems[0] := List.getElem?_eq_getElem (by omega)
    exact .array hpos (ih _ (List.mem_of_getElem? hfirst))
  | @record name layout fields hlength hfields ih =>
    refine .record fun f hf => ?_
    obtain ⟨i, hi, hget⟩ := List.getElem_of_mem hf
    have hfield : fields[i]? = some fields[i] := List.getElem?_eq_getElem (by omega)
    exact ih i _ f hfield (List.getElem?_eq_some_iff.mpr ⟨hi, hget⟩)

/-- A value of a type is well formed. -/
theorem HasType.wellFormed (h : v.HasType T) : v.WellFormed := by
  induction h with
  | int n => exact .int n
  | bool b => exact .bool b
  | char c => exact .char c
  | array hlength hpos helems ih =>
    exact .array ih fun v hv w hw => (helems v hv).type_eq.trans (helems w hw).type_eq.symm
  | @record name layout fields hlength hfields ih =>
    refine .record hlength (fun v hv => ?_) fun i v f hv hf => ?_
    · obtain ⟨i, hi, hget⟩ := List.getElem_of_mem hv
      have hfield : layout[i]? = some layout[i] := List.getElem?_eq_getElem (by omega)
      exact ih i v _ (List.getElem?_eq_some_iff.mpr ⟨hi, hget⟩) hfield
    · have hv := hfields i v f hv hf
      rw [hv.type_eq, hv.storable.zero_hasType.type_eq]

/-- A well-formed value has the type that is read off it, if that is a type of variables. -/
theorem WellFormed.hasType (hv : v.WellFormed) (hT : T.Storable) (htype : v.type = T) :
    v.HasType T := by
  induction hv generalizing T with
  | int n => exact htype ▸ .int n
  | bool b => exact htype ▸ .bool b
  | char c => exact htype ▸ .char c
  | @array elems helems huniform ih =>
    cases elems with
    | nil =>
      -- The array without elements counts as one of `int`, but no variable holds it.
      subst htype
      cases hT with
      | array hpos _ => omega
    | cons first rest =>
      subst htype
      cases hT with
      | array hpos helem =>
        refine .array (List.length_cons ..) hpos fun w hw => ih w hw helem ?_
        exact huniform w hw first (List.mem_cons_self ..)
  | @record name layout fields hlength hfields htypes ih =>
    subst htype
    cases hT with
    | record hstorable =>
      refine .record hlength fun i w f hw hf => ?_
      have hf' : f.2.Storable := hstorable f (List.mem_of_getElem? hf)
      have htype : w.type = f.2 := by rw [htypes i w f hw hf, hf'.zero_hasType.type_eq]
      exact ih w (List.mem_of_getElem? hw) hf' htype

end Value

/-! ## One step -/

namespace Store

variable {s : Store} {p : Place} {v : Value}

/-- From a place that can be read, an element is reached as it is taken out of the array there. -/
theorem element_cases (hread : s.read p = .ok v) (i : Int64) :
    (∃ q step w, s.element p i = .ok q ∧ v.part? step = some w ∧ s.read q = .ok w ∧
      v.element i = .ok w) ∨
    ∃ e, s.element p i = .error e ∧ v.element i = .error e := by
  rw [element, hread]
  cases v with
  | array elems =>
    dsimp only [bind, Except.bind, Value.element]
    cases hslot : Value.slot? i elems.length with
    | none => exact .inr ⟨_, rfl, rfl⟩
    | some slot =>
      have hlt : slot < elems.length := Value.lt_of_slot? hslot
      have hget : elems[slot]? = some elems[slot] := List.getElem?_eq_getElem hlt
      refine .inl ⟨_, .elem slot, elems[slot], rfl, hget, read_extend hread hget, ?_⟩
      rw [Option.bind_some, hget]
  | _ => exact .inr ⟨_, rfl, rfl⟩

/-- From a place that holds a well-formed value, a field is reached as it is taken out of the
record there. -/
theorem member_cases (hread : s.read p = .ok v) (hv : v.WellFormed) (id : String) :
    (∃ q step w, s.member p id = .ok q ∧ v.part? step = some w ∧ s.read q = .ok w ∧
      v.member id = .ok w) ∨
    ∃ e, s.member p id = .error e ∧ v.member id = .error e := by
  rw [member, hread]
  cases hv with
  | @record name layout fields hlength _ _ =>
    dsimp only [bind, Except.bind, Value.member]
    cases hslot : Layout.indexOf? layout id with
    | none => exact .inr ⟨_, rfl, rfl⟩
    | some slot =>
      -- The layout names the field, and the record has a value for it.
      have hlt : slot < layout.length := (List.findIdx?_eq_some_iff_getElem.mp hslot).1
      have hget : fields[slot]? = some fields[slot] := List.getElem?_eq_getElem (by omega)
      refine .inl ⟨_, .field slot, fields[slot], rfl, hget, read_extend hread hget, ?_⟩
      rw [Option.bind_some, hget]
  | _ => exact .inr ⟨_, rfl, rfl⟩

/-- To go to an element and read it is to take it out of the array. -/
theorem read_of_element (hread : s.read p = .ok v) (i : Int64) :
    (s.element p i >>= s.read) = v.element i := by
  rcases element_cases hread i with ⟨q, _, w, hq, -, hw, helem⟩ | ⟨e, hp, helem⟩
  · rw [hq, helem]
    exact hw
  · rw [hp, helem]
    rfl

/-- To go to a field and read it is to take it out of the record. -/
theorem read_of_member (hread : s.read p = .ok v) (hv : v.WellFormed) (id : String) :
    (s.member p id >>= s.read) = v.member id := by
  rcases member_cases hread hv id with ⟨q, _, w, hq, -, hw, hfield⟩ | ⟨e, hp, hfield⟩
  · rw [hq, hfield]
    exact hw
  · rw [hp, hfield]
    rfl

end Store

/-! ## Environments in which every name can be read -/

namespace Environment

/-- Every name that is found stands for a place that holds a well-formed value. -/
def Readable (env : Environment) : Prop :=
  ∀ id p, env.lookup id = .ok p → ∃ v, env.store.read p = .ok v ∧ v.WellFormed

variable {env : Environment}

/-- In a sound environment every name can be read. -/
theorem Sound.readable (h : env.Sound) : env.Readable := by
  intro id p hp
  obtain ⟨entry, hentry, rfl⟩ := exists_entry_of_lookup hp
  obtain ⟨hcell, v, hv⟩ := h.entries entry hentry
  exact ⟨v, hv, (h.store _ hcell).follow hv⟩

/-- In an environment that agrees with declarations every name can be read. -/
theorem Typed.readable {d : Declared} (h : env.Typed d) : env.Readable := by
  intro id p hp
  obtain ⟨T, hT⟩ := (h.lookup id).2 p hp
  obtain ⟨v, hv, hvT⟩ := h.store.read hT
  exact ⟨v, hv, hvT.wellFormed⟩

end Environment

/-- Every name can be read in every state of a run. -/
theorem Program.readable_of_reaches {source : String} {p : Program}
    (hp : Program.parse source = .ok p) {options : RunOptions} {sink : Sink σ} {fuel : Nat} {s : σ}
    {m : Machine σ} (h : p.Reaches options sink fuel s m) : m.env.Readable := by
  obtain ⟨k, hk⟩ := h
  rw [Program.history] at hk
  cases hctx : p.context options sink with
  | error stop =>
    rw [hctx] at hk
    cases hk
  | ok ctx =>
    rw [hctx] at hk
    have hends := typing.ends (Program.holds_of_parse hp) hctx fuel s
    obtain ⟨_, -, -, hfinal⟩ := Discipline.inv_finalState hends
    -- What has happened before a moment stands behind it in the history.
    obtain ⟨later, past, hsplit⟩ := List.append_of_mem hk
    have hsound := hfinal.history.of_suffix ⟨later, hsplit.symm⟩
    exact hsound.1.readable

/-! ## Values of quiet expressions -/

namespace Value

variable {v w : Value}

/-- A sound value is `void` or well formed. -/
theorem Sound.wellFormed (h : v.Sound) : v = .void ∨ v.WellFormed :=
  h.imp_right fun ⟨_, hT⟩ => hT.wellFormed

/-- The elements of a well-formed array are well formed. -/
theorem WellFormed.element (hv : v.WellFormed) {i : Int64} (h : v.element i = .ok w) :
    w.WellFormed := by
  cases hv with
  | @array elems helems _ =>
    rw [Value.element] at h
    split at h
    · next elem helem =>
      obtain ⟨slot, -, hslot⟩ := Option.bind_eq_some_iff.mp helem
      cases h
      exact helems w (List.mem_of_getElem? hslot)
    · cases h
  | _ => cases h

/-- The fields of a well-formed record are well formed. -/
theorem WellFormed.member (hv : v.WellFormed) {id : String} (h : v.member id = .ok w) :
    w.WellFormed := by
  cases hv with
  | @record name layout fields _ hfields _ =>
    rw [Value.member] at h
    split at h
    · next field hfield =>
      obtain ⟨slot, -, hslot⟩ := Option.bind_eq_some_iff.mp hfield
      cases h
      exact hfields w (List.mem_of_getElem? hslot)
    · cases h
  | _ => cases h

end Value

namespace Store

variable {s : Store} {p q : Place} {v : Value}

/-- At an element that was gone to, a value can be read. -/
theorem exists_read_of_element {i : Int64} (hread : s.read p = .ok v) (hv : v.WellFormed)
    (h : s.element p i = .ok q) : ∃ w, s.read q = .ok w ∧ w.WellFormed := by
  rcases element_cases hread i with ⟨q', step, w, hq, hpart, hw, -⟩ | ⟨e, he, -⟩
  · rw [h] at hq
    cases hq
    exact ⟨w, hw, hv.of_part? hpart⟩
  · rw [h] at he
    cases he

/-- At a field that was gone to, a value can be read. -/
theorem exists_read_of_member {id : String} (hread : s.read p = .ok v) (hv : v.WellFormed)
    (h : s.member p id = .ok q) : ∃ w, s.read q = .ok w ∧ w.WellFormed := by
  rcases member_cases hread hv id with ⟨q', step, w, hq, hpart, hw, -⟩ | ⟨e, he, -⟩
  · rw [h] at hq
    cases hq
    exact ⟨w, hw, hv.of_part? hpart⟩
  · rw [h] at he
    cases he

end Store

namespace Environment.Readable

variable {ctx : Context σ} {m : Machine σ} {e : Expr}

/-- Where every name can be read, a quiet expression leads to places that hold a well-formed
value. -/
theorem place (hnames : m.env.Readable) (he : e.quiet = true) {p : Place}
    (h : (Task.place e).ComesTo ctx m p) :
    ∃ v, m.env.store.read p = .ok v ∧ v.WellFormed := by
  fun_induction Expr.isPlace e generalizing p with
  | case1 id span =>
    rw [Task.Quiet.comesTo_iff (t := .place (.name id span)) he] at h
    exact hnames id p (Script.comesTo_query.mp h)
  | case2 base subscript span ih =>
    rw [Task.Quiet.comesTo_iff (t := .place (.index base subscript span)) he] at h
    obtain ⟨q, hq, i, -, hrest⟩ := h
    obtain ⟨k, -, hk⟩ := (Script.comesTo_bind (s := .lift (Value.asInt i))).mp hrest
    obtain ⟨v, hread, hv⟩ := ih (Bool.and_eq_true_iff.mp he).1 hq
    exact Store.exists_read_of_element hread hv (Script.comesTo_query.mp hk)
  | case3 base id span ih =>
    rw [Task.Quiet.comesTo_iff (t := .place (.field base id span)) he] at h
    obtain ⟨q, hq, hmember⟩ := h
    obtain ⟨v, hread, hv⟩ := ih he hq
    exact Store.exists_read_of_member hread hv (Script.comesTo_query.mp hmember)
  -- Nothing else names storage.
  | case4 e hname hindex hfield =>
    rw [Task.Quiet.comesTo_iff (t := .place e) he] at h
    cases e with
    | name id span => exact absurd rfl (hname id span)
    | index base subscript span => exact absurd rfl (hindex base subscript span)
    | field base id span => exact absurd rfl (hfield base id span)
    | _ => exact h.elim

/-- Where every name can be read, a quiet expression yields nothing or a well-formed value. -/
theorem value (hnames : m.env.Readable) (he : e.quiet = true) {v : Value}
    (h : (Task.eval e).ComesTo ctx m v) : v = .void ∨ v.WellFormed := by
  -- The value of a base that is no place is projected; what lies in a place is known.
  have hread : ∀ {e : Expr} {v}, e.quiet = true →
      (∃ p, (Task.place e).ComesTo ctx m p ∧ (Script.query (.read p)).ComesTo ctx m v) →
      v.WellFormed := by
    rintro e v he ⟨p, hp, hv⟩
    obtain ⟨w, hw, hformed⟩ := hnames.place he hp
    have hv : m.env.store.read p = .ok v := Script.comesTo_query.mp hv
    rw [hv] at hw
    cases hw
    exact hformed
  fun_induction Expr.isPlace e generalizing v with
  | case1 id span =>
    rw [Task.Quiet.comesTo_iff (t := .eval (.name id span)) he] at h
    have hget : m.env.get id = .ok v := Script.comesTo_query.mp h
    obtain ⟨p, hp, hread⟩ := Except.bind_eq_ok hget
    obtain ⟨w, hw, hformed⟩ := hnames id p hp
    rw [hread] at hw
    cases hw
    exact .inr hformed
  | case2 base subscript span ih =>
    rw [Task.Quiet.comesTo_iff (t := .eval (.index base subscript span)) he] at h
    have h : Script.ComesTo ctx m (if base.isPlace then _ else _) v := h
    split_ifs at h with hbase
    · exact .inr (hread he h)
    · obtain ⟨u, hu, i, -, hrest⟩ := h
      obtain ⟨k, -, hk⟩ := (Script.comesTo_bind (s := .lift (Value.asInt i))).mp hrest
      have helem : u.element k = .ok v := Script.comesTo_lift.mp hk
      rcases ih (Bool.and_eq_true_iff.mp he).1 hu with rfl | hformed
      · cases helem
      · exact .inr (hformed.element helem)
  | case3 base id span ih =>
    rw [Task.Quiet.comesTo_iff (t := .eval (.field base id span)) he] at h
    have h : Script.ComesTo ctx m (if base.isPlace then _ else _) v := h
    split_ifs at h with hbase
    · exact .inr (hread he h)
    · obtain ⟨u, hu, hmember⟩ := h
      have hmember : u.member id = .ok v := Script.comesTo_lift.mp hmember
      rcases ih he hu with rfl | hformed
      · cases hmember
      · exact .inr (hformed.member hmember)
  | case4 e hname hindex hfield =>
    rw [Task.Quiet.comesTo_iff (t := .eval e) he] at h
    refine Value.Sound.wellFormed ?_
    cases e with
    | name id span => exact absurd rfl (hname id span)
    | index base subscript span => exact absurd rfl (hindex base subscript span)
    | field base id span => exact absurd rfl (hfield base id span)
    | literal lit span =>
      obtain rfl := Script.comesTo_pure.mp h
      cases lit <;> exact .inr ⟨_, by constructor⟩
    | binary op left right span =>
      have hright : (do
          let r ← Script.task (.eval right)
          return Value.bool (← Script.lift (Value.asBool r))).ComesTo ctx m v → v.Sound := by
        rintro ⟨r, -, hr⟩
        obtain ⟨b, -, rfl⟩ := (Script.comesTo_bind (s := .lift (Value.asBool r))).mp hr
        exact Value.sound_bool b
      rcases op with op | op | ⟨⟨⟩⟩
      · obtain ⟨l, -, r, -, hv⟩ := h
        exact ArithOp.sound_of_apply (Script.comesTo_lift.mp hv)
      · obtain ⟨l, -, r, -, hv⟩ := h
        exact CompareOp.sound_of_apply (Script.comesTo_lift.mp hv)
      · obtain ⟨l, -, hl⟩ := h
        obtain ⟨b, -, hb⟩ := (Script.comesTo_bind (s := .lift (Value.asBool l))).mp hl
        cases b with
        | true => exact hright hb
        | false => exact hb ▸ Value.sound_bool false
      · obtain ⟨l, -, hl⟩ := h
        obtain ⟨b, -, hb⟩ := (Script.comesTo_bind (s := .lift (Value.asBool l))).mp hl
        cases b with
        | true => exact hb ▸ Value.sound_bool true
        | false => exact hright hb
    | unary op operand span =>
      obtain ⟨u, -, hu⟩ := h
      exact UnaryOp.sound_of_apply (Script.comesTo_lift.mp hu)
    | assign | step | call => cases he

end Environment.Readable

/-! ## Whole expressions -/

/-- Two parts of a program come to a place and to the well-formed value that it holds, or both stop
for the same reason. Neither changes the machine. -/
inductive Meets (m : Machine σ) :
    EStateM.Result Stop (Machine σ) Place → EStateM.Result Stop (Machine σ) Value → Prop
  | found {p : Place} {v : Value} (hread : m.env.store.read p = .ok v) (hv : v.WellFormed) :
    Meets m (.ok p m) (.ok v m)
  | stopped (stop : Stop) : Meets m (.error stop m) (.error stop m)

namespace Meets

variable {m : Machine σ} {p : Place} {v : Value} {r : EStateM.Result Stop (Machine σ) Value}

/-- Both go on from the place and from its value. -/
theorem bind {x : Exec σ Place} {y : Exec σ Value} {f : Place → Exec σ Place}
    {g : Value → Exec σ Value} (hxy : Meets m (x m) (y m))
    (hfg : ∀ p v, m.env.store.read p = .ok v → v.WellFormed → Meets m (f p m) (g v m)) :
    Meets m ((x >>= f) m) ((y >>= g) m) := by
  rw [EStateM.bind_apply, EStateM.bind_apply]
  generalize x m = r at hxy
  generalize y m = r' at hxy
  cases hxy with
  | found hread hv => exact hfg _ _ hread hv
  | stopped stop => exact .stopped stop

/-- Both do the same first, which changes nothing. -/
theorem after {α : Type} {x : Exec σ α} {f : α → Exec σ Place} {g : α → Exec σ Value}
    (hx : finalState (x m) = m) (hfg : ∀ a, Meets m (f a m) (g a m)) :
    Meets m ((x >>= f) m) ((x >>= g) m) := by
  rw [EStateM.bind_apply, EStateM.bind_apply]
  cases hr : x m with
  | ok a m' =>
    rw [hr] at hx
    obtain rfl : m' = m := hx
    exact hfg a
  | error stop m' =>
    rw [hr] at hx
    obtain rfl : m' = m := hx
    exact .stopped stop

/-- A name stands for a place that holds its value. -/
theorem name (hnames : m.env.Readable) (id : String) :
    Meets m (Exec.ask (·.lookup id) m) (Exec.ask (·.get id) m) := by
  rw [Exec.ask, Exec.ask, Environment.get]
  cases hp : m.env.lookup id with
  | error e => exact .stopped _
  | ok p =>
    obtain ⟨v, hread, hv⟩ := hnames id p hp
    dsimp only [Bind.bind, Except.bind]
    rw [hread]
    exact .found hread hv

/-- To go to an element in the store meets taking it out of the value. -/
theorem element (hread : m.env.store.read p = .ok v) (hv : v.WellFormed) (i : Int64) :
    Meets m (Exec.ask (·.store.element p i) m) (Exec.lift (v.element i) m) := by
  rw [Exec.ask]
  rcases Store.element_cases hread i with ⟨q, step, w, hq, hw, hread', helem⟩ | ⟨e, hp, he⟩
  · rw [hq, helem]
    exact .found hread' (hv.of_part? hw)
  · rw [hp, he]
    exact .stopped _

/-- To go to a field in the store meets taking it out of the value. -/
theorem member (hread : m.env.store.read p = .ok v) (hv : v.WellFormed) (id : String) :
    Meets m (Exec.ask (·.store.member p id) m) (Exec.lift (v.member id) m) := by
  rw [Exec.ask]
  rcases Store.member_cases hread hv id with ⟨q, step, w, hq, hw, hread', hfield⟩ | ⟨e, hp, he⟩
  · rw [hq, hfield]
    exact .found hread' (hv.of_part? hw)
  · rw [hp, he]
    exact .stopped _

/-- To read the place gives what the other part yields. -/
theorem read_eq {x : Exec σ Place} (h : Meets m (x m) r) :
    (x >>= fun p => Exec.ask (·.store.read p)) m = r := by
  rw [EStateM.bind_apply]
  generalize x m = r' at h
  cases h with
  | found hread hv =>
    dsimp only
    rw [Exec.ask, hread]
    rfl
  | stopped stop => rfl

end Meets

namespace Exec

variable (ctx : Context σ)

/-- The value of an expression by projections only: the value of every base is taken as a whole, and
the element or the field is taken out of it. -/
def projected (fuel : Nat) : Expr → Exec σ Value
  | .index base subscript _ => do
    let v ← projected fuel base
    let i ← eval ctx fuel subscript
    lift (v.element (← lift i.asInt))
  | .field base id _ => do
    let v ← projected fuel base
    lift (v.member id)
  | e => eval ctx fuel e

variable {ctx} {m : Machine σ}

/-- The place of an expression holds what the projections come to. The bases of a place are
evaluated with fewer steps than the place itself, which makes no difference. -/
theorem projected_of_place (hnames : m.env.Readable) {e : Expr} (hplace : e.isPlace = true)
    (hquiet : e.quiet = true) {fuel fuel' : Nat} (hfuel : (Task.place e).weight < fuel)
    (hfuel' : (Task.place e).weight < fuel') :
    Meets m (place ctx fuel e m) (projected ctx fuel' e m) := by
  -- On the bases of the expression; `fuel` goes down with each of them, `fuel'` stays.
  fun_induction Expr.isPlace e generalizing fuel with
  | case1 id span =>
    obtain ⟨n, rfl⟩ : ∃ n, fuel = n + 1 := ⟨fuel - 1, by omega⟩
    obtain ⟨n', rfl⟩ : ∃ n', fuel' = n' + 1 := ⟨fuel' - 1, by omega⟩
    exact Meets.name hnames id
  | case2 base subscript span ih =>
    obtain ⟨hbase, hsubscript⟩ := Bool.and_eq_true_iff.mp hquiet
    simp only [Task.weight, Expr.height] at hfuel hfuel' ih
    obtain ⟨n, rfl⟩ : ∃ n, fuel = n + 1 := ⟨fuel - 1, by omega⟩
    have hmeets := ih hplace hbase (show 2 * base.height < n by omega) (by omega)
    -- The subscript yields the same on both ways.
    have hn : (Task.eval subscript).weight < n := by rw [Task.weight]; omega
    have hn' : (Task.eval subscript).weight < fuel' := by rw [Task.weight]; omega
    have hstays : finalState (eval ctx fuel' subscript m) = m :=
      Task.Quiet.finalState_run (t := .eval subscript) hsubscript ctx fuel' m
    rw [place, projected, eval_eq hsubscript ctx hn hn']
    refine hmeets.bind fun p v hread hv => .after hstays fun i => ?_
    refine .after ?_ fun k => .element hread hv k
    cases i.asInt <;> rfl
  | case3 base id span ih =>
    simp only [Task.weight, Expr.height] at hfuel hfuel' ih
    obtain ⟨n, rfl⟩ : ∃ n, fuel = n + 1 := ⟨fuel - 1, by omega⟩
    have hmeets := ih hplace hquiet (show 2 * base.height < n by omega) (by omega)
    rw [place, projected]
    exact hmeets.bind fun p v hread hv => .member hread hv id
  | case4 e => cases hplace

/-- The evaluator goes to a place and reads it. -/
theorem eval_of_isPlace {e : Expr} (hplace : e.isPlace = true) (fuel : Nat) :
    eval ctx (fuel + 2) e = place ctx (fuel + 1) e >>= fun p => ask (·.store.read p) := by
  cases e with
  | name id span =>
    funext m
    rw [eval, place, EStateM.bind_apply, ask, ask, Environment.get]
    cases m.env.lookup id <;> rfl
  | index base subscript span =>
    rw [eval]
    exact if_pos hplace
  | field base id span =>
    rw [eval]
    exact if_pos hplace
  | _ => cases hplace

end Exec

/-- To go to a part of a place and read it is to take the part out of the value there, with the same
result or the same error. So a place expression, whose subscripts have no side effects, is evaluated
through places as it is by projections, wherever every name can be read. That is the case in every
environment that is made by operations on well-formed values, and in every state of a run. -/
theorem places_agree_with_projections :
    (∀ (env : Environment) (p : Place) (v : Value), env.store.read p = .ok v → v.WellFormed →
      (∀ i : Int64, (env.store.element p i >>= env.store.read) = v.element i) ∧
        ∀ id : String, (env.store.member p id >>= env.store.read) = v.member id) ∧
      (∀ (σ : Type) (ctx : Context σ) (m : Machine σ) (e : Expr) (fuel : Nat), m.env.Readable →
        e.isPlace = true → e.quiet = true → (Task.eval e).weight < fuel →
        (Exec.place ctx fuel e >>= fun p => Exec.ask (·.store.read p)) m =
            Exec.projected ctx fuel e m ∧
          Exec.eval ctx fuel e m = Exec.projected ctx fuel e m) ∧
      (∀ s : Session, Session.start.Reaches s → s.env.Readable) ∧
      ∀ (source : String) (p : Program), Program.parse source = .ok p →
        ∀ (σ : Type) (options : RunOptions) (sink : Sink σ) (fuel : Nat) (s : σ) (m : Machine σ),
          p.Reaches options sink fuel s m → m.env.Readable := by
  refine ⟨fun env p v hread hv => ⟨Store.read_of_element hread, Store.read_of_member hread hv⟩,
    fun σ ctx m e fuel hnames hplace hquiet hfuel => ?_,
    fun s hs => (Session.sound_start.of_reaches hs).1.env.readable,
    fun source p hp σ options sink fuel s m hm => Program.readable_of_reaches hp hm⟩
  have hlight : (Task.place e).weight < (Task.eval e).weight := Nat.lt_succ_self _
  obtain ⟨n, rfl⟩ : ∃ n, fuel = n + 2 := ⟨fuel - 2, by omega⟩
  have hmeets : ∀ k, (Task.place e).weight < k →
      Meets m (Exec.place ctx k e m) (Exec.projected ctx (n + 2) e m) := fun k hk =>
    Exec.projected_of_place hnames hplace hquiet hk (by omega)
  refine ⟨(hmeets (n + 2) (by omega)).read_eq, ?_⟩
  rw [Exec.eval_of_isPlace hplace]
  exact (hmeets (n + 1) (by omega)).read_eq

namespace Session

/-- The type of `struct S { char b[2]; }`. -/
def wordType : ValueType :=
  .record "S" [("b", .array .char 2)]

/-- Such records can be stored. -/
theorem storable_wordType : wordType.Storable := by
  refine .record fun f hf => ?_
  obtain rfl := List.mem_singleton.mp hf
  exact .array (by decide) .char

/-- A call declares `s` as such a record, and `i` as one. -/
def wordDeclared : Session :=
  ((start.after (.pushFrame "f")).after (.declare "s" wordType.zero)).after (.declare "i" (.int 1))

/-- The session is reached by operations whose values are well formed. -/
theorem reaches_wordDeclared : start.Reaches wordDeclared := by
  refine .step (.step (.step (.refl start) ⟨nofun, nofun⟩) ⟨nofun, fun v hv => ?_⟩)
    ⟨nofun, fun v hv => ?_⟩
  · exact Option.some.inj hv ▸ storable_wordType.zero_hasType.wellFormed
  · exact Option.some.inj hv ▸ .int 1

end Session

/-- The expression `s.b[i - 2]`. -/
def beforeWord : Expr :=
  .index (.field (.name "s" default) "b" default)
    (.binary (.arith .sub) (.name "i" default) (.literal (.int 2) default) default) default

/-- Both ways to `s.b[i - 2]` fail by the same index, which lies in front of the array. -/
theorem places_agree_with_projections_beforeWord :
    Session.wordDeclared.env.Readable ∧ beforeWord.isPlace = true ∧ beforeWord.quiet = true ∧
      (Exec.place ⟨TypeTable.empty, FunctionTable.empty, {}, Sink.recording⟩ 10 beforeWord >>=
          fun p => Exec.ask (·.store.read p)) ⟨Session.wordDeclared.env, #[]⟩ =
        .error (.fault (.indexOutOfRange (-1) 2) none) ⟨Session.wordDeclared.env, #[]⟩ := by
  have hnames := places_agree_with_projections.2.2.1 _ Session.reaches_wordDeclared
  refine ⟨hnames, rfl, rfl, ?_⟩
  rw [(places_agree_with_projections.2.1 _ _ ⟨Session.wordDeclared.env, #[]⟩ beforeWord 10 hnames
    rfl rfl (by decide)).1]
  rfl

end SmallCpp
