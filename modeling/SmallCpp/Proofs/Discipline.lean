import SmallCpp.Proofs.Effect
import SmallCpp.Proofs.Errors
import SmallCpp.Proofs.History

/-!
# Disciplines

A discipline says what holds of every state of a run, what a task needs when it begins, what it
yields when it ends, and which errors it may stop with. All of this is said relative to a world,
which may grow while a task runs: the types of the cells made so far, for instance. The rules below
show of one script after another that it keeps to a discipline (`Discipline.Ensures`); if the
scripts of all tasks do, then so does every run (`Discipline.obeyed_record`). The induction on the
steps of the evaluator is made here, once for all disciplines.
-/

namespace SmallCpp

variable {σ α β W : Type}

/-- The outcome of a recorded run, in terms of its result or stop and where it ends. -/
def Ends (r : EStateM.Result Stop (Recorded σ) α) (Q : α → Recorded σ → Prop)
    (E : Stop → Recorded σ → Prop) : Prop :=
  match r with
  | .ok a y => Q a y
  | .error stop y => E stop y

/-- On the way out of an enclosure an error stays what it is. -/
theorem Stop.Is.mark {P : RuntimeError → Prop} {stop : Stop} (h : stop.Is P) (k : Enclosure) :
    (k.mark stop).Is P := by
  rcases stop with ⟨e, _ | span⟩ | _ <;> cases k <;> exact h

/-- What all states, tasks and errors of a run have to satisfy. -/
structure Discipline (σ W : Type) where
  /-- How the world may grow. -/
  grows : W → W → Prop
  /-- What holds of every state. -/
  inv : W → Recorded σ → Prop
  /-- What a task needs. -/
  ready : W → Task → Prop
  /-- What a task yields. -/
  yields : W → (t : Task) → t.Result → Prop
  /-- The errors that may be raised. -/
  allowed : RuntimeError → Prop
  grows_refl : ∀ w, grows w w
  grows_trans : ∀ {u v w}, grows u v → grows v w → grows u w
  begun : ∀ {w x t}, inv w x → ready w t → inv w (x.note (.begun t))
  ended : ∀ {w x t r}, inv w x → yields w t r → inv w (x.note (.ended t r))
  failed : ∀ {w x m e}, inv w x → m.env = x.machine.env → allowed e →
    inv w (x.move m (.failed (.fault e none)))

namespace Discipline

variable (D : Discipline σ W)

/-- A run that began in a world ends with a result in a world grown from it. -/
def Reaches (w : W) (Q : W → α → Prop) (a : α) (y : Recorded σ) : Prop :=
  ∃ w', D.grows w w' ∧ D.inv w' y ∧ Q w' a

/-- A run that began in a world stops by an error that may be raised. -/
def Stops (w : W) (stop : Stop) (y : Recorded σ) : Prop :=
  stop.Is D.allowed ∧ ∃ w', D.grows w w' ∧ D.inv w' y

/-- All tasks, performed in some way, keep to the discipline. -/
def Obeyed (perform : (t : Task) → Recording σ t.Result) : Prop :=
  ∀ t w x, D.inv w x → D.ready w t →
    Ends (perform t x) (D.Reaches w fun w' r => D.yields w' t r) (D.Stops w)

/-- A script keeps to the discipline if the tasks that it hands on do, and ends in `Q`. -/
def Ensures (ctx : Context σ) (w : W) (s : Script α) (Q : W → α → Prop) : Prop :=
  ∀ perform, D.Obeyed perform → ∀ x, D.inv w x →
    Ends (s.record ctx perform x) (D.Reaches w Q) (D.Stops w)

variable {D} {ctx : Context σ} {w : W} {Q : W → α → Prop}

/-- What stops after a part has stopped since the beginning. -/
theorem Stops.of_grows {w' : W} {stop : Stop} {y : Recorded σ} (h : D.Stops w' stop y)
    (hw : D.grows w w') : D.Stops w stop y := by
  obtain ⟨hstop, v, hv, hy⟩ := h
  exact ⟨hstop, v, D.grows_trans hw hv, hy⟩

/-- However a run ends, it ends in a world grown from the one in which it began. -/
theorem inv_finalState {r : EStateM.Result Stop (Recorded σ) α}
    (h : Ends r (D.Reaches w Q) (D.Stops w)) : ∃ w', D.grows w w' ∧ D.inv w' (finalState r) := by
  cases r with
  | ok a y =>
    obtain ⟨w', hw', hy, -⟩ := h
    exact ⟨w', hw', hy⟩
  | error stop y => exact h.2

/-- A run that stops does so by an error that may be raised. -/
theorem allowed_of_error {r : EStateM.Result Stop (Recorded σ) α} {stop : Stop} {y : Recorded σ}
    (h : Ends r (D.Reaches w Q) (D.Stops w)) (hr : r = .error stop y) : stop.Is D.allowed := by
  rw [hr] at h
  exact h.1

/-- A failure that may be raised ends the run where it is. -/
theorem stops_failed {x : Recorded σ} {e : RuntimeError} (hx : D.inv w x) (he : D.allowed e) :
    D.Stops w (.fault e none) (x.note (.failed (.fault e none))) :=
  ⟨he, w, D.grows_refl w, D.failed hx rfl he⟩

namespace Ensures

/-- A result is yielded at once. -/
theorem pure {a : α} (h : Q w a) : D.Ensures ctx w (pure a) Q :=
  fun _ _ _ hx => ⟨w, D.grows_refl w, hx, h⟩

/-- An error may be raised if it is allowed. -/
theorem fail {e : RuntimeError} (h : D.allowed e) : D.Ensures ctx w (Script.fail e) Q :=
  fun _ _ _ hx => stops_failed hx h

/-- What is ensured may be weakened, in every world that is grown. -/
theorem imp {P : W → α → Prop} {s : Script α} (h : D.Ensures ctx w s P)
    (hPQ : ∀ w' a, D.grows w w' → P w' a → Q w' a) : D.Ensures ctx w s Q := by
  intro perform hobeyed x hx
  have hs := h perform hobeyed x hx
  cases hr : s.record ctx perform x with
  | ok a y =>
    rw [hr] at hs
    obtain ⟨w', hw', hy, ha⟩ := hs
    exact ⟨w', hw', hy, hPQ w' a hw' ha⟩
  | error stop y =>
    rw [hr] at hs
    exact hs

/-- One script after another: the second starts in the world that the first ends in. -/
theorem bind {Q : W → β → Prop} {P : W → α → Prop} {s : Script α} {f : α → Script β}
    (hs : D.Ensures ctx w s P)
    (hf : ∀ w' a, D.grows w w' → P w' a → D.Ensures ctx w' (f a) Q) :
    D.Ensures ctx w (s >>= f) Q := by
  intro perform hobeyed x hx
  have h := hs perform hobeyed x hx
  rw [Script.record_bind]
  -- A stop of the first script is one of both; otherwise the worlds grow one after the other.
  cases hr : s.record ctx perform x with
  | error stop y =>
    rw [hr] at h
    exact h
  | ok a y =>
    rw [hr] at h
    obtain ⟨w', hw', hy, ha⟩ := h
    have h' := hf w' a hw' ha perform hobeyed y hy
    dsimp only
    cases hr' : (f a).record ctx perform y with
    | error stop z =>
      rw [hr'] at h'
      exact Stops.of_grows h' hw'
    | ok b z =>
      rw [hr'] at h'
      obtain ⟨w'', hw'', hz, hb⟩ := h'
      exact ⟨w'', D.grows_trans hw' hw'', hz, hb⟩

/-- A task that is ready yields what it yields. -/
theorem task {t : Task} (h : D.ready w t) :
    D.Ensures ctx w (α := no_index t.Result) (Script.task t) fun w' r => D.yields w' t r := by
  intro perform hobeyed x hx
  have ht := hobeyed t w x hx h
  rw [Script.record_task]
  exact ht

/-- A branch keeps to the discipline if both its sides do. -/
theorem ite {c : Prop} [Decidable c] {s t : Script α} (hs : c → D.Ensures ctx w s Q)
    (ht : ¬c → D.Ensures ctx w t Q) : D.Ensures ctx w (if c then s else t) Q := by
  split_ifs with hc
  · exact hs hc
  · exact ht hc

/-- A computation without state yields its result, if its errors are allowed. -/
theorem lift {r : Except RuntimeError α} (herr : ∀ e, r = .error e → D.allowed e) :
    D.Ensures ctx w (Script.lift r) fun _ a => r = .ok a := by
  cases r with
  | ok a => exact pure rfl
  | error e => exact fail (herr e rfl)

/-- A question is answered from the environment, about which the invariant says something. -/
theorem query {q : Query α} (hok : ∀ x a, D.inv w x → q.answer x.machine.env = .ok a → Q w a)
    (herr : ∀ x e, D.inv w x → q.answer x.machine.env = .error e → D.allowed e) :
    D.Ensures ctx w (Script.query q) Q := by
  intro perform _ x hx
  simp only [Script.query, Script.record]
  cases hq : q.answer x.machine.env with
  | ok a => exact ⟨w, D.grows_refl w, hx, hok x a hx hq⟩
  | error e => exact stops_failed hx (herr x e hx hq)

/-- A change of the machine has to lead back to the invariant, in a world that may have grown. -/
theorem effect {f : Effect} {Q : W → Unit → Prop}
    (hok : ∀ x m, D.inv w x → f.Changes x.machine m → D.Reaches w Q () (x.move m (.changed f)))
    (herr : ∀ x e, D.inv w x → f.Refuses x.machine.env e → D.allowed e) :
    D.Ensures ctx w (Script.effect f) Q := by
  intro perform _ x hx
  simp only [Script.effect, Script.record]
  cases hf : f.run ctx x.machine with
  | ok _ m => exact hok x m hx (Effect.changes_of_run hf)
  | error stop m =>
    obtain ⟨henv, e, rfl, he⟩ := Effect.refuses_of_run hf
    exact ⟨herr x e hx he, w, D.grows_refl w, D.failed hx henv (herr x e hx he)⟩

/-- A script in an enclosure starts in the world inside, and what it leaves behind has to be a world
grown from the one outside. -/
theorem enclosed {k : Enclosure} {w₁ : W} {P : W → α → Prop} {inner : Script α}
    (henter : ∀ x, D.inv w x → D.inv w₁ (x.move (k.enter x.machine) (.opened k)))
    (hinner : D.Ensures ctx w₁ inner P)
    (hleave : ∀ w₂ y, D.grows w₁ w₂ → D.inv w₂ y → ∃ w', D.grows w w' ∧
      D.inv w' (y.move (k.leave y.machine) (.closed k)) ∧ ∀ a, P w₂ a → Q w' a) :
    D.Ensures ctx w (Script.enclosed k inner) Q := by
  intro perform hobeyed x hx
  have h := hinner perform hobeyed _ (henter x hx)
  simp only [Script.enclosed, Script.record]
  -- The enclosure is left in both cases.
  cases hr : inner.record ctx perform (x.move (k.enter x.machine) (.opened k)) with
  | ok a y =>
    rw [hr] at h
    obtain ⟨w₂, hw₂, hy, ha⟩ := h
    obtain ⟨w', hw', hy', hQ⟩ := hleave w₂ y hw₂ hy
    exact ⟨w', hw', hy', hQ a ha⟩
  | error stop y =>
    rw [hr] at h
    obtain ⟨hstop, w₂, hw₂, hy⟩ := h
    obtain ⟨w', hw', hy', -⟩ := hleave w₂ y hw₂ hy
    exact ⟨hstop.mark k, w', hw', hy'⟩

/-- A condition is evaluated before one of two scripts is chosen. -/
theorem condition {e : Expr} {s t : Script α} (hready : D.ready w (.eval e))
    (hbool : ∀ v : Value, Raises D.allowed v.asBool)
    (hs : ∀ w', D.grows w w' → D.Ensures ctx w' s Q)
    (ht : ∀ w', D.grows w w' → D.Ensures ctx w' t Q) :
    D.Ensures ctx w (do if ← Script.lift (← Script.task (.eval e)).asBool then s else t) Q := by
  refine .bind (.task hready) fun w₁ c h₁ _ => ?_
  refine .bind (.lift (hbool c)) fun w₂ b h₂ _ => ?_
  exact .ite (fun _ => hs w₂ (D.grows_trans h₁ h₂)) fun _ => ht w₂ (D.grows_trans h₁ h₂)

end Ensures

/-- If the script of each task keeps to the discipline, then every run of a task does. -/
theorem obeyed_record
    (h : ∀ t w, D.ready w t → D.Ensures ctx w (t.script ctx) fun w' r => D.yields w' t r)
    (fuel : Nat) : D.Obeyed (Task.record ctx fuel) := by
  -- A task with one more step hands on tasks with one step less, which obey by induction.
  induction fuel with
  | zero => exact fun t w x hx _ => ⟨trivial, w, D.grows_refl w, hx⟩
  | succ fuel ih =>
    intro t w x hx ht
    have hs := h t w ht (Task.record ctx fuel) ih _ (D.begun hx ht)
    rw [Task.record_succ]
    cases hr : (t.script ctx).record ctx (Task.record ctx fuel) (x.note (.begun t)) with
    | error stop y =>
      rw [hr] at hs
      exact hs
    | ok r y =>
      rw [hr] at hs
      obtain ⟨w', hw', hy, hyields⟩ := hs
      exact ⟨w', hw', D.ended hy hyields, hyields⟩

end Discipline

end SmallCpp
