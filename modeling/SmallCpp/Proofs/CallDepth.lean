import SmallCpp.Proofs.Discipline
import SmallCpp.Proofs.Script.Shape
import SmallCpp.Proofs.Sinks
import SmallCpp.Proofs.Visibility

/-!
# The limit on calls

A limit on the calls that may be running at once does nothing but end some runs early. No state of a
run has more calls than the limit allows; a run that does not end by the limit is the same under
every higher limit and under none; and what a run ended by the limit has put out, the run under a
higher limit puts out first (`callDepth_le_and_run_of_limit`).

Only `Task.invoke` opens a frame, and it asks for the depth before. Everything else leaves the depth
as it is, which the shape of scripts tells.
-/

namespace SmallCpp

variable {σ α : Type}

/-! ## Depth -/

/-- No effect starts or ends a call. -/
theorem Effect.Changes.depth_eq {f : Effect} {m m' : Machine σ} (h : f.Changes m m') :
    m'.env.depth = m.env.depth := by
  cases f with
  | write p v =>
    obtain ⟨held, -, rfl⟩ := h
    rfl
  | declare name type v =>
    obtain ⟨-, rfl⟩ := h
    exact Environment.length_frames_bind _ name _
  | declareAlias name type p =>
    obtain ⟨-, rfl⟩ := h
    exact m.env.length_frames_bind name _
  | print p arg => exact congrArg Environment.depth h
  | checkDepth => exact congrArg (·.env.depth) h

/-- The check changes nothing, whether it succeeds or not. -/
theorem Effect.finalState_checkDepth (ctx : Context σ) (m : Machine σ) :
    finalState (checkDepth.run ctx m) = m := by
  rw [run_checkDepth]
  cases ctx.options.maxCallDepth with
  | none => rfl
  | some limit =>
    dsimp only
    split_ifs <;> rfl

/-- An enclosure that starts no call. -/
def Enclosure.Local (k : Enclosure) : Prop :=
  ∀ function, k ≠ .frame function

namespace Enclosure

/-- To enter a block or a statement starts no call. -/
theorem Local.depth_enter {k : Enclosure} (hk : k.Local) (m : Machine σ) :
    (k.enter m).env.depth = m.env.depth := by
  cases k with
  | scope => exact m.env.length_frames_enter
  | frame function => exact absurd rfl (hk function)
  | located span => rfl

/-- To leave one ends no call. -/
theorem Local.depth_leave {k : Enclosure} (hk : k.Local) (m : Machine σ) :
    (k.leave m).env.depth = m.env.depth := by
  cases k with
  | scope => exact m.env.length_frames_leave
  | frame function => exact absurd rfl (hk function)
  | located span => rfl

/-- A frame is one call more. -/
theorem depth_enter_frame (function : String) (m : Machine σ) :
    ((frame function).enter m).env.depth = m.env.depth + 1 := rfl

/-- When a frame is left, there is one call less. -/
theorem depth_leave_frame (function : String) (m : Machine σ) :
    ((frame function).leave m).env.depth = m.env.depth - 1 := List.length_tail

end Enclosure

/-- Only a call that is ready opens a frame. -/
theorem Task.Opens.local_of_ne {t : Task} {k : Enclosure} (h : t.Opens k)
    (ht : ∀ entry args, t ≠ .invoke entry args) : k.Local := by
  intro function hk
  subst hk
  cases h
  exact ht _ _ rfl

/-! ## No state has more calls than the limit allows -/

/-- Runs with at most `n` calls at once. The world is the number of calls, which is the same before
and after each task. -/
def callsWithin (σ : Type) (n : Nat) : Discipline σ Nat where
  grows := Eq
  -- Both the present state and all that the run has passed through.
  inv d x := x.machine.env.depth = d ∧ d ≤ n ∧ ∀ km ∈ x.history, km.2.env.depth ≤ n
  ready _ _ := True
  yields _ _ _ := True
  allowed _ := True
  grows_refl _ := rfl
  grows_trans := Eq.trans
  begun h _ := ⟨h.1, h.2.1, List.forall_mem_cons.mpr ⟨h.1 ▸ h.2.1, h.2.2⟩⟩
  ended h _ := ⟨h.1, h.2.1, List.forall_mem_cons.mpr ⟨h.1 ▸ h.2.1, h.2.2⟩⟩
  failed h henv _ := by
    have hdepth := congrArg Environment.depth henv
    exact ⟨hdepth.trans h.1, h.2.1, List.forall_mem_cons.mpr ⟨hdepth ▸ h.1 ▸ h.2.1, h.2.2⟩⟩

namespace callsWithin

variable {n d : Nat} {ctx : Context σ}

/-- A machine with as many calls as the limit allows may be reached. -/
theorem inv_move {x : Recorded σ} {d' : Nat} (hx : (callsWithin σ n).inv d x) {m : Machine σ}
    (hm : m.env.depth = d') (hd : d' ≤ n) (k : Moment) :
    (callsWithin σ n).inv d' (x.move m k) :=
  ⟨hm, hd, List.forall_mem_cons.mpr ⟨hm ▸ hd, hx.2.2⟩⟩

/-- An enclosure that starts no call. -/
theorem enclosed {k : Enclosure} (hk : k.Local) {inner : Script α}
    (h : (callsWithin σ n).Ensures ctx d inner fun _ _ => True) :
    (callsWithin σ n).Ensures ctx d (Script.enclosed k inner) fun _ _ => True := by
  refine .enclosed (fun x hx => ?_) h fun d' y hd hy => ⟨d, rfl, ?_, fun _ _ => trivial⟩
  · exact inv_move hx ((hk.depth_enter _).trans hx.1) hx.2.1 _
  · subst hd
    exact inv_move hy ((hk.depth_leave _).trans hy.1) hy.2.1 _

/-- A script that opens no frame leaves the number of calls as it is. -/
theorem of_shaped {T : Task → Prop} {s : Script α} (hs : s.Shaped Enclosure.Local T) :
    (callsWithin σ n).Ensures ctx d s fun _ _ => True := by
  induction s with
  | done a => exact .pure trivial
  | fail e => exact .fail trivial
  | ask q next ih =>
    refine .bind (s := Script.query q) (P := fun _ _ => True) ?_ fun d' b hd _ => hd ▸ ih b (hs b)
    exact .query (fun _ _ _ _ => trivial) fun _ _ _ _ => trivial
  | act f next ih =>
    refine .bind (s := Script.effect f) (f := fun _ => next) (P := fun _ _ => True) ?_
      fun d' _ hd _ => hd ▸ ih hs
    refine .effect (fun x m hx hm => ⟨d, rfl, ?_, trivial⟩) fun _ _ _ _ => trivial
    exact inv_move hx (hm.depth_eq.trans hx.1) hx.2.1 _
  | perform t next ih =>
    exact .bind (s := Script.task t) (.task trivial) fun d' r hd _ => hd ▸ ih r (hs.2 r)
  | within k inner next ihi ih =>
    exact .bind (s := Script.enclosed k inner) (enclosed hs.1 (ihi hs.2.1))
      fun d' b hd _ => hd ▸ ih b (hs.2.2 b)

/-- Behind the check there is room for one more call. -/
theorem checkDepth (hlimit : ctx.options.maxCallDepth = some n) :
    (callsWithin σ n).Ensures ctx d (Script.effect .checkDepth) fun d' _ => d' < n := by
  intro perform _ x hx
  simp only [Script.effect, Script.record]
  rw [Effect.run_checkDepth, hlimit]
  dsimp only
  split_ifs with hfull
  · exact ⟨trivial, d, rfl, inv_move hx hx.1 hx.2.1 _⟩
  · refine ⟨d, rfl, inv_move hx hx.1 hx.2.1 _, ?_⟩
    rw [hx.1] at hfull
    omega

/-- Inside a frame there is one call more, and it is taken off again. -/
theorem framed (hroom : d < n) {function : String} {inner : Script α}
    (h : (callsWithin σ n).Ensures ctx (d + 1) inner fun _ _ => True) :
    (callsWithin σ n).Ensures ctx d (Script.enclosed (.frame function) inner) fun _ _ => True := by
  refine .enclosed (fun x hx => ?_) h fun d' y hd hy => ⟨d, rfl, ?_, fun _ _ => trivial⟩
  · exact inv_move hx (congrArg (· + 1) hx.1) hroom _
  · have hleft : ((Enclosure.frame function).leave y.machine).env.depth = d := by
      rw [Enclosure.depth_leave_frame, hy.1, ← hd]
      rfl
    exact inv_move hy hleft (Nat.le_of_lt hroom) _

/-- A call that is ready makes sure of its room before it opens a frame. -/
theorem invoke (hlimit : ctx.options.maxCallDepth = some n) (entry : FunctionEntry)
    (args : List Argument) :
    (callsWithin σ n).Ensures ctx d (Script.invoke ctx entry args) fun _ _ => True := by
  rw [Script.invoke]
  cases entry.body with
  | none => exact .fail trivial
  | some body =>
    -- The check comes first, so that there is room for the frame.
    refine .bind (checkDepth hlimit) fun d _ _ hroom => .bind (framed hroom ?_) fun _ _ _ _ => ?_
    · exact of_shaped (T := fun _ => True)
        (.bind (Script.shaped_declareArguments _ _) fun _ => .task trivial)
    · exact (Discipline.Ensures.lift fun _ _ => trivial).imp fun _ _ _ _ => trivial

/-- Every task keeps to the limit. -/
theorem script (hlimit : ctx.options.maxCallDepth = some n) (t : Task) :
    (callsWithin σ n).Ensures ctx d (t.script ctx) fun _ _ => True := by
  cases t with
  | invoke entry args => exact invoke hlimit entry args
  | _ => exact of_shaped ((Task.script_shaped ctx _).imp
      (fun k hk => hk.local_of_ne fun _ _ h => Task.noConfusion h) fun _ => id)

/-- A program keeps to the limit. -/
theorem program (p : Program) :
    (callsWithin σ n).Ensures ctx d (p.script ctx) fun _ _ => True :=
  of_shaped (T := fun _ => True) (p.script_shaped ctx trivial fun _ _ => trivial)

end callsWithin

/-- No state of a run has more calls than its limit. -/
theorem Program.depth_le_of_reaches {p : Program} {entry : String} {n : Nat} {sink : Sink σ}
    {fuel : Nat} {s : σ} {m : Machine σ} (h : p.Reaches ⟨entry, some n⟩ sink fuel s m) :
    m.env.depth ≤ n := by
  obtain ⟨k, hm⟩ := h
  rw [Program.history] at hm
  cases hctx : p.context ⟨entry, some n⟩ sink with
  | error stop =>
    rw [hctx] at hm
    cases hm
  | ok ctx =>
    rw [hctx] at hm
    have hlimit : ctx.options.maxCallDepth = some n := by
      obtain ⟨_, _, -, -, rfl⟩ := p.exists_of_context hctx
      rfl
    have hobeyed : (callsWithin σ n).Obeyed (Task.record ctx fuel) :=
      Discipline.obeyed_record (fun t d _ => callsWithin.script hlimit t) fuel
    have hprogram : (callsWithin σ n).Ensures ctx 0 (p.script ctx) fun _ _ => True :=
      callsWithin.program p
    have hends := hprogram _ hobeyed (Recorded.start s)
      ⟨rfl, Nat.zero_le n, fun _ h => absurd h List.not_mem_nil⟩
    obtain ⟨_, -, -, -, hhistory⟩ := Discipline.inv_finalState hends
    exact hhistory (k, m) hm

/-! ## A limit only cuts runs short -/

/-- What a sink has logged stays in its log. -/
theorem Sink.keeps_logged (ctx : Context (σ × Array Event)) {sink : Sink σ}
    (hsink : ctx.sink = sink.logged) (log : List Event) :
    ctx.Keeps fun m => log <+: m.sink.2.toList := by
  refine .of_sink (P := fun x : σ × Array Event => log <+: x.2.toList) ?_ ?_
  · -- An event that is taken goes to the end of the log.
    intro event x x' hemit hlog
    rw [hsink] at hemit
    simp only [logged] at hemit
    cases hs : sink.emit event x.1 with
    | ok _ t =>
      rw [hs] at hemit
      cases hemit
      rw [Array.toList_push]
      exact hlog.trans (List.prefix_append _ _)
    | error reason t => rw [hs] at hemit; cases hemit
  · -- An event that is refused leaves the log as it is.
    intro event x reason x' hemit hlog
    rw [hsink] at hemit
    simp only [logged] at hemit
    cases hs : sink.emit event x.1 with
    | ok _ t => rw [hs] at hemit; cases hemit
    | error reason t =>
      rw [hs] at hemit
      cases hemit
      exact hlog

/-- Two runs, the second of which has a higher limit or none. Where the limit of the first ends it,
its log is the beginning of the log of the second. -/
def higherLimit (types : TypeTable) (functions : FunctionTable) (entry : String) (sink : Sink σ)
    {n : Nat} {higher : Option Nat} (hle : ∀ k ∈ higher, n ≤ k) :
    Cutoff (⟨types, functions, ⟨entry, some n⟩, sink.logged⟩ : Context (σ × Array Event))
      (⟨types, functions, ⟨entry, higher⟩, sink.logged⟩ : Context (σ × Array Event)) where
  rel := Eq
  cut stop m m' := (∃ span, stop = .fault (.callDepthExceeded n) span) ∧
    m.sink.2.toList <+: m'.sink.2.toList
  same := ⟨rfl, rfl, rfl⟩
  answer_eq q h := h ▸ rfl
  effect {m m'} f h := by
    subst h
    cases f with
    | checkDepth =>
      rw [Effect.run_checkDepth]
      dsimp only
      split_ifs with hfull
      · refine .cut ⟨⟨none, rfl⟩, [], ?_⟩
        rw [Effect.finalState_checkDepth, List.append_nil]
      · -- With room under the lower limit there is room under the higher one.
        rw [Effect.run_checkDepth]
        cases higher with
        | none => exact .ok rfl
        | some k =>
          have hk := hle k rfl
          dsimp only
          rw [if_neg (by omega)]
          exact .ok rfl
    -- No other effect looks at the limit.
    | _ => exact .refl _
  enter k h := h ▸ rfl
  leave k h := h ▸ rfl
  mark {stop m m'} k h := by
    obtain ⟨⟨span, rfl⟩, hlog⟩ := h
    refine ⟨⟨_, k.mark_fault _ span⟩, ?_⟩
    rw [k.sink_leave]
    exact hlog
  keeps stop m := by
    have hkeeps := Sink.keeps_logged ⟨types, functions, ⟨entry, higher⟩, sink.logged⟩ rfl
      m.sink.2.toList
    exact ⟨fun f h => ⟨h.1, hkeeps.effect f h.2⟩, fun k h => ⟨h.1, hkeeps.enter k h.2⟩,
      fun k h => ⟨h.1, hkeeps.leave k h.2⟩⟩

/-- Under a higher limit a run is the same, or the lower limit has ended it. -/
theorem Program.run_cases_limit (p : Program) (entry : String) {n : Nat} (sink : Sink σ)
    (fuel : Nat) (s : σ) {higher : Option Nat} (hle : ∀ k ∈ higher, n ≤ k) :
    p.run ⟨entry, higher⟩ sink.logged fuel (s, #[]) =
        p.run ⟨entry, some n⟩ sink.logged fuel (s, #[]) ∨
      (∃ span, (p.run ⟨entry, some n⟩ sink.logged fuel (s, #[])).1 =
        .error (.fault (.callDepthExceeded n) span)) ∧
      (p.run ⟨entry, some n⟩ sink.logged fuel (s, #[])).2.2.toList <+:
        (p.run ⟨entry, higher⟩ sink.logged fuel (s, #[])).2.2.toList := by
  rcases p.context_cases with ⟨stop, hctx⟩ | ⟨types, functions, hctx⟩
  · refine .inl ?_
    rw [run, run, hctx, hctx]
  · rcases (higherLimit types functions entry sink hle).run_cases (hctx _ _ _) (hctx _ _ _)
      (Nat.le_refl fuel) (.inl rfl) (s := (s, #[])) rfl with
      ⟨result, m, _, rfl, hrun, hrun'⟩ | ⟨_, m, result, m', ⟨⟨span, rfl⟩, hlog⟩, hrun, hrun'⟩
    · exact .inl (hrun'.trans hrun.symm)
    · refine .inr ?_
      rw [hrun, hrun']
      exact ⟨⟨span, rfl⟩, hlog⟩

/-- A limit on the calls does nothing but end runs early. No state of a run has more calls than its
limit. If the run does not end by the limit, then it is the same under a higher limit and under
none; if it does, then what it has put out is what the run under the higher limit puts out first,
however long that one goes on. -/
theorem callDepth_le_and_run_of_limit (p : Program) (entry : String) (n : Nat) (sink : Sink σ)
    (fuel : Nat) (s : σ) :
    (∀ m, p.Reaches ⟨entry, some n⟩ sink fuel s m → m.env.depth ≤ n) ∧
      ∀ higher : Option Nat, (∀ k ∈ higher, n ≤ k) →
        ((∀ span, (p.run ⟨entry, some n⟩ sink fuel s).1 ≠
            .error (.fault (.callDepthExceeded n) span)) →
          p.run ⟨entry, higher⟩ sink fuel s = p.run ⟨entry, some n⟩ sink fuel s ∧
            p.output ⟨entry, higher⟩ sink fuel s = p.output ⟨entry, some n⟩ sink fuel s) ∧
        ∀ span, (p.run ⟨entry, some n⟩ sink fuel s).1 =
            .error (.fault (.callDepthExceeded n) span) →
          ∀ fuel', fuel ≤ fuel' →
            p.output ⟨entry, some n⟩ sink fuel s <+: p.output ⟨entry, higher⟩ sink fuel' s := by
  refine ⟨fun m => p.depth_le_of_reaches, fun higher hle => ⟨fun hends => ?_, ?_⟩⟩
  · rw [p.run_logged _ sink, p.run_logged _ sink, Program.output, Program.output]
    rw [p.run_logged _ sink] at hends
    rcases p.run_cases_limit entry sink fuel s hle with hsame | ⟨⟨span, hcut⟩, -⟩
    · exact ⟨by rw [hsame], by rw [hsame]⟩
    · exact absurd hcut (hends span)
  · intro span hends fuel' hfuel
    rw [p.run_logged _ sink] at hends
    -- With more steps the run under the limit is the same, so both runs may have as many.
    have hmore := p.run_of_le ⟨entry, some n⟩ sink.logged (s, #[]) hfuel (by
      rw [hends]
      exact fun heq => Stop.noConfusion (Except.error.inj heq))
    rw [Program.output, Program.output, ← hmore]
    rcases p.run_cases_limit entry sink fuel' s hle with hsame | ⟨-, hlog⟩
    · exact ⟨[], by rw [hsame, List.append_nil]⟩
    · exact hlog

/-- The program `void down(int n) { print_int(n); if (n > 0) down(n - 1); }` with
`int main() { down(2); }`. -/
def countDown : Program :=
  let n : Expr := .name "n" ⟨0, 0⟩
  let num (k : Int64) : Expr := .literal (.int k) ⟨0, 0⟩
  let call (function : String) (arg : Expr) (span : Span) : Statement :=
    .expr (.call function span [arg] span) span
  ⟨[.function ⟨"down", [⟨"n", .int, false, ⟨0, 0⟩⟩], .void,
      some ⟨[call "print_int" n ⟨0, 1⟩,
        .ifThen (.binary (.compare .gt) n (num 0) ⟨0, 0⟩)
          (call "down" (.binary (.arith .sub) n (num 1) ⟨0, 0⟩) ⟨2, 3⟩) ⟨1, 3⟩], ⟨0, 0⟩⟩, ⟨0, 0⟩⟩,
    .function ⟨"main", [], .int, some ⟨[call "down" (num 2) ⟨4, 5⟩], ⟨0, 0⟩⟩, ⟨0, 0⟩⟩]⟩

/-- With two calls at once `countDown` prints only the first of three numbers. -/
theorem callDepth_le_and_run_of_limit_countDown :
    (countDown.run ⟨"main", some 2⟩ Sink.recording 40 #[]).1 =
        .error (.fault (.callDepthExceeded 2) (some ⟨2, 3⟩)) ∧
      countDown.output ⟨"main", some 2⟩ Sink.recording 40 #[] = [.int 2] ∧
      countDown.output ⟨"main", none⟩ Sink.recording 40 #[] = [.int 2, .int 1, .int 0] ∧
      countDown.output ⟨"main", some 2⟩ Sink.recording 40 #[] <+:
        countDown.output ⟨"main", none⟩ Sink.recording 40 #[] := by
  have hends : (countDown.run ⟨"main", some 2⟩ Sink.recording 40 #[]).1 =
      .error (.fault (.callDepthExceeded 2) (some ⟨2, 3⟩)) := by decide +kernel
  refine ⟨hends, by decide +kernel, by decide +kernel, ?_⟩
  obtain ⟨-, hlimit⟩ := callDepth_le_and_run_of_limit countDown "main" 2 Sink.recording 40 #[]
  exact (hlimit none (by decide)).2 _ hends 40 (Nat.le_refl 40)

end SmallCpp
