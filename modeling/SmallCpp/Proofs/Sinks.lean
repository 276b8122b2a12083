import SmallCpp.Proofs.Cutoff

/-!
# The sink does not influence the run

What a program prints does not depend on where it goes. A run with any sink is the recorded run with
the recorded events handed to that sink one by one: if the sink takes them all, both runs end alike,
and if it refuses one, the run ends there with an output error (`Program.run_takeAll`). What a run
has put out, whatever its sink, is what a log beside the sink holds at the end (`Program.output`);
to keep the log makes no difference to the run (`Program.run_logged`).

Both are cases of one statement about two sinks that take the same events (`Sink.Beside.run_cases`).
-/

namespace SmallCpp

variable {σ τ : Type}

/-! ## Two sinks -/

/-- How two sinks answer to the same event: alike, in states that `R` relates, or the first refuses
what the second takes, in states that `C` relates. -/
inductive Emitted (R : σ → τ → Prop) (C : String → σ → τ → Prop) :
    EStateM.Result String σ Unit → EStateM.Result String τ Unit → Prop
  | taken {s : σ} {s' : τ} (h : R s s') : Emitted R C (.ok () s) (.ok () s')
  | refused {reason : String} {s : σ} {s' : τ} (h : R s s') :
    Emitted R C (.error reason s) (.error reason s')
  | cut {reason : String} {s : σ} {s' : τ} (h : C reason s s') :
    Emitted R C (.error reason s) (.ok () s')

/-- Two sinks for the events of one program. -/
structure Sink.Beside (sink : Sink σ) (sink' : Sink τ) where
  /-- How the states are related as long as the first sink has refused nothing more than the
  second. -/
  rel : σ → τ → Prop
  /-- The first sink has refused an event, and the second has come to a state since then. -/
  cut : String → σ → τ → Prop
  emit : ∀ {s s'} event, rel s s' → Emitted rel cut (sink.emit event s) (sink'.emit event s')
  keeps_ok : ∀ {reason s} event s' t', sink'.emit event s' = .ok () t' → cut reason s s' →
    cut reason s t'
  keeps_error : ∀ {reason s} event s' reason' t', sink'.emit event s' = .error reason' t' →
    cut reason s s' → cut reason s t'

namespace Sink.Beside

variable {sink : Sink σ} {sink' : Sink τ} (B : sink.Beside sink')

/-- Two runs that differ in their sinks only. What the first sink refuses cuts its run short. -/
def cutoff (types : TypeTable) (functions : FunctionTable) (options : RunOptions) :
    Cutoff (⟨types, functions, options, sink⟩ : Context σ)
      (⟨types, functions, options, sink'⟩ : Context τ) where
  rel m m' := m.env = m'.env ∧ B.rel m.sink m'.sink
  cut stop m m' := ∃ reason span, stop = .fault (.output reason) span ∧
    B.cut reason m.sink m'.sink
  same := ⟨rfl, rfl, rfl⟩
  answer_eq q h := h.1 ▸ rfl
  effect {m m'} f h := by
    obtain ⟨henv, hsink⟩ := h
    -- Only printing looks at the sink; a wrong argument stops both runs before it does.
    cases f with
    | print p arg =>
      rw [Effect.run_print_apply, Effect.run_print_apply, Primitive.invoke, Primitive.invoke]
      cases p.event arg with
      | error e => exact .error ⟨henv, hsink⟩
      | ok event =>
        have hemit := B.emit event hsink
        dsimp only
        generalize sink.emit event m.sink = r at hemit
        generalize sink'.emit event m'.sink = r' at hemit
        cases hemit with
        -- Both sinks take the event, both refuse it, or only the first refuses it.
        | taken h => exact .ok ⟨henv, h⟩
        | refused h => exact .error ⟨henv, h⟩
        | cut h => exact .cut ⟨_, none, rfl, h⟩
    | _ =>
      -- Any other effect depends on the environment alone.
      rw [Effect.run_silent rfl, Effect.run_silent rfl, henv]
      dsimp only
      split
      · exact .ok ⟨rfl, hsink⟩
      · exact .error ⟨henv, hsink⟩
  enter {m m'} k h := by
    refine ⟨k.env_enter h.1, ?_⟩
    rw [k.sink_enter, k.sink_enter]
    exact h.2
  leave {m m'} k h := by
    refine ⟨k.env_leave h.1, ?_⟩
    rw [k.sink_leave, k.sink_leave]
    exact h.2
  mark {stop m m'} k h := by
    obtain ⟨reason, span, rfl, hsink⟩ := h
    refine ⟨reason, _, k.mark_fault _ span, ?_⟩
    rw [k.sink_leave]
    exact hsink
  keeps stop m := by
    refine .of_sink (P := fun s' : τ => ∃ reason span, stop = .fault (.output reason) span ∧
      B.cut reason m.sink s') ?_ ?_
    · -- Whatever the second sink is handed later, the first run has ended with its output error.
      rintro event s' t' hemit ⟨reason, span, hstop, hcut⟩
      exact ⟨reason, span, hstop, B.keeps_ok event s' t' hemit hcut⟩
    · rintro event s' reason' t' hemit ⟨reason, span, hstop, hcut⟩
      exact ⟨reason, span, hstop, B.keeps_error event s' reason' t' hemit hcut⟩

/-- With two sinks a program ends alike, or the first sink has refused an event and so ended its
run. -/
theorem run_cases (p : Program) (options : RunOptions) (fuel : Nat) {s : σ} {s' : τ}
    (hs : B.rel s s') :
    (∃ result t t', B.rel t t' ∧ p.run options sink fuel s = (result, t) ∧
      p.run options sink' fuel s' = (result, t')) ∨
    ∃ reason span t result t', B.cut reason t t' ∧
      p.run options sink fuel s = (.error (.fault (.output reason) span), t) ∧
      p.run options sink' fuel s' = (result, t') := by
  rcases p.context_cases with ⟨stop, hctx⟩ | ⟨types, functions, hctx⟩
  · -- A program that cannot start prints nothing.
    refine .inl ⟨.error stop, s, s', hs, ?_, ?_⟩
    · rw [Program.run, hctx]
    · rw [Program.run, hctx]
  · rcases (B.cutoff types functions options).run_cases (hctx _ _ _) (hctx _ _ _)
      (Nat.le_refl fuel) (.inl rfl) ⟨rfl, hs⟩ with
      ⟨result, m, m', ⟨-, hsink⟩, hrun, hrun'⟩ |
        ⟨_, m, result, m', ⟨reason, span, rfl, hsink⟩, hrun, hrun'⟩
    · exact .inl ⟨result, m.sink, m'.sink, hsink, hrun, hrun'⟩
    · exact .inr ⟨reason, span, m.sink, result, m'.sink, hsink, hrun, hrun'⟩

end Sink.Beside

/-! ## Events handed to a sink -/

namespace Sink

/-- Hands events to a sink one by one, up to one that it refuses. -/
def takeAll (sink : Sink σ) : List Event → EStateM String σ Unit
  | [] => pure ()
  | event :: rest => do
    sink.emit event
    sink.takeAll rest

/-- Later events go to the state that the earlier ones have led to, unless one of these was refused.
-/
theorem takeAll_append (sink : Sink σ) (events later : List Event) (s : σ) :
    sink.takeAll (events ++ later) s =
      match sink.takeAll events s with
      | .ok _ s' => sink.takeAll later s'
      | .error reason s' => .error reason s' := by
  induction events generalizing s with
  | nil => rfl
  | cons event rest ih =>
    rw [List.cons_append, takeAll, takeAll, EStateM.bind_apply, EStateM.bind_apply]
    -- The first event is taken, and the rest follows by induction, or all ends here.
    cases sink.emit event s with
    | ok _ s' => exact ih s'
    | error reason s' => rfl

/-- A single event is handed to the sink as it is. -/
theorem takeAll_singleton (sink : Sink σ) (event : Event) (s : σ) :
    sink.takeAll [event] s = sink.emit event s := by
  rw [takeAll, EStateM.bind_apply]
  cases sink.emit event s <;> rfl

/-- The first event that a sink refuses is the last that it is handed. -/
theorem takeAll_of_refused {sink : Sink σ} {events rest : List Event} {event : Event} {s s' t : σ}
    {reason : String} (h : sink.takeAll events s = .ok () s')
    (hevent : sink.emit event s' = .error reason t) :
    sink.takeAll (events ++ event :: rest) s = .error reason t := by
  rw [takeAll_append, h]
  dsimp only
  rw [takeAll, EStateM.bind_apply, hevent]

/-- The next event goes to the state that the events before it have led to. -/
theorem takeAll_push {sink : Sink σ} {events : Array Event} {s s' : σ}
    (h : sink.takeAll events.toList s = .ok () s') (event : Event) :
    sink.takeAll (events.push event).toList s = sink.emit event s' := by
  rw [Array.toList_push, takeAll_append, h]
  exact takeAll_singleton sink event s'

/-- A sink beside the recording one: its state is where the recorded events lead to. -/
def besideRecording (sink : Sink σ) (start : σ) : sink.Beside recording where
  rel s events := sink.takeAll events.toList start = .ok () s
  cut reason s events := sink.takeAll events.toList start = .error reason s
  emit {s events} event h := by
    have hpush := takeAll_push h event
    change Emitted _ _ _ (.ok () (events.push event))
    -- Recording takes every event, so that the other sink goes on with it or cuts its run short.
    cases hemit : sink.emit event s with
    | ok _ t => exact .taken (hpush.trans hemit)
    | error reason t => exact .cut (hpush.trans hemit)
  keeps_ok := by
    rintro reason s event events _ ⟨⟩ hcut
    rw [Array.toList_push, takeAll_append, hcut]
  keeps_error := by
    rintro reason s event events reason' _ ⟨⟩

/-- A sink that keeps a log of the events that it has taken. -/
def logged (sink : Sink σ) : Sink (σ × Array Event) :=
  ⟨fun event x =>
    match sink.emit event x.1 with
    | .ok _ s => .ok () (s, x.2.push event)
    | .error reason s => .error reason (s, x.2)⟩

/-- A sink that takes all events logs them all. -/
theorem takeAll_logged {sink : Sink σ} {events : List Event} {s s' : σ}
    (h : sink.takeAll events s = .ok () s') (log : Array Event) :
    sink.logged.takeAll events (s, log) = .ok () (s', (log.toList ++ events).toArray) := by
  induction events generalizing s log with
  | nil =>
    cases h
    rw [List.append_nil]
    rfl
  | cons event rest ih =>
    rw [takeAll, EStateM.bind_apply] at h ⊢
    cases hemit : sink.emit event s with
    | error reason t => rw [hemit] at h; cases h
    | ok _ t =>
      rw [hemit] at h
      have hlogged : sink.logged.emit event (s, log) = .ok () (t, log.push event) := by
        simp only [logged, hemit]
      rw [hlogged]
      dsimp only
      rw [ih h, Array.toList_push, List.append_assoc, List.singleton_append]

/-- A sink with and without a log. -/
def besideLogged (sink : Sink σ) : sink.Beside sink.logged where
  rel s x := s = x.1
  cut _ _ _ := False
  emit {s x} event h := by
    subst h
    simp only [logged]
    cases sink.emit event x.1 with
    | ok _ t => exact .taken rfl
    | error reason t => exact .refused rfl
  keeps_ok _ _ _ _ := id
  keeps_error _ _ _ _ _ := id

end Sink

/-- A run with any sink is the recorded run with its events handed to the sink: it ends alike if the
sink takes them all, and with an output error where the sink refuses one. -/
theorem Program.run_takeAll (p : Program) (options : RunOptions) (sink : Sink σ) (fuel : Nat)
    (s : σ) :
    match sink.takeAll (p.run options Sink.recording fuel #[]).2.toList s with
    | .ok _ s' => p.run options sink fuel s = ((p.run options Sink.recording fuel #[]).1, s')
    | .error reason s' =>
      ∃ span, p.run options sink fuel s = (.error (.fault (.output reason) span), s') := by
  have hstart : (sink.besideRecording s).rel s #[] := rfl
  rcases (sink.besideRecording s).run_cases p options fuel hstart with
    ⟨result, t, events, htaken, hrun, hrecorded⟩ |
      ⟨reason, span, t, result, events, hcut, hrun, hrecorded⟩
  · -- The sink has taken all recorded events, or it has refused one of them.
    rw [hrecorded, show sink.takeAll events.toList s = _ from htaken]
    exact hrun
  · rw [hrecorded, show sink.takeAll events.toList s = _ from hcut]
    exact ⟨span, hrun⟩

/-! ## Output -/

/-- What a run has put out: the events that its sink has taken. -/
def Program.output (p : Program) (options : RunOptions) (sink : Sink σ) (fuel : Nat) (s : σ) :
    List Event :=
  (p.run options sink.logged fuel (s, #[])).2.2.toList

/-- Keeping a log makes no difference to the run. -/
theorem Program.run_logged (p : Program) (options : RunOptions) (sink : Sink σ) (fuel : Nat)
    (s : σ) :
    p.run options sink fuel s =
      ((p.run options sink.logged fuel (s, #[])).1,
        (p.run options sink.logged fuel (s, #[])).2.1) := by
  have hstart : sink.besideLogged.rel s (s, #[]) := rfl
  rcases sink.besideLogged.run_cases p options fuel hstart with
    ⟨result, _, x, rfl, hrun, hlogged⟩ | ⟨_, _, _, _, _, hcut, -, -⟩
  · -- With a log the sink refuses what it refuses without one, so no run is cut short.
    rw [hrun, hlogged]
  · cases hcut

/-- What is put out with a sink that takes all recorded events. -/
theorem Program.output_of_taken (p : Program) (options : RunOptions) {sink : Sink σ} {fuel : Nat}
    {s s' : σ} (h : sink.takeAll (p.run options Sink.recording fuel #[]).2.toList s = .ok () s') :
    p.output options sink fuel s = (p.run options Sink.recording fuel #[]).2.toList := by
  have hrun := p.run_takeAll options sink.logged fuel (s, #[])
  rw [Sink.takeAll_logged h] at hrun
  rw [output, show p.run options sink.logged fuel (s, #[]) = _ from hrun]
  rfl

/-- What is put out with a sink that refuses a recorded event: the events before it. -/
theorem Program.output_of_refused (p : Program) (options : RunOptions) {sink : Sink σ} {fuel : Nat}
    {s s' t : σ} {events rest : List Event} {event : Event} {reason : String}
    (hevents : (p.run options Sink.recording fuel #[]).2.toList = events ++ event :: rest)
    (h : sink.takeAll events s = .ok () s') (hevent : sink.emit event s' = .error reason t) :
    p.output options sink fuel s = events := by
  have hrefused : sink.logged.emit event (s', (#[].toList ++ events).toArray) =
      .error reason (t, events.toArray) := by
    simp only [Sink.logged, hevent]
    rfl
  have hrun := p.run_takeAll options sink.logged fuel (s, #[])
  rw [hevents, Sink.takeAll_of_refused (Sink.takeAll_logged h #[]) hrefused] at hrun
  obtain ⟨span, hrun⟩ := hrun
  rw [output, hrun]

/-! ## Bytes and sinks that fail -/

/-- What is written of an event before the end of the line: a character is one byte, a number or a
truth value its decimal text. -/
def Event.payload : Event → List UInt8
  | char c => [c]
  | int n => (toString n.toInt).toUTF8.toList
  | bool b => (toString b.toNat).toUTF8.toList

/-- The line of an event is its payload and a line break. -/
theorem Event.line_eq (event : Event) : event.line = event.payload ++ [10] := by
  cases event with
  | int n => rfl
  | char c => rfl
  | bool b => cases b <;> rfl

/-- Bytes pushed one by one. -/
theorem foldl_push (bytes : List UInt8) (written : ByteArray) :
    bytes.foldl ByteArray.push written = written ++ bytes.toByteArray := by
  refine ByteArray.ext (Array.toList_inj.mp ?_)
  rw [ByteArray.data_append, Array.toList_append, List.toList_data_toByteArray]
  induction bytes generalizing written with
  | nil => rw [List.foldl_nil, List.append_nil]
  | cons byte rest ih =>
    rw [List.foldl_cons, ih, ByteArray.data_push, Array.toList_push, List.append_assoc,
      List.singleton_append]

/-- The sink for bytes takes every event. -/
theorem Sink.takeAll_bytes (events : List Event) (written : ByteArray) :
    Sink.bytes.takeAll events written =
      .ok () (written ++ (events.flatMap fun event => event.payload ++ [10]).toByteArray) := by
  induction events generalizing written with
  | nil =>
    rw [List.flatMap_nil, List.toByteArray_nil, ByteArray.append_empty]
    rfl
  | cons event rest ih =>
    have hemit : Sink.bytes.emit event written = .ok () (written ++ event.line.toByteArray) := by
      rw [← foldl_push]
      rfl
    rw [takeAll, EStateM.bind_apply, hemit]
    dsimp only
    rw [ih, List.flatMap_cons, ← event.line_eq, List.toByteArray_append, ByteArray.append_assoc]

/-- A sink that takes `n` events from a state and refuses the next one. -/
structure Sink.FailsAfter (sink : Sink σ) (n : Nat) (s : σ) : Prop where
  takes : ∀ events, events.length ≤ n → ∃ s', sink.takeAll events s = .ok () s'
  refuses : ∀ events event s', events.length = n → sink.takeAll events s = .ok () s' →
    ∃ reason t, sink.emit event s' = .error reason t

/-- A bounded sink takes what it has room for. -/
theorem Sink.takeAll_bounded {capacity : Nat} {events : List Event} {held : Array Event}
    (h : held.size + events.length ≤ capacity) :
    (Sink.bounded capacity).takeAll events held = .ok () (held.toList ++ events).toArray := by
  induction events generalizing held with
  | nil =>
    rw [List.append_nil]
    rfl
  | cons event rest ih =>
    rw [List.length_cons] at h
    have hemit : (Sink.bounded capacity).emit event held = .ok () (held.push event) :=
      if_pos (by omega)
    have hroom : (held.push event).size + rest.length ≤ capacity := by
      rw [Array.size_push]
      omega
    rw [takeAll, EStateM.bind_apply, hemit]
    dsimp only
    rw [ih hroom, Array.toList_push, List.append_assoc, List.singleton_append]

/-- A bounded sink fails after as many events as it has room for. -/
theorem Sink.failsAfter_bounded (capacity : Nat) :
    (Sink.bounded capacity).FailsAfter capacity #[] := by
  refine ⟨fun events hle => ⟨_, takeAll_bounded (by rw [Array.size_empty]; omega)⟩, ?_⟩
  intro events event s' hlength htaken
  rw [takeAll_bounded (by rw [Array.size_empty]; omega)] at htaken
  cases htaken
  refine ⟨"sink full", _, if_neg ?_⟩
  rw [List.size_toArray, List.nil_append]
  omega

/-- The sink does not influence the run. Where the recorded run comes to a result or an error, the
run that writes bytes comes to the same and has written each event as a line. A run with a sink that
fails after `n` events is the recorded run if that has at most `n` events; otherwise it puts out the
first `n` of them and ends with an output error. -/
theorem runs_follow_recording (p : Program) (options : RunOptions) {fuel : Nat}
    {result : Except Stop Int64} {events : Array Event}
    (hrecorded : p.run options Sink.recording fuel #[] = (result, events)) :
    p.run options Sink.bytes fuel ByteArray.empty =
        (result, (events.toList.flatMap fun event => event.payload ++ [10]).toByteArray) ∧
      ∀ (σ : Type) (sink : Sink σ) (n : Nat) (s : σ), sink.FailsAfter n s →
        (events.size ≤ n → (p.run options sink fuel s).1 = result ∧
          p.output options sink fuel s = events.toList) ∧
        (n < events.size →
          (∃ reason span, (p.run options sink fuel s).1 =
            .error (.fault (.output reason) span)) ∧
          p.output options sink fuel s = events.toList.take n) := by
  have hevents : (p.run options Sink.recording fuel #[]).2 = events := by rw [hrecorded]
  refine ⟨?_, fun σ sink n s hsink => ⟨fun hle => ?_, fun hlt => ?_⟩⟩
  · -- The sink for bytes refuses nothing.
    have hrun := p.run_takeAll options Sink.bytes fuel ByteArray.empty
    rw [hrecorded, Sink.takeAll_bytes, ByteArray.empty_append] at hrun
    exact hrun
  · -- There is room for all events.
    obtain ⟨s', hs'⟩ := hsink.takes events.toList hle
    have hrun := p.run_takeAll options sink fuel s
    rw [hrecorded, hs'] at hrun
    rw [← hevents] at hs' ⊢
    exact ⟨congrArg Prod.fst hrun, p.output_of_taken options hs'⟩
  · -- The events up to the one that is refused, that one, and the rest.
    have hsplit : events.toList =
        events.toList.take n ++ events[n] :: events.toList.drop (n + 1) := by
      conv_lhs => rw [← List.take_append_drop n events.toList]
      rw [List.drop_eq_getElem_cons hlt]
      rfl
    have hlength : (events.toList.take n).length = n := by
      rw [List.length_take, Array.length_toList]
      omega
    obtain ⟨s', hs'⟩ := hsink.takes (events.toList.take n) (by omega)
    obtain ⟨reason, t, ht⟩ := hsink.refuses (events.toList.take n) events[n] s' hlength hs'
    have hrun := p.run_takeAll options sink fuel s
    rw [hrecorded, hsplit, Sink.takeAll_of_refused hs' ht] at hrun
    obtain ⟨span, hrun⟩ := hrun
    refine ⟨⟨reason, span, congrArg Prod.fst hrun⟩, ?_⟩
    exact p.output_of_refused options ((congrArg Array.toList hevents).trans hsplit) hs' ht

/-- The program `int main() { print_int(-7); print_char('a'); print_bool(true); }`. -/
def printThree : Program :=
  let print (primitive : String) (lit : Literal) : Statement :=
    .expr (.call primitive ⟨0, 0⟩ [.literal lit ⟨0, 0⟩] ⟨0, 0⟩) ⟨0, 0⟩
  ⟨[.function ⟨"main", [], .int, some ⟨[print "print_int" (.int (-7)),
    print "print_char" (.char 97), print "print_bool" (.bool true)], ⟨0, 0⟩⟩, ⟨0, 0⟩⟩]⟩

/-- Three events, of which a sink with room for two takes the first two. -/
theorem runs_follow_recording_printThree :
    printThree.run {} Sink.bytes 20 ByteArray.empty =
        (.ok 0, [45, 55, 10, 97, 10, 49, 10].toByteArray) ∧
      (∃ reason span, (printThree.run {} (Sink.bounded 2) 20 #[]).1 =
        .error (.fault (.output reason) span)) ∧
      printThree.output {} (Sink.bounded 2) 20 #[] = [.int (-7), .char 97] := by
  have hrecorded : printThree.run {} Sink.recording 20 #[] =
      (.ok 0, #[.int (-7), .char 97, .bool true]) := by decide +kernel
  obtain ⟨hbytes, hsinks⟩ := runs_follow_recording printThree {} hrecorded
  refine ⟨hbytes.trans (by decide +kernel), ?_⟩
  exact (hsinks _ (Sink.bounded 2) 2 #[] (Sink.failsAfter_bounded 2)).2 (by decide)

end SmallCpp
