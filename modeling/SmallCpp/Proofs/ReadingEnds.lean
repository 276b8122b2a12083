import SmallCpp.Proofs.Progress

/-!
# Reading ends on every token list

However malformed the tokens are, as long as the end of file is the last of them and only that, no
parser moves back or past the end of file, a parser of a phrase that succeeds has read a token, and
each pass of a loop reads a token or is the last. So the bound on the steps is never reached: any
bound that is large enough gives the same items and the same recorded errors.
-/

namespace SmallCpp

/-- The end of file is the last token, and no other token is one. -/
def Closed (tokens : List Token) : Prop :=
  ∃ before last, tokens = before ++ [last] ∧ last.kind = .eof ∧ ∀ t ∈ before, t.kind ≠ .eof

/-- The cursor stands at a token of the list, at the latest at its last. -/
def Cursor.Within (tokens : List Token) (c : Cursor) : Prop :=
  c.rest ≠ [] ∧ c.rest <:+ tokens

/-- Reading tokens other than the end of file leads to no place behind it. -/
theorem Cursor.Leads.within {tokens : List Token} {n : Nat} {c d : Cursor} (h : c.Leads n d)
    (htokens : Closed tokens) (hc : c.Within tokens) : d.Within tokens := by
  -- a cursor behind the last token would have read it, and it is the end of file
  obtain ⟨before, last, rfl, hlast, -⟩ := htokens
  obtain ⟨hne, hsuffix⟩ := hc
  refine ⟨fun hnil => ?_, h.suffix.trans hsuffix⟩
  obtain ⟨read, hrest, -, hkinds, -⟩ := h
  rw [hnil, List.append_nil] at hrest
  have hend : c.rest.getLast hne = last := by
    rw [hsuffix.getLast hne, List.getLast_append_singleton]
  have hmem : last ∈ read := by
    rw [← hrest, ← hend]
    exact List.getLast_mem hne
  exact hkinds last hmem hlast

namespace Parser

variable {α : Type} {c : Cursor}

/-- Where the cursor stands after either outcome. -/
def after (p : Parser α) (c : Cursor) : Cursor :=
  match p c with
  | .ok _ d => d
  | .error _ d => d

namespace Moves

variable {rank fuel n : Nat} {p q : Parser α}

/-- Both outcomes only move on. -/
theorem leads_after (h : Moves rank fuel n c p q) : c.Leads 0 (p.after c) := by
  unfold Moves at h
  unfold after
  cases hp : p c with
  | ok a d =>
    rw [hp] at h
    exact h.1.mono (Nat.zero_le n)
  | error e d =>
    rw [hp] at h
    exact h.1

end Moves

/-! ### The parsers -/

/-- The parsers of phrases, which cannot be empty. -/
inductive Phrase : {α : Type} → Parser α → Prop
  | expect (s : Symbol) (what : Expected) : Phrase (expect s what)
  | expectName (what : Expected) : Phrase (expectName what)
  | expression (fuel : Nat) : Phrase (expression fuel)
  | binary (fuel level : Nat) : Phrase (binary fuel level)
  | unary (fuel : Nat) : Phrase (unary fuel)
  | operand (fuel : Nat) : Phrase (primary fuel >>= postfixRest fuel)
  | primary (fuel : Nat) : Phrase (primary fuel)
  | arguments (fuel : Nat) : Phrase (arguments fuel)
  | baseType (known : List String) : Phrase (baseType known)
  | declaredName : Phrase declaredName
  | declarator (fuel : Nat) : Phrase (declarator fuel)
  | initializer (fuel : Nat) : Phrase (initializer fuel)
  | varDecl (type : WrittenType) (fuel : Nat) : Phrase (varDecl type fuel)
  | varDecls (type : WrittenType) (fuel : Nat) : Phrase (varDecls type fuel)
  | declarations (type : WrittenType) (start fuel : Nat) : Phrase (declarations type start fuel)
  | declareStatement (known : List String) (fuel : Nat) : Phrase (declareStatement known fuel)
  | returnStatement (fuel : Nat) : Phrase (returnStatement fuel)
  | expressionStatement (fuel : Nat) : Phrase (expressionStatement fuel)
  | condition (opening : Expected) (fuel : Nat) : Phrase (condition opening fuel)
  | statement (known : List String) (fuel : Nat) : Phrase (statement known fuel)
  | block (known : List String) (fuel : Nat) : Phrase (block known fuel)
  | param (known : List String) (fuel : Nat) : Phrase (param known fuel)
  | params (known : List String) (fuel : Nat) : Phrase (params known fuel)
  | function (known : List String) (returns : WrittenType) (start fuel : Nat) :
    Phrase (function known returns start fuel)
  | members (type : WrittenType) (fuel : Nat) : Phrase (members type fuel)
  | record (known : List String) (fuel : Nat) : Phrase (record known fuel)
  | item (known : List String) (fuel : Nat) : Phrase (item known fuel)

/-- The parsers of what may be missing: the rests of operands, optional parts and the loops. -/
inductive Stretch : {α : Type} → Parser α → Prop
  | advance : Stretch advance
  | accept (s : Symbol) : Stretch (accept s)
  | stepOf (op : StepOp) (fixity : Fixity) (target : Expr) (start : Nat) :
    Stretch (stepOf op fixity target start)
  | binaryRest (fuel level : Nat) (left : Expr) : Stretch (binaryRest fuel level left)
  | postfixRest (fuel : Nat) (base : Expr) : Stretch (postfixRest fuel base)
  | argumentList (fuel : Nat) : Stretch (argumentList fuel)
  | bounds (name : String) (bare : Bool) (fuel : Nat) : Stretch (bounds name bare fuel)
  | initializers (fuel : Nat) : Stretch (initializers fuel)
  | initializer? (fuel : Nat) : Stretch (initializer? fuel)
  | returnValue? (fuel : Nat) : Stretch (returnValue? fuel)
  | statements (known : List String) (fuel : Nat) : Stretch (statements known fuel)
  | skipLoneVoid : Stretch skipLoneVoid
  | paramList (known : List String) (fuel : Nat) : Stretch (paramList known fuel)
  | nextIsFunction : Stretch nextIsFunction
  | fields (known : List String) (fuel : Nat) : Stretch (fields known fuel)
  | items (known : List String) (fuel : Nat) : Stretch (items known fuel)

/-- How far a parser moves does not depend on whether its steps are enough. -/
theorem Phrase.moves {p : Parser α} (h : Phrase p) (c : Cursor) : Moves 1 0 1 c p p := by
  cases h with
  | expect s what => exact .expect s what
  | expectName what => exact .expectName what
  | expression fuel => exact (moves_expression (Nat.le_refl fuel)).spent
  | binary fuel level => exact ((expressionsMove (Nat.le_refl fuel)).binary c level).spent
  | unary fuel => exact ((expressionsMove (Nat.le_refl fuel)).unary c).spent
  | operand fuel =>
    refine .bind (((expressionsMove (Nat.le_refl fuel)).primary c).spent) fun base d => ?_
    exact ((expressionsMove (Nat.le_refl fuel)).postfixRest d base).spent
  | primary fuel => exact ((expressionsMove (Nat.le_refl fuel)).primary c).spent
  | arguments fuel => exact ((expressionsMove (Nat.le_refl fuel)).arguments c).spent
  | baseType known => exact moves_baseType known
  | declaredName => exact moves_declaredName
  | declarator fuel => exact (moves_declarator (Nat.le_refl fuel)).spent
  | initializer fuel => exact ((initializersMove (Nat.le_refl fuel)).initializer c).spent
  | varDecl type fuel => exact (moves_varDecl type (Nat.le_refl fuel)).spent
  | varDecls type fuel => exact (moves_varDecls type (Nat.le_refl fuel) c).spent
  | declarations type start fuel => exact (moves_declarations type start (Nat.le_refl fuel)).spent
  | declareStatement known fuel => exact (moves_declareStatement known (Nat.le_refl fuel)).spent
  | returnStatement fuel => exact (moves_returnStatement (Nat.le_refl fuel)).spent
  | expressionStatement fuel => exact (moves_expressionStatement (Nat.le_refl fuel)).spent
  | condition opening fuel => exact (moves_condition opening (Nat.le_refl fuel)).spent
  | statement known fuel => exact ((statementsMove known (Nat.le_refl fuel)).statement c).spent
  | block known fuel => exact ((statementsMove known (Nat.le_refl fuel)).block c).spent
  | param known fuel => exact (moves_param known (Nat.le_refl fuel)).spent
  | params known fuel => exact (moves_params known (Nat.le_refl fuel) c).spent
  | function known returns start fuel =>
    exact (moves_function known returns start (Nat.le_refl fuel)).spent
  | members type fuel => exact (moves_members type (Nat.le_refl fuel) c).spent
  | record known fuel => exact (moves_record known (Nat.le_refl fuel)).spent
  | item known fuel => exact (moves_item known (Nat.le_refl fuel)).spent

/-- What may be missing moves on all the same. -/
theorem Stretch.moves {p : Parser α} (h : Stretch p) (c : Cursor) : Moves 1 0 0 c p p := by
  cases h with
  | advance => exact .advance_any
  | accept s => exact .accept_any s
  | stepOf op fixity target start => exact moves_stepOf op fixity target start
  | binaryRest fuel level left =>
    exact ((expressionsMove (Nat.le_refl fuel)).binaryRest c level left).spent
  | postfixRest fuel base => exact ((expressionsMove (Nat.le_refl fuel)).postfixRest c base).spent
  | argumentList fuel => exact ((expressionsMove (Nat.le_refl fuel)).argumentList c).spent
  | bounds name bare fuel => exact (moves_bounds name bare (Nat.le_refl fuel) c).spent
  | initializers fuel => exact ((initializersMove (Nat.le_refl fuel)).initializers c).spent
  | initializer? fuel => exact (moves_initializer? (Nat.le_refl fuel)).spent
  | returnValue? fuel => exact (moves_returnValue? (Nat.le_refl fuel)).spent
  | statements known fuel => exact ((statementsMove known (Nat.le_refl fuel)).statements c).spent
  | skipLoneVoid => exact moves_skipLoneVoid
  | paramList known fuel => exact (moves_paramList known (Nat.le_refl fuel)).spent
  | nextIsFunction => exact moves_nextIsFunction
  | fields known fuel => exact (moves_fields known (Nat.le_refl fuel) c).spent
  | items known fuel => exact (moves_items known (Nat.le_refl fuel) c).spent

/-! ### The loops -/

/-- One pass of a loop and, if it says that the loop goes on, the passes after it. -/
def passThen (pass : Parser (List α × Bool)) (next : List α → Parser (List α)) :
    Parser (List α) := do
  let (read, more) ← pass
  if more then return read ++ (← next read) else return read

/-- One pass over the items of a source. -/
def itemPass (known : List String) (fuel : Nat) : Parser (List Item × Bool) := do
  if (← kind) = .eof then
    return ([], false)
  else if ← accept .semi then
    return ([], true)
  else
    return ((← recovering (item known fuel)).getD [], true)

/-- One pass over the statements of a block. -/
def statementPass (known : List String) (fuel : Nat) : Parser (List Statement × Bool) := do
  let k ← kind
  if k = .symbol .rBrace || k = .eof then
    return ([], false)
  else
    return ((← recovering (statement known fuel)).toList, true)

/-- One pass over the members of a record. -/
def fieldPass (known : List String) (fuel : Nat) : Parser (List FieldDecl × Bool) := do
  let k ← kind
  if k = .symbol .rBrace || k = .eof then
    return ([], false)
  else if k = .symbol .semi then
    let _ ← advance
    return ([], true)
  else if isAccess k then
    let _ ← advance
    let _ ← expect .colon .accessColon
    return ([], true)
  else
    let (type, _) ← baseType known
    if ← nextIsFunction then
      fail .memberFunction (← peek).span
    else if type.isVoid then
      fail .voidField (← peek).span
    else
      let group ← members type fuel
      let _ ← expect .semi .fieldEnd
      return (group, true)

/-- One pass over the initializers between braces. -/
def initializerPass (fuel : Nat) : Parser (List Initializer × Bool) := do
  if (← kind) = .symbol .rBrace then
    return ([], false)
  else
    let item ← initializer fuel
    return ([item], ← accept .comma)

/-- The loops, with one pass of each and what comes after a pass. -/
inductive Loop :
    {α : Type} → Parser (List α) → Parser (List α × Bool) → (List α → Parser (List α)) → Prop
  | items (known : List String) (fuel : Nat) :
    Loop (items known (fuel + 1)) (itemPass known fuel)
      fun group => items (definedNames group ++ known) fuel
  | statements (known : List String) (fuel : Nat) :
    Loop (statements known (fuel + 1)) (statementPass known fuel) fun _ => statements known fuel
  | fields (known : List String) (fuel : Nat) :
    Loop (fields known (fuel + 1)) (fieldPass known fuel) fun _ => fields known fuel
  | initializers (fuel : Nat) :
    Loop (initializers (fuel + 1)) (initializerPass fuel) fun _ => initializers fuel

/-- The loop over the items goes on with the names that the pass has defined. -/
theorem items_eq_passThen (known : List String) (fuel : Nat) :
    items known (fuel + 1) =
      passThen (itemPass known fuel) fun group => items (definedNames group ++ known) fuel := by
  unfold passThen itemPass
  rw [items, bind_assoc]
  refine bind_congr fun k => ?_
  split_ifs
  · rfl
  · rw [bind_assoc]
    refine bind_congr fun b => ?_
    split_ifs
    · simp [definedNames]
    · rw [bind_assoc]
      refine bind_congr fun group => ?_
      cases group with
      | none => simp [definedNames]
      | some group => simp

/-- The loop over the statements of a block. -/
theorem statements_eq_passThen (known : List String) (fuel : Nat) :
    statements known (fuel + 1) =
      passThen (statementPass known fuel) fun _ => statements known fuel := by
  unfold passThen statementPass
  rw [statements, bind_assoc]
  refine bind_congr fun k => ?_
  split_ifs
  · rfl
  · rw [bind_assoc]
    rfl

/-- The loop over the fields of a record. -/
theorem fields_eq_passThen (known : List String) (fuel : Nat) :
    fields known (fuel + 1) = passThen (fieldPass known fuel) fun _ => fields known fuel := by
  unfold passThen fieldPass
  rw [fields, bind_assoc]
  refine bind_congr fun k => ?_
  split_ifs
  · rfl
  · simp
  · simp
  · rw [bind_assoc]
    refine bind_congr fun (type, start) => ?_
    dsimp only
    rw [bind_assoc]
    refine bind_congr fun isFunction => ?_
    split_ifs
    · rfl
    · rfl
    · simp

/-- The loop over the initializers between braces. -/
theorem initializers_eq_passThen (fuel : Nat) :
    initializers (fuel + 1) = passThen (initializerPass fuel) fun _ => initializers fuel := by
  unfold passThen initializerPass
  rw [initializers, bind_assoc]
  refine bind_congr fun k => ?_
  split_ifs
  · rfl
  · simp

/-- Every loop is one pass and the loop again. -/
theorem Loop.eq_passThen {loop : Parser (List α)} {pass : Parser (List α × Bool)}
    {next : List α → Parser (List α)} (h : Loop loop pass next) : loop = passThen pass next := by
  cases h with
  | items known fuel => exact items_eq_passThen known fuel
  | statements known fuel => exact statements_eq_passThen known fuel
  | fields known fuel => exact fields_eq_passThen known fuel
  | initializers fuel => exact initializers_eq_passThen fuel

/-- A pass that first looks whether its loop is over. -/
theorem ends_or_moves {ended : TokenKind → Prop} [DecidablePred ended]
    {body : TokenKind → Parser (List α × Bool)}
    (h : ¬ended c.kind → Moves 1 0 1 c (body c.kind) (body c.kind)) :
    let pass := kind >>= fun k => if ended k then pure ([], false) else body k
    pass c = .ok ([], false) c ∨ Moves 1 0 1 c pass pass := by
  by_cases hended : ended c.kind
  · left
    change (if ended c.kind then _ else _ : Parser _) c = _
    rw [if_pos hended]
    rfl
  · exact .inr (.kind (.ite (fun h => absurd h hended) h))

/-- A pass is made at the end of its loop and reads nothing, or it moves on. -/
theorem Loop.ends_or_moves {loop : Parser (List α)} {pass : Parser (List α × Bool)}
    {next : List α → Parser (List α)} (h : Loop loop pass next) (c : Cursor) :
    pass c = .ok ([], false) c ∨ Moves 1 0 1 c pass pass := by
  cases h with
  | items known fuel =>
    refine Parser.ends_or_moves fun hk => .accept (fun d => .pure _) ?_
    exact .bind (.recovering ((Phrase.item known fuel).moves c) hk) fun _ d => .pure _
  | statements known fuel =>
    refine Parser.ends_or_moves fun hend => ?_
    have hk : c.kind ≠ .eof := by
      intro hk
      simp [hk] at hend
    exact .bind (.recovering ((Phrase.statement known fuel).moves c) hk) fun _ d => .pure _
  | fields known fuel =>
    refine Parser.ends_or_moves fun _ => .ite (fun hk => ?_) fun _ => ?_
    · exact .bind (.advance (by simp [hk])) fun _ d => .pure _
    refine .ite (fun _ => ?_) fun _ => ?_
    · exact .bind .advance_any fun _ d => .bind (.expect _ _) fun _ d' => .pure _
    · refine .bind (moves_baseType known) ?_
      rintro ⟨type, start⟩ d
      refine .bind moves_nextIsFunction fun isFunction d' => ?_
      refine .ite (fun _ => .peek (.fail (by simp) _)) fun _ => ?_
      refine .ite (fun _ => .peek (.fail (by simp) _)) fun _ => ?_
      refine .bind ((Phrase.members type fuel).moves d').spent fun group e => ?_
      exact .bind (.expect _ _) fun _ e' => .pure _
  | initializers fuel =>
    refine Parser.ends_or_moves fun _ => ?_
    refine .bind ((Phrase.initializer fuel).moves c) fun item d => ?_
    exact .bind (.accept_any _) fun more d' => .pure _

/-- Every pass that the loop goes on after has read a token. -/
theorem Loop.length_lt {loop : Parser (List α)} {pass : Parser (List α × Bool)}
    {next : List α → Parser (List α)} (h : Loop loop pass next) {c d : Cursor} {read : List α}
    (hpass : pass c = .ok (read, true) d) : d.rest.length < c.rest.length := by
  rcases h.ends_or_moves c with hend | hmoves
  · rw [hend] at hpass
    cases hpass
  · exact (hmoves.leads hpass).length_le

/-! ### Reading a whole token list -/

/-- Before the end of file, a pass over the items always goes on: it recovers from an error. -/
theorem exists_itemPass {known : List String} {fuel : Nat} (hk : c.kind ≠ .eof) :
    ∃ group d, itemPass known fuel c = .ok (group, true) d := by
  have hpass : itemPass known fuel c = (accept .semi >>= fun b => if b = true then pure ([], true)
      else recovering (item known fuel) >>= fun group => pure (group.getD [], true)) c := by
    change (if c.kind = .eof then _ else _ : Parser _) c = _
    rw [if_neg hk]
  rw [hpass, EStateM.bind_apply, accept_apply]
  by_cases hsemi : c.kind = .symbol .semi
  · rw [if_pos hsemi]
    exact ⟨[], c.advance, rfl⟩
  · rw [if_neg hsemi]
    change ∃ group d, (recovering (item known fuel) >>= _) c = _
    rw [EStateM.bind_apply, recovering]
    cases item known fuel c with
    | ok group d => exact ⟨group, d, rfl⟩
    | error e d => exact ⟨[], d.recover e, rfl⟩

/-- The items end at the end of file; only the bound on the steps can end them before. -/
theorem items_outcome (known : List String) (fuel : Nat) (c : Cursor) :
    (∃ is d, items known fuel c = .ok is d ∧ d.kind = .eof) ∨
      ∃ e d, items known fuel c = .error e d ∧ e.cause = .unfinished := by
  induction fuel generalizing known c with
  | zero => exact .inr ⟨_, _, rfl, rfl⟩
  | succ fuel ih =>
    rw [items_eq_passThen, passThen, EStateM.bind_apply]
    by_cases hk : c.kind = .eof
    · have hend : itemPass known fuel c = .ok ([], false) c := by
        change (if c.kind = .eof then _ else _ : Parser _) c = _
        rw [if_pos hk]
        rfl
      rw [hend]
      exact .inl ⟨[], c, rfl, hk⟩
    · -- the pass has recovered from its error, if there was one, so only the rest can fail
      obtain ⟨group, d, hpass⟩ := exists_itemPass hk
      rw [hpass]
      change (∃ is e, (items (definedNames group ++ known) fuel >>= _) d = _ ∧ _) ∨
        ∃ e d', (items (definedNames group ++ known) fuel >>= _) d = _ ∧ _
      rw [EStateM.bind_apply]
      rcases ih (definedNames group ++ known) d with ⟨is, d', his, hd'⟩ | ⟨e, d', he, hcause⟩
      · rw [his]
        exact .inl ⟨group ++ is, d', rfl, hd'⟩
      · rw [he]
        exact .inr ⟨e, d', rfl, hcause⟩

open Program (stepBound ofTokens)

/-- One outcome, which every bound that is large enough gives. -/
theorem exists_items (tokens : List Token) : ∃ is d,
    (∀ fuel, stepBound tokens ≤ fuel → items [] fuel (.start tokens) = .ok is d) ∧
      d.kind = .eof ∧ Finished d.recovered := by
  have hmoves := fun fuel (hfuel : stepBound tokens ≤ fuel) =>
    moves_items [] hfuel (.start tokens)
  have henough : 1 + 6 * (Cursor.start tokens).rest.length ≤ stepBound tokens := by
    change 1 + 6 * tokens.length ≤ 16 * (tokens.length + 1)
    omega
  have hstart : Finished (Cursor.start tokens).recovered := List.forall_mem_nil _
  unfold Moves at hmoves
  rcases items_outcome [] (stepBound tokens) (.start tokens) with
    ⟨is, d, his, hd⟩ | ⟨e, d, he, hcause⟩
  · rw [his] at hmoves
    have hfinished := ((hmoves _ (Nat.le_refl _)).2 henough).2 hstart
    -- the steps are enough, so more of them do not change the outcome
    exact ⟨is, d, fun fuel hfuel => ((hmoves fuel hfuel).2 henough).1, hd, hfinished⟩
  · rw [he] at hmoves
    have hfinished := ((hmoves _ (Nat.le_refl _)).2 henough).2 hstart
    exact absurd hcause (hfinished e (by simp))

/-- Reading ends on every closed token list, and gives a program exactly if no error is recorded. -/
theorem reading_ends (tokens : List Token) (htokens : Closed tokens) :
    (∀ {α : Type} (p : Parser α), Phrase p ∨ Stretch p → ∀ c : Cursor, c.Within tokens →
      (p.after c).Within tokens ∧ (p.after c).rest <:+ c.rest) ∧
    (∀ {α : Type} (p : Parser α), Phrase p → ∀ (c d : Cursor) (a : α), p c = .ok a d →
      d.rest.length < c.rest.length) ∧
    (∀ {α : Type} (loop : Parser (List α)) pass next, Loop loop pass next →
      loop = passThen pass next ∧ ∀ (c d : Cursor) (read : List α), pass c = .ok (read, true) d →
        d.rest.length < c.rest.length) ∧
    ∃ is d, (∀ fuel, stepBound tokens ≤ fuel → items [] fuel (.start tokens) = .ok is d) ∧
      d.kind = .eof ∧ Finished d.recovered ∧
      (d.recovered = [] → ofTokens tokens = .ok ⟨is⟩) ∧
      (d.recovered ≠ [] → ofTokens tokens = .error d.recovered) := by
  refine ⟨fun p hp c hc => ?_, fun p hp c d a ha => ?_, fun loop pass next h => ?_, ?_⟩
  · have hleads : c.Leads 0 (p.after c) := by
      rcases hp with hp | hp
      · exact (hp.moves c).leads_after
      · exact (hp.moves c).leads_after
    exact ⟨hleads.within htokens hc, hleads.suffix⟩
  · exact ((hp.moves c).leads ha).length_le
  · exact ⟨h.eq_passThen, fun c d read => h.length_lt⟩
  · obtain ⟨is, d, his, hd, hfinished⟩ := exists_items tokens
    have hstep := his (stepBound tokens) (Nat.le_refl _)
    refine ⟨is, d, his, hd, hfinished, fun hnil => ?_, fun hne => ?_⟩
    · rw [ofTokens, hstep]
      exact if_pos (List.isEmpty_iff.mpr hnil)
    · rw [ofTokens, hstep]
      exact if_neg fun h => hne (List.isEmpty_iff.mp h)

/-- A stray brace and an initializer that is not closed: `} int x = { 5`. -/
def unclosedInitializer : List Token :=
  [⟨.symbol .rBrace, ⟨0, 1⟩⟩, ⟨.keyword .int, ⟨2, 5⟩⟩, ⟨.identifier "x", ⟨6, 7⟩⟩,
    ⟨.symbol .eq, ⟨8, 9⟩⟩, ⟨.symbol .lBrace, ⟨10, 11⟩⟩, ⟨.integer 5, ⟨12, 13⟩⟩, ⟨.eof, ⟨13, 13⟩⟩]

/-- Reading goes on to the end of file, past both errors, and reports the two. -/
theorem reading_ends_unclosedInitializer : Closed unclosedInitializer ∧
    ∃ is d, (∀ fuel, stepBound unclosedInitializer ≤ fuel →
      items [] fuel (.start unclosedInitializer) = .ok is d) ∧ d.kind = .eof ∧
        d.recovered.length = 2 ∧ ofTokens unclosedInitializer = .error d.recovered := by
  have hclosed : Closed unclosedInitializer :=
    ⟨unclosedInitializer.dropLast, ⟨.eof, ⟨13, 13⟩⟩, rfl, rfl, by simp [unclosedInitializer]⟩
  obtain ⟨-, -, -, is, d, his, hd, -, -, herror⟩ := reading_ends unclosedInitializer hclosed
  have hlength : d.recovered.length = 2 := by
    have hafter :
        (items [] (stepBound unclosedInitializer)).after (.start unclosedInitializer) = d := by
      rw [after, his _ (Nat.le_refl _)]
    rw [← hafter]
    rfl
  refine ⟨hclosed, is, d, his, hd, hlength, herror fun hnil => ?_⟩
  rw [hnil] at hlength
  cases hlength

end Parser

end SmallCpp
