import SmallCpp.Proofs.Outline.Parsed

/-!
# Syntax errors are reported in source order

A source is rejected for all its lexical errors, or else for all its syntax errors. Where each
function of the parser reports errors is known from how it reads (`Parser.items_lays`).
-/

namespace SmallCpp

variable {source : String} {tokens : List Token}

/-- Lexical errors are reported in the order in which the scanner meets them. -/
theorem reportedInOrder_of_scan {errors : List LexError} (h : scan source = .error errors) :
    ReportedInOrder source (errors.map SyntaxError.ofLexError) := by
  obtain ⟨-, tokens, htiles⟩ := scan_eq_error_iff.mp h
  obtain ⟨hinside, hordered⟩ := htiles.laid.2.inOrder
  constructor
  · rw [List.forall_mem_map]
    exact fun e he => hinside e.span (List.mem_map_of_mem he)
  · rw [List.pairwise_map]
    refine (List.pairwise_map.mp hordered).imp fun h => ?_
    exact Nat.le_trans (Nat.le_of_lt h.1) h.2

/-- Syntax errors are reported in the order in which the parser meets them. -/
theorem reportedInOrder_of_ofTokens (hscan : scan source = .ok tokens) {errors : List SyntaxError}
    (h : Program.ofTokens tokens = .error errors) :
    errors ≠ [] ∧ ReportedInOrder source errors := by
  have hreports := Parser.items_lays [] (Program.stepBound tokens) (Cursor.tidy_start hscan)
  unfold Parser.Reports at hreports
  rw [Program.ofTokens] at h
  cases hitems : Parser.items [] (Program.stepBound tokens) (.start tokens) with
  | ok is d =>
    rw [hitems] at h hreports
    dsimp only at h
    split_ifs at h with hnone
    cases h
    exact ⟨fun hnil => hnone (by rw [hnil]; rfl), hreports.tidy.errors⟩
  | error e d =>
    rw [hitems] at h hreports
    cases h
    obtain ⟨htidy, hblames⟩ := hreports
    exact ⟨by simp, htidy.errors.concat hblames.inside hblames.after⟩

/-- A source that is not a program is rejected with at least one error. The errors lie inside the
source and on character boundaries, and they are reported in the order in which they start. -/
theorem Program.errors_in_source_order (source : String) (errors : List SyntaxError)
    (h : parse source = .error errors) :
    errors ≠ [] ∧ (∀ e ∈ errors, e.span.Inside source) ∧
      errors.Pairwise fun e e' => e.span.start ≤ e'.span.start := by
  rw [parse] at h
  cases hscan : scan source with
  | ok tokens =>
    rw [hscan] at h
    obtain ⟨hsome, hreported⟩ := reportedInOrder_of_ofTokens hscan h
    exact ⟨hsome, hreported.inside, hreported.ordered⟩
  | error lexErrors =>
    rw [hscan] at h
    cases h
    have hreported := reportedInOrder_of_scan hscan
    have hsome := (scan_eq_error_iff.mp hscan).1
    exact ⟨by simpa using hsome, hreported.inside, hreported.ordered⟩

/-- Faults in nested blocks, some of which point back at an operand or at a type. The brace behind
`g` is passed over after a fault, so that two blocks are not closed. -/
def nestedFaults : String :=
  "int f() { { 1 = 2; { x y } ++3; } g } void v; int h() \x7b\x7b"

/-- The eight errors of `nestedFaults` are reported from left to right. -/
theorem Program.errors_in_source_order_nestedFaults : ∃ errors,
    parse nestedFaults = .error errors ∧
      errors.map (fun e => e.span.start) = [12, 23, 29, 36, 38, 51, 56, 56] ∧ errors ≠ [] ∧
      (∀ e ∈ errors, e.span.Inside nestedFaults) ∧
      errors.Pairwise fun e e' => e.span.start ≤ e'.span.start := by
  have hstarts : (((parse nestedFaults).map fun _ => []).tryCatch fun errors =>
      .ok (errors.map fun e => e.span.start)).toOption = some [12, 23, 29, 36, 38, 51, 56, 56] := by
    decide +kernel
  cases h : parse nestedFaults with
  | ok p =>
    rw [h] at hstarts
    cases hstarts
  | error errors =>
    rw [h] at hstarts
    exact ⟨errors, rfl, Option.some.inj hstarts, Program.errors_in_source_order _ errors h⟩

end SmallCpp
