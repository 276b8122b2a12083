import SmallCpp.Proofs.Assignment
import SmallCpp.Proofs.Scalar

/-!
# Constant bounds

The bound of an array is folded to a number before the program runs (`Expr.constant`), by an
evaluator of its own that knows neither values nor machines. `Expr.Folds` says that it agrees with
the evaluation of the expression: both come to the same integer, or both divide by zero. This is
proved one form of expression at a time, since an operator depends on the integers of its operands
only, and hence holds of every expression that is made of literals and arithmetic
(`Expr.folds_of_arithmetic`). No other expression is folded (`Expr.arithmetic_of_constant`).
-/

namespace SmallCpp

variable {σ : Type}

/-- The integer that an operator makes of the integer of its operand. -/
def UnaryOp.onInt : UnaryOp → Int64 → Int64
  | neg, n => -n
  | plus, n => n
  | not, n => Value.ofBool (n = 0)

/-- The operator's result stands for the integer that it makes of its operand's, although `!` gives
a truth value and not an integer. -/
theorem UnaryOp.exists_apply (op : UnaryOp) {v : Value} {n : Int64} (h : v.asInt = .ok n) :
    ∃ w, op.apply v = .ok w ∧ w.asInt = .ok (op.onInt n) := by
  cases op with
  | neg => exact ⟨.int (-n), by rw [apply, h]; rfl, rfl⟩
  | plus => exact ⟨.int n, by rw [apply, h]; rfl, rfl⟩
  | not =>
    refine ⟨.bool !(n != 0), by rw [apply, Value.asBool_of_asInt h]; rfl, ?_⟩
    have hnot : (!(n != 0)) = decide (n = 0) := by
      rw [bne, Bool.not_not]
      rfl
    rw [hnot]
    rfl

namespace Expr

/-- Whether the expression is made of literals, operators before an operand and arithmetic. -/
def arithmetic : Expr → Bool
  | literal .. => true
  | unary _ operand _ => operand.arithmetic
  | binary (.arith _) left right _ => left.arithmetic && right.arithmetic
  | _ => false

/-- A constant operand is folded with the operator before it. -/
theorem constant_unary (op : UnaryOp) (operand : Expr) (span : Span) :
    (unary op operand span).constant = operand.constant.map op.onInt := by
  rw [constant]
  cases operand.constant with
  | error e => rfl
  | ok n => cases op <;> rfl

/-- Two constant operands are folded from left to right. -/
theorem constant_arith (op : ArithOp) (left right : Expr) (span : Span) :
    (binary (.arith op) left right span).constant =
      left.constant >>= fun l => right.constant >>= fun r => op.onInts l r := by
  rw [constant]

/-- Only literals and arithmetic are folded. -/
theorem arithmetic_of_constant : ∀ {e : Expr} {n : Int64}, e.constant = .ok n →
    e.arithmetic = true
  | literal .., _, _ => rfl
  | unary op operand span, _, h => by
    rw [constant_unary] at h
    obtain ⟨k, hk, -⟩ := Except.map_eq_ok h
    rw [arithmetic]
    exact arithmetic_of_constant hk
  | binary op left right span, _, h => by
    obtain ⟨l, hl, h⟩ := Except.bind_eq_ok h
    obtain ⟨r, hr, h⟩ := Except.bind_eq_ok h
    cases op with
    | arith op =>
      rw [arithmetic, arithmetic_of_constant hl, arithmetic_of_constant hr]
      rfl
    | compare op => cases h
    | logic op => cases h
  | name .., _, h => by cases h
  | assign .., _, h => by cases h
  | step .., _, h => by cases h
  | call .., _, h => by cases h
  | index .., _, h => by cases h
  | field .., _, h => by cases h

/-- Folding and evaluation agree: they come to the same integer and the machine stays as it is, or
both divide by zero. -/
def Folds (e : Expr) (ctx : Context σ) (fuel : Nat) (m : Machine σ) : Prop :=
  (∃ n v, e.constant = .ok n ∧ Exec.eval ctx fuel e m = .ok v m ∧ v.asInt = .ok n) ∨
    (e.constant = .error .divisionByZero ∧
      Exec.eval ctx fuel e m = .error (.fault .divisionByZero none) m)

namespace Folds

variable {ctx : Context σ} {fuel : Nat} {m : Machine σ}

/-- A literal is folded to the integer that it evaluates to. -/
theorem literal (lit : Literal) (span : Span) : (literal lit span).Folds ctx (fuel + 1) m := by
  cases lit with
  | int n => exact .inl ⟨n, .int n, rfl, by rw [Exec.eval]; rfl, rfl⟩
  | bool b => exact .inl ⟨Value.ofBool b, .bool b, rfl, by rw [Exec.eval]; rfl, rfl⟩
  | char c => exact .inl ⟨Int64.ofNat c.toNat, .char c, rfl, by rw [Exec.eval]; rfl, rfl⟩

/-- An operator before an operand is folded as it is evaluated. -/
theorem unary (op : UnaryOp) {operand : Expr} (span : Span) (h : operand.Folds ctx fuel m) :
    (unary op operand span).Folds ctx (fuel + 1) m := by
  have heval : Exec.eval ctx (fuel + 1) (.unary op operand span) =
      Exec.eval ctx fuel operand >>= fun v => Exec.lift (op.apply v) := by rw [Exec.eval]
  rw [Folds, constant_unary, heval]
  rcases h with ⟨n, v, hn, hv, hint⟩ | ⟨hn, hv⟩
  · obtain ⟨w, hw, hwint⟩ := op.exists_apply hint
    rw [hn, EStateM.bind_of_ok hv, hw]
    exact .inl ⟨op.onInt n, w, rfl, rfl, hwint⟩
  · rw [hn, EStateM.bind_of_error hv]
    exact .inr ⟨rfl, rfl⟩

/-- The left operand is looked at first on both sides, and the divisor only after both. -/
theorem arith (op : ArithOp) {left right : Expr} (span : Span) (hl : left.Folds ctx fuel m)
    (hr : right.Folds ctx fuel m) :
    (binary (.arith op) left right span).Folds ctx (fuel + 1) m := by
  rw [Folds, constant_arith, Exec.eval_arith]
  rcases hl with ⟨l, a, hl, ha, haint⟩ | ⟨hl, ha⟩
  · rw [hl, EStateM.bind_of_ok ha]
    rcases hr with ⟨r, b, hr, hb, hbint⟩ | ⟨hr, hb⟩
    · have happly : op.apply a b = (op.onInts l r).map .int := op.apply_of_asInt haint hbint
      rw [hr, EStateM.bind_of_ok hb, happly]
      rcases op.onInts_cases l r with ⟨n, hn⟩ | hn
      · exact .inl ⟨n, .int n, hn, by rw [hn]; rfl, rfl⟩
      · exact .inr ⟨hn, by rw [hn]; rfl⟩
    · rw [hr, EStateM.bind_of_error hb]
      exact .inr ⟨rfl, rfl⟩
  · rw [hl, EStateM.bind_of_error ha]
    exact .inr ⟨rfl, rfl⟩

end Folds

/-- Folding and evaluation agree on literals and arithmetic, in every state. -/
theorem folds_of_arithmetic {e : Expr} (h : e.arithmetic = true) (ctx : Context σ) {fuel : Nat}
    (hfuel : e.height < fuel) (m : Machine σ) : e.Folds ctx fuel m := by
  fun_induction arithmetic e generalizing fuel with
  | case1 lit span =>
    obtain ⟨k, rfl⟩ : ∃ k, fuel = k + 1 := ⟨fuel - 1, by omega⟩
    exact .literal lit span
  | case2 op operand span ih =>
    obtain ⟨k, rfl⟩ : ∃ k, fuel = k + 1 := ⟨fuel - 1, by omega⟩
    rw [height] at hfuel
    exact .unary op span (ih h (by omega))
  | case3 op left right span ihl ihr =>
    obtain ⟨k, rfl⟩ : ∃ k, fuel = k + 1 := ⟨fuel - 1, by omega⟩
    obtain ⟨hl, hr⟩ := Bool.and_eq_true_iff.mp h
    rw [height] at hfuel
    exact .arith op span (ihl hl (by omega)) (ihr hr (by omega))
  | case4 => cases h

/-- Folding agrees with evaluation. What is folded to a number evaluates to a value of that number
in every state, with nothing changed and nothing printed, and is made of literals and arithmetic.
On everything that is made so, folding and evaluation come to the same number, or both divide by
zero. -/
theorem constant_agrees_with_eval (e : Expr) :
    (∀ n, e.constant = .ok n → e.arithmetic = true ∧
      ∀ (σ : Type) (ctx : Context σ) (fuel : Nat) (m : Machine σ), e.height < fuel →
        ∃ v, Exec.eval ctx fuel e m = .ok v m ∧ v.asInt = .ok n) ∧
      (e.arithmetic = true →
        ∀ (σ : Type) (ctx : Context σ) (fuel : Nat) (m : Machine σ), e.height < fuel →
          e.Folds ctx fuel m) := by
  constructor
  · intro n hn
    have harith : e.arithmetic = true := arithmetic_of_constant hn
    refine ⟨harith, fun σ ctx fuel m hfuel => ?_⟩
    rcases folds_of_arithmetic harith ctx hfuel m with ⟨k, v, hk, hv, hint⟩ | ⟨herror, -⟩
    · obtain rfl : n = k := Except.ok.inj (hn.symm.trans hk)
      exact ⟨v, hv, hint⟩
    · rw [hn] at herror
      cases herror
  · intro harith σ ctx fuel m hfuel
    exact folds_of_arithmetic harith ctx hfuel m

/-- The bound `!(n % -true) + 'a'` with the least integer for `n`. -/
def wrappedBound : Expr :=
  .binary (.arith .add)
    (.unary .not (.binary (.arith .rem) (.literal (.int Int64.minValue) default)
      (.unary .neg (.literal (.bool true) default) default) default) default)
    (.literal (.char 97) default) default

/-- The bound `1 / !5`. -/
def zeroDivisorBound : Expr :=
  .binary (.arith .div) (.literal (.int 1) default)
    (.unary .not (.literal (.int 5) default) default) default

/-- The remainder of the least integer by minus one is zero, of which `!` makes one; of five it
makes zero. -/
theorem constant_agrees_with_eval_bounds :
    (wrappedBound.constant = .ok 98 ∧
        ∃ v, Exec.eval ⟨TypeTable.empty, FunctionTable.empty, {}, Sink.recording⟩ 5 wrappedBound
            ⟨Environment.empty, #[]⟩ = .ok v ⟨Environment.empty, #[]⟩ ∧ v.asInt = .ok 98) ∧
      zeroDivisorBound.constant = .error .divisionByZero ∧
      zeroDivisorBound.Folds ⟨TypeTable.empty, FunctionTable.empty, {}, Sink.recording⟩ 3
        ⟨Environment.empty, #[]⟩ := by
  have hwrapped : wrappedBound.constant = .ok 98 := rfl
  have hfolded := (constant_agrees_with_eval wrappedBound).1 98 hwrapped
  have hzero := (constant_agrees_with_eval zeroDivisorBound).2 rfl
  exact ⟨⟨hwrapped, hfolded.2 _ _ 5 _ (by decide)⟩, rfl, hzero _ _ 3 _ (by decide)⟩

end Expr

end SmallCpp
