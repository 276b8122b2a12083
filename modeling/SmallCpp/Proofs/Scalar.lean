import SmallCpp.Arithmetic
import SmallCpp.Proofs.Except

/-!
# Scalars

Integers, truth values and characters stand for integers. What operators and conversions make of a
scalar depends on that integer only, whatever the scalar's own type: its truth value
(`Value.asBool_of_asInt`), its conversion to another scalar type (`Value.convert_of_asInt`) and the
results of arithmetic (`ArithOp.apply_of_asInt`). To any other type a value is not converted at all,
but only compared with it (`Value.eq_of_convert`).
-/

namespace SmallCpp

/-- Whether values of the type stand for integers. -/
def ValueType.isScalar : ValueType → Bool
  | int | bool | char => true
  | void | array .. | record .. => false

namespace Value

variable {v : Value} {n : Int64}

/-- Scalars, and nothing else, stand for integers. -/
theorem exists_asInt_iff : (∃ n, v.asInt = .ok n) ↔ v.type.isScalar = true := by
  constructor
  · rintro ⟨n, hn⟩
    cases v with
    | int | bool | char => rfl
    | array | record | void => cases hn
  · intro h
    cases v with
    | int n => exact ⟨n, rfl⟩
    | bool b => exact ⟨ofBool b, rfl⟩
    | char c => exact ⟨Int64.ofNat c.toNat, rfl⟩
    | array elems => cases elems <;> cases h
    | record | void => cases h

/-- A truth value is true if its integer is not zero. -/
theorem ofBool_ne_zero (b : Bool) : (ofBool b != 0) = b := by
  cases b <;> rfl

/-- The integer of a character is its code: a byte is far from the largest integer, so that nothing
wraps around. -/
theorem toInt_ofNat_toNat (c : UInt8) : (Int64.ofNat c.toNat).toInt = c.toNat :=
  Int64.toInt_ofNat_of_lt (Nat.lt_trans c.toNat_lt (by decide))

/-- The integer of a character is zero only for the character zero. -/
theorem ofNat_toNat_eq_zero {c : UInt8} : Int64.ofNat c.toNat = 0 ↔ c = 0 := by
  rw [← Int64.toInt_inj, toInt_ofNat_toNat, Int64.toInt_zero, ← UInt8.toNat_inj, UInt8.toNat_zero]
  omega

/-- A scalar is true if its integer is not zero. -/
theorem asBool_of_asInt (h : v.asInt = .ok n) : v.asBool = .ok (n != 0) := by
  cases v with
  | int k =>
    cases h
    rfl
  | bool b =>
    cases h
    rw [ofBool_ne_zero]
    rfl
  | char c =>
    cases h
    have hzero : (Int64.ofNat c.toNat != 0) = (c != 0) := by
      rw [Bool.eq_iff_iff, bne_iff_ne, bne_iff_ne, ne_eq, ne_eq, ofNat_toNat_eq_zero]
    rw [hzero]
    rfl
  | _ => cases h

/-- Only what stands for an integer has a truth value. -/
theorem exists_asInt_of_asBool {b : Bool} (h : v.asBool = .ok b) : ∃ n, v.asInt = .ok n := by
  cases v with
  | int n => exact ⟨n, rfl⟩
  | bool b => exact ⟨ofBool b, rfl⟩
  | char c => exact ⟨Int64.ofNat c.toNat, rfl⟩
  | _ => cases h

/-- A scalar is converted to a scalar type as its integer is. -/
theorem convert_of_asInt {T : ValueType} (h : v.asInt = .ok n) (hT : T.isScalar = true) :
    v.convert T = (int n).convert T := by
  cases T with
  | int => exact congrArg (Except.map int) h
  | bool => exact congrArg (Except.map bool) (asBool_of_asInt h)
  | char =>
    have hchar : v.asChar = (int n).asChar := congrArg (Except.map lowByte) h
    exact congrArg (Except.map char) hchar
  | void | array elem length | record name layout => cases hT

/-- Arrays and records are not converted, only compared by their types. -/
theorem eq_of_convert {w : Value} {T : ValueType} (hT : T.isScalar = false)
    (h : v.convert T = .ok w) : w = v ∧ v.type = T := by
  cases T with
  | array elem length | record name layout =>
    have h : (if v.type = _ then _ else _) = _ := h
    split_ifs at h with htype
    cases h
    exact ⟨rfl, htype⟩
  | void => cases h
  | int | bool | char => cases hT

end Value

namespace ArithOp

variable (op : ArithOp)

/-- Arithmetic computes with the integers of its operands. -/
theorem apply_of_asInt {left right : Value} {l r : Int64} (hl : left.asInt = .ok l)
    (hr : right.asInt = .ok r) : op.apply left right = (op.onInts l r).map .int := by
  rw [apply, hl, hr]
  dsimp only [bind, Except.bind]
  cases op.onInts l r <;> rfl

/-- Arithmetic on integers gives an integer, or it divides by zero. -/
theorem onInts_cases (l r : Int64) :
    (∃ n, op.onInts l r = .ok n) ∨ op.onInts l r = .error .divisionByZero := by
  cases op with
  | add => exact .inl ⟨l + r, rfl⟩
  | sub => exact .inl ⟨l - r, rfl⟩
  | mul => exact .inl ⟨l * r, rfl⟩
  | div | rem =>
    rw [onInts]
    split_ifs
    · exact .inr rfl
    · exact .inl ⟨_, rfl⟩

end ArithOp

end SmallCpp
