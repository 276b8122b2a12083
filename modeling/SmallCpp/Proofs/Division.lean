import Mathlib.Algebra.Order.Group.Unbundled.Int
import Mathlib.Data.Int.ModEq
import SmallCpp.Proofs.Scalar

/-!
# Arithmetic on 64-bit integers

What the operators compute, compared with the integers themselves. `Value.Reads` says which number a
scalar stands for. Sums, differences and products are those of the numbers, reduced modulo `2 ^ 64`
into the range of the integers (`Int.bmod`). A division goes toward zero (`Int.tdiv`) and leaves a
remainder that fits (`Division`); the one quotient that is out of range, that of `-2 ^ 63` by `-1`,
wraps around.
-/

namespace SmallCpp

/-- The number that a scalar stands for. -/
inductive Value.Reads : Value → Int → Prop
  | int (n : Int64) : Reads (.int n) n.toInt
  | bool (b : Bool) : Reads (.bool b) (if b then 1 else 0)
  | char (c : UInt8) : Reads (.char c) c.toNat

/-- The integer of a scalar is the number that it stands for. -/
theorem Value.Reads.exists_asInt {v : Value} {l : Int} (h : v.Reads l) :
    ∃ n, v.asInt = .ok n ∧ n.toInt = l := by
  cases h with
  | int n => exact ⟨n, rfl, rfl⟩
  | bool b =>
    refine ⟨ofBool b, rfl, ?_⟩
    cases b <;> rfl
  | char c => exact ⟨Int64.ofNat c.toNat, rfl, toInt_ofNat_toNat c⟩

/-- What the quotient `q` and the remainder `m` of `l` by `r` have to be. -/
structure Division (l r q m : Int) : Prop where
  /-- Together they give back the dividend, up to wrapping around. -/
  recombine : q * r + m ≡ l [ZMOD 2 ^ 64]
  /-- The remainder is smaller than the divisor. -/
  abs_lt : |m| < |r|
  /-- The remainder goes the way of the dividend. -/
  sign_eq : m = 0 ∨ m.sign = l.sign
  /-- The quotient goes toward zero. -/
  truncated : ¬(l = -2 ^ 63 ∧ r = -1) → q = l.tdiv r
  /-- The only quotient that is out of range wraps around. -/
  wrapped : l = -2 ^ 63 → r = -1 → q = -2 ^ 63 ∧ m = 0

namespace Division

/-- The remainder of a division toward zero is smaller than the divisor. -/
theorem abs_tmod_lt (l : Int) {r : Int} (hr : r ≠ 0) : |l.tmod r| < |r| := by
  have hlt : l.natAbs % r.natAbs < r.natAbs := Nat.mod_lt _ (Int.natAbs_pos.mpr hr)
  have hnat : (l.tmod r).natAbs < r.natAbs := by rwa [Int.natAbs_tmod]
  rw [Int.abs_eq_natAbs, Int.abs_eq_natAbs]
  exact Int.ofNat_lt.mpr hnat

/-- The remainder of a division toward zero is zero or goes the way of the dividend. -/
theorem sign_tmod (l r : Int) : l.tmod r = 0 ∨ (l.tmod r).sign = l.sign := by
  have hsign := Int.sign_tmod l r
  split_ifs at hsign with hdvd
  · exact .inl (Int.sign_eq_zero_iff_zero.mp hsign)
  · exact .inr hsign

/-- Quotient and remainder of 64-bit integers are those of a division. -/
theorem of_ne_zero (l r : Int64) (hr : r ≠ 0) :
    Division l.toInt r.toInt (l / r).toInt (l % r).toInt := by
  have hr0 : r.toInt ≠ 0 := fun h => hr (Int64.toInt_inj.mp h)
  have hmod : (l % r).toInt = l.toInt.tmod r.toInt := Int64.toInt_mod l r
  refine ⟨?_, ?_, ?_, ?_, ?_⟩
  · -- The quotient is the exact one up to wrapping around, which a product and a sum keep.
    have hquotient : (l / r).toInt ≡ l.toInt.tdiv r.toInt [ZMOD 2 ^ 64] := by
      rw [Int64.toInt_div]
      exact Int.bmod_emod
    calc (l / r).toInt * r.toInt + (l % r).toInt
        ≡ l.toInt.tdiv r.toInt * r.toInt + (l % r).toInt [ZMOD 2 ^ 64] :=
          (hquotient.mul_right _).add_right _
      _ = l.toInt := by rw [hmod, Int.mul_comm, Int.mul_tdiv_add_tmod]
  · rw [hmod]
    exact abs_tmod_lt _ hr0
  · rw [hmod]
    exact sign_tmod _ _
  · intro h
    -- Either the dividend is not the least integer, or the divisor is not minus one.
    by_cases hl : l = Int64.minValue
    · refine Int64.toInt_div_of_ne_right l r fun hneg => h ⟨?_, ?_⟩
      · rw [hl, Int64.toInt_minValue]
      · rw [hneg]
        rfl
    · exact Int64.toInt_div_of_ne_left l r hl
  · intro hl hneg
    rw [hmod, Int64.toInt_div, hl, hneg]
    decide

end Division

namespace ArithOp

variable {a b : Value}

/-- A division fails for a zero divisor, and for nothing else. -/
theorem apply_eq_error_iff {op : ArithOp} (hop : op ∈ [div, rem]) {l r : Int64}
    (ha : a.asInt = .ok l) (hb : b.asInt = .ok r) {e : RuntimeError} :
    op.apply a b = .error e ↔ r = 0 ∧ e = .divisionByZero := by
  -- Quotient and remainder are guarded alike.
  have hguard : ∀ n : Int64,
      (if r = 0 then Except.error .divisionByZero else Except.ok n).map Value.int = .error e ↔
        r = 0 ∧ e = .divisionByZero := by
    intro n
    by_cases hr : r = 0
    · rw [if_pos hr]
      constructor
      · intro h
        cases h
        exact ⟨hr, rfl⟩
      · rintro ⟨-, rfl⟩
        rfl
    · rw [if_neg hr]
      constructor
      · intro h
        cases h
      · intro h
        exact absurd h.1 hr
  rw [List.mem_cons, List.mem_singleton] at hop
  rw [op.apply_of_asInt ha hb]
  rcases hop with rfl | rfl
  · exact hguard (l / r)
  · exact hguard (l % r)

/-- A division by another divisor gives a quotient and a remainder. -/
theorem exists_division {l r : Int64} (ha : a.asInt = .ok l) (hb : b.asInt = .ok r) (hr : r ≠ 0) :
    ∃ q m : Int64, div.apply a b = .ok (.int q) ∧ rem.apply a b = .ok (.int m) ∧
      Division l.toInt r.toInt q.toInt m.toInt := by
  refine ⟨l / r, l % r, ?_, ?_, .of_ne_zero l r hr⟩
  · rw [apply_of_asInt div ha hb, onInts, if_neg hr]
    rfl
  · rw [apply_of_asInt rem ha hb, onInts, if_neg hr]
    rfl

/-- Division and remainder fail exactly for a zero divisor. Otherwise the quotient goes toward zero,
and the remainder is what is missing, for all scalars and over the whole range of the integers.
Sums, differences and products are exact up to wrapping around. -/
theorem division_is_consistent {l r : Int} (ha : a.Reads l) (hb : b.Reads r) :
    (∀ op ∈ [div, rem], ∀ e, op.apply a b = .error e ↔ r = 0 ∧ e = .divisionByZero) ∧
      (r ≠ 0 → ∃ q m : Int64, div.apply a b = .ok (.int q) ∧ rem.apply a b = .ok (.int m) ∧
        Division l r q.toInt m.toInt) ∧
      (∃ n : Int64, add.apply a b = .ok (.int n) ∧ n.toInt = (l + r).bmod (2 ^ 64)) ∧
      (∃ n : Int64, sub.apply a b = .ok (.int n) ∧ n.toInt = (l - r).bmod (2 ^ 64)) ∧
      ∃ n : Int64, mul.apply a b = .ok (.int n) ∧ n.toInt = (l * r).bmod (2 ^ 64) := by
  obtain ⟨x, hx, rfl⟩ := ha.exists_asInt
  obtain ⟨y, hy, rfl⟩ := hb.exists_asInt
  have hzero : y.toInt = 0 ↔ y = 0 := Int64.toInt_inj (y := 0)
  refine ⟨fun op hop e => ?_, fun hne => ?_, ?_, ?_, ?_⟩
  · rw [hzero]
    exact apply_eq_error_iff hop hx hy
  · exact exists_division hx hy fun h => hne (hzero.mpr h)
  · exact ⟨x + y, apply_of_asInt add hx hy, Int64.toInt_add x y⟩
  · exact ⟨x - y, apply_of_asInt sub hx hy, Int64.toInt_sub x y⟩
  · exact ⟨x * y, apply_of_asInt mul hx hy, Int64.toInt_mul x y⟩

/-- The least integer divided by minus one, where the quotient wraps around. -/
theorem division_is_consistent_minValue :
    (Value.int Int64.minValue).Reads (-2 ^ 63) ∧ (Value.int (-1)).Reads (-1) ∧
      ∃ q m : Int64, div.apply (.int Int64.minValue) (.int (-1)) = .ok (.int q) ∧
        rem.apply (.int Int64.minValue) (.int (-1)) = .ok (.int m) ∧
        Division (-2 ^ 63) (-1) q.toInt m.toInt := by
  have hl : (Value.int Int64.minValue).Reads (-2 ^ 63) := Int64.toInt_minValue ▸ .int _
  have hr : (Value.int (-1)).Reads (-1) := .int (-1)
  exact ⟨hl, hr, (division_is_consistent hl hr).2.1 (by decide)⟩

end ArithOp

end SmallCpp
