import LeaveLedger.Js.JsonText

/-!
# Js — JSON values and their numbers

The values that have a text (`JsonValue`) among the values to calculate with
(`Json`): a number is the rational that its digits and its exponent name. No
two values become one, and what is made of such numbers alone has a text.
-/

namespace LeaveLedger.Js

/-! ## Numbers -/

/-- `± significand · 10 ^ exponent`. -/
def Decimal.value (x : Decimal) : ℚ :=
  (if x.negative then -1 else 1) * x.significand * 10 ^ x.exponent

theorem Decimal.value_eq_zero {x : Decimal} : x.value = 0 ↔ x.significand = 0 := by
  have hpow : (10 : ℚ) ^ x.exponent ≠ 0 := by positivity
  unfold Decimal.value
  split <;> simp [hpow]

theorem Decimal.eq_of_zero {x y : Decimal} (hx : x.significand = 0) (hy : y.significand = 0) :
    x = y := by
  have hzero : ∀ z : Decimal, z.significand = 0 → z.exponent = 0 ∧ z.negative = false := by
    intro z hz
    rcases z.canonical with h | h
    · rw [hz] at h
      exact absurd rfl h
    · exact h.2
  obtain ⟨hxe, hxn⟩ := hzero x hx
  obtain ⟨hye, hyn⟩ := hzero y hy
  cases x
  cases y
  simp_all

theorem Decimal.abs_value (x : Decimal) : |x.value| = x.significand * 10 ^ x.exponent := by
  have hpow : (0 : ℚ) < 10 ^ x.exponent := by positivity
  unfold Decimal.value
  split <;> simp [abs_mul]

/-- Of two numbers without trailing zeros, the one with the smaller exponent has more
digits, unless they differ. -/
theorem exponent_le_of_value {s t : ℕ} {e f : ℤ} (hs : s % 10 ≠ 0)
    (h : (s : ℚ) * 10 ^ e = t * 10 ^ f) : f ≤ e := by
  by_contra hlt
  obtain ⟨k, hk⟩ : ∃ k : ℕ, f = e + (k + 1 : ℕ) := ⟨(f - e - 1).toNat, by omega⟩
  have hpow : (10 : ℚ) ^ e ≠ 0 := by positivity
  have heq : (s : ℚ) = t * 10 ^ (k + 1) := by
    rw [hk, zpow_add₀ (by norm_num), zpow_natCast, mul_comm ((10 : ℚ) ^ e), ← mul_assoc] at h
    exact mul_right_cancel₀ hpow h
  have hnat : s = t * 10 ^ (k + 1) := by exact_mod_cast heq
  rw [hnat, pow_succ, ← mul_assoc] at hs
  exact hs (Nat.mul_mod_left _ _)

theorem Decimal.value_injective : Function.Injective Decimal.value := by
  intro x y h
  by_cases hx : x.significand = 0
  · have hy : y.significand = 0 := by
      rw [← Decimal.value_eq_zero, ← h, Decimal.value_eq_zero]
      exact hx
    exact Decimal.eq_of_zero hx hy
  · have hy : y.significand ≠ 0 := by
      rw [Ne, ← Decimal.value_eq_zero, ← h, Decimal.value_eq_zero]
      exact hx
    have hxc : x.significand % 10 ≠ 0 := x.canonical.resolve_right fun hz => hx hz.1
    have hyc : y.significand % 10 ≠ 0 := y.canonical.resolve_right fun hz => hy hz.1
    have habs : (x.significand : ℚ) * 10 ^ x.exponent = y.significand * 10 ^ y.exponent := by
      rw [← Decimal.abs_value, ← Decimal.abs_value, h]
    have hexp : x.exponent = y.exponent :=
      le_antisymm (exponent_le_of_value hyc habs.symm) (exponent_le_of_value hxc habs)
    have hsig : x.significand = y.significand := by
      rw [hexp] at habs
      exact_mod_cast mul_right_cancel₀ (by positivity) habs
    have hneg : x.negative = y.negative := by
      have hpos : (0 : ℚ) < y.significand * 10 ^ y.exponent := by
        have : (0 : ℚ) < y.significand := by exact_mod_cast Nat.pos_of_ne_zero hy
        positivity
      simp only [Decimal.value, hsig, hexp, mul_assoc] at h
      have hsign := mul_right_cancel₀ hpos.ne' h
      cases hxn : x.negative <;> cases hyn : y.negative <;> simp [hxn, hyn] at hsign ⊢
      · norm_num at hsign
      · norm_num at hsign
    cases x
    cases y
    simp_all

/-! ## Values -/

namespace JsonValue

mutual
/-- The value to calculate with. -/
def toJson : JsonValue → Json
  | .null => .null
  | .bool b => .bool b
  | .num x => .num x.value
  | .str s => .str s
  | .arr xs => .arr (toElements xs)
  | .obj fields => .obj (toFields fields)

def toElements : List JsonValue → List Json
  | [] => []
  | x :: xs => toJson x :: toElements xs

def toFields : List (String × JsonValue) → List (String × Json)
  | [] => []
  | (k, v) :: fields => (k, toJson v) :: toFields fields
end

mutual
theorem toJson_inj : ∀ {v w : JsonValue}, toJson v = toJson w → v = w
  | .null, w, h => by cases w <;> simp_all [toJson]
  | .bool b, w, h => by cases w <;> simp_all [toJson]
  | .num x, w, h => by
      cases w with
      | num y =>
          simp only [toJson, Json.num.injEq] at h
          rw [Decimal.value_injective h]
      | _ => simp [toJson] at h
  | .str s, w, h => by cases w <;> simp_all [toJson]
  | .arr xs, w, h => by
      cases w with
      | arr ys =>
          simp only [toJson, Json.arr.injEq] at h
          rw [toElements_inj h]
      | _ => simp [toJson] at h
  | .obj fields, w, h => by
      cases w with
      | obj fields' =>
          simp only [toJson, Json.obj.injEq] at h
          rw [toFields_inj h]
      | _ => simp [toJson] at h

theorem toElements_inj : ∀ {xs ys : List JsonValue}, toElements xs = toElements ys → xs = ys
  | [], ys, h => by cases ys <;> simp_all [toElements]
  | x :: xs, ys, h => by
      cases ys with
      | nil => simp [toElements] at h
      | cons y ys =>
          simp only [toElements, List.cons.injEq] at h
          rw [toJson_inj h.1, toElements_inj h.2]

theorem toFields_inj : ∀ {fields fields' : List (String × JsonValue)},
    toFields fields = toFields fields' → fields = fields'
  | [], fields', h => by
      cases fields' with
      | nil => rfl
      | cons f fields' => simp [toFields] at h
  | (k, v) :: fields, fields', h => by
      cases fields' with
      | nil => simp [toFields] at h
      | cons f fields' =>
          obtain ⟨k', v'⟩ := f
          simp only [toFields, List.cons.injEq, Prod.mk.injEq] at h
          rw [h.1.1, toJson_inj h.1.2, toFields_inj h.2]
end

theorem toJson_injective : Function.Injective toJson := fun _ _ h => toJson_inj h

/-! ## Values that have a text -/

/-- The value is one with a text. -/
def HasText (j : Json) : Prop := ∃ v : JsonValue, v.toJson = j

theorem hasText_arr {xs : List Json} (h : ∀ x ∈ xs, HasText x) : HasText (.arr xs) := by
  have helements : ∃ vs, toElements vs = xs := by
    induction xs with
    | nil => exact ⟨[], rfl⟩
    | cons x xs ih =>
        obtain ⟨v, hv⟩ := h x List.mem_cons_self
        obtain ⟨vs, hvs⟩ := ih fun y hy => h y (List.mem_cons_of_mem _ hy)
        exact ⟨v :: vs, by rw [toElements, hv, hvs]⟩
  obtain ⟨vs, rfl⟩ := helements
  exact ⟨.arr vs, rfl⟩

theorem hasText_obj {fields : List (String × Json)} (h : ∀ f ∈ fields, HasText f.2) :
    HasText (.obj fields) := by
  have hfields : ∃ vs, toFields vs = fields := by
    induction fields with
    | nil => exact ⟨[], rfl⟩
    | cons f fields ih =>
        obtain ⟨v, hv⟩ := h f List.mem_cons_self
        obtain ⟨vs, hvs⟩ := ih fun y hy => h y (List.mem_cons_of_mem _ hy)
        exact ⟨(f.1, v) :: vs, by rw [toFields, hv, hvs]⟩
  obtain ⟨vs, rfl⟩ := hfields
  exact ⟨.obj vs, rfl⟩

end JsonValue

end LeaveLedger.Js
