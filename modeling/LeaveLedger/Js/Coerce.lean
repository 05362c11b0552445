import LeaveLedger.Js.Json
import LeaveLedger.Js.Parse

/-!
# Js — Coercions

What JavaScript makes of a JSON value where a text or a truth value is
wanted, and `parseFloat` with the numbers it can answer. A property may be
missing: `none` is `undefined`.
-/

namespace LeaveLedger.Js

/-! ## Numbers that need not be finite -/

inductive JsNumber where
  | finite (q : ℚ)
  | infinite (negative : Bool)
  | nan
  deriving DecidableEq

namespace JsNumber

def neg : JsNumber → JsNumber
  | finite q => finite (-q)
  | infinite s => infinite (!s)
  | nan => nan

def add : JsNumber → JsNumber → JsNumber
  | nan, _ => nan
  | _, nan => nan
  | finite a, finite b => finite (a + b)
  | infinite s, infinite s' => if s = s' then infinite s else nan
  | infinite s, finite _ => infinite s
  | finite _, infinite s => infinite s

def sub (a b : JsNumber) : JsNumber := a.add b.neg

/-- `Math.abs`. -/
def abs : JsNumber → JsNumber
  | finite q => finite |q|
  | infinite _ => infinite false
  | nan => nan

/-- `a <= b`, false next to `NaN`. -/
def le : JsNumber → JsNumber → Bool
  | nan, _ => false
  | _, nan => false
  | finite a, finite b => a ≤ b
  | infinite s, infinite s' => s || !s'
  | infinite s, finite _ => s
  | finite _, infinite s => !s

/-- `a > b`. -/
def gt : JsNumber → JsNumber → Bool
  | nan, _ => false
  | _, nan => false
  | a, b => !a.le b

/-- `x || 0` of a number or `null`. -/
def orZero : Option JsNumber → JsNumber
  | none => finite 0
  | some nan => finite 0
  | some x => x

end JsNumber

/-! ## parseFloat -/

/-- The power of ten after the digits, one when no exponent can be read. -/
def exponentFactor : List Char → ℚ
  | 'e' :: r | 'E' :: r =>
      match r with
      | '-' :: r => (1 : ℚ) / 10 ^ Nat.ofDigitChars 10 (r.takeWhile isDigit) 0
      | '+' :: r => 10 ^ Nat.ofDigitChars 10 (r.takeWhile isDigit) 0
      | r => 10 ^ Nat.ofDigitChars 10 (r.takeWhile isDigit) 0
  | _ => 1

/-- The longest unsigned decimal literal that the text begins with. -/
def leadingDecimal (cs : List Char) : JsNumber :=
  if "Infinity".toList.isPrefixOf cs then .infinite false
  else
    let whole := cs.takeWhile isDigit
    let afterWhole := cs.dropWhile isDigit
    let frac := match afterWhole with
      | '.' :: r => r.takeWhile isDigit
      | _ => []
    let rest := match afterWhole with
      | '.' :: r => r.dropWhile isDigit
      | r => r
    if whole ++ frac = [] then .nan
    else .finite ((Nat.ofDigitChars 10 (whole ++ frac) 0 : ℚ) / 10 ^ frac.length
      * exponentFactor rest)

def parseFloat (s : String) : JsNumber :=
  match s.toList.dropWhile isSpace with
  | '-' :: r => (leadingDecimal r).neg
  | '+' :: r => leadingDecimal r
  | r => leadingDecimal r

example : parseFloat " -12.50 days" = .finite (-(25 / 2)) := by decide +kernel
example : parseFloat "undefined" = .nan := by decide +kernel

namespace Json

/-! ## ToString -/

def isNull : Json → Bool
  | .null => true
  | _ => false

mutual
/-- `String(v)`; `none` where JavaScript throws a `TypeError`: JSON has no
functions, so an object with a `toString` of its own has no text. -/
def text? : Json → Option String
  | .null => some "null"
  | .bool b => some (if b then "true" else "false")
  | .num q => some (numberText q)
  | .str s => some s
  | .arr xs => joined? xs
  | .obj fields => if "toString" ∈ fields.map Prod.fst then none else some "[object Object]"

/-- `xs.join()`: `null` leaves its place empty. -/
def joined? : List Json → Option String
  | [] => some ""
  | [x] => if isNull x then some "" else text? x
  | x :: y :: rest =>
      (if isNull x then some "" else text? x).bind fun s =>
        (joined? (y :: rest)).map fun t => s ++ "," ++ t
end

/-- `String(v)` of a property that may be missing. -/
def propertyText? : Option Json → Option String
  | none => some "undefined"
  | some v => v.text?

/-- `v || null`. -/
def orNull : Option Json → Json
  | none => .null
  | some (.bool false) => .null
  | some (.num q) => if q = 0 then .null else .num q
  | some (.str s) => if s = "" then .null else .str s
  | some v => v

example : text? (.arr [.num 1, .null, .arr [.str "a", .bool true]]) = some "1,,a,true" := by
  decide +kernel

/-! ## Values with a text -/

mutual
/-- No object that the text of the value is made of has a `toString` of its own. -/
def Printable : Json → Prop
  | .arr xs => PrintableElements xs
  | .obj fields => "toString" ∉ fields.map Prod.fst
  | _ => True

def PrintableElements : List Json → Prop
  | [] => True
  | x :: rest => Printable x ∧ PrintableElements rest
end

mutual
theorem text?_isSome_iff : ∀ v : Json, (text? v).isSome ↔ Printable v
  | .null => by simp [text?, Printable]
  | .bool b => by simp [text?, Printable]
  | .num q => by simp [text?, Printable]
  | .str s => by simp [text?, Printable]
  | .arr xs => by
      rw [text?, Printable]
      exact joined?_isSome_iff xs
  | .obj fields => by
      rw [text?, Printable]
      split <;> simp_all

theorem joined?_isSome_iff : ∀ xs : List Json, (joined? xs).isSome ↔ PrintableElements xs
  | [] => by simp [joined?, PrintableElements]
  | [x] => by
      have hx := text?_isSome_iff x
      cases x <;> simp_all [joined?, PrintableElements, isNull, Printable]
  | x :: y :: rest => by
      have hx := text?_isSome_iff x
      have hrest := joined?_isSome_iff (y :: rest)
      rw [joined?, PrintableElements, ← hrest, Option.isSome_bind]
      cases x <;> simp_all [isNull, Printable, Option.any_eq_true_iff_get]
end

end Json

end LeaveLedger.Js
