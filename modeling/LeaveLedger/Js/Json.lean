import LeaveLedger.Js.Number

/-!
# Js — JSON values

JSON values as `JSON.parse` produces them. An object is the list of its
own properties in enumeration order, no key twice.
-/

namespace LeaveLedger.Js

inductive Json where
  | null
  | bool (b : Bool)
  | num (q : ℚ)
  | str (s : String)
  | arr (xs : List Json)
  | obj (fields : List (String × Json))

namespace Json

/-- The own property `key` of a value, `none` for `undefined`. -/
def get? (key : String) : Json → Option Json
  | .obj fields => (fields.find? fun f => f.1 = key).map Prod.snd
  | _ => none

/-- `v === true` and `v === false` of a property that may be missing. -/
def isTrue : Option Json → Bool
  | some (.bool true) => true
  | _ => false

def isFalse : Option Json → Bool
  | some (.bool false) => true
  | _ => false

/-! ## Printing -/

/-- A hexadecimal digit. -/
def hexDigit (n : ℕ) : String :=
  ((["0", "1", "2", "3", "4", "5", "6", "7", "8", "9", "a", "b", "c", "d", "e", "f"])[n]?).getD ""

/-- One character of a quoted string. -/
def quoteChar (c : Char) : String :=
  let n := c.toNat
  if n = 8 then "\\b"
  else if n = 9 then "\\t"
  else if n = 10 then "\\n"
  else if n = 12 then "\\f"
  else if n = 13 then "\\r"
  else if n = 34 then "\\\""
  else if n = 92 then "\\\\"
  else if n < 32 then "\\u00" ++ hexDigit (n / 16) ++ hexDigit (n % 16)
  else c.toString

def quote (s : String) : String :=
  "\"" ++ String.join (s.toList.map quoteChar) ++ "\""

mutual
/-- `JSON.stringify`. -/
def stringify : Json → String
  | .null => "null"
  | .bool b => if b then "true" else "false"
  | .num q => numberText q
  | .str s => quote s
  | .arr xs => "[" ++ stringifyElements xs ++ "]"
  | .obj fields => "\x7b" ++ stringifyFields fields ++ "\x7d"

def stringifyElements : List Json → String
  | [] => ""
  | [x] => stringify x
  | x :: y :: rest => stringify x ++ "," ++ stringifyElements (y :: rest)

def stringifyFields : List (String × Json) → String
  | [] => ""
  | [(k, v)] => quote k ++ ":" ++ stringify v
  | (k, v) :: f :: rest => quote k ++ ":" ++ stringify v ++ "," ++ stringifyFields (f :: rest)
end

example : stringify (.obj [("a", .arr [.num 1, .null])])
    = "\x7b\"a\":[1,null]\x7d" := by decide +kernel

end Json

end LeaveLedger.Js
