import LeaveLedger.Js.Json
import Mathlib.Data.List.Lex
import Mathlib.Data.List.Sort

/-!
# Common — Hash utility

`common/utils/hash.util`: the fingerprint of a request payload. The object
is rebuilt with sorted keys at every depth, printed, and digested.
Printing and digesting belong to the runtime, so they are the two fields
of `Hashing`; what the service relies on is that they do not collide
(`Hashing.NoCollision`).
-/

namespace LeaveLedger

open Js

/-- The code units by which JavaScript orders strings. -/
def utf16Units (s : String) : List ℕ :=
  s.toList.flatMap fun c =>
    let n := c.toNat
    if n < 0x10000 then [n]
    else [0xD800 + (n - 0x10000) / 0x400, 0xDC00 + (n - 0x10000) % 0x400]

/-- `a <= b` in the order of `Array.prototype.sort` on strings. -/
def keyLE (a b : String) : Bool := decide (utf16Units a ≤ utf16Units b)

/-- A key that the runtime enumerates first, in numeric order: a canonical
array index. -/
def arrayIndex (k : String) : Option ℕ :=
  match radixNumeral 10 k.toList with
  | some n => if toString n = k ∧ n < 4294967295 then some n else none
  | none => none

/-- `acc[key] = v` on a plain object. Assigning to `__proto__` sets the
prototype and adds no own property; a new array index goes before the
larger ones and before every other key. -/
def setProperty (key : String) (v : Json) :
    List (String × Json) → List (String × Json)
  | [] => if key = "__proto__" then [] else [(key, v)]
  | (k, w) :: rest =>
      if key = "__proto__" then (k, w) :: rest
      else if k = key then (k, v) :: rest
      else match arrayIndex key, arrayIndex k with
        | some i, some j =>
            if i < j then (key, v) :: (k, w) :: rest
            else (k, w) :: setProperty key v rest
        | some _, none => (key, v) :: (k, w) :: rest
        | none, _ => (k, w) :: setProperty key v rest

mutual
/-- `sortObjectKeys`. -/
def sortObjectKeys : Json → Json
  | .arr xs => .arr (sortElements xs)
  | .obj fields =>
      .obj (((sortFields fields).insertionSort fun a b => keyLE a.1 b.1).foldl
        (fun acc f => setProperty f.1 f.2 acc) [])
  | .null => .null
  | .bool b => .bool b
  | .num q => .num q
  | .str s => .str s

def sortElements : List Json → List Json
  | [] => []
  | x :: xs => sortObjectKeys x :: sortElements xs

def sortFields : List (String × Json) → List (String × Json)
  | [] => []
  | (k, v) :: rest => (k, sortObjectKeys v) :: sortFields rest
end

/-- `JSON.stringify` and SHA-256 with hexadecimal output. -/
structure Hashing where
  stringify : Json → String
  sha256 : String → String

/-- `hashObject`. -/
def hashObject (H : Hashing) (obj : Json) : String :=
  H.sha256 (H.stringify (sortObjectKeys obj))

/-- Printing without a digest: the hash functions of a run that is evaluated. -/
def Hashing.plain : Hashing := ⟨Json.stringify, id⟩

/-- No two of the given values share a digest once their keys are sorted. -/
def Hashing.NoCollision (H : Hashing) (values : List Json) : Prop :=
  ∀ a ∈ values, ∀ b ∈ values, hashObject H a = hashObject H b →
    sortObjectKeys a = sortObjectKeys b

end LeaveLedger
