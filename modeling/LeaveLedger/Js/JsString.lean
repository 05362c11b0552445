import LeaveLedger.Js.JsonText

/-!
# Js — Strings with lone surrogates

A string of the runtime is one of code points, and a surrogate that is not
half of a pair is a code point of its own. Such a string is no text: its
UTF-8 has U+FFFD for every lone surrogate, and `JSON.stringify` writes the
surrogate as an escape. The first confuses strings, the second does not.
-/

namespace LeaveLedger.Js

/-- A character, or the lone surrogate `0xD800 + n`. -/
inductive CodePoint where
  | char (c : Char)
  | lone (n : Fin 2048)
  deriving DecidableEq

/-- No high surrogate stands before a low one: the two would be one character. -/
def Unpaired : List CodePoint → Prop
  | .lone m :: .lone n :: rest => ¬ (m.val < 1024 ∧ 1024 ≤ n.val) ∧ Unpaired (.lone n :: rest)
  | _ :: rest => Unpaired rest
  | [] => True

/-- A string that has a lone surrogate. -/
structure LoneString where
  points : List CodePoint
  unpaired : Unpaired points
  lone : ∃ n, .lone n ∈ points

namespace CodePoint

/-- The character that UTF-8 has for it. -/
def replaced : CodePoint → Char
  | char c => c
  | lone _ => Char.ofNat 0xFFFD

/-- How `JSON.stringify` writes it between quotes. -/
def escaped : CodePoint → List Char
  | char c => (Json.quoteChar c).toList
  | lone n => '\\' :: 'u' :: 'd' :: ((Json.hexDigit (8 + n.val / 256)).toList
      ++ (Json.hexDigit (n.val / 16 % 16)).toList ++ (Json.hexDigit (n.val % 16)).toList)

end CodePoint

namespace LoneString

/-- The text that is digested of the string itself. -/
def toWellFormed (s : LoneString) : String := String.ofList (s.points.map CodePoint.replaced)

/-- `JSON.stringify`. -/
def stringify (s : LoneString) : String :=
  String.ofList ('"' :: (s.points.flatMap CodePoint.escaped ++ ['"']))

end LoneString

/-! ## Reading an escaped string -/

open JsonValue (unescape)

/-- The first code point of an escaped string and what comes after it. -/
def readPoint : List Char → Option (CodePoint × List Char)
  | '\\' :: 'u' :: 'd' :: x :: y :: z :: r =>
      match digitVal x, digitVal y, digitVal z with
      | some a, some b, some c => some (.lone (Fin.ofNat 2048 (256 * (a - 8) + 16 * b + c)), r)
      | _, _, _ => none
  | l => (unescape l).map fun p => (.char p.1, p.2)

theorem digitVal_hexDigit : ∀ n < 16, (Json.hexDigit n).toList.map digitVal = [some n] := by
  decide +kernel

theorem hexDigit_digit {n : ℕ} (hn : n < 16) :
    ∃ c, (Json.hexDigit n).toList = [c] ∧ digitVal c = some n :=
  List.map_eq_singleton_iff.mp (digitVal_hexDigit n hn)

theorem readPoint_lone (n : Fin 2048) (r : List Char) :
    readPoint ((CodePoint.lone n).escaped ++ r) = some (.lone n, r) := by
  obtain ⟨x, hx, hxn⟩ := hexDigit_digit (n := 8 + n.val / 256) (by omega)
  obtain ⟨y, hy, hyn⟩ := hexDigit_digit (n := n.val / 16 % 16) (by omega)
  obtain ⟨z, hz, hzn⟩ := hexDigit_digit (n := n.val % 16) (by omega)
  simp only [CodePoint.escaped, hx, hy, hz, List.cons_append, List.nil_append, readPoint, hxn, hyn,
    hzn, Option.some.injEq, Prod.mk.injEq, and_true, CodePoint.lone.injEq]
  apply Fin.ext
  simp only [Fin.ofNat, Fin.val_mk]
  omega

theorem readPoint_char (c : Char) (r : List Char) :
    readPoint ((CodePoint.char c).escaped ++ r) = some (.char c, r) := by
  have hread : unescape ((Json.quoteChar c).toList ++ r) = some (c, r) :=
    JsonValue.unescape_append (JsonValue.unescape_quoteChar c) r
  show readPoint ((Json.quoteChar c).toList ++ r) = _
  unfold readPoint
  split
  · -- what is read as a character begins otherwise
    rename_i heq
    rw [heq] at hread
    cases hread
  · rw [hread]
    rfl

theorem readPoint_escaped (p : CodePoint) (r : List Char) :
    readPoint (p.escaped ++ r) = some (p, r) := by
  cases p with
  | char c => exact readPoint_char c r
  | lone n => exact readPoint_lone n r

/-- A string is read from its escaped form in one way only. -/
theorem escapedPoints_injective {s s' : List CodePoint}
    (h : s.flatMap CodePoint.escaped ++ ['"'] = s'.flatMap CodePoint.escaped ++ ['"']) :
    s = s' := by
  have hstep : ∀ (p : CodePoint) (s : List CodePoint),
      readPoint ((p :: s).flatMap CodePoint.escaped ++ ['"'])
        = some (p, s.flatMap CodePoint.escaped ++ ['"']) := by
    intro p s
    rw [List.flatMap_cons, List.append_assoc, readPoint_escaped]
  have hend : readPoint (([] : List CodePoint).flatMap CodePoint.escaped ++ ['"']) = none := rfl
  induction s generalizing s' with
  | nil =>
      cases s' with
      | nil => rfl
      | cons p' s' =>
          have hread := congrArg readPoint h
          rw [hend, hstep] at hread
          cases hread
  | cons p s ih =>
      have hread := congrArg readPoint h
      cases s' with
      | nil =>
          rw [hend, hstep] at hread
          cases hread
      | cons p' s' =>
          rw [hstep, hstep] at hread
          obtain ⟨rfl, hrest⟩ := Prod.mk.inj (Option.some.inj hread)
          rw [ih hrest]

namespace LoneString

theorem stringify_injective : Function.Injective stringify := by
  intro s t h
  have hpoints := escapedPoints_injective (List.cons.inj (String.ofList_injective h)).2
  cases s
  cases t
  simp_all

/-- A text is the string of its characters, none of which is lone. -/
theorem quoted_eq (s : String) : JsonValue.quoted s
    = '"' :: ((s.toList.map CodePoint.char).flatMap CodePoint.escaped ++ ['"']) := by
  rw [List.flatMap_map]
  rfl

/-- **No value that is a text prints as a string with a lone surrogate does.** -/
theorem stringify_ne (s : LoneString) (v : JsonValue) : s.stringify ≠ v.stringify := by
  intro h
  have hprinted : '"' :: (s.points.flatMap CodePoint.escaped ++ ['"']) = v.printed :=
    String.ofList_injective h
  obtain ⟨c, r, hv, hc⟩ := v.printed_head
  rw [hv] at hprinted
  obtain ⟨rfl, -⟩ := List.cons.inj hprinted
  rw [← hv] at hprinted
  cases v with
  | str t =>
      rw [show JsonValue.printed (.str t) = JsonValue.quoted t from rfl, quoted_eq] at hprinted
      have hpoints := escapedPoints_injective (List.cons.inj hprinted).2
      obtain ⟨n, hn⟩ := s.lone
      rw [hpoints] at hn
      obtain ⟨x, -, hx⟩ := List.mem_map.mp hn
      cases hx
  | bool b => cases b <;> cases hc
  | _ => cases hc

end LoneString

end LeaveLedger.Js
