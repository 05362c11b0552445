import LeaveLedger.Js.Decimal
import LeaveLedger.Js.Json

/-!
# Js — The text of a JSON value

JSON values with the numbers of the runtime, and the text `JSON.stringify`
makes of them. What follows a value in a text is nothing, a comma or a
closing bracket, and up to there the text can be read in one way only
(`printed_inj`): two values with one text are one value.
-/

namespace LeaveLedger.Js

/-- A JSON value. An object is the list of its properties in enumeration order. -/
inductive JsonValue where
  | null
  | bool (b : Bool)
  | num (x : Decimal)
  | str (s : String)
  | arr (xs : List JsonValue)
  | obj (fields : List (String × JsonValue))

namespace JsonValue

/-- The characters of a string between its quotes. -/
def escaped (s : List Char) : List Char := s.flatMap fun c => (Json.quoteChar c).toList

def quoted (s : String) : List Char := '"' :: (escaped s.toList ++ ['"'])

mutual
/-- The characters of `JSON.stringify(v)`. -/
def printed : JsonValue → List Char
  | .null => ['n', 'u', 'l', 'l']
  | .bool true => ['t', 'r', 'u', 'e']
  | .bool false => ['f', 'a', 'l', 's', 'e']
  | .num x => x.text
  | .str s => quoted s
  | .arr [] => ['[', ']']
  | .arr (x :: xs) => '[' :: (printed x ++ (printedMore xs ++ [']']))
  | .obj [] => ['\x7b', '\x7d']
  | .obj ((k, v) :: fields) =>
      '\x7b' :: (quoted k ++ ':' :: (printed v ++ (printedFields fields ++ ['\x7d'])))

/-- The elements that come after a first one. -/
def printedMore : List JsonValue → List Char
  | [] => []
  | x :: xs => ',' :: (printed x ++ printedMore xs)

/-- The properties that come after a first one. -/
def printedFields : List (String × JsonValue) → List Char
  | [] => []
  | (k, v) :: fields => ',' :: (quoted k ++ ':' :: (printed v ++ printedFields fields))
end

/-- `JSON.stringify`. -/
def stringify (v : JsonValue) : String := String.ofList (printed v)

example : stringify (.obj [("a\n", .arr [.num (.ofNat 10), .null]), ("b", .bool false)])
    = "\x7b\"a\\n\":[10,null],\"b\":false\x7d" := by decide +kernel

/-! ## Strings -/

/-- The first character of an escaped string and what comes after it. -/
def unescape : List Char → Option (Char × List Char)
  | '\\' :: 'b' :: r => some (Char.ofNat 8, r)
  | '\\' :: 't' :: r => some (Char.ofNat 9, r)
  | '\\' :: 'n' :: r => some (Char.ofNat 10, r)
  | '\\' :: 'f' :: r => some (Char.ofNat 12, r)
  | '\\' :: 'r' :: r => some (Char.ofNat 13, r)
  | '\\' :: '"' :: r => some ('"', r)
  | '\\' :: '\\' :: r => some ('\\', r)
  | '\\' :: 'u' :: '0' :: '0' :: x :: y :: r =>
      match digitVal x, digitVal y with
      | some a, some b => some (Char.ofNat (16 * a + b), r)
      | _, _ => none
  | '\\' :: _ => none
  | '"' :: _ => none
  | c :: r => some (c, r)
  | [] => none

theorem unescape_plain {c : Char} (hslash : c ≠ '\\') (hquote : c ≠ '"') (r : List Char) :
    unescape (c :: r) = some (c, r) := by
  rw [unescape] <;> simp [hslash, hquote]

/-- What comes after it does not matter. -/
theorem unescape_append {l s : List Char} {c : Char} (h : unescape l = some (c, s))
    (r : List Char) : unescape (l ++ r) = some (c, s ++ r) := by
  fun_cases unescape l <;> simp only [unescape, reduceCtorEq, Option.some.injEq, Prod.mk.injEq] at h
  case case8 x y u a b hx hy =>
    simp only [hx, hy, Option.some.injEq, Prod.mk.injEq] at h
    obtain ⟨rfl, rfl⟩ := h
    simp only [List.cons_append, unescape, hx, hy]
  case case12 hslash hquote =>
    obtain ⟨rfl, rfl⟩ := h
    exact unescape_plain hslash hquote _
  all_goals
    obtain ⟨rfl, rfl⟩ := h
    rfl

theorem unescape_control :
    ∀ n < 32, unescape (Json.quoteChar (Char.ofNat n)).toList = some (Char.ofNat n, []) := by
  decide +kernel

theorem unescape_quoteChar (c : Char) : unescape (Json.quoteChar c).toList = some (c, []) := by
  by_cases hcontrol : c.toNat < 32
  · have h := unescape_control c.toNat hcontrol
    rw [Char.ofNat_toNat] at h
    exact h
  · by_cases hquote : c = '"'
    · rw [hquote]
      decide +kernel
    · by_cases hslash : c = '\\'
      · rw [hslash]
        decide +kernel
      · have hplain : Json.quoteChar c = c.toString := by
          have h34 : c.toNat ≠ 34 := fun h => hquote (Char.toNat_inj.mp h)
          have h92 : c.toNat ≠ 92 := fun h => hslash (Char.toNat_inj.mp h)
          unfold Json.quoteChar
          simp only [h34, h92, hcontrol, if_false]
          split_ifs <;> first | omega | rfl
        rw [hplain, Char.toString, String.toList_singleton]
        exact unescape_plain hslash hquote []

/-- A quoted string ends at its own closing quote. -/
theorem escaped_inj {s s' u u' : List Char}
    (h : escaped s ++ '"' :: u = escaped s' ++ '"' :: u') : s = s' ∧ u = u' := by
  have hstep : ∀ (c : Char) (s u : List Char),
      unescape (escaped (c :: s) ++ u) = some (c, escaped s ++ u) := by
    intro c s u
    rw [escaped, List.flatMap_cons, List.append_assoc, unescape_append (unescape_quoteChar c)]
    rfl
  have hend : ∀ u : List Char, unescape (escaped [] ++ '"' :: u) = none := fun u => rfl
  induction s generalizing s' with
  | nil =>
      cases s' with
      | nil => exact ⟨rfl, (List.cons.inj h).2⟩
      | cons c' s' =>
          have hread := congrArg unescape h
          rw [hend, hstep] at hread
          cases hread
  | cons c s ih =>
      have hread := congrArg unescape h
      cases s' with
      | nil =>
          rw [hend, hstep] at hread
          cases hread
      | cons c' s' =>
          rw [hstep, hstep] at hread
          obtain ⟨rfl, hrest⟩ := Prod.mk.inj (Option.some.inj hread)
          obtain ⟨rfl, hu⟩ := ih hrest
          exact ⟨rfl, hu⟩

theorem quoted_inj {s s' : String} {u u' : List Char} (h : quoted s ++ u = quoted s' ++ u') :
    s = s' ∧ u = u' := by
  simp only [quoted, List.cons_append, List.append_assoc, List.nil_append, List.cons.injEq,
    true_and] at h
  obtain ⟨hs, hu⟩ := escaped_inj h
  exact ⟨String.toList_inj.mp hs, hu⟩

/-! ## Numbers -/

/-- What may follow a value: nothing, a comma or a closing bracket. -/
def Follow (u : List Char) : Prop := ∀ c ∈ u.head?, c = ',' ∨ c = ']' ∨ c = '\x7d'

theorem Follow.takeWhile {u : List Char} (h : Follow u) : u.takeWhile isNumberChar = [] := by
  cases u with
  | nil => rfl
  | cons c u =>
      rcases h c rfl with rfl | rfl | rfl <;> rfl

/-- A number ends where its characters do. -/
theorem text_inj {x y : Decimal} {u u' : List Char} (hu : Follow u) (hu' : Follow u')
    (h : x.text ++ u = y.text ++ u') : x = y ∧ u = u' := by
  have hread := congrArg (List.takeWhile isNumberChar) h
  rw [List.takeWhile_append_of_pos x.text_chars, List.takeWhile_append_of_pos y.text_chars,
    hu.takeWhile, hu'.takeWhile, List.append_nil, List.append_nil] at hread
  rw [hread] at h
  exact ⟨Decimal.text_injective hread, List.append_cancel_left h⟩

/-! ## Values -/

/-- The kind of a value, as the first character of its text shows it. -/
def kind : JsonValue → Char
  | .null => 'n'
  | .bool true => 't'
  | .bool false => 'f'
  | .num _ => '0'
  | .str _ => '"'
  | .arr _ => '['
  | .obj _ => '\x7b'

def kindOf (c : Char) : Char := if c.isDigit || c = '-' then '0' else c

theorem printed_head (v : JsonValue) : ∃ c r, printed v = c :: r ∧ kindOf c = v.kind := by
  cases v with
  | null => exact ⟨_, _, rfl, rfl⟩
  | bool b => cases b <;> exact ⟨_, _, rfl, rfl⟩
  | num x =>
      obtain ⟨c, r, hx, hc⟩ := x.text_head
      refine ⟨c, r, hx, ?_⟩
      rcases hc with ⟨hc, -⟩ | ⟨rfl, -⟩
      · simp [kindOf, kind, hc]
      · rfl
  | str s => exact ⟨_, _, rfl, rfl⟩
  | arr xs => cases xs <;> exact ⟨_, _, rfl, rfl⟩
  | obj fields =>
      cases fields with
      | nil => exact ⟨_, _, rfl, rfl⟩
      | cons f fields =>
          obtain ⟨k, v⟩ := f
          exact ⟨_, _, rfl, rfl⟩

/-- Texts that go on alike are texts of one kind. -/
theorem kind_of_printed {v v' : JsonValue} {u u' : List Char}
    (h : printed v ++ u = printed v' ++ u') : v.kind = v'.kind := by
  obtain ⟨c, r, hv, hc⟩ := printed_head v
  obtain ⟨c', r', hv', hc'⟩ := printed_head v'
  rw [hv, hv'] at h
  obtain ⟨rfl, -⟩ := List.cons.inj h
  rw [← hc, ← hc']

/-- No value begins with a closing bracket. -/
theorem printed_ne_close (v : JsonValue) (u u' : List Char) : printed v ++ u ≠ ']' :: u' := by
  obtain ⟨c, r, hv, hc⟩ := printed_head v
  rw [hv]
  intro h
  obtain ⟨rfl, -⟩ := List.cons.inj h
  cases v with
  | bool b => cases b <;> cases hc
  | _ => cases hc

/-! The texts of the composite values with what follows them. -/

theorem printed_arr_nil (u : List Char) : printed (.arr []) ++ u = '[' :: ']' :: u := rfl

theorem printed_arr_cons (x : JsonValue) (xs : List JsonValue) (u : List Char) :
    printed (.arr (x :: xs)) ++ u = '[' :: (printed x ++ (printedMore xs ++ ']' :: u)) := by
  simp only [printed, List.append_assoc, List.cons_append, List.nil_append]

theorem printedMore_cons (x : JsonValue) (xs : List JsonValue) (u : List Char) :
    printedMore (x :: xs) ++ u = ',' :: (printed x ++ (printedMore xs ++ u)) := by
  simp only [printedMore, List.append_assoc, List.cons_append]

theorem printed_obj_nil (u : List Char) : printed (.obj []) ++ u = '\x7b' :: '\x7d' :: u := rfl

theorem printed_obj_cons (k : String) (v : JsonValue) (fields : List (String × JsonValue))
    (u : List Char) : printed (.obj ((k, v) :: fields)) ++ u
      = '\x7b' :: (quoted k ++ ':' :: (printed v ++ (printedFields fields ++ '\x7d' :: u))) := by
  simp only [printed, List.append_assoc, List.cons_append, List.nil_append]

theorem printedFields_cons (k : String) (v : JsonValue) (fields : List (String × JsonValue))
    (u : List Char) : printedFields ((k, v) :: fields) ++ u
      = ',' :: (quoted k ++ ':' :: (printed v ++ (printedFields fields ++ u))) := by
  simp only [printedFields, List.append_assoc, List.cons_append]

theorem follow_more (xs : List JsonValue) (u : List Char) :
    Follow (printedMore xs ++ ']' :: u) := by
  intro c hc
  cases xs with
  | nil =>
      cases hc
      exact Or.inr (Or.inl rfl)
  | cons x xs =>
      rw [printedMore_cons] at hc
      cases hc
      exact Or.inl rfl

theorem follow_fields (fields : List (String × JsonValue)) (u : List Char) :
    Follow (printedFields fields ++ '\x7d' :: u) := by
  intro c hc
  cases fields with
  | nil =>
      cases hc
      exact Or.inr (Or.inr rfl)
  | cons f fields =>
      rw [printedFields_cons] at hc
      cases hc
      exact Or.inl rfl

mutual
/-- A text of a value, followed by what may follow one, is read in one way only. -/
theorem printed_inj : ∀ {v v' : JsonValue} {u u' : List Char}, Follow u → Follow u' →
    printed v ++ u = printed v' ++ u' → v = v' ∧ u = u'
  | .null, v', u, u', hu, hu', h => by
      have hkind := kind_of_printed h
      cases v' with
      | null => exact ⟨rfl, List.append_cancel_left h⟩
      | bool b => cases b <;> cases hkind
      | _ => cases hkind
  | .bool b, v', u, u', hu, hu', h => by
      have hkind := kind_of_printed h
      cases v' with
      | bool b' =>
          cases b <;> cases b' <;>
            first | exact ⟨rfl, List.append_cancel_left h⟩ | cases hkind
      | _ => cases b <;> cases hkind
  | .num x, v', u, u', hu, hu', h => by
      have hkind := kind_of_printed h
      cases v' with
      | num y =>
          obtain ⟨rfl, hrest⟩ := text_inj hu hu' h
          exact ⟨rfl, hrest⟩
      | bool b => cases b <;> cases hkind
      | _ => cases hkind
  | .str s, v', u, u', hu, hu', h => by
      have hkind := kind_of_printed h
      cases v' with
      | str s' =>
          obtain ⟨rfl, hrest⟩ := quoted_inj h
          exact ⟨rfl, hrest⟩
      | bool b => cases b <;> cases hkind
      | _ => cases hkind
  | .arr xs, v', u, u', hu, hu', h => by
      have hkind := kind_of_printed h
      cases v' with
      | arr ys =>
          cases xs with
          | nil =>
              cases ys with
              | nil => exact ⟨rfl, List.append_cancel_left h⟩
              | cons y ys =>
                  rw [printed_arr_nil, printed_arr_cons] at h
                  exact absurd (List.cons.inj h).2.symm (printed_ne_close y _ _)
          | cons x xs =>
              cases ys with
              | nil =>
                  rw [printed_arr_nil, printed_arr_cons] at h
                  exact absurd (List.cons.inj h).2 (printed_ne_close x _ _)
              | cons y ys =>
                  rw [printed_arr_cons, printed_arr_cons] at h
                  obtain ⟨rfl, hmore⟩ :=
                    printed_inj (follow_more xs u) (follow_more ys u') (List.cons.inj h).2
                  obtain ⟨rfl, hrest⟩ := printedMore_inj hmore
                  exact ⟨rfl, hrest⟩
      | bool b => cases b <;> cases hkind
      | _ => cases hkind
  | .obj fields, v', u, u', hu, hu', h => by
      have hkind := kind_of_printed h
      cases v' with
      | obj fields' =>
          cases fields with
          | nil =>
              cases fields' with
              | nil => exact ⟨rfl, List.append_cancel_left h⟩
              | cons f' fields' =>
                  obtain ⟨k', v'⟩ := f'
                  rw [printed_obj_nil, printed_obj_cons] at h
                  cases (List.cons.inj (List.cons.inj h).2).1
          | cons f fields =>
              obtain ⟨k, v⟩ := f
              cases fields' with
              | nil =>
                  rw [printed_obj_nil, printed_obj_cons] at h
                  cases (List.cons.inj (List.cons.inj h).2).1
              | cons f' fields' =>
                  obtain ⟨k', v'⟩ := f'
                  rw [printed_obj_cons, printed_obj_cons] at h
                  obtain ⟨rfl, hvalue⟩ := quoted_inj (List.cons.inj h).2
                  obtain ⟨rfl, hfields⟩ := printed_inj (follow_fields fields u)
                    (follow_fields fields' u') (List.cons.inj hvalue).2
                  obtain ⟨rfl, hrest⟩ := printedFields_inj hfields
                  exact ⟨rfl, hrest⟩
      | bool b => cases b <;> cases hkind
      | _ => cases hkind

theorem printedMore_inj : ∀ {xs ys : List JsonValue} {u u' : List Char},
    printedMore xs ++ ']' :: u = printedMore ys ++ ']' :: u' → xs = ys ∧ u = u'
  | [], ys, u, u', h => by
      cases ys with
      | nil => exact ⟨rfl, (List.cons.inj h).2⟩
      | cons y ys => cases (List.cons.inj h).1
  | x :: xs, ys, u, u', h => by
      cases ys with
      | nil => cases (List.cons.inj h).1
      | cons y ys =>
          rw [printedMore_cons, printedMore_cons] at h
          obtain ⟨rfl, hmore⟩ :=
            printed_inj (follow_more xs u) (follow_more ys u') (List.cons.inj h).2
          obtain ⟨rfl, hrest⟩ := printedMore_inj hmore
          exact ⟨rfl, hrest⟩

theorem printedFields_inj : ∀ {fields fields' : List (String × JsonValue)} {u u' : List Char},
    printedFields fields ++ '\x7d' :: u = printedFields fields' ++ '\x7d' :: u' →
      fields = fields' ∧ u = u'
  | [], fields', u, u', h => by
      cases fields' with
      | nil => exact ⟨rfl, (List.cons.inj h).2⟩
      | cons f fields' => cases (List.cons.inj h).1
  | (k, v) :: fields, fields', u, u', h => by
      cases fields' with
      | nil => cases (List.cons.inj h).1
      | cons f fields' =>
          obtain ⟨k', v'⟩ := f
          rw [printedFields_cons, printedFields_cons] at h
          obtain ⟨rfl, hvalue⟩ := quoted_inj (List.cons.inj h).2
          obtain ⟨rfl, hfields⟩ := printed_inj (follow_fields fields u)
            (follow_fields fields' u') (List.cons.inj hvalue).2
          obtain ⟨rfl, hrest⟩ := printedFields_inj hfields
          exact ⟨rfl, hrest⟩
end

/-- **No two values share their text.** -/
theorem stringify_injective : Function.Injective stringify := by
  intro v v' h
  have hend : Follow [] := by
    intro c hc
    cases hc
  have hprinted : printed v ++ [] = printed v' ++ [] := by
    rw [List.append_nil, List.append_nil]
    exact String.ofList_injective h
  exact (printed_inj hend hend hprinted).1

end JsonValue

end LeaveLedger.Js
