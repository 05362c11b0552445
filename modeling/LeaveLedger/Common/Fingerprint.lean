import LeaveLedger.Common.Canonical
import LeaveLedger.Common.IdempotencyManager
import LeaveLedger.Js.JsonNumbers
import LeaveLedger.Js.JsString

/-!
# Common — The two fingerprints of a payload

`IdempotencyManager.generateFingerprint` digests the text of a payload as it
is, `hashObject` that of the payload with its keys sorted. Both are followed
to the texts they digest. The first tells objects apart that only list their
keys differently, takes what is falsy for the empty object, takes a string
for the value that it spells, and takes strings for one another that differ
in lone surrogates; the second does none of these. A lone surrogate matters
in a payload that is a string, and only there: elsewhere both print it as an
escape.
-/

namespace LeaveLedger

open Js

namespace IdempotencyManager

/-- `payload || {}`. -/
def orEmpty : JsonValue → JsonValue
  | .null => .obj []
  | .bool false => .obj []
  | .num x => if x.significand = 0 then .obj [] else .num x
  | v => v

/-- `H` prints what the runtime prints. -/
def Prints (H : Hashing) : Prop := ∀ v : JsonValue, H.stringify v.toJson = v.stringify

/-- Both are null, false, 0 or the empty object. -/
def BothEmpty (a b : JsonValue) : Prop := orEmpty a = .obj [] ∧ orEmpty b = .obj []

/-! ## Payloads -/

/-- A payload: a JSON value that is a text, or a string that is none. -/
inductive Payload where
  | value (v : JsonValue)
  | lone (s : LoneString)

namespace Payload

/-- `generateFingerprint(payload)`; the digest is that of the UTF-8 of a string. -/
def fingerprint (H : Hashing) : Payload → String
  | value v => generateFingerprint H (some v.toJson)
  | lone s => H.sha256 s.toWellFormed

/-- `hashObject(payload)`; a string has no keys to sort. -/
def hash (H : Hashing) : Payload → String
  | value v => hashObject H v.toJson
  | lone s => H.sha256 s.stringify

/-- The texts that are digested. -/
def rawText (H : Hashing) : Payload → String
  | value v => fingerprintText H (some v.toJson)
  | lone s => s.toWellFormed

def sortedText (H : Hashing) : Payload → String
  | value v => H.stringify (sortObjectKeys v.toJson)
  | lone s => s.stringify

def digested (H : Hashing) (p q : Payload) : List String :=
  [p.rawText H, q.rawText H, p.sortedText H, q.sortedText H]

/-- No object has a key twice. -/
def DistinctKeys : Payload → Prop
  | value v => LeaveLedger.DistinctKeys v.toJson
  | lone _ => True

/-- The payloads are the same but for the order of keys. -/
def SameUpToOrder : Payload → Payload → Prop
  | value a, value b => LeaveLedger.SameUpToOrder a.toJson b.toJson
  | lone s, lone t => s = t
  | _, _ => False

/-- And but for members `__proto__`. -/
def SameWithoutProto : Payload → Payload → Prop
  | value a, value b =>
      LeaveLedger.SameUpToOrder (withoutProto a.toJson) (withoutProto b.toJson)
  | lone s, lone t => s = t
  | _, _ => False

/-- Both are null, false, 0 or the empty object. -/
def BothEmpty : Payload → Payload → Prop
  | value a, value b => IdempotencyManager.BothEmpty a b
  | _, _ => False

/-- The UTF-8 of a payload that is a string. -/
def text? : Payload → Option String
  | value (.str t) => some t
  | value _ => none
  | lone s => some s.toWellFormed

/-- The first is a string that reads like the JSON text of the second, which is none. -/
def Spells (p q : Payload) : Prop :=
  ∃ v, q = value v ∧ q.text? = none ∧ p.text? = some (orEmpty v).stringify

/-- Both are strings, and read alike once lone surrogates are replaced. -/
def Blurred (p q : Payload) : Prop := ∃ t, p.text? = some t ∧ q.text? = some t

/-- Both layers tell the payloads apart, or neither does, and `hashObject` does as their keys in
any order do. -/
def Agree (p : Payload) (H : Hashing) (q : Payload) : Prop :=
  (p.fingerprint H = q.fingerprint H ↔ p.hash H = q.hash H)
    ∧ (p.hash H = q.hash H ↔ p.SameUpToOrder q)

end Payload

/-! ## The text of the manager -/

section text
variable {H : Hashing} {a b v : JsonValue}

theorem orEmpty_cases (v : JsonValue) : orEmpty v = .obj [] ∨ orEmpty v = v := by
  cases v with
  | bool b => cases b <;> simp [orEmpty]
  | num x =>
      by_cases hx : x.significand = 0
      · simp [orEmpty, hx]
      · simp [orEmpty, hx]
  | _ => simp [orEmpty]

/-- Only values that are falsy are taken for one another. -/
theorem orEmpty_eq_iff : orEmpty a = orEmpty b ↔ a = b ∨ BothEmpty a b := by
  constructor
  · intro h
    rcases orEmpty_cases a with ha | ha
    · exact .inr ⟨ha, h ▸ ha⟩
    · rcases orEmpty_cases b with hb | hb
      · exact .inr ⟨h.trans hb, hb⟩
      · exact .inl (ha.symm.trans (h.trans hb))
  · rintro (rfl | ⟨ha, hb⟩)
    · rfl
    · rw [ha, hb]

theorem fingerprintText_of_ne_str (hprint : Prints H) (hv : ∀ s, v ≠ .str s) :
    fingerprintText H (some v.toJson) = (orEmpty v).stringify := by
  have hempty : H.stringify (.obj []) = (JsonValue.obj []).stringify := hprint (.obj [])
  cases v with
  | null => exact hempty
  | bool b =>
      cases b with
      | false => exact hempty
      | true => exact hprint (.bool true)
  | num x =>
      by_cases hx : x.significand = 0
      · simp [fingerprintText, JsonValue.toJson, orEmpty, hx, Decimal.value_eq_zero, hempty]
      · simp only [fingerprintText, JsonValue.toJson, orEmpty, hx, Decimal.value_eq_zero, if_false]
        exact hprint (.num x)
  | str s => exact absurd rfl (hv s)
  | arr xs => exact hprint (.arr xs)
  | obj fields => exact hprint (.obj fields)

end text

namespace Payload

section raw
variable {H : Hashing} {p q : Payload}

theorem rawText_of_text {t : String} (h : p.text? = some t) : p.rawText H = t := by
  cases p with
  | lone s => exact Option.some.inj h
  | value v =>
      cases v with
      | str s => exact Option.some.inj h
      | _ => cases h

theorem rawText_of_none (hprint : Prints H) (h : p.text? = none) :
    ∃ v, p = value v ∧ p.rawText H = (orEmpty v).stringify := by
  cases p with
  | lone s => cases h
  | value v =>
      refine ⟨v, rfl, fingerprintText_of_ne_str hprint fun s hv => ?_⟩
      rw [hv] at h
      cases h

/-- What is empty is no string. -/
theorem BothEmpty.text (h : BothEmpty p q) : p.text? = none ∧ q.text? = none := by
  have hnone : ∀ {v : JsonValue}, orEmpty v = .obj [] → (value v).text? = none := by
    intro v hv
    cases v with
    | str s => cases hv
    | _ => rfl
  cases p with
  | lone s => cases h
  | value a =>
      cases q with
      | lone s => cases h
      | value b => exact ⟨hnone h.1, hnone h.2⟩

/-- A payload that spells another is a string, and the other is none. -/
theorem Spells.text (h : Spells p q) : (∃ t, p.text? = some t) ∧ q.text? = none := by
  obtain ⟨v, -, hq, hp⟩ := h
  exact ⟨⟨_, hp⟩, hq⟩

theorem bothEmpty_comm : BothEmpty p q ↔ BothEmpty q p := by
  cases p <;> cases q <;> simp only [BothEmpty, IdempotencyManager.BothEmpty, and_comm]

theorem blurred_comm : Blurred p q ↔ Blurred q p := exists_congr fun _ => and_comm

theorem rawText_eq_iff_of_text (hprint : Prints H) {t : String} (hp : p.text? = some t) :
    p.rawText H = q.rawText H
      ↔ p = q ∨ BothEmpty p q ∨ Spells p q ∨ Spells q p ∨ Blurred p q := by
  have hnone : ¬ BothEmpty p q ∧ ¬ Spells q p := by
    refine ⟨fun h => ?_, fun h => ?_⟩
    · rw [h.text.1] at hp
      cases hp
    · rw [h.text.2] at hp
      cases hp
  rw [rawText_of_text hp]
  cases hq : q.text? with
  | some t' =>
      rw [rawText_of_text hq]
      have hspells : ¬ Spells p q := fun h => by
        rw [h.text.2] at hq
        cases hq
      have hsame : p = q → t = t' := by
        rintro rfl
        exact Option.some.inj (hp.symm.trans hq)
      have hblurred : Blurred p q ↔ t = t' := by
        simp [Blurred, hp, hq, eq_comm]
      rw [hblurred]
      tauto
  | none =>
      obtain ⟨v, rfl, htext⟩ := rawText_of_none hprint hq
      have hne : p ≠ value v := by
        rintro rfl
        rw [hp] at hq
        cases hq
      have hspells : Spells p (value v) ↔ t = (orEmpty v).stringify := by
        simp [Spells, hp, hq]
      have hblurred : ¬ Blurred p (value v) := by
        simp [Blurred, hq]
      rw [htext, hspells]
      tauto

/-- **When the manager digests one text**: for equal payloads, for two that are falsy or
empty, for a string and the value it spells, and for strings that read alike. -/
theorem rawText_eq_iff (hprint : Prints H) : p.rawText H = q.rawText H
    ↔ p = q ∨ BothEmpty p q ∨ Spells p q ∨ Spells q p ∨ Blurred p q := by
  cases hp : p.text? with
  | some t => exact rawText_eq_iff_of_text hprint hp
  | none =>
      cases hq : q.text? with
      | some t' =>
          have hswap := rawText_eq_iff_of_text (q := p) hprint hq
          rw [bothEmpty_comm, blurred_comm] at hswap
          rw [eq_comm, hswap, eq_comm (a := q)]
          tauto
      | none =>
          obtain ⟨a, rfl, htext⟩ := rawText_of_none hprint hp
          obtain ⟨b, rfl, htext'⟩ := rawText_of_none hprint hq
          have hblurred : ¬ Blurred (value a) (value b) := by
            simp [Blurred, hp]
          have hspells : ¬ Spells (value a) (value b) ∧ ¬ Spells (value b) (value a) := by
            simp [Spells, hp, hq]
          rw [htext, htext', JsonValue.stringify_injective.eq_iff, orEmpty_eq_iff]
          simp [hspells, hblurred, BothEmpty]

end raw

end Payload

/-! ## The text of hashObject -/

section sorted
open JsonValue

/-- What an object is rebuilt from, it has. -/
theorem mem_of_mem_setProperty {key : String} {v : Json} :
    ∀ {acc : List (String × Json)} {f : String × Json},
      f ∈ setProperty key v acc → f = (key, v) ∨ f ∈ acc := by
  intro acc
  induction acc with
  | nil =>
      intro f hf
      unfold setProperty at hf
      split at hf
      · cases hf
      · exact .inl (List.mem_singleton.mp hf)
  | cons g rest ih =>
      intro f hf
      obtain ⟨k, w⟩ := g
      have hcons : ∀ {x}, f ∈ x :: setProperty key v rest → x ∈ (k, w) :: rest →
          f = (key, v) ∨ f ∈ (k, w) :: rest := by
        intro x hf hx
        rcases List.mem_cons.mp hf with rfl | hf
        · exact .inr hx
        · exact (ih hf).imp_right (List.mem_cons_of_mem _)
      unfold setProperty at hf
      split_ifs at hf with hproto hk
      · exact .inr hf
      · rcases List.mem_cons.mp hf with rfl | hf
        · exact .inl (by rw [hk])
        · exact .inr (List.mem_cons_of_mem _ hf)
      · split at hf
        · split_ifs at hf
          · exact (List.mem_cons.mp hf).imp_right id
          · exact hcons hf List.mem_cons_self
        · exact (List.mem_cons.mp hf).imp_right id
        · exact hcons hf List.mem_cons_self

theorem mem_of_mem_arrange {l : List (String × Json)} {f : String × Json} (hf : f ∈ arrange l) :
    f ∈ l := by
  have hfold : ∀ (l acc : List (String × Json)),
      f ∈ l.foldl (fun acc f => setProperty f.1 f.2 acc) acc → f ∈ l ∨ f ∈ acc := by
    intro l
    induction l with
    | nil => exact fun acc h => .inr h
    | cons g rest ih =>
        intro acc h
        rcases ih _ h with h | h
        · exact .inl (List.mem_cons_of_mem _ h)
        · rcases mem_of_mem_setProperty h with rfl | h
          · exact .inl List.mem_cons_self
          · exact .inr h
  rcases hfold _ [] hf with h | h
  · exact (List.mem_insertionSort memberLE).mp h
  · cases h

mutual
/-- A sorted value has a text. -/
theorem hasText_sorted : ∀ v : JsonValue, HasText (sortObjectKeys v.toJson)
  | .null => ⟨.null, rfl⟩
  | .bool b => ⟨.bool b, rfl⟩
  | .num x => ⟨.num x, rfl⟩
  | .str s => ⟨.str s, rfl⟩
  | .arr xs => hasText_arr (hasText_sortElements xs)
  | .obj fields => by
      rw [toJson, sortObjectKeys_obj]
      exact hasText_obj fun f hf => hasText_sortFields fields f (mem_of_mem_arrange hf)

theorem hasText_sortElements : ∀ (xs : List JsonValue), ∀ x ∈ sortElements (toElements xs),
    HasText x
  | [], x, hx => by cases hx
  | v :: xs, x, hx => by
      rcases List.mem_cons.mp hx with rfl | hx
      · exact hasText_sorted v
      · exact hasText_sortElements xs x hx

theorem hasText_sortFields : ∀ (fields : List (String × JsonValue)),
    ∀ f ∈ sortFields (toFields fields), HasText f.2
  | [], f, hf => by cases hf
  | (k, v) :: fields, f, hf => by
      rcases List.mem_cons.mp hf with rfl | hf
      · exact hasText_sorted v
      · exact hasText_sortFields fields f hf
end

end sorted

namespace Payload

section agree
variable {H : Hashing} {p q : Payload}

theorem fingerprint_eq_iff (hsha : ∀ s ∈ digested H p q, ∀ t ∈ digested H p q,
    H.sha256 s = H.sha256 t → s = t) :
    p.fingerprint H = q.fingerprint H ↔ p.rawText H = q.rawText H := by
  have hdigest : ∀ p : Payload, p.fingerprint H = H.sha256 (p.rawText H) := fun p => by
    cases p <;> rfl
  rw [hdigest, hdigest]
  exact ⟨hsha _ (by simp [digested]) _ (by simp [digested]), congrArg _⟩

theorem hash_eq_iff (hsha : ∀ s ∈ digested H p q, ∀ t ∈ digested H p q,
    H.sha256 s = H.sha256 t → s = t) :
    p.hash H = q.hash H ↔ p.sortedText H = q.sortedText H := by
  have hdigest : ∀ p : Payload, p.hash H = H.sha256 (p.sortedText H) := fun p => by
    cases p <;> rfl
  rw [hdigest, hdigest]
  exact ⟨hsha _ (by simp [digested]) _ (by simp [digested]), congrArg _⟩

/-- The text of a value with its keys sorted is that of a value. -/
theorem sortedText_value (hprint : Prints H) (v : JsonValue) :
    ∃ w : JsonValue, w.toJson = sortObjectKeys v.toJson
      ∧ (value v).sortedText H = w.stringify := by
  obtain ⟨w, hw⟩ := hasText_sorted v
  refine ⟨w, hw, ?_⟩
  show H.stringify (sortObjectKeys v.toJson) = _
  rw [← hw, hprint]

theorem sortedText_value_eq_iff (hprint : Prints H) {a b : JsonValue} :
    (value a).sortedText H = (value b).sortedText H
      ↔ sortObjectKeys a.toJson = sortObjectKeys b.toJson := by
  obtain ⟨v, hv, htext⟩ := sortedText_value hprint a
  obtain ⟨w, hw, htext'⟩ := sortedText_value hprint b
  rw [htext, htext', JsonValue.stringify_injective.eq_iff, ← hv, ← hw,
    JsonValue.toJson_injective.eq_iff]

theorem sortedText_lone_ne (hprint : Prints H) (s : LoneString) (v : JsonValue) :
    (lone s).sortedText H ≠ (value v).sortedText H := by
  obtain ⟨w, -, htext⟩ := sortedText_value hprint v
  rw [htext]
  exact s.stringify_ne w

/-- **When `hashObject` digests one text**: for payloads that are the same but for the order of
keys and members `__proto__`. -/
theorem sortedText_eq_iff (hprint : Prints H) (hp : p.DistinctKeys) (hq : q.DistinctKeys) :
    p.sortedText H = q.sortedText H ↔ SameWithoutProto p q := by
  cases p with
  | value a =>
      cases q with
      | value b =>
          rw [sortedText_value_eq_iff hprint]
          exact sortObjectKeys_eq_iff a.toJson b.toJson hp hq
      | lone t => exact iff_of_false (sortedText_lone_ne hprint t a).symm id
  | lone s =>
      cases q with
      | value b => exact iff_of_false (sortedText_lone_ne hprint s b) id
      | lone t => exact LoneString.stringify_injective.eq_iff

theorem sameWithoutProto_of_same (hp : p.DistinctKeys) (hq : q.DistinctKeys)
    (h : SameUpToOrder p q) : SameWithoutProto p q := by
  cases p with
  | value a =>
      cases q with
      | value b =>
          exact (sortObjectKeys_eq_iff a.toJson b.toJson hp hq).mp
            (sortObjectKeys_of_same a.toJson b.toJson hp hq h)
      | lone t => exact h
  | lone s => cases q <;> exact h

theorem sameUpToOrder_refl (p : Payload) : SameUpToOrder p p := by
  cases p with
  | value v => exact LeaveLedger.sameUpToOrder_refl v.toJson
  | lone s => rfl

/-- What is falsy or empty is sorted to itself. -/
theorem eq_of_bothEmpty {a b : JsonValue} (h : IdempotencyManager.BothEmpty a b)
    (hsort : sortObjectKeys a.toJson = sortObjectKeys b.toJson) : a = b := by
  have hcases : ∀ {v : JsonValue}, orEmpty v = .obj [] →
      v = .null ∨ v = .bool false ∨ (∃ x, x.significand = 0 ∧ v = .num x) ∨ v = .obj [] := by
    intro v hv
    cases v with
    | null => simp
    | bool b => cases b <;> simp_all [orEmpty]
    | num x => by_cases hx : x.significand = 0 <;> simp_all [orEmpty]
    | str s => cases hv
    | arr xs => cases hv
    | obj fields => simp_all [orEmpty]
  obtain ⟨ha, hb⟩ := h
  rcases hcases ha with rfl | rfl | ⟨x, hx, rfl⟩ | rfl <;>
    rcases hcases hb with rfl | rfl | ⟨y, hy, rfl⟩ | rfl <;>
    simp_all [JsonValue.toJson, sortObjectKeys]
  exact Decimal.eq_of_zero hx hy

/-- A value that is sorted to a string is that string. -/
theorem eq_str_of_sorted {v : JsonValue} {t : String}
    (h : sortObjectKeys v.toJson = .str t) : v = .str t := by
  cases v with
  | str s => simpa [JsonValue.toJson, sortObjectKeys] using h
  | _ => simp [JsonValue.toJson, sortObjectKeys] at h

/-- A string shares its sorted text with no other payload. -/
theorem eq_of_sortedText (hprint : Prints H) {t : String} (hp : p.text? = some t)
    (h : p.sortedText H = q.sortedText H) : p = q := by
  cases p with
  | lone s =>
      cases q with
      | value b => exact absurd h (sortedText_lone_ne hprint s b)
      | lone t => rw [LoneString.stringify_injective h]
  | value a =>
      cases q with
      | lone t => exact absurd h.symm (sortedText_lone_ne hprint t a)
      | value b =>
          cases a with
          | str s =>
              rw [sortedText_value_eq_iff hprint] at h
              rw [eq_str_of_sorted (v := b) (h.symm.trans rfl)]
          | _ => cases hp

/-- Different payloads with one text for the manager have two for `hashObject`. -/
theorem sortedText_ne (hprint : Prints H) (hne : p ≠ q)
    (h : BothEmpty p q ∨ Spells p q ∨ Spells q p ∨ Blurred p q) :
    p.sortedText H ≠ q.sortedText H := by
  intro hsorted
  rcases h with h | h | h | ⟨t, ht, -⟩
  · cases p with
    | lone s => cases h
    | value a =>
        cases q with
        | lone s => cases h
        | value b =>
            have hboth := eq_of_bothEmpty h ((sortedText_value_eq_iff hprint).mp hsorted)
            exact hne (congrArg value hboth)
  · obtain ⟨⟨t, ht⟩, -⟩ := h.text
    exact hne (eq_of_sortedText hprint ht hsorted)
  · obtain ⟨⟨t, ht⟩, -⟩ := h.text
    exact hne (eq_of_sortedText hprint ht hsorted.symm).symm
  · exact hne (eq_of_sortedText hprint ht hsorted)

end agree

end Payload

/-! ## When the two layers agree -/

/-- **Where the fingerprints agree**: for all payloads as `JSON.parse` produces them, with
no collision among the four texts that are digested. The two layers tell the payloads
apart alike, and as their keys in any order do, exactly when the payloads are equal or
none of these: equal up to the order of keys and members `__proto__`; both falsy or empty;
one a string that reads like the JSON text of the other; two strings that read alike once
their lone surrogates are replaced. -/
theorem fingerprints_agree_iff (H : Hashing) (hprint : Prints H) (p q : Payload)
    (hp : p.DistinctKeys) (hq : q.DistinctKeys)
    (hsha : ∀ s ∈ Payload.digested H p q, ∀ t ∈ Payload.digested H p q,
      H.sha256 s = H.sha256 t → s = t) :
    p.Agree H q
      ↔ p = q ∨ ¬ (p.SameWithoutProto q ∨ p.BothEmpty q ∨ p.Spells q ∨ q.Spells p
        ∨ p.Blurred q) := by
  unfold Payload.Agree
  rw [Payload.fingerprint_eq_iff hsha, Payload.hash_eq_iff hsha, Payload.rawText_eq_iff hprint]
  have hsort := Payload.sortedText_eq_iff hprint hp hq
  have hsame := Payload.sameWithoutProto_of_same hp hq
  by_cases hpq : p = q
  · subst hpq
    simp [Payload.sameUpToOrder_refl]
  · have hapart := Payload.sortedText_ne (p := p) (q := q) hprint hpq
    rw [← hsort]
    rw [← hsort] at hsame
    tauto

/-- Hash functions that print as the runtime does and whose digests are the texts. -/
noncomputable def textual : Hashing :=
  ⟨Function.extend JsonValue.toJson JsonValue.stringify fun _ => "", id⟩

theorem textual_prints : Prints textual := by
  intro v
  exact JsonValue.toJson_injective.extend_apply JsonValue.stringify (fun _ => "") v

/-- The string of one lone surrogate. -/
def loneSurrogate (n : Fin 2048) : Payload :=
  .lone ⟨[.lone n], trivial, n, List.mem_singleton_self _⟩

theorem loneSurrogate_ne : loneSurrogate 0 ≠ loneSurrogate 1 := by
  intro h
  have hpoints := congrArg LoneString.points (Payload.lone.inj h)
  cases hpoints

/-- The layers agree on two arrays, and not on two lone surrogates. -/
theorem fingerprints_agree_iff_arrays :
    (Payload.value (.arr [.bool true])).Agree textual (.value (.arr [.bool false]))
      ∧ ¬ (loneSurrogate 0).Agree textual (loneSurrogate 1) := by
  constructor
  · refine (fingerprints_agree_iff textual textual_prints (.value (.arr [.bool true]))
      (.value (.arr [.bool false])) ⟨trivial, trivial⟩ ⟨trivial, trivial⟩
      fun s _ t _ h => h).mpr (.inr ?_)
    rintro (h | h | h | h | h)
    · exact Bool.noConfusion h.1
    · cases h.1
    · cases h.text.1.choose_spec
    · cases h.text.1.choose_spec
    · obtain ⟨t, ht, -⟩ := h
      cases ht
  · rw [fingerprints_agree_iff textual textual_prints (loneSurrogate 0) (loneSurrogate 1) trivial
      trivial fun s _ t _ h => h]
    rintro (h | h)
    · exact loneSurrogate_ne h
    · exact h (.inr (.inr (.inr (.inr ⟨_, rfl, rfl⟩))))

/-- The manager takes an object with its keys in another order for another payload, and null for
the empty object, and one lone surrogate for another; `hashObject` does the opposite. -/
theorem fingerprints_disagree :
    ((Payload.value (.obj [("a", .null), ("b", .null)])).fingerprint textual
        ≠ (Payload.value (.obj [("b", .null), ("a", .null)])).fingerprint textual
      ∧ (Payload.value (.obj [("a", .null), ("b", .null)])).hash textual
        = (Payload.value (.obj [("b", .null), ("a", .null)])).hash textual)
    ∧ ((Payload.value .null).fingerprint textual = (Payload.value (.obj [])).fingerprint textual
      ∧ (Payload.value .null).hash textual ≠ (Payload.value (.obj [])).hash textual)
    ∧ (loneSurrogate 0).fingerprint textual = (loneSurrogate 1).fingerprint textual
    ∧ (loneSurrogate 0).hash textual ≠ (loneSurrogate 1).hash textual := by
  have hfp : ∀ p q : Payload, p.fingerprint textual = q.fingerprint textual
      ↔ p = q ∨ p.BothEmpty q ∨ p.Spells q ∨ q.Spells p ∨ p.Blurred q := fun p q =>
    (Payload.fingerprint_eq_iff fun s _ t _ h => h).trans (Payload.rawText_eq_iff textual_prints)
  have hhash : ∀ p q : Payload, p.hash textual = q.hash textual
      ↔ p.sortedText textual = q.sortedText textual := fun p q =>
    Payload.hash_eq_iff fun s _ t _ h => h
  refine ⟨⟨fun h => ?_, ?_⟩, ⟨(hfp _ _).mpr (.inr (.inl ⟨rfl, rfl⟩)), fun h => ?_⟩,
    (hfp _ _).mpr (.inr (.inr (.inr (.inr ⟨_, rfl, rfl⟩)))), fun h => ?_⟩
  · rcases (hfp _ _).mp h with h | h | h | h | ⟨t, ht, -⟩
    · simp at h
    · cases h.1
    · cases h.text.1.choose_spec
    · cases h.text.1.choose_spec
    · cases ht
  · have hne : "a" ≠ "b" := by decide
    have hsame : SameUpToOrder (JsonValue.obj [("a", .null), ("b", .null)]).toJson
        (JsonValue.obj [("b", .null), ("a", .null)]).toJson :=
      ⟨rfl, ⟨.null, .tail _ (.head _), trivial⟩, ⟨.null, .head _, trivial⟩, trivial⟩
    rw [hhash, Payload.sortedText_value_eq_iff textual_prints]
    exact sortObjectKeys_of_same _ _ (distinctKeys_pair hne trivial trivial)
      (distinctKeys_pair hne.symm trivial trivial) hsame
  · have hsorted := (Payload.sortedText_value_eq_iff textual_prints).mp ((hhash _ _).mp h)
    cases hsorted
  · exact loneSurrogate_ne (Payload.eq_of_sortedText textual_prints rfl ((hhash _ _).mp h))

end IdempotencyManager

end LeaveLedger
