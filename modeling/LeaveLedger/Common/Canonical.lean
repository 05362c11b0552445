import LeaveLedger.Common.HashUtil
import Mathlib.Data.List.Lex
import Mathlib.Data.List.Nodup

/-!
# Common — hashObject as a canonical form

`sortObjectKeys` sorts the members of an object and puts them into a new
one. Whatever order they came in, the result is the same object, so the
digest does not depend on the order. But the member `__proto__` is assigned
like every other and sets the prototype of the new object in place of a
property, so it is left out.
-/

namespace LeaveLedger

open Js

/-! ## The order of the keys -/

/-- The code units of one character. -/
def charUnits (c : Char) : List ℕ :=
  if c.toNat < 0x10000 then [c.toNat]
  else [0xD800 + (c.toNat - 0x10000) / 0x400, 0xDC00 + (c.toNat - 0x10000) % 0x400]

theorem charUnits_ne_nil (c : Char) : charUnits c ≠ [] := by
  unfold charUnits
  split <;> simp

/-- The first character of a text is read off its units: no character is a surrogate. -/
theorem charUnits_append_inj {c d : Char} {us vs : List ℕ}
    (h : charUnits c ++ us = charUnits d ++ vs) : c = d ∧ us = vs := by
  have hc : c.toNat < 0xD800 ∨ 0xDFFF < c.toNat ∧ c.toNat < 0x110000 := c.valid
  have hd : d.toNat < 0xD800 ∨ 0xDFFF < d.toNat ∧ d.toNat < 0x110000 := d.valid
  have hsame : c.toNat = d.toNat → c = d := Char.toNat_inj.mp
  unfold charUnits at h
  by_cases hc' : c.toNat < 0x10000 <;> by_cases hd' : d.toNat < 0x10000
  · rw [if_pos hc', if_pos hd'] at h
    simp only [List.cons_append, List.nil_append, List.cons.injEq] at h
    exact ⟨hsame h.1, h.2⟩
  · rw [if_pos hc', if_neg hd'] at h
    simp only [List.cons_append, List.nil_append, List.cons.injEq] at h
    omega
  · rw [if_neg hc', if_pos hd'] at h
    simp only [List.cons_append, List.nil_append, List.cons.injEq] at h
    omega
  · rw [if_neg hc', if_neg hd'] at h
    simp only [List.cons_append, List.nil_append, List.cons.injEq] at h
    exact ⟨hsame (by omega), h.2.2⟩

theorem utf16Units_injective : Function.Injective utf16Units := by
  have hunits : ∀ cs ds : List Char, cs.flatMap charUnits = ds.flatMap charUnits → cs = ds := by
    intro cs
    induction cs with
    | nil =>
        intro ds h
        cases ds with
        | nil => rfl
        | cons d ds =>
            rw [List.flatMap_nil, List.flatMap_cons] at h
            exact absurd (List.append_eq_nil_iff.mp h.symm).1 (charUnits_ne_nil d)
    | cons c cs ih =>
        intro ds h
        cases ds with
        | nil =>
            rw [List.flatMap_nil, List.flatMap_cons] at h
            exact absurd (List.append_eq_nil_iff.mp h).1 (charUnits_ne_nil c)
        | cons d ds =>
            rw [List.flatMap_cons, List.flatMap_cons] at h
            obtain ⟨rfl, hrest⟩ := charUnits_append_inj h
            rw [ih ds hrest]
  intro s t h
  exact String.toList_injective (hunits _ _ h)

/-- The members in the order of their keys. -/
abbrev memberLE (f g : String × Json) : Prop := keyLE f.1 g.1 = true

instance : Std.Total memberLE :=
  ⟨fun f g => by
    simp only [memberLE, keyLE, decide_eq_true_eq]
    exact le_total _ _⟩

instance : IsTrans (String × Json) memberLE :=
  ⟨fun f g h hfg hgh => by
    simp only [memberLE, keyLE, decide_eq_true_eq] at hfg hgh ⊢
    exact le_trans hfg hgh⟩

theorem key_eq_of_memberLE {f g : String × Json} (h : memberLE f g) (h' : memberLE g f) :
    f.1 = g.1 := by
  simp only [memberLE, keyLE, decide_eq_true_eq] at h h'
  exact utf16Units_injective (le_antisymm h h')

/-! ## Rebuilding an object -/

/-- The new object of `reduce`, from the members in the order of their keys. -/
def arrange (fields : List (String × Json)) : List (String × Json) :=
  (fields.insertionSort memberLE).foldl (fun acc f => setProperty f.1 f.2 acc) []

theorem sortObjectKeys_obj (fields : List (String × Json)) :
    sortObjectKeys (.obj fields) = .obj (arrange (sortFields fields)) := by
  rw [sortObjectKeys]
  rfl

theorem setProperty_proto (v : Json) (acc : List (String × Json)) :
    setProperty "__proto__" v acc = acc := by
  cases acc with
  | nil => rfl
  | cons f rest => simp [setProperty]

/-- A new key becomes one more member. -/
theorem mem_setProperty {key : String} {v : Json} (hkey : key ≠ "__proto__") :
    ∀ {acc : List (String × Json)}, (∀ f ∈ acc, f.1 ≠ key) →
      ∀ f, f ∈ setProperty key v acc ↔ f = (key, v) ∨ f ∈ acc := by
  intro acc
  induction acc with
  | nil =>
      intro hnew f
      simp [setProperty, hkey]
  | cons g rest ih =>
      intro hnew f
      obtain ⟨k, w⟩ := g
      have hk : k ≠ key := hnew (k, w) (by simp)
      have hrest : ∀ f ∈ rest, f.1 ≠ key := fun f hf => hnew f (by simp [hf])
      simp only [setProperty, hkey, hk, if_false]
      split
      · split
        · simp
        · simp only [List.mem_cons, ih hrest]
          tauto
      · simp
      · simp only [List.mem_cons, ih hrest]
        tauto

/-- Of members whose keys differ, the new object has all but `__proto__`. -/
theorem mem_foldl_setProperty : ∀ (l acc : List (String × Json)), (l.map Prod.fst).Nodup →
    (∀ f ∈ l, ∀ g ∈ acc, g.1 ≠ f.1) → ∀ f,
      f ∈ l.foldl (fun acc f => setProperty f.1 f.2 acc) acc
        ↔ f ∈ acc ∨ (f ∈ l ∧ f.1 ≠ "__proto__") := by
  intro l
  induction l with
  | nil =>
      intro acc hnd hnew f
      simp
  | cons g rest ih =>
      intro acc hnd hnew f
      obtain ⟨k, v⟩ := g
      simp only [List.map_cons, List.nodup_cons] at hnd
      have hrest : ∀ h ∈ rest, h.1 ≠ k := by
        intro h hh heq
        exact hnd.1 (heq ▸ List.mem_map_of_mem hh)
      rw [List.foldl_cons]
      by_cases hk : k = "__proto__"
      · subst hk
        rw [setProperty_proto, ih acc hnd.2 fun f hf => hnew f (by simp [hf])]
        constructor
        · rintro (hf | ⟨hf, hne⟩)
          · exact .inl hf
          · exact .inr ⟨by simp [hf], hne⟩
        · rintro (hf | ⟨hf, hne⟩)
          · exact .inl hf
          · obtain rfl | hf := List.mem_cons.mp hf
            · exact absurd rfl hne
            · exact .inr ⟨hf, hne⟩
      · have hmem := mem_setProperty (v := v) hk (hnew (k, v) (by simp))
        rw [ih _ hnd.2 ?_, hmem]
        · constructor
          · rintro ((rfl | hf) | ⟨hf, hne⟩)
            · exact .inr ⟨by simp, hk⟩
            · exact .inl hf
            · exact .inr ⟨by simp [hf], hne⟩
          · rintro (hf | ⟨hf, hne⟩)
            · exact .inl (.inr hf)
            · obtain rfl | hf := List.mem_cons.mp hf
              · exact .inl (.inl rfl)
              · exact .inr ⟨hf, hne⟩
        · intro h hh g hg
          obtain rfl | hg := (hmem g).mp hg
          · exact (hrest h hh).symm
          · exact hnew h (by simp [hh]) g hg

/-- What becomes a property of the new object. -/
def kept (fields : List (String × Json)) : List (String × Json) :=
  fields.filter fun f => f.1 ≠ "__proto__"

/-- The members left out do not matter to the others. -/
theorem foldl_kept : ∀ (l acc : List (String × Json)),
    (kept l).foldl (fun acc f => setProperty f.1 f.2 acc) acc
      = l.foldl (fun acc f => setProperty f.1 f.2 acc) acc := by
  intro l
  induction l with
  | nil => intro acc; rfl
  | cons g rest ih =>
      intro acc
      obtain ⟨k, v⟩ := g
      by_cases hk : k = "__proto__"
      · subst hk
        rw [List.foldl_cons, setProperty_proto, ← ih acc]
        simp [kept]
      · rw [List.foldl_cons, ← ih]
        simp [kept, hk]

theorem nodup_kept {fields : List (String × Json)} (h : (fields.map Prod.fst).Nodup) :
    (kept fields).Nodup := h.of_map.filter _

/-- **The new object says which members it was made from**, and nothing about their order. -/
theorem arrange_eq_iff {fields fields' : List (String × Json)}
    (h : (fields.map Prod.fst).Nodup) (h' : (fields'.map Prod.fst).Nodup) :
    arrange fields = arrange fields' ↔ (kept fields).Perm (kept fields') := by
  have hmem : ∀ {l : List (String × Json)}, (l.map Prod.fst).Nodup → ∀ f,
      f ∈ arrange l ↔ f ∈ kept l := by
    intro l hl f
    have hperm := List.perm_insertionSort memberLE l
    have hsorted : ((l.insertionSort memberLE).map Prod.fst).Nodup :=
      (hperm.map Prod.fst).nodup_iff.mpr hl
    rw [arrange, mem_foldl_setProperty _ _ hsorted (by simp), hperm.mem_iff]
    simp [kept]
  constructor
  · intro heq
    rw [List.perm_ext_iff_of_nodup (nodup_kept h) (nodup_kept h')]
    intro f
    rw [← hmem h, ← hmem h', heq]
  · intro hperm
    have hsort : ∀ l : List (String × Json), (kept (l.insertionSort memberLE)).Perm (kept l)
        ∧ (kept (l.insertionSort memberLE)).Pairwise memberLE := fun l =>
      ⟨(List.perm_insertionSort memberLE l).filter _,
        (List.pairwise_insertionSort memberLE l).filter _⟩
    have hsame : kept (fields.insertionSort memberLE) = kept (fields'.insertionSort memberLE) := by
      refine List.Perm.eq_of_pairwise ?_ (hsort fields).2 (hsort fields').2
        ((hsort fields).1.trans (hperm.trans (hsort fields').1.symm))
      intro f g hf hg hfg hgf
      -- one key names one member
      have hf' : f ∈ kept fields := (hsort fields).1.mem_iff.mp hf
      have hg' : g ∈ kept fields := hperm.mem_iff.mpr ((hsort fields').1.mem_iff.mp hg)
      exact List.inj_on_of_nodup_map h (List.mem_of_mem_filter hf') (List.mem_of_mem_filter hg')
        (key_eq_of_memberLE hfg hgf)
    unfold arrange
    rw [← foldl_kept, hsame, foldl_kept]

/-! ## Values up to the order of their keys -/

mutual
/-- The values are equal but for the order of object keys, at every depth. -/
def SameUpToOrder : Json → Json → Prop
  | .null, .null => True
  | .bool b, .bool b' => b = b'
  | .num q, .num q' => q = q'
  | .str s, .str s' => s = s'
  | .arr xs, .arr ys => SameElements xs ys
  | .obj fields, .obj fields' => fields.length = fields'.length ∧ SameMembers fields fields'
  | _, _ => False

def SameElements : List Json → List Json → Prop
  | [], [] => True
  | x :: xs, y :: ys => SameUpToOrder x y ∧ SameElements xs ys
  | _, _ => False

/-- Every member of the first object is one of the second, wherever it stands there. -/
def SameMembers : List (String × Json) → List (String × Json) → Prop
  | [], _ => True
  | (k, v) :: rest, fields => (∃ w, (k, w) ∈ fields ∧ SameUpToOrder v w) ∧ SameMembers rest fields
end

mutual
/-- No object has a key twice, as in every value that `JSON.parse` produces. -/
def DistinctKeys : Json → Prop
  | .arr xs => DistinctElements xs
  | .obj fields => (fields.map Prod.fst).Nodup ∧ DistinctMembers fields
  | .null => True
  | .bool _ => True
  | .num _ => True
  | .str _ => True

def DistinctElements : List Json → Prop
  | [] => True
  | x :: xs => DistinctKeys x ∧ DistinctElements xs

def DistinctMembers : List (String × Json) → Prop
  | [] => True
  | (_, v) :: rest => DistinctKeys v ∧ DistinctMembers rest
end

mutual
/-- The value without its members `__proto__`, at every depth. -/
def withoutProto : Json → Json
  | .arr xs => .arr (elementsWithoutProto xs)
  | .obj fields => .obj (membersWithoutProto fields)
  | .null => .null
  | .bool b => .bool b
  | .num q => .num q
  | .str s => .str s

def elementsWithoutProto : List Json → List Json
  | [] => []
  | x :: xs => withoutProto x :: elementsWithoutProto xs

def membersWithoutProto : List (String × Json) → List (String × Json)
  | [] => []
  | (k, v) :: rest =>
      if k = "__proto__" then membersWithoutProto rest
      else (k, withoutProto v) :: membersWithoutProto rest
end

/-! ## Members, one by one -/

theorem sameMembers_iff {fields fields' : List (String × Json)} :
    SameMembers fields fields'
      ↔ ∀ f ∈ fields, ∃ w, (f.1, w) ∈ fields' ∧ SameUpToOrder f.2 w := by
  induction fields with
  | nil => simp [SameMembers]
  | cons f rest ih => simp [SameMembers, ih]

mutual
/-- Every value is the same as itself. -/
theorem sameUpToOrder_refl : ∀ a : Json, SameUpToOrder a a
  | .null => trivial
  | .bool _ => rfl
  | .num _ => rfl
  | .str _ => rfl
  | .arr xs => sameElements_refl xs
  | .obj fields => ⟨rfl, sameMembers_iff.mpr fun f hf => ⟨f.2, hf, sameMember_refl fields f hf⟩⟩

theorem sameElements_refl : ∀ xs : List Json, SameElements xs xs
  | [] => trivial
  | x :: xs => ⟨sameUpToOrder_refl x, sameElements_refl xs⟩

theorem sameMember_refl : ∀ (fields : List (String × Json)), ∀ f ∈ fields, SameUpToOrder f.2 f.2
  | [], f, hf => by cases hf
  | (k, v) :: rest, f, hf => by
      rcases List.mem_cons.mp hf with rfl | hf
      · exact sameUpToOrder_refl v
      · exact sameMember_refl rest f hf
end

theorem distinctKeys_obj {fields : List (String × Json)} :
    DistinctKeys (.obj fields) ↔ (fields.map Prod.fst).Nodup ∧ DistinctMembers fields := by
  rw [DistinctKeys]

theorem distinctKeys_pair {k l : String} {v w : Json} (h : k ≠ l) (hv : DistinctKeys v)
    (hw : DistinctKeys w) : DistinctKeys (.obj [(k, v), (l, w)]) := by
  rw [distinctKeys_obj]
  constructor
  · simp [h]
  · simp [DistinctMembers, hv, hw]

theorem distinctMembers_iff {fields : List (String × Json)} :
    DistinctMembers fields ↔ ∀ f ∈ fields, DistinctKeys f.2 := by
  induction fields with
  | nil => simp [DistinctMembers]
  | cons f rest ih => simp [DistinctMembers, ih]

theorem sortFields_eq (fields : List (String × Json)) :
    sortFields fields = fields.map fun f => (f.1, sortObjectKeys f.2) := by
  induction fields with
  | nil => rfl
  | cons f rest ih => rw [List.map_cons, ← ih]; rfl

theorem membersWithoutProto_eq (fields : List (String × Json)) :
    membersWithoutProto fields = (kept fields).map fun f => (f.1, withoutProto f.2) := by
  induction fields with
  | nil => rfl
  | cons f rest ih =>
      obtain ⟨k, v⟩ := f
      by_cases hk : k = "__proto__"
      · simp [membersWithoutProto, kept, hk, ih]
      · simp [membersWithoutProto, kept, hk, ih]

theorem keys_sortFields (fields : List (String × Json)) :
    (sortFields fields).map Prod.fst = fields.map Prod.fst := by
  rw [sortFields_eq, List.map_map]
  rfl

theorem kept_sortFields (fields : List (String × Json)) :
    kept (sortFields fields) = (kept fields).map fun f => (f.1, sortObjectKeys f.2) := by
  rw [sortFields_eq]
  unfold kept
  rw [List.filter_map]
  rfl

/-- Members whose keys differ are the same in another order when there are as many and each
is found among the others. -/
theorem perm_iff {l l' : List (String × Json)} (h : l.Nodup) :
    l.length = l'.length ∧ (∀ f ∈ l, f ∈ l') ↔ l.Perm l' := by
  constructor
  · rintro ⟨hlength, hsub⟩
    exact (List.subperm_of_subset h hsub).perm_of_length_le hlength.ge
  · intro hperm
    exact ⟨hperm.length_eq, fun f hf => hperm.mem_iff.mp hf⟩

/-! ## What sorting keeps and forgets -/

/-- Two objects, from what is known of their values. -/
theorem sortObjectKeys_obj_eq_iff {fields fields' : List (String × Json)}
    (h : (fields.map Prod.fst).Nodup) (h' : (fields'.map Prod.fst).Nodup)
    (hvalues : ∀ f ∈ fields, ∀ g ∈ fields', (sortObjectKeys f.2 = sortObjectKeys g.2
      ↔ SameUpToOrder (withoutProto f.2) (withoutProto g.2))) :
    sortObjectKeys (.obj fields) = sortObjectKeys (.obj fields')
      ↔ SameUpToOrder (withoutProto (.obj fields)) (withoutProto (.obj fields')) := by
  have hk : ((sortFields fields).map Prod.fst).Nodup := by rw [keys_sortFields]; exact h
  have hk' : ((sortFields fields').map Prod.fst).Nodup := by rw [keys_sortFields]; exact h'
  rw [sortObjectKeys_obj, sortObjectKeys_obj, Json.obj.injEq, arrange_eq_iff hk hk',
    ← perm_iff (nodup_kept hk), kept_sortFields, kept_sortFields]
  simp only [withoutProto, SameUpToOrder, sameMembers_iff, membersWithoutProto_eq,
    List.length_map, List.forall_mem_map]
  refine and_congr_right fun _ => forall₂_congr fun f hf => ?_
  have hf' : f ∈ fields := List.mem_of_mem_filter hf
  constructor
  · intro hmem
    obtain ⟨g, hg, heq⟩ := List.mem_map.mp hmem
    simp only [Prod.mk.injEq] at heq
    refine ⟨withoutProto g.2, List.mem_map.mpr ⟨g, hg, by rw [heq.1]⟩, ?_⟩
    exact (hvalues f hf' g (List.mem_of_mem_filter hg)).mp heq.2.symm
  · rintro ⟨w, hmem, hsame⟩
    obtain ⟨g, hg, heq⟩ := List.mem_map.mp hmem
    simp only [Prod.mk.injEq] at heq
    obtain ⟨hkey, rfl⟩ := heq
    refine List.mem_map.mpr ⟨g, hg, ?_⟩
    rw [hkey, (hvalues f hf' g (List.mem_of_mem_filter hg)).mpr hsame]

mutual
/-- **Sorting forgets the order of the keys and the members `__proto__`**, and nothing else. -/
theorem sortObjectKeys_eq_iff : ∀ (a b : Json), DistinctKeys a → DistinctKeys b →
    (sortObjectKeys a = sortObjectKeys b ↔ SameUpToOrder (withoutProto a) (withoutProto b))
  | .null, b, _, _ => by cases b <;> simp [sortObjectKeys, withoutProto, SameUpToOrder]
  | .bool x, b, _, _ => by cases b <;> simp [sortObjectKeys, withoutProto, SameUpToOrder]
  | .num q, b, _, _ => by cases b <;> simp [sortObjectKeys, withoutProto, SameUpToOrder]
  | .str s, b, _, _ => by cases b <;> simp [sortObjectKeys, withoutProto, SameUpToOrder]
  | .arr xs, b, ha, hb => by
      cases b with
      | arr ys =>
          simp only [sortObjectKeys, withoutProto, SameUpToOrder, Json.arr.injEq]
          exact sortElements_eq_iff xs ys ha hb
      | _ => simp [sortObjectKeys, withoutProto, SameUpToOrder]
  | .obj fields, b, ha, hb => by
      cases b with
      | obj fields' =>
          rw [distinctKeys_obj] at ha hb
          exact sortObjectKeys_obj_eq_iff ha.1 hb.1 fun f hf g hg =>
            sortMember_eq_iff fields ha.2 f hf g.2 (distinctMembers_iff.mp hb.2 g hg)
      | _ => simp [sortObjectKeys, withoutProto, SameUpToOrder]

theorem sortElements_eq_iff : ∀ (xs ys : List Json), DistinctElements xs → DistinctElements ys →
    (sortElements xs = sortElements ys
      ↔ SameElements (elementsWithoutProto xs) (elementsWithoutProto ys))
  | [], ys, _, _ => by cases ys <;> simp [sortElements, elementsWithoutProto, SameElements]
  | x :: xs, ys, hx, hy => by
      cases ys with
      | nil => simp [sortElements, elementsWithoutProto, SameElements]
      | cons y ys =>
          simp only [sortElements, elementsWithoutProto, SameElements, List.cons.injEq]
          rw [sortObjectKeys_eq_iff x y hx.1 hy.1, sortElements_eq_iff xs ys hx.2 hy.2]

theorem sortMember_eq_iff : ∀ (fields : List (String × Json)), DistinctMembers fields →
    ∀ f ∈ fields, ∀ w, DistinctKeys w → (sortObjectKeys f.2 = sortObjectKeys w
      ↔ SameUpToOrder (withoutProto f.2) (withoutProto w))
  | [], _, f, hf, _, _ => absurd hf List.not_mem_nil
  | (k, v) :: rest, h, f, hf, w, hw => by
      obtain rfl | hf := List.mem_cons.mp hf
      · exact sortObjectKeys_eq_iff v w h.1 hw
      · exact sortMember_eq_iff rest h.2 f hf w hw
end

mutual
/-- Values that are the same up to the order of their keys are sorted to the same value. -/
theorem sortObjectKeys_of_same : ∀ (a b : Json), DistinctKeys a → DistinctKeys b →
    SameUpToOrder a b → sortObjectKeys a = sortObjectKeys b
  | .null, b, _, _, h => by cases b <;> simp_all [SameUpToOrder]
  | .bool x, b, _, _, h => by cases b <;> simp_all [SameUpToOrder]
  | .num q, b, _, _, h => by cases b <;> simp_all [SameUpToOrder]
  | .str s, b, _, _, h => by cases b <;> simp_all [SameUpToOrder]
  | .arr xs, b, ha, hb, h => by
      cases b with
      | arr ys =>
          simp only [sortObjectKeys]
          rw [sortElements_of_same xs ys ha hb h]
      | _ => simp [SameUpToOrder] at h
  | .obj fields, b, ha, hb, h => by
      cases b with
      | obj fields' =>
          rw [distinctKeys_obj] at ha hb
          simp only [SameUpToOrder, sameMembers_iff] at h
          have hk : ((sortFields fields).map Prod.fst).Nodup := by
            rw [keys_sortFields]
            exact ha.1
          have hk' : ((sortFields fields').map Prod.fst).Nodup := by
            rw [keys_sortFields]
            exact hb.1
          rw [sortObjectKeys_obj, sortObjectKeys_obj, (arrange_eq_iff hk hk').mpr]
          -- the sorted members are the same in another order
          refine List.Perm.filter _ ((perm_iff hk.of_map).mp ⟨?_, ?_⟩)
          · rw [sortFields_eq, sortFields_eq, List.length_map, List.length_map]
            exact h.1
          · rw [sortFields_eq, sortFields_eq, List.forall_mem_map]
            intro f hf
            obtain ⟨w, hw, hsame⟩ := h.2 f hf
            have hvalue := sortMember_of_same fields ha.2 f hf w
              (distinctMembers_iff.mp hb.2 _ hw) hsame
            exact List.mem_map.mpr ⟨(f.1, w), hw, by rw [hvalue]⟩
      | _ => simp [SameUpToOrder] at h

theorem sortElements_of_same : ∀ (xs ys : List Json), DistinctElements xs → DistinctElements ys →
    SameElements xs ys → sortElements xs = sortElements ys
  | [], ys, _, _, h => by
      cases ys with
      | nil => rfl
      | cons y ys => exact h.elim
  | x :: xs, ys, hx, hy, h => by
      cases ys with
      | nil => exact h.elim
      | cons y ys =>
          simp only [sortElements]
          rw [sortObjectKeys_of_same x y hx.1 hy.1 h.1, sortElements_of_same xs ys hx.2 hy.2 h.2]

theorem sortMember_of_same : ∀ (fields : List (String × Json)), DistinctMembers fields →
    ∀ f ∈ fields, ∀ w, DistinctKeys w → SameUpToOrder f.2 w →
      sortObjectKeys f.2 = sortObjectKeys w
  | [], _, f, hf, _, _, _ => absurd hf List.not_mem_nil
  | (k, v) :: rest, h, f, hf, w, hw, hsame => by
      obtain rfl | hf := List.mem_cons.mp hf
      · exact sortObjectKeys_of_same v w h.1 hw hsame
      · exact sortMember_of_same rest h.2 f hf w hw hsame
end

/-! ## The digest -/

/-- **A canonical form but for `__proto__`**: for all values as `JSON.parse` produces them
whose digests do not collide, equal digests mean equal values up to the order of keys
exactly when the two do not differ in members `__proto__` alone. -/
theorem hash_canonical_iff (H : Hashing) (a b : Json) (ha : DistinctKeys a) (hb : DistinctKeys b)
    (hno : H.NoCollision [a, b]) :
    (hashObject H a = hashObject H b ↔ SameUpToOrder a b)
      ↔ (SameUpToOrder (withoutProto a) (withoutProto b) → SameUpToOrder a b) := by
  have hhash : hashObject H a = hashObject H b ↔ sortObjectKeys a = sortObjectKeys b := by
    constructor
    · exact hno a (by simp) b (by simp)
    · intro heq
      rw [hashObject, hashObject, heq]
  have hsort := sortObjectKeys_eq_iff a b ha hb
  have hsame := sortObjectKeys_of_same a b ha hb
  rw [hhash, hsort]
  constructor
  · exact fun h => h.mp
  · intro h
    exact ⟨h, fun hab => hsort.mp (hsame hab)⟩

/-- The members of a payload in two orders. -/
theorem hash_canonical_iff_reordered :
    DistinctKeys (.obj [("b", .bool true), ("a", .null)])
      ∧ (hashObject Hashing.plain (.obj [("b", .bool true), ("a", .null)])
          = hashObject Hashing.plain (.obj [("a", .null), ("b", .bool true)])
        ↔ SameUpToOrder (.obj [("b", .bool true), ("a", .null)])
            (.obj [("a", .null), ("b", .bool true)])) := by
  have hne : "b" ≠ "a" := by decide
  have ha : DistinctKeys (.obj [("b", .bool true), ("a", .null)]) :=
    distinctKeys_pair hne trivial trivial
  have hb : DistinctKeys (.obj [("a", .null), ("b", .bool true)]) :=
    distinctKeys_pair hne.symm trivial trivial
  have hsame : SameUpToOrder (.obj [("b", .bool true), ("a", .null)])
      (.obj [("a", .null), ("b", .bool true)]) :=
    ⟨rfl, ⟨.bool true, .tail _ (.head _), rfl⟩, ⟨.null, .head _, trivial⟩, trivial⟩
  have hsorted := sortObjectKeys_of_same _ _ ha hb hsame
  have hno : Hashing.plain.NoCollision
      [.obj [("b", .bool true), ("a", .null)], .obj [("a", .null), ("b", .bool true)]] := by
    intro x hx y hy _
    simp only [List.mem_cons, List.not_mem_nil, or_false] at hx hy
    obtain rfl | rfl := hx <;> obtain rfl | rfl := hy
    · rfl
    · exact hsorted
    · exact hsorted.symm
    · rfl
  exact ⟨ha, (hash_canonical_iff Hashing.plain _ _ ha hb hno).mpr fun _ => hsame⟩

/-- A member `__proto__` does not reach the digest, whatever the hash functions. -/
theorem hash_without_proto :
    DistinctKeys (.obj [("__proto__", .bool true)]) ∧ DistinctKeys (.obj [])
      ∧ (∀ H, hashObject H (.obj [("__proto__", .bool true)]) = hashObject H (.obj []))
      ∧ ¬ SameUpToOrder (.obj [("__proto__", .bool true)]) (.obj []) := by
  refine ⟨distinctKeys_obj.mpr ⟨by simp, trivial, trivial⟩, distinctKeys_obj.mpr ⟨by simp, trivial⟩,
    fun H => rfl, ?_⟩
  simp [SameUpToOrder]

end LeaveLedger
