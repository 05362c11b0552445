import Mathlib.Algebra.BigOperators.Group.List.Basic
import Mathlib.Algebra.Order.BigOperators.Group.List
import Mathlib.Data.List.Nodup
import Mathlib.Tactic.Abel

/-!
# Lib — Tables with a primary key and a unique column

A `Table` is the rows of one relation in insertion order. That no two
rows share the primary key `pk`, and none the unique column `uk`, is part
of the type: `insert?` refuses a duplicate (the constraint error of the
database) and `modify` takes an update that leaves both columns alone, so
no operation can build a table that breaks either constraint.

`sumWhere` adds up a column over the rows that satisfy a predicate. Its
laws under `insert?` and `modify` are what a ledger invariant needs: one
new row adds its own amount, one changed row exchanges its old amount for
its new one.
-/

namespace LeaveLedger.Lib

/-- The sum of `w` over the members of `l` that satisfy `p`. -/
def sumWhere {α G : Type} [AddCommGroup G] (p : α → Bool) (w : α → G)
    (l : List α) : G :=
  ((l.filter p).map w).sum

section sumWhere
variable {α G : Type} [AddCommGroup G] (p : α → Bool) (w : α → G)

@[simp] theorem sumWhere_nil : sumWhere p w [] = 0 := rfl

theorem sumWhere_cons (a : α) (l : List α) :
    sumWhere p w (a :: l) = (if p a then w a else 0) + sumWhere p w l := by
  by_cases h : p a <;> simp [sumWhere, h]

theorem sumWhere_append (l l' : List α) :
    sumWhere p w (l ++ l') = sumWhere p w l + sumWhere p w l' := by
  simp [sumWhere]

/-- Changing rows in a way that neither `p` nor `w` sees keeps the sum. -/
theorem sumWhere_map_same (f : α → α) (l : List α)
    (hp : ∀ a ∈ l, p (f a) = p a) (hw : ∀ a ∈ l, p a → w (f a) = w a) :
    sumWhere p w (l.map f) = sumWhere p w l := by
  induction l with
  | nil => rfl
  | cons a l ih =>
      rw [List.map_cons, sumWhere_cons, sumWhere_cons, hp a (by simp),
        ih (fun b hb => hp b (by simp [hb])) (fun b hb => hw b (by simp [hb]))]
      by_cases h : p a
      · simp [h, hw a (by simp) h]
      · simp [h]

/-- Changing rows so that none has more than before does not raise the sum. -/
theorem sumWhere_map_le {α G : Type} [AddCommGroup G] [PartialOrder G] [IsOrderedAddMonoid G]
    (p : α → Bool) (w : α → G) (f : α → α) (l : List α)
    (h : ∀ a ∈ l, (if p (f a) then w (f a) else 0) ≤ if p a then w a else 0) :
    sumWhere p w (l.map f) ≤ sumWhere p w l := by
  induction l with
  | nil => exact le_refl _
  | cons a l ih =>
      rw [List.map_cons, sumWhere_cons, sumWhere_cons]
      exact add_le_add (h a (by simp)) (ih fun b hb => h b (by simp [hb]))

/-- And lowers it if one has less. -/
theorem sumWhere_map_lt {α G : Type} [AddCommGroup G] [PartialOrder G] [IsOrderedAddMonoid G]
    (p : α → Bool) (w : α → G) (f : α → α) {l : List α} {a : α}
    (h : ∀ a ∈ l, (if p (f a) then w (f a) else 0) ≤ if p a then w a else 0) (ha : a ∈ l)
    (hlt : (if p (f a) then w (f a) else 0) < if p a then w a else 0) :
    sumWhere p w (l.map f) < sumWhere p w l := by
  induction l with
  | nil => cases ha
  | cons b l ih =>
      have htail : ∀ c ∈ l, (if p (f c) then w (f c) else 0) ≤ if p c then w c else 0 :=
        fun c hc => h c (by simp [hc])
      rw [List.map_cons, sumWhere_cons, sumWhere_cons]
      rcases List.mem_cons.mp ha with rfl | hmem
      · exact add_lt_add_of_lt_of_le hlt (sumWhere_map_le p w f l htail)
      · exact add_lt_add_of_le_of_lt (h b (by simp)) (ih htail hmem)

/-- Changing the one row whose key is `i` exchanges its amount. -/
theorem sumWhere_map_key {κ : Type} [DecidableEq κ] (key : α → κ) (f : α → α)
    {l : List α} {a : α} (hnd : (l.map key).Nodup) (ha : a ∈ l) :
    sumWhere p w (l.map fun b => if key b = key a then f b else b)
      = sumWhere p w l - (if p a then w a else 0) + (if p (f a) then w (f a) else 0) := by
  induction l with
  | nil => cases ha
  | cons b l ih =>
      simp only [List.map_cons, List.nodup_cons] at hnd
      rcases List.mem_cons.mp ha with rfl | hmem
      · -- the head is the row: nothing in the tail has its key
        have htail : l.map (fun c => if key c = key a then f c else c) = l := by
          conv_rhs => rw [← List.map_id l]
          refine List.map_congr_left fun c hc => if_neg fun heq => hnd.1 ?_
          exact heq ▸ List.mem_map_of_mem hc
        rw [List.map_cons, if_pos rfl, htail, sumWhere_cons, sumWhere_cons]
        abel
      · have hne : key b ≠ key a := fun heq =>
          hnd.1 (heq ▸ List.mem_map_of_mem hmem)
        rw [List.map_cons, if_neg hne, sumWhere_cons, sumWhere_cons, ih hnd.2 hmem]
        abel

/-- A row is never more than the sum it is part of. -/
theorem le_sumWhere {α G : Type} [AddCommGroup G] [LinearOrder G] [IsOrderedAddMonoid G]
    {p : α → Bool} {w : α → G} {l : List α} {a : α}
    (hw : ∀ b ∈ l, p b → 0 ≤ w b) (ha : a ∈ l) (hp : p a) : w a ≤ sumWhere p w l := by
  refine List.single_le_sum ?_ _ (List.mem_map_of_mem (List.mem_filter.mpr ⟨ha, hp⟩))
  intro x hx
  obtain ⟨b, hb, rfl⟩ := List.mem_map.mp hx
  exact hw b (List.mem_filter.mp hb).1 (List.mem_filter.mp hb).2

theorem sumWhere_nonneg {α G : Type} [AddCommGroup G] [LinearOrder G]
    [IsOrderedAddMonoid G] {p : α → Bool} {w : α → G} {l : List α}
    (hw : ∀ b ∈ l, p b → 0 ≤ w b) : 0 ≤ sumWhere p w l := by
  refine List.sum_nonneg fun x hx => ?_
  obtain ⟨b, hb, rfl⟩ := List.mem_map.mp hx
  exact hw b (List.mem_filter.mp hb).1 (List.mem_filter.mp hb).2

theorem sumWhere_eq_zero {l : List α} (h : ∀ a ∈ l, ¬ p a) : sumWhere p w l = 0 := by
  have : l.filter p = [] := List.filter_eq_nil_iff.mpr h
  simp [sumWhere, this]

/-- Of keys that do not repeat at most one member has key `i`. -/
theorem sumWhere_le_of_nodup {α κ G : Type} [DecidableEq κ] [AddCommGroup G] [LinearOrder G]
    [IsOrderedAddMonoid G] {key : α → κ} {w : α → G} {l : List α} {i : κ} {d : G}
    (hnd : (l.map key).Nodup) (hd : 0 ≤ d) (hw : ∀ a ∈ l, key a = i → w a ≤ d) :
    sumWhere (fun a => key a = i) w l ≤ d := by
  induction l with
  | nil => simpa using hd
  | cons a l ih =>
      simp only [List.map_cons, List.nodup_cons] at hnd
      rw [sumWhere_cons]
      by_cases ha : key a = i
      · have hrest : sumWhere (fun a => key a = i) w l = 0 := by
          refine sumWhere_eq_zero _ _ fun b hb hp => hnd.1 ?_
          rw [ha, ← of_decide_eq_true hp]
          exact List.mem_map_of_mem hb
        simpa [ha, hrest] using hw a (by simp) ha
      · simpa [ha] using ih hnd.2 fun b hb => hw b (by simp [hb])

theorem sumWhere_add (w' : α → G) (l : List α) :
    sumWhere p (fun a => w a + w' a) l = sumWhere p w l + sumWhere p w' l := by
  induction l with
  | nil => simp
  | cons a l ih =>
      rw [sumWhere_cons, sumWhere_cons, sumWhere_cons, ih]
      by_cases h : p a
      · simp only [h, if_true]
        abel
      · simp [h]

/-- One row is left of the sum when only the rows of its key count. -/
theorem sumWhere_ite_key {κ : Type} [DecidableEq κ] (key : α → κ) {l : List α} {a : α}
    (hnd : (l.map key).Nodup) (ha : a ∈ l) :
    sumWhere p (fun b => if key b = key a then w b else 0) l = if p a then w a else 0 := by
  induction l with
  | nil => cases ha
  | cons b l ih =>
      simp only [List.map_cons, List.nodup_cons] at hnd
      rw [sumWhere_cons]
      rcases List.mem_cons.mp ha with rfl | hmem
      · have hrest : sumWhere p (fun b => if key b = key a then w b else 0) l = 0 := by
          refine List.sum_eq_zero fun x hx => ?_
          obtain ⟨c, hc, rfl⟩ := List.mem_map.mp hx
          have hne : key c ≠ key a := fun heq =>
            hnd.1 (heq ▸ List.mem_map_of_mem (List.mem_of_mem_filter hc))
          rw [if_neg hne]
        simp [hrest]
      · have hne : key b ≠ key a := fun heq => hnd.1 (heq ▸ List.mem_map_of_mem hmem)
        simp [hne, ih hnd.2 hmem]

/-- **Entries that each belong to a row**: their sum is that of the rows, each as often as
it has entries. -/
theorem sumWhere_of_rows {β κ : Type} [DecidableEq κ] {key : α → κ} {of : β → κ} {q : β → Bool}
    {v : β → G} {l : List α} {p : α → Bool} {w : α → G} (hnd : (l.map key).Nodup) {entries : List β}
    (hentries : ∀ e ∈ entries, ∃ a ∈ l, key a = of e ∧ p a = q e ∧ w a = v e) :
    sumWhere q v entries
      = sumWhere p (fun a => entries.countP (fun e => of e = key a) • w a) l := by
  induction entries with
  | nil => simp [sumWhere]
  | cons e entries ih =>
      obtain ⟨a, ha, hkey, hp, hw⟩ := hentries e List.mem_cons_self
      have hcount : ∀ b, (e :: entries).countP (fun e => of e = key b) • w b
          = (if key b = key a then w b else 0)
            + entries.countP (fun e => of e = key b) • w b := by
        intro b
        rw [List.countP_cons, hkey]
        by_cases h : of e = key b
        · simp only [h, decide_true, if_true, add_nsmul, one_nsmul, add_comm]
        · simp [h, Ne.symm h]
      simp only [hcount]
      rw [sumWhere_cons, sumWhere_add, sumWhere_ite_key p w key hnd ha,
        ih fun e he => hentries e (List.mem_cons_of_mem _ he), hp, hw]

end sumWhere

/-- The rows of a relation with primary key `pk` and unique column `uk`. -/
structure Table {α κ υ : Type} (pk : α → κ) (uk : α → υ) where
  rows : List α
  pk_nodup : (rows.map pk).Nodup
  uk_nodup : (rows.map uk).Nodup

namespace Table

variable {α κ υ : Type} {pk : α → κ} {uk : α → υ}

def empty : Table pk uk := ⟨[], List.nodup_nil, List.nodup_nil⟩

@[simp] theorem rows_empty : (empty : Table pk uk).rows = [] := rfl

variable {t : Table pk uk}

theorem eq_of_pk {a b : α} (ha : a ∈ t.rows) (hb : b ∈ t.rows) (h : pk a = pk b) :
    a = b :=
  List.inj_on_of_nodup_map t.pk_nodup ha hb h

theorem eq_of_uk {a b : α} (ha : a ∈ t.rows) (hb : b ∈ t.rows) (h : uk a = uk b) :
    a = b :=
  List.inj_on_of_nodup_map t.uk_nodup ha hb h

/-! ## Lookups -/

/-- The row with primary key `i`. -/
def byPk [DecidableEq κ] (t : Table pk uk) (i : κ) : Option α :=
  t.rows.find? fun a => pk a = i

/-- The row whose unique column holds `k`. -/
def byUk [DecidableEq υ] (t : Table pk uk) (k : υ) : Option α :=
  t.rows.find? fun a => uk a = k

theorem byPk_eq_some [DecidableEq κ] {i : κ} {a : α} :
    t.byPk i = some a ↔ a ∈ t.rows ∧ pk a = i := by
  constructor
  · intro h
    exact ⟨List.mem_of_find?_eq_some h, by simpa using List.find?_some h⟩
  · rintro ⟨ha, rfl⟩
    obtain ⟨b, hb⟩ : ∃ b, t.byPk (pk a) = some b := by
      rw [← Option.isSome_iff_exists, byPk, List.find?_isSome]
      exact ⟨a, ha, by simp⟩
    have hmem := List.mem_of_find?_eq_some hb
    have hpk : pk b = pk a := by simpa using List.find?_some hb
    rw [hb, eq_of_pk hmem ha hpk]

theorem byPk_eq_none [DecidableEq κ] {i : κ} :
    t.byPk i = none ↔ ∀ a ∈ t.rows, pk a ≠ i := by
  simp [byPk]

theorem byUk_eq_some [DecidableEq υ] {k : υ} {a : α} :
    t.byUk k = some a ↔ a ∈ t.rows ∧ uk a = k := by
  constructor
  · intro h
    exact ⟨List.mem_of_find?_eq_some h, by simpa using List.find?_some h⟩
  · rintro ⟨ha, rfl⟩
    obtain ⟨b, hb⟩ : ∃ b, t.byUk (uk a) = some b := by
      rw [← Option.isSome_iff_exists, byUk, List.find?_isSome]
      exact ⟨a, ha, by simp⟩
    have hmem := List.mem_of_find?_eq_some hb
    have huk : uk b = uk a := by simpa using List.find?_some hb
    rw [hb, eq_of_uk hmem ha huk]

theorem byUk_eq_none [DecidableEq υ] {k : υ} :
    t.byUk k = none ↔ ∀ a ∈ t.rows, uk a ≠ k := by
  simp [byUk]

/-! ## Inserting a row -/

/-- Insert a row, `none` when it repeats a primary key or a unique column. -/
def insert? [DecidableEq κ] [DecidableEq υ] (t : Table pk uk) (a : α) :
    Option (Table pk uk) :=
  if h : pk a ∉ t.rows.map pk ∧ uk a ∉ t.rows.map uk then
    some {
      rows := t.rows ++ [a]
      pk_nodup := by simpa [List.nodup_append, t.pk_nodup] using h.1
      uk_nodup := by simpa [List.nodup_append, t.uk_nodup] using h.2 }
  else none

theorem insert?_some [DecidableEq κ] [DecidableEq υ] {t' : Table pk uk} {a : α}
    (h : t.insert? a = some t') :
    t'.rows = t.rows ++ [a] ∧ (∀ b ∈ t.rows, pk b ≠ pk a) ∧ ∀ b ∈ t.rows, uk b ≠ uk a := by
  unfold insert? at h
  split at h
  · rename_i hnot
    cases h
    refine ⟨rfl, fun b hb heq => hnot.1 ?_, fun b hb heq => hnot.2 ?_⟩
    · exact heq ▸ List.mem_map_of_mem hb
    · exact heq ▸ List.mem_map_of_mem hb
  · cases h

/-- An insert goes through exactly when both columns are new. -/
theorem insert?_isSome_iff [DecidableEq κ] [DecidableEq υ] {a : α} :
    (t.insert? a).isSome ↔ (∀ b ∈ t.rows, pk b ≠ pk a) ∧ ∀ b ∈ t.rows, uk b ≠ uk a := by
  unfold insert?
  split
  · rename_i h
    simpa [List.mem_map] using h
  · rename_i h
    simpa [List.mem_map] using h

/-! ## Updating a row -/

/-- Update the row with primary key `i` by `f`, which leaves both key
columns as they are. -/
def modify [DecidableEq κ] (t : Table pk uk) (i : κ) (f : α → α)
    (hpk : ∀ a, pk (f a) = pk a) (huk : ∀ a, uk (f a) = uk a) : Table pk uk where
  rows := t.rows.map fun a => if pk a = i then f a else a
  pk_nodup := by
    have h : pk ∘ (fun a => if pk a = i then f a else a) = pk := by
      funext a; by_cases ha : pk a = i <;> simp [ha, hpk]
    rw [List.map_map, h]; exact t.pk_nodup
  uk_nodup := by
    have h : uk ∘ (fun a => if pk a = i then f a else a) = uk := by
      funext a; by_cases ha : pk a = i <;> simp [ha, huk]
    rw [List.map_map, h]; exact t.uk_nodup

section modify
variable [DecidableEq κ] {i : κ} {f : α → α} {hpk : ∀ a, pk (f a) = pk a}
  {huk : ∀ a, uk (f a) = uk a}

@[simp] theorem rows_modify :
    (t.modify i f hpk huk).rows = t.rows.map fun a => if pk a = i then f a else a := rfl

/-- The rows after an update: the old rows, the one with key `i` changed. -/
theorem mem_modify {b : α} :
    b ∈ (t.modify i f hpk huk).rows ↔ ∃ a ∈ t.rows, b = if pk a = i then f a else a := by
  simp [eq_comm]

theorem byUk_modify [DecidableEq υ] {k : υ} :
    (t.modify i f hpk huk).byUk k
      = (t.byUk k).map fun a => if pk a = i then f a else a := by
  have hcol : ∀ a, uk (if pk a = i then f a else a) = uk a := by
    intro a; by_cases ha : pk a = i <;> simp [ha, huk]
  cases h : t.byUk k with
  | none =>
      rw [byUk_eq_none] at h
      rw [Option.map_none, byUk_eq_none]
      intro b hb
      obtain ⟨a, ha, rfl⟩ := mem_modify.mp hb
      rw [hcol]; exact h a ha
  | some a =>
      rw [byUk_eq_some] at h
      rw [Option.map_some, byUk_eq_some, hcol]
      exact ⟨mem_modify.mpr ⟨a, h.1, rfl⟩, h.2⟩

theorem byPk_modify {j : κ} :
    (t.modify i f hpk huk).byPk j
      = (t.byPk j).map fun a => if pk a = i then f a else a := by
  have hcol : ∀ a, pk (if pk a = i then f a else a) = pk a := by
    intro a; by_cases ha : pk a = i <;> simp [ha, hpk]
  cases h : t.byPk j with
  | none =>
      rw [byPk_eq_none] at h
      rw [Option.map_none, byPk_eq_none]
      intro b hb
      obtain ⟨a, ha, rfl⟩ := mem_modify.mp hb
      rw [hcol]; exact h a ha
  | some a =>
      rw [byPk_eq_some] at h
      rw [Option.map_some, byPk_eq_some, hcol]
      exact ⟨mem_modify.mpr ⟨a, h.1, rfl⟩, h.2⟩

end modify

/-! ## How one table came from another -/

/-- `t'` is `t` with the new row `a` at the end. -/
structure Added (t t' : Table pk uk) (a : α) : Prop where
  rows : t'.rows = t.rows ++ [a]
  pk_new : ∀ b ∈ t.rows, pk b ≠ pk a
  uk_new : ∀ b ∈ t.rows, uk b ≠ uk a

/-- `t'` is `t` with the row `a` turned into `a'`, which has the same keys. -/
structure Replaced [DecidableEq κ] (t t' : Table pk uk) (a a' : α) : Prop where
  mem : a ∈ t.rows
  pk_eq : pk a' = pk a
  uk_eq : uk a' = uk a
  rows : t'.rows = t.rows.map fun b => if pk b = pk a then a' else b

theorem added_of_insert? [DecidableEq κ] [DecidableEq υ] {t' : Table pk uk} {a : α}
    (h : t.insert? a = some t') : Added t t' a :=
  ⟨(insert?_some h).1, (insert?_some h).2.1, (insert?_some h).2.2⟩

theorem replaced_modify [DecidableEq κ] {f : α → α} {hpk : ∀ a, pk (f a) = pk a}
    {huk : ∀ a, uk (f a) = uk a} {a : α} (ha : a ∈ t.rows) :
    Replaced t (t.modify (pk a) f hpk huk) a (f a) := by
  refine ⟨ha, hpk a, huk a, ?_⟩
  rw [rows_modify]
  refine List.map_congr_left fun b hb => ?_
  by_cases h : pk b = pk a
  · rw [if_pos h, if_pos h, eq_of_pk hb ha h]
  · rw [if_neg h, if_neg h]

/-- An update of a row that is not there changes nothing. -/
theorem rows_modify_of_none [DecidableEq κ] {i : κ} {f : α → α} {hpk : ∀ a, pk (f a) = pk a}
    {huk : ∀ a, uk (f a) = uk a} (h : t.byPk i = none) :
    (t.modify i f hpk huk).rows = t.rows := by
  rw [byPk_eq_none] at h
  rw [rows_modify]
  conv_rhs => rw [← List.map_id t.rows]
  exact List.map_congr_left fun b hb => if_neg (h b hb)

variable {t' : Table pk uk} {a a' b : α}

theorem Added.mem_iff (h : Added t t' a) : b ∈ t'.rows ↔ b ∈ t.rows ∨ b = a := by
  rw [h.rows]; simp

theorem Added.forall_mem {P : α → Prop} (h : Added t t' a) (hold : ∀ b ∈ t.rows, P b)
    (hnew : P a) : ∀ b ∈ t'.rows, P b := by
  intro b hb
  rcases h.mem_iff.mp hb with hb | rfl
  · exact hold b hb
  · exact hnew

theorem Added.sum {G : Type} [AddCommGroup G] (h : Added t t' a) (p : α → Bool) (w : α → G) :
    sumWhere p w t'.rows = sumWhere p w t.rows + if p a then w a else 0 := by
  rw [h.rows, sumWhere_append, sumWhere_cons, sumWhere_nil, add_zero]

/-- The other keys find what they found. -/
theorem Added.byUk_of_ne [DecidableEq υ] (h : Added t t' a) {k : υ} (hk : k ≠ uk a) :
    t'.byUk k = t.byUk k := by
  unfold byUk
  rw [h.rows, List.find?_append]
  simp [hk.symm]

theorem Added.byUk_self [DecidableEq υ] (h : Added t t' a) : t'.byUk (uk a) = some a :=
  byUk_eq_some.mpr ⟨h.mem_iff.mpr (Or.inr rfl), rfl⟩

section Replaced
variable [DecidableEq κ]

theorem Replaced.mem_iff (h : Replaced t t' a a') :
    b ∈ t'.rows ↔ (b ∈ t.rows ∧ pk b ≠ pk a) ∨ b = a' := by
  rw [h.rows, List.mem_map]
  constructor
  · rintro ⟨c, hc, rfl⟩
    by_cases hk : pk c = pk a
    · right; rw [if_pos hk]
    · left; rw [if_neg hk]; exact ⟨hc, hk⟩
  · rintro (⟨hb, hk⟩ | rfl)
    · exact ⟨b, hb, if_neg hk⟩
    · exact ⟨a, h.mem, if_pos rfl⟩

/-- What holds of all primary keys still does. -/
theorem Replaced.forall_pk {P : κ → Prop} (h : Replaced t t' a a')
    (hold : ∀ b ∈ t.rows, P (pk b)) : ∀ b ∈ t'.rows, P (pk b) := by
  intro b hb
  rcases h.mem_iff.mp hb with ⟨hb, -⟩ | rfl
  · exact hold b hb
  · rw [h.pk_eq]
    exact hold a h.mem

theorem Replaced.mem_new (h : Replaced t t' a a') : a' ∈ t'.rows :=
  h.mem_iff.mpr (Or.inr rfl)

/-- Every row survives a replacement, changed or not, under its keys. -/
theorem Replaced.exists_of_mem (h : Replaced t t' a a') (hb : b ∈ t.rows) :
    ∃ b' ∈ t'.rows, pk b' = pk b ∧ uk b' = uk b ∧ (b' = b ∨ b = a ∧ b' = a') := by
  by_cases hk : pk b = pk a
  · obtain rfl := eq_of_pk hb h.mem hk
    exact ⟨a', h.mem_new, h.pk_eq, h.uk_eq, Or.inr ⟨rfl, rfl⟩⟩
  · exact ⟨b, h.mem_iff.mpr (Or.inl ⟨hb, hk⟩), rfl, rfl, Or.inl rfl⟩

theorem Replaced.sum {G : Type} [AddCommGroup G] (h : Replaced t t' a a') (p : α → Bool)
    (w : α → G) :
    sumWhere p w t'.rows
      = sumWhere p w t.rows - (if p a then w a else 0) + if p a' then w a' else 0 := by
  rw [h.rows]
  exact sumWhere_map_key p w pk (fun _ => a') t.pk_nodup h.mem

/-- A column that the change leaves alone reads as before. -/
theorem Replaced.map_same {β : Type} {f : α → β} (h : Replaced t t' a a') (heq : f a' = f a) :
    t'.rows.map f = t.rows.map f := by
  rw [h.rows, List.map_map]
  refine List.map_congr_left fun x hx => ?_
  by_cases hk : pk x = pk a
  · rw [Function.comp_apply, if_pos hk, heq, eq_of_pk hx h.mem hk]
  · rw [Function.comp_apply, if_neg hk]

theorem Replaced.byUk_self [DecidableEq υ] (h : Replaced t t' a a') :
    t'.byUk (uk a) = some a' :=
  byUk_eq_some.mpr ⟨h.mem_new, h.uk_eq⟩

/-- The other keys find what they found. -/
theorem Replaced.byUk_of_ne [DecidableEq υ] (h : Replaced t t' a a') {k : υ} (hk : k ≠ uk a) :
    t'.byUk k = t.byUk k := by
  cases hrow : t.byUk k with
  | none =>
      rw [byUk_eq_none] at hrow ⊢
      intro x hx
      rcases h.mem_iff.mp hx with ⟨hold, -⟩ | rfl
      · exact hrow x hold
      · rw [h.uk_eq]
        exact hk.symm
  | some x =>
      obtain ⟨hx, hkey⟩ := byUk_eq_some.mp hrow
      obtain ⟨x', hx', -, huk, rfl | ⟨rfl, rfl⟩⟩ := h.exists_of_mem hx
      · exact byUk_eq_some.mpr ⟨hx', hkey⟩
      · exact absurd hkey.symm hk

/-- A column that the change leaves alone reads as before under every key. -/
theorem Replaced.byUk_map [DecidableEq υ] {β : Type} {f : α → β} (h : Replaced t t' a a')
    (heq : f a' = f a) (k : υ) : (t'.byUk k).map f = (t.byUk k).map f := by
  by_cases hk : k = uk a
  · rw [hk, h.byUk_self, byUk_eq_some.mpr ⟨h.mem, rfl⟩, Option.map_some, Option.map_some, heq]
  · rw [h.byUk_of_ne hk]

/-- Tables that look alike through `f`, which shows the primary key, still do when rows
that look alike are replaced by rows that look alike. -/
theorem Replaced.map_congr {β : Type} {f : α → β} {u u' : Table pk uk} {b' : α}
    (h : Replaced t t' a a') (h' : Replaced u u' b b') {g : β → κ} (hg : ∀ x, g (f x) = pk x)
    (heq : t.rows.map f = u.rows.map f) (hold : f a = f b) (hnew : f a' = f b') :
    t'.rows.map f = u'.rows.map f := by
  have hmap : ∀ {v v' : Table pk uk} {c c' : α}, Replaced v v' c c' → v'.rows.map f
      = (v.rows.map f).map fun y => if g y = g (f c) then f c' else y := by
    intro v v' c c' hrep
    rw [hrep.rows, List.map_map, List.map_map]
    refine List.map_congr_left fun x _ => ?_
    simp only [Function.comp_apply, hg]
    split <;> rfl
  rw [hmap h, hmap h', heq, hold, hnew]

end Replaced

/-! ## Undoing a write -/

/-- Put the row `a` in the place of the row that has its keys. -/
def restore [DecidableEq κ] [DecidableEq υ] (t : Table pk uk) (a : α) : Table pk uk :=
  t.modify (pk a) (fun b => if pk b = pk a ∧ uk b = uk a then a else b)
    (fun b => by
      split
      case isTrue h => exact h.1.symm
      case isFalse => rfl)
    (fun b => by
      split
      case isTrue h => exact h.2.symm
      case isFalse => rfl)

/-- Take out the row with primary key `i`. -/
def remove [DecidableEq κ] (t : Table pk uk) (i : κ) : Table pk uk where
  rows := t.rows.filter fun b => pk b ≠ i
  pk_nodup := (List.filter_sublist.map pk).nodup t.pk_nodup
  uk_nodup := (List.filter_sublist.map uk).nodup t.uk_nodup

theorem replaced_restore [DecidableEq κ] [DecidableEq υ] (hb : b ∈ t.rows) (hpk : pk b = pk a)
    (huk : uk b = uk a) : Replaced t (t.restore a) b a := by
  refine ⟨hb, hpk.symm, huk.symm, List.map_congr_left fun c hc => ?_⟩
  by_cases h : pk c = pk a
  · obtain rfl := eq_of_pk hc hb (h.trans hpk.symm)
    rw [if_pos h, if_pos rfl]
    exact if_pos ⟨hpk, huk⟩
  · rw [if_neg h, if_neg fun heq => h (heq.trans hpk)]

end Table

end LeaveLedger.Lib
