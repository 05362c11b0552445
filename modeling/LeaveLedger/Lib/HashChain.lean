import Mathlib.Data.List.Induction
import Mathlib.Tactic.Common

/-!
# Lib — Hash chains

Entries that each carry the hash of the one before them and a hash of their
own. The first points at a fixed genesis value. Where the digest of an entry
determines the entry, the last hash determines the whole chain: read
backwards, each hash names one entry, and its link names the hash to go on
with. That the genesis value is nobody's digest is what keeps a chain from
being a proper end of another.
-/

namespace LeaveLedger.Lib

/-- Where an entry keeps its link and its hash, and the digest it should have. -/
structure HashChain (α H : Type*) where
  previous : α → H
  hash : α → H
  digest : α → H

namespace HashChain

variable {α H : Type*} (C : HashChain α H)

/-- Every entry is linked to the one before it, the first to `g`, and has its
own digest for a hash. -/
def Linked (g : H) : List α → Prop
  | [] => True
  | e :: es => C.previous e = g ∧ C.hash e = C.digest e ∧ Linked (C.hash e) es

/-- What the next entry is linked to. -/
def tip (g : H) (es : List α) : H := (es.getLast?.map C.hash).getD g

@[simp] theorem tip_nil (g : H) : C.tip g [] = g := rfl

@[simp] theorem tip_concat (g : H) (es : List α) (e : α) : C.tip g (es ++ [e]) = C.hash e := by
  simp [tip]

theorem tip_cons (g : H) (e : α) (es : List α) : C.tip g (e :: es) = C.tip (C.hash e) es := by
  cases es with
  | nil => rfl
  | cons e' es => simp [tip, List.getLast?_cons]

/-- An entry is added at the end by linking it to the tip. -/
theorem linked_concat {g : H} {es : List α} {e : α} : C.Linked g (es ++ [e])
    ↔ C.Linked g es ∧ C.previous e = C.tip g es ∧ C.hash e = C.digest e := by
  induction es generalizing g with
  | nil => simp [Linked]
  | cons e' es ih =>
      rw [List.cons_append, Linked, Linked, ih, tip_cons]
      constructor
      · rintro ⟨hprev, hhash, hlinked, hrest⟩
        exact ⟨⟨hprev, hhash, hlinked⟩, hrest⟩
      · rintro ⟨⟨hprev, hhash, hlinked⟩, hrest⟩
        exact ⟨hprev, hhash, hlinked, hrest⟩

theorem Linked.hash_eq {C : HashChain α H} {g : H} {es : List α} (h : C.Linked g es) :
    ∀ e ∈ es, C.hash e = C.digest e := by
  induction es generalizing g with
  | nil => intro e he; cases he
  | cons e' es ih =>
      obtain ⟨-, hhash, hrest⟩ := h
      intro e he
      rcases List.mem_cons.mp he with rfl | he
      · exact hhash
      · exact ih hrest e he

/-- On these entries a digest stands for one entry only, and none is `g`. -/
structure Binding (g : H) (es : List α) : Prop where
  injective : ∀ a ∈ es, ∀ b ∈ es, C.hash a = C.digest a → C.hash b = C.digest b →
    C.digest a = C.digest b → a = b
  fresh : ∀ a ∈ es, C.digest a ≠ g

variable {C}

theorem Binding.mono {g : H} {es fs : List α} (h : C.Binding g fs) (hsub : es ⊆ fs) :
    C.Binding g es where
  injective a ha b hb := h.injective a (hsub ha) b (hsub hb)
  fresh a ha := h.fresh a (hsub ha)

/-- Of two chains with one tip the last entries are one entry, and what is before
them has one tip again. -/
theorem Linked.last_eq {g : H} {es fs : List α} {e f : α} (hes : C.Linked g (es ++ [e]))
    (hfs : C.Linked g (fs ++ [f]))
    (hinj : C.hash e = C.digest e → C.hash f = C.digest f → C.digest e = C.digest f → e = f)
    (htip : C.tip g (es ++ [e]) = C.tip g (fs ++ [f])) : e = f ∧ C.tip g es = C.tip g fs := by
  obtain ⟨-, hprev, he⟩ := C.linked_concat.mp hes
  obtain ⟨-, hprev', hf⟩ := C.linked_concat.mp hfs
  rw [tip_concat, tip_concat, he, hf] at htip
  obtain rfl := hinj he hf htip
  exact ⟨rfl, hprev.symm.trans hprev'⟩

/-- **Tamper evidence**: two chains with one tip are one chain. -/
theorem Linked.unique {g : H} {es fs : List α} (hes : C.Linked g es) (hfs : C.Linked g fs)
    (hbind : C.Binding g (es ++ fs)) (htip : C.tip g es = C.tip g fs) : es = fs := by
  induction es using List.reverseRecOn generalizing fs with
  | nil =>
      induction fs using List.reverseRecOn with
      | nil => rfl
      | append_singleton fs f _ =>
          obtain ⟨-, -, hf⟩ := C.linked_concat.mp hfs
          rw [tip_nil, tip_concat, hf] at htip
          exact absurd htip.symm (hbind.fresh f (by simp))
  | append_singleton es e ih =>
      obtain ⟨hes', hprev, he⟩ := C.linked_concat.mp hes
      induction fs using List.reverseRecOn with
      | nil =>
          rw [tip_nil, tip_concat, he] at htip
          exact absurd htip (hbind.fresh e (by simp))
      | append_singleton fs f _ =>
          obtain ⟨rfl, hrest⟩ :=
            hes.last_eq hfs (hbind.injective e (by simp) f (by simp)) htip
          have hsub : es ++ fs ⊆ es ++ [e] ++ (fs ++ [e]) := by
            intro a ha
            rcases List.mem_append.mp ha with ha | ha <;> simp [ha]
          rw [ih hes' (C.linked_concat.mp hfs).1 (hbind.mono hsub) hrest]

/-- Chains of one length need no fresh genesis value. -/
theorem Linked.unique_of_length {g : H} {es fs : List α} (hes : C.Linked g es)
    (hfs : C.Linked g fs)
    (hinj : ∀ a ∈ es, ∀ b ∈ fs, C.hash a = C.digest a → C.hash b = C.digest b →
      C.digest a = C.digest b → a = b)
    (hlength : es.length = fs.length) (htip : C.tip g es = C.tip g fs) : es = fs := by
  induction es using List.reverseRecOn generalizing fs with
  | nil => exact (List.eq_nil_of_length_eq_zero hlength.symm).symm
  | append_singleton es e ih =>
      induction fs using List.reverseRecOn with
      | nil => simp at hlength
      | append_singleton fs f _ =>
          obtain ⟨rfl, hrest⟩ := hes.last_eq hfs (hinj e (by simp) f (by simp)) htip
          have hinj' : ∀ a ∈ es, ∀ b ∈ fs, C.hash a = C.digest a → C.hash b = C.digest b →
              C.digest a = C.digest b → a = b :=
            fun a ha b hb => hinj a (by simp [ha]) b (by simp [hb])
          rw [ih (C.linked_concat.mp hes).1 (C.linked_concat.mp hfs).1 hinj'
            (by simpa using hlength) hrest]

end HashChain

end LeaveLedger.Lib
