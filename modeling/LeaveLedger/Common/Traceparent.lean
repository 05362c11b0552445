import LeaveLedger.Js.Number
import Mathlib.Data.List.Basic
import Mathlib.Tactic.IntervalCases

/-!
# Common — traceparent

`common/utils/traceparent.util`: the header that carries a trace from one
service to the next. `IsTraceparent` is the format, and a header of four
valid fields is parsed into them (`parseTraceparent_iff`), so a hop finds
again what the hop before it wrote. The bytes of `crypto.randomBytes` are
parameters.
-/

namespace LeaveLedger

open Js

namespace Traceparent

/-- `0-9a-f`. -/
def isHexDigit (c : Char) : Bool :=
  (48 ≤ c.toNat && c.toNat ≤ 57) || (97 ≤ c.toNat && c.toNat ≤ 102)

/-- `/^[0-9a-f]{n}$/`. -/
def matchesHex (n : ℕ) (cs : List Char) : Bool := cs.length == n && cs.all isHexDigit

def zeros (n : ℕ) : List Char := List.replicate n '0'

/-- `(parseInt(flags, 16) & 1) === 1`. -/
def sampledFlag (flags : List Char) : Bool :=
  (radixNumeral 16 flags).elim false fun n => n &&& 1 == 1

structure TraceContext where
  version : List Char
  traceId : List Char
  parentId : List Char
  sampled : Bool
  deriving DecidableEq

/-- `parseTraceparent`; the header is none where it is not a string. -/
def parseTraceparent : Option String → Option TraceContext
  | none => none
  | some headerValue =>
      if headerValue = "" then none
      else
        match (trim headerValue.toList).splitOn '-' with
        | [version, traceId, parentId, flags] =>
            if !matchesHex 2 version then none
            else if version = ['f', 'f'] then none
            else if !matchesHex 32 traceId then none
            else if traceId = zeros 32 then none
            else if !matchesHex 16 parentId then none
            else if parentId = zeros 16 then none
            else if !matchesHex 2 flags then none
            else some ⟨version, traceId, parentId, sampledFlag flags⟩
        | _ => none

/-- `randomBytes(n).toString('hex')`. -/
def toHex (bytes : List UInt8) : List Char :=
  bytes.flatMap fun b => [(b.toNat / 16).digitChar, (b.toNat % 16).digitChar]

/-- What `crypto.randomBytes` gives a call that asks for it: sixteen bytes and eight. -/
structure Draw where
  trace : List UInt8
  parent : List UInt8
  length_trace : trace.length = 16
  length_parent : parent.length = 8

/-- Neither is all zero. -/
def Draw.NonZero (r : Draw) : Prop := (∃ b ∈ r.trace, b ≠ 0) ∧ ∃ b ∈ r.parent, b ≠ 0

def flagsOf (sampled : Bool) : List Char := if sampled then ['0', '1'] else ['0', '0']

/-- Four fields with hyphens between them. -/
def header (version traceId parentId flags : List Char) : String :=
  String.ofList (version ++ '-' :: (traceId ++ '-' :: (parentId ++ '-' :: flags)))

def generateTraceparent (r : Draw) (sampled : Bool := true) : String :=
  header ['0', '0'] (toHex r.trace) (toHex r.parent) (flagsOf sampled)

/-- `continueTrace`; the second argument is none where it is `undefined`. -/
def continueTrace (r : Draw) (incomingTraceparent : Option String) (sampled : Option Bool) :
    String :=
  match parseTraceparent incomingTraceparent with
  | none => generateTraceparent r (sampled.getD true)
  | some parsed =>
      header ['0', '0'] parsed.traceId (toHex r.parent) (flagsOf (sampled.getD parsed.sampled))

/-! ## The format -/

/-- Version, trace id, parent id and flags that a header may have. -/
structure ValidFields (v t p f : List Char) : Prop where
  version : matchesHex 2 v = true
  version_ne : v ≠ ['f', 'f']
  traceId : matchesHex 32 t = true
  traceId_ne : t ≠ zeros 32
  parentId : matchesHex 16 p = true
  parentId_ne : p ≠ zeros 16
  flags : matchesHex 2 f = true

/-- The texts of the format, without white space at their ends. -/
def IsTraceparent (cs : List Char) : Prop :=
  ∃ version traceId parentId flags,
    cs = version ++ '-' :: (traceId ++ '-' :: (parentId ++ '-' :: flags))
      ∧ ValidFields version traceId parentId flags

theorem isHexDigit_of_mem {n : ℕ} {cs : List Char} (h : matchesHex n cs = true) :
    ∀ c ∈ cs, isHexDigit c = true := by
  simp [matchesHex] at h
  exact h.2

theorem hyphen_not_mem {n : ℕ} {cs : List Char} (h : matchesHex n cs = true) : '-' ∉ cs := by
  intro hmem
  have hdigit := isHexDigit_of_mem h '-' hmem
  revert hdigit
  decide

theorem isSpace_of_isHexDigit {c : Char} (h : isHexDigit c = true) : isSpace c = false := by
  have hrange : (48 ≤ c.toNat ∧ c.toNat ≤ 57) ∨ (97 ≤ c.toNat ∧ c.toNat ≤ 102) := by
    simpa [isHexDigit] using h
  simp only [isSpace, Bool.or_eq_false_iff, Bool.and_eq_false_iff, decide_eq_false_iff_not,
    beq_eq_false_iff_ne, ne_eq]
  omega

theorem splitOn_fields {cs a b c d : List Char} :
    cs.splitOn '-' = [a, b, c, d] → cs = a ++ '-' :: (b ++ '-' :: (c ++ '-' :: d)) := by
  intro h
  have hjoin : ['-'].intercalate (cs.splitOn '-') = cs := List.intercalate_splitOn '-'
  rw [h] at hjoin
  simpa [List.intercalate] using hjoin.symm

theorem ValidFields.splitOn {v t p f : List Char} (h : ValidFields v t p f) :
    (v ++ '-' :: (t ++ '-' :: (p ++ '-' :: f))).splitOn '-' = [v, t, p, f] := by
  rw [List.splitOn_append_cons_self_of_not_mem (hyphen_not_mem h.version),
    List.splitOn_append_cons_self_of_not_mem (hyphen_not_mem h.traceId),
    List.splitOn_append_cons_self_of_not_mem (hyphen_not_mem h.parentId),
    List.splitOn_eq_singleton (hyphen_not_mem h.flags)]

/-- The checks of the parser, in one. -/
theorem parseTraceparent_of_split {s : String} {v t p f : List Char}
    (hsplit : (trim s.toList).splitOn '-' = [v, t, p, f]) (ctx : TraceContext) :
    parseTraceparent (some s) = some ctx
      ↔ ValidFields v t p f ∧ ctx = ⟨v, t, p, sampledFlag f⟩ := by
  have hne : s ≠ "" := by
    rintro rfl
    simp [trim] at hsplit
  unfold parseTraceparent
  simp only [hne, if_false, hsplit]
  constructor
  · intro h
    split_ifs at h with h₁ h₂ h₃ h₄ h₅ h₆ h₇
    cases h
    simp only [Bool.not_eq_true', Bool.not_eq_false] at h₁ h₃ h₅ h₇
    exact ⟨⟨h₁, h₂, h₃, h₄, h₅, h₆, h₇⟩, rfl⟩
  · rintro ⟨h, rfl⟩
    simp [h.version, h.version_ne, h.traceId, h.traceId_ne, h.parentId, h.parentId_ne, h.flags]

/-- **What is parsed**: the trimmed header is four valid fields, and they are what is
returned. -/
theorem parseTraceparent_iff {s : String} {ctx : TraceContext} :
    parseTraceparent (some s) = some ctx
      ↔ ∃ flags, trim s.toList
            = ctx.version ++ '-' :: (ctx.traceId ++ '-' :: (ctx.parentId ++ '-' :: flags))
          ∧ ValidFields ctx.version ctx.traceId ctx.parentId flags
          ∧ ctx.sampled = sampledFlag flags := by
  constructor
  · intro h
    have hfour : ∃ v t p f, (trim s.toList).splitOn '-' = [v, t, p, f] := by
      unfold parseTraceparent at h
      simp only at h
      split at h
      · cases h
      · split at h
        · rename_i v t p f hsplit
          exact ⟨v, t, p, f, hsplit⟩
        · cases h
    obtain ⟨v, t, p, f, hsplit⟩ := hfour
    obtain ⟨hvalid, rfl⟩ := (parseTraceparent_of_split hsplit ctx).mp h
    exact ⟨f, splitOn_fields hsplit, hvalid, rfl⟩
  · rintro ⟨f, htext, hvalid, hsampled⟩
    have hsplit : (trim s.toList).splitOn '-' = [ctx.version, ctx.traceId, ctx.parentId, f] := by
      rw [htext, hvalid.splitOn]
    refine (parseTraceparent_of_split hsplit ctx).mpr ⟨hvalid, ?_⟩
    cases ctx
    simp_all

/-- A header is parsed if and only if it has the format. -/
theorem parseTraceparent_ne_none_iff {h : Option String} :
    parseTraceparent h ≠ none ↔ ∃ s, h = some s ∧ IsTraceparent (trim s.toList) := by
  cases h with
  | none => simp [parseTraceparent]
  | some s =>
      rw [Option.ne_none_iff_exists']
      constructor
      · rintro ⟨ctx, hctx⟩
        obtain ⟨f, htext, hvalid, -⟩ := parseTraceparent_iff.mp hctx
        exact ⟨s, rfl, _, _, _, f, htext, hvalid⟩
      · rintro ⟨s', hs, v, t, p, f, htext, hvalid⟩
        cases hs
        exact ⟨⟨v, t, p, sampledFlag f⟩, parseTraceparent_iff.mpr ⟨f, htext, hvalid, rfl⟩⟩

/-- Fields that are written down are found again. -/
theorem ValidFields.parse {v t p f : List Char} (h : ValidFields v t p f) :
    parseTraceparent (some (header v t p f)) = some ⟨v, t, p, sampledFlag f⟩ := by
  have hchar : ∀ c ∈ v ++ '-' :: (t ++ '-' :: (p ++ '-' :: f)), isSpace c = false := by
    have hfield : ∀ {n : ℕ} {cs : List Char}, matchesHex n cs = true →
        ∀ c ∈ cs, isSpace c = false :=
      fun hmatch c hc => isSpace_of_isHexDigit (isHexDigit_of_mem hmatch c hc)
    intro c hc
    simp only [List.mem_append, List.mem_cons] at hc
    rcases hc with hc | rfl | hc | rfl | hc | rfl | hc
    · exact hfield h.version c hc
    · decide
    · exact hfield h.traceId c hc
    · decide
    · exact hfield h.parentId c hc
    · decide
    · exact hfield h.flags c hc
  refine parseTraceparent_iff.mpr ⟨f, ?_, h, rfl⟩
  rw [header, String.toList_ofList, trim_of_all hchar]

/-! ## The bytes -/

theorem hexDigit_digitChar {d : ℕ} (h : d < 16) : isHexDigit d.digitChar = true := by
  interval_cases d <;> decide

theorem digitChar_eq_zero {d : ℕ} (h : d < 16) (hzero : d.digitChar = '0') : d = 0 := by
  interval_cases d
  · rfl
  all_goals revert hzero; decide

theorem length_toHex (bytes : List UInt8) : (toHex bytes).length = 2 * bytes.length := by
  induction bytes with
  | nil => rfl
  | cons b bytes ih =>
      have hcons : toHex (b :: bytes)
          = (b.toNat / 16).digitChar :: (b.toNat % 16).digitChar :: toHex bytes := rfl
      simp only [hcons, List.length_cons, ih]
      omega

theorem matchesHex_toHex (bytes : List UInt8) :
    matchesHex (2 * bytes.length) (toHex bytes) = true := by
  have hdigits : ∀ c ∈ toHex bytes, isHexDigit c = true := by
    intro c hc
    obtain ⟨b, -, hc⟩ := List.mem_flatMap.mp hc
    have hb : b.toNat < 256 := b.toNat_lt
    simp only [List.mem_cons, List.not_mem_nil, or_false] at hc
    rcases hc with rfl | rfl
    · exact hexDigit_digitChar (by omega)
    · exact hexDigit_digitChar (by omega)
  simp [matchesHex, length_toHex]
  exact hdigits

/-- A byte that is not zero shows. -/
theorem toHex_ne_zeros {bytes : List UInt8} (h : ∃ b ∈ bytes, b ≠ 0) (n : ℕ) :
    toHex bytes ≠ zeros n := by
  obtain ⟨b, hmem, hne⟩ := h
  intro hzeros
  have hb : b.toNat < 256 := b.toNat_lt
  have hall : ∀ c ∈ toHex bytes, c = '0' := by
    rw [hzeros]
    exact fun c hc => List.eq_of_mem_replicate hc
  have hhigh := digitChar_eq_zero (show b.toNat / 16 < 16 by omega)
    (hall _ (List.mem_flatMap.mpr ⟨b, hmem, by simp⟩))
  have hlow := digitChar_eq_zero (show b.toNat % 16 < 16 by omega)
    (hall _ (List.mem_flatMap.mpr ⟨b, hmem, by simp⟩))
  refine hne (UInt8.toNat_inj.mp ?_)
  show b.toNat = 0
  omega

theorem matchesHex_flagsOf (sampled : Bool) : matchesHex 2 (flagsOf sampled) = true := by
  cases sampled <;> decide

@[simp] theorem sampledFlag_flagsOf (sampled : Bool) : sampledFlag (flagsOf sampled) = sampled := by
  cases sampled <;> decide

/-- Any trace id that may stand in a header may stand in one that is written here. -/
theorem validFields_of_draw {r : Draw} (hr : r.NonZero) {traceId : List Char}
    (hmatch : matchesHex 32 traceId = true) (hne : traceId ≠ zeros 32) (sampled : Bool) :
    ValidFields ['0', '0'] traceId (toHex r.parent) (flagsOf sampled) where
  version := by decide
  version_ne := by decide
  traceId := hmatch
  traceId_ne := hne
  parentId := by
    have hparent := matchesHex_toHex r.parent
    rw [r.length_parent] at hparent
    exact hparent
  parentId_ne := toHex_ne_zeros hr.2 16
  flags := matchesHex_flagsOf sampled

/-- A root trace is parsed. -/
theorem parse_generateTraceparent {r : Draw} (hr : r.NonZero) (sampled : Bool) :
    parseTraceparent (some (generateTraceparent r sampled))
      = some ⟨['0', '0'], toHex r.trace, toHex r.parent, sampled⟩ := by
  have htrace := matchesHex_toHex r.trace
  rw [r.length_trace] at htrace
  have hvalid := validFields_of_draw hr htrace (toHex_ne_zeros hr.1 32) sampled
  rw [generateTraceparent, hvalid.parse, sampledFlag_flagsOf]

/-! ## Hops -/

/-- **One hop**: the trace goes on with a new parent. -/
theorem parse_continueTrace {r : Draw} (hr : r.NonZero) {h : Option String} {ctx : TraceContext}
    (hctx : parseTraceparent h = some ctx) (sampled : Option Bool) :
    parseTraceparent (some (continueTrace r h sampled))
      = some ⟨['0', '0'], ctx.traceId, toHex r.parent, sampled.getD ctx.sampled⟩ := by
  obtain ⟨s, rfl⟩ : ∃ s, h = some s := by
    cases h with
    | none => cases hctx
    | some s => exact ⟨s, rfl⟩
  obtain ⟨f, -, hvalid, -⟩ := parseTraceparent_iff.mp hctx
  unfold continueTrace
  rw [hctx]
  dsimp only
  rw [(validFields_of_draw hr hvalid.traceId hvalid.traceId_ne _).parse, sampledFlag_flagsOf]

/-- A header that is not parsed starts a new trace. -/
theorem continueTrace_of_none {h : Option String} (hnone : parseTraceparent h = none) (r : Draw)
    (sampled : Option Bool) :
    continueTrace r h sampled = generateTraceparent r (sampled.getD true) := by
  unfold continueTrace
  rw [hnone]

/-- The header after some hops, each with its bytes and its argument. -/
def hops (h : String) (rs : List (Draw × Option Bool)) : String :=
  rs.foldl (fun h r => continueTrace r.1 (some h) r.2) h

/-- **Any number of hops** keeps the trace. -/
theorem traceId_hops {rs : List (Draw × Option Bool)} (hrs : ∀ r ∈ rs, r.1.NonZero) {h : String}
    {ctx : TraceContext} (hctx : parseTraceparent (some h) = some ctx) :
    ∃ ctx', parseTraceparent (some (hops h rs)) = some ctx' ∧ ctx'.traceId = ctx.traceId := by
  induction rs generalizing h ctx with
  | nil => exact ⟨ctx, hctx, rfl⟩
  | cons r rs ih =>
      have hstep := parse_continueTrace (hrs r List.mem_cons_self) hctx r.2
      obtain ⟨last, hlast, htrace⟩ := ih (fun r' hr' => hrs r' (List.mem_cons_of_mem r hr')) hstep
      exact ⟨last, hlast, htrace⟩

/-- **A trace context survives its hops**: what is parsed, what one hop makes of a header
that is parsed and of one that is not, and which trace any number of hops is in. -/
theorem trace_context_survives :
    (∀ h : Option String, parseTraceparent h ≠ none
        ↔ ∃ s, h = some s ∧ IsTraceparent (trim s.toList))
    ∧ ∀ (r : Draw), r.NonZero → ∀ (h : Option String) (sampled : Option Bool),
        (∀ ctx, parseTraceparent h = some ctx →
          parseTraceparent (some (continueTrace r h sampled))
            = some ⟨['0', '0'], ctx.traceId, toHex r.parent, sampled.getD ctx.sampled⟩)
        ∧ (parseTraceparent h = none →
          continueTrace r h sampled = generateTraceparent r (sampled.getD true)
          ∧ parseTraceparent (some (continueTrace r h sampled))
            = some ⟨['0', '0'], toHex r.trace, toHex r.parent, sampled.getD true⟩)
        ∧ ∃ first, parseTraceparent (some (continueTrace r h sampled)) = some first
          ∧ (∀ ctx, parseTraceparent h = some ctx → first.traceId = ctx.traceId)
          ∧ ∀ rs : List (Draw × Option Bool), (∀ r' ∈ rs, r'.1.NonZero) →
            ∃ last, parseTraceparent (some (hops (continueTrace r h sampled) rs)) = some last
              ∧ last.traceId = first.traceId := by
  refine ⟨fun h => parseTraceparent_ne_none_iff, fun r hr h sampled => ?_⟩
  have hroot : parseTraceparent h = none →
      continueTrace r h sampled = generateTraceparent r (sampled.getD true)
      ∧ parseTraceparent (some (continueTrace r h sampled))
        = some ⟨['0', '0'], toHex r.trace, toHex r.parent, sampled.getD true⟩ := by
    intro hnone
    have hfresh := continueTrace_of_none hnone r sampled
    exact ⟨hfresh, by rw [hfresh, parse_generateTraceparent hr]⟩
  refine ⟨fun ctx hctx => parse_continueTrace hr hctx sampled, hroot, ?_⟩
  cases hctx : parseTraceparent h with
  | none =>
      obtain ⟨-, hparse⟩ := hroot hctx
      refine ⟨_, hparse, fun ctx h => ?_, fun rs hrs => traceId_hops hrs hparse⟩
      cases h
  | some ctx =>
      have hparse := parse_continueTrace hr hctx sampled
      refine ⟨_, hparse, fun ctx' h => ?_, fun rs hrs => traceId_hops hrs hparse⟩
      cases h
      rfl

/-- The bytes of one hop. -/
def sevens : Draw := ⟨List.replicate 16 7, List.replicate 8 7, rfl, rfl⟩

/-- A header with white space around it, not sampled, goes on as it is. -/
theorem trace_context_survives_sevens :
    parseTraceparent (some (continueTrace sevens
        (some " 00-4bf92f3577b34da6a3ce929d0e0e4736-00f067aa0ba902b7-00\n") none))
      = some ⟨"00".toList, "4bf92f3577b34da6a3ce929d0e0e4736".toList, "0707070707070707".toList,
          false⟩ := by
  have hr : sevens.NonZero := ⟨⟨7, by decide, by decide⟩, ⟨7, by decide, by decide⟩⟩
  have hctx : parseTraceparent (some " 00-4bf92f3577b34da6a3ce929d0e0e4736-00f067aa0ba902b7-00\n")
      = some ⟨"00".toList, "4bf92f3577b34da6a3ce929d0e0e4736".toList, "00f067aa0ba902b7".toList,
          false⟩ := by decide +kernel
  exact (trace_context_survives.2 sevens hr _ none).1 _ hctx

end Traceparent

end LeaveLedger
