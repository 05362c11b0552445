import LeaveLedger.Common.AuditLedger

/-!
# Common — AuditHasher

`common/utils/audit-hash.util`: records that carry a hash each, of their
fields and of the hash before. The link is not kept in a record but given by
its place. What is hashed has an empty object for every payload that is
falsy, so a chain and its last hash determine the records up to which empty
payload they have.
-/

namespace LeaveLedger

open Js Lib AuditLedger

/-- The properties of a record that are read, `none` for `undefined`. -/
structure AuditRecord where
  id : Option JsonValue
  userId : Option JsonValue
  action : Option JsonValue
  timestamp : Option JsonValue
  payload : Option JsonValue
  hash : Option JsonValue

namespace AuditHasher

/-- `payload || {}`. -/
def payloadOrEmpty : Option JsonValue → JsonValue
  | none => .obj []
  | some .null => .obj []
  | some (.bool false) => .obj []
  | some (.num x) => if x.significand = 0 then .obj [] else .num x
  | some (.str s) => if s = "" then .obj [] else .str s
  | some v => v

/-- A member of an object that is printed, which leaves out what is undefined. -/
def member (key : String) (v : Option JsonValue) : List (String × JsonValue) :=
  v.toList.map fun v => (key, v)

/-- `canonical`, the text that is hashed. -/
def canonical (record : AuditRecord) (previousHash : JsonValue) : String :=
  (JsonValue.obj
    (member "id" record.id ++ (member "userId" record.userId ++ (member "action" record.action
      ++ (member "timestamp" record.timestamp
        ++ [("payload", payloadOrEmpty record.payload), ("prev", previousHash)]))))).stringify

def genesis : JsonValue := .str "GENESIS"

def computeRecordHash (sha256 : String → String) (record : AuditRecord)
    (previousHash : JsonValue := genesis) : String :=
  sha256 (canonical record previousHash)

/-- The loop of `verifyChain` from a record that follows the hash `prev` on. -/
def verifyFrom (sha256 : String → String) (prev : JsonValue) : List AuditRecord → Bool
  | [] => true
  | record :: rest =>
      let expected := computeRecordHash sha256 record prev
      match record.hash with
      | none => false
      | some hash =>
          if !strictEq hash (.str expected) then false
          else verifyFrom sha256 hash rest

def verifyChain (sha256 : String → String) (records : List AuditRecord) : Bool :=
  verifyFrom sha256 genesis records

/-! ## What is hashed -/

/-- Both payloads are hashed as the empty object. -/
def BothEmpty (p p' : Option JsonValue) : Prop :=
  payloadOrEmpty p = .obj [] ∧ payloadOrEmpty p' = .obj []

theorem payloadOrEmpty_cases (p : Option JsonValue) :
    payloadOrEmpty p = .obj [] ∨ some (payloadOrEmpty p) = p := by
  cases p with
  | none => exact Or.inl rfl
  | some v =>
      cases v with
      | bool b => cases b <;> simp [payloadOrEmpty]
      | num x =>
          by_cases hx : x.significand = 0
          · simp [payloadOrEmpty, hx]
          · simp [payloadOrEmpty, hx]
      | str s =>
          by_cases hs : s = ""
          · simp [payloadOrEmpty, hs]
          · simp [payloadOrEmpty, hs]
      | _ => simp [payloadOrEmpty]

/-- Only payloads that are falsy or empty are taken for one another. -/
theorem eq_or_bothEmpty {p p' : Option JsonValue} (h : payloadOrEmpty p = payloadOrEmpty p') :
    p = p' ∨ BothEmpty p p' := by
  rcases payloadOrEmpty_cases p with hp | hp
  · exact Or.inr ⟨hp, h ▸ hp⟩
  · rcases payloadOrEmpty_cases p' with hp' | hp'
    · exact Or.inr ⟨h.trans hp', hp'⟩
    · exact Or.inl (hp.symm.trans ((congrArg some h).trans hp'))

/-- The record with the payload that is hashed. -/
def hashed (record : AuditRecord) : AuditRecord :=
  { record with payload := some (payloadOrEmpty record.payload) }

theorem key_of_mem_member {key : String} {v : Option JsonValue} {f : String × JsonValue}
    (h : f ∈ member key v) : f.1 = key := by
  obtain ⟨w, -, rfl⟩ := List.mem_map.mp h
  rfl

/-- A member that no later one has the key of can be read off. -/
theorem member_append_inj {key : String} {v v' : Option JsonValue}
    {l l' : List (String × JsonValue)} (hl : ∀ f ∈ l, f.1 ≠ key) (hl' : ∀ f ∈ l', f.1 ≠ key)
    (h : member key v ++ l = member key v' ++ l') : v = v' ∧ l = l' := by
  cases v with
  | none =>
      cases v' with
      | none => exact ⟨rfl, h⟩
      | some w' =>
          have hmem : (key, w') ∈ l := by
            rw [show l = member key (some w') ++ l' from h]
            exact List.mem_append_left _ (List.mem_singleton.mpr rfl)
          exact absurd rfl (hl _ hmem)
  | some w =>
      cases v' with
      | none =>
          have hmem : (key, w) ∈ l' := by
            rw [← show member key (some w) ++ l = l' from h]
            exact List.mem_append_left _ (List.mem_singleton.mpr rfl)
          exact absurd rfl (hl' _ hmem)
      | some w' =>
          obtain ⟨hhead, htail⟩ := List.cons.inj h
          exact ⟨congrArg some (Prod.mk.inj hhead).2, htail⟩

/-- The text that is hashed determines every field but the hash, and the link. -/
theorem canonical_inj {a b : AuditRecord} {prev prev' : JsonValue}
    (h : canonical a prev = canonical b prev') (hhash : a.hash = b.hash) :
    prev = prev' ∧ hashed a = hashed b := by
  have hkey : ∀ {key key' : String} {v : Option JsonValue} {l : List (String × JsonValue)},
      key' ≠ key → (∀ f ∈ l, f.1 ≠ key) → ∀ f ∈ member key' v ++ l, f.1 ≠ key := by
    intro key key' v l hne hl f hf
    rcases List.mem_append.mp hf with hf | hf
    · rw [key_of_mem_member hf]
      exact hne
    · exact hl f hf
  have hend : ∀ {key : String} {v w : JsonValue}, "payload" ≠ key → "prev" ≠ key →
      ∀ f ∈ [("payload", v), ("prev", w)], f.1 ≠ key := by
    intro key v w hpayload hprev f hf
    rcases List.mem_cons.mp hf with rfl | hf
    · exact hpayload
    · rw [List.mem_singleton.mp hf]
      exact hprev
  have hfields := JsonValue.obj.inj (JsonValue.stringify_injective h)
  obtain ⟨hid, hfields⟩ := member_append_inj
    (hkey (by decide) (hkey (by decide) (hkey (by decide) (hend (by decide) (by decide)))))
    (hkey (by decide) (hkey (by decide) (hkey (by decide) (hend (by decide) (by decide))))) hfields
  obtain ⟨huser, hfields⟩ := member_append_inj
    (hkey (by decide) (hkey (by decide) (hend (by decide) (by decide))))
    (hkey (by decide) (hkey (by decide) (hend (by decide) (by decide)))) hfields
  obtain ⟨haction, hfields⟩ := member_append_inj
    (hkey (by decide) (hend (by decide) (by decide)))
    (hkey (by decide) (hend (by decide) (by decide))) hfields
  obtain ⟨htime, hfields⟩ := member_append_inj
    (hend (by decide) (by decide)) (hend (by decide) (by decide)) hfields
  simp only [List.cons.injEq, Prod.mk.injEq, true_and, and_true] at hfields
  obtain ⟨hpayload, hprev⟩ := hfields
  refine ⟨hprev, ?_⟩
  unfold hashed
  rw [hid, huser, haction, htime, hpayload, hhash]

/-! ## The records as a hash chain -/

/-- The records as they are hashed, each with its link: the hash of the one before. -/
def entriesFrom (prev : JsonValue) : List AuditRecord → List (JsonValue × AuditRecord)
  | [] => []
  | record :: rest => (prev, hashed record) :: entriesFrom (record.hash.getD .null) rest

/-- The texts that `verifyChain` hashes. -/
def texts (prev : JsonValue) : List AuditRecord → List String
  | [] => []
  | record :: rest => canonical record prev :: texts (record.hash.getD .null) rest

def links (sha256 : String → String) : HashChain (JsonValue × AuditRecord) JsonValue where
  previous := Prod.fst
  hash e := e.2.hash.getD .null
  digest e := .str (computeRecordHash sha256 e.2 e.1)

theorem map_entriesFrom (prev : JsonValue) (records : List AuditRecord) :
    (entriesFrom prev records).map Prod.snd = records.map hashed := by
  induction records generalizing prev with
  | nil => rfl
  | cons record rest ih => rw [entriesFrom, List.map_cons, List.map_cons, ih]

theorem payloadOrEmpty_idem (p : Option JsonValue) :
    payloadOrEmpty (some (payloadOrEmpty p)) = payloadOrEmpty p := by
  rcases payloadOrEmpty_cases p with hp | hp
  · rw [hp]
    rfl
  · rw [hp]

theorem canonical_hashed (record : AuditRecord) (prev : JsonValue) :
    canonical (hashed record) prev = canonical record prev := by
  unfold canonical hashed
  rw [payloadOrEmpty_idem]

/-- Each link is hashed as one of the texts. -/
theorem canonical_mem_texts {prev : JsonValue} {records : List AuditRecord}
    {e : JsonValue × AuditRecord} (h : e ∈ entriesFrom prev records) :
    canonical e.2 e.1 ∈ texts prev records := by
  induction records generalizing prev with
  | nil => cases h
  | cons record rest ih =>
      rcases List.mem_cons.mp h with rfl | h
      · exact List.mem_cons.mpr (Or.inl (canonical_hashed record prev))
      · exact List.mem_cons_of_mem _ (ih h)

/-- The payload of a link has been replaced by the one that is hashed. -/
theorem hashed_of_mem {prev : JsonValue} {records : List AuditRecord}
    {e : JsonValue × AuditRecord} (h : e ∈ entriesFrom prev records) : hashed e.2 = e.2 := by
  induction records generalizing prev with
  | nil => cases h
  | cons record rest ih =>
      rcases List.mem_cons.mp h with rfl | h
      · unfold hashed
        rw [payloadOrEmpty_idem]
      · exact ih h

theorem some_of_getD {hash : Option JsonValue} {s : String} (h : hash.getD .null = .str s) :
    hash = some (.str s) := by
  cases hash with
  | none => cases h
  | some v => exact congrArg some h

/-- `verifyChain` accepts chains only. -/
theorem linked_of_verifyFrom {sha256 : String → String} {prev : JsonValue}
    {records : List AuditRecord} (h : verifyFrom sha256 prev records = true) :
    (links sha256).Linked prev (entriesFrom prev records) := by
  induction records generalizing prev with
  | nil => trivial
  | cons record rest ih =>
      unfold verifyFrom at h
      dsimp only at h
      split at h
      · cases h
      · rename_i hash hhash
        by_cases heq : strictEq hash (.str (computeRecordHash sha256 record prev)) = true
        · rw [heq, Bool.not_true, if_neg Bool.false_ne_true] at h
          have hdigest : (links sha256).hash (prev, hashed record)
              = .str (computeRecordHash sha256 (hashed record) prev) := by
            show record.hash.getD .null = _
            rw [hhash, computeRecordHash, canonical_hashed]
            exact strictEq_str.mp heq
          refine ⟨rfl, hdigest, ?_⟩
          show (links sha256).Linked (record.hash.getD .null) _
          rw [hhash]
          exact ih h
        · simp only [heq] at h
          cases h

theorem tip_entriesFrom (sha256 : String → String) (prev : JsonValue)
    (records : List AuditRecord) :
    (links sha256).tip prev (entriesFrom prev records)
      = ((records.getLast?.map AuditRecord.hash).map fun hash => hash.getD .null).getD prev := by
  have hlast := congrArg List.getLast? (map_entriesFrom prev records)
  rw [List.getLast?_map, List.getLast?_map] at hlast
  have hhash := congrArg (Option.map fun record : AuditRecord => record.hash.getD .null) hlast
  rw [Option.map_map, Option.map_map] at hhash
  rw [Option.map_map]
  exact congrArg (Option.getD · prev) hhash

/-! ## Tampering -/

/-- What is relied on of SHA-256: no text hashed for one list has the digest of another
text that is hashed for the other list. -/
def NoCollision (sha256 : String → String) (as bs : List AuditRecord) : Prop :=
  ∀ t ∈ texts genesis as, ∀ t' ∈ texts genesis bs, sha256 t = sha256 t' → t = t'

variable {sha256 : String → String} {as bs : List AuditRecord}

/-- Two lists that pass and end in one hash are hashed alike, record by record. -/
theorem hashed_eq_of_verifyChain (hsha : NoCollision sha256 as bs)
    (has : verifyChain sha256 as = true) (hbs : verifyChain sha256 bs = true)
    (hlength : as.length = bs.length)
    (hlast : as.getLast?.map AuditRecord.hash = bs.getLast?.map AuditRecord.hash) :
    as.map hashed = bs.map hashed := by
  have hentries : entriesFrom genesis as = entriesFrom genesis bs := by
    refine (linked_of_verifyFrom has).unique_of_length (linked_of_verifyFrom hbs) ?_ ?_ ?_
    · intro a ha b hb hhash hhash' hdigest
      have htext := hsha _ (canonical_mem_texts ha) _ (canonical_mem_texts hb)
        (JsonValue.str.inj hdigest)
      have hstored : a.2.hash = b.2.hash := by
        rw [some_of_getD hhash, some_of_getD hhash', computeRecordHash, computeRecordHash, htext]
      obtain ⟨hprev, hrecord⟩ := canonical_inj htext hstored
      rw [hashed_of_mem ha, hashed_of_mem hb] at hrecord
      exact Prod.ext hprev hrecord
    · have hlen := congrArg List.length (map_entriesFrom genesis as)
      have hlen' := congrArg List.length (map_entriesFrom genesis bs)
      simp only [List.length_map] at hlen hlen'
      rw [hlen, hlen', hlength]
    · rw [tip_entriesFrom, tip_entriesFrom, hlast]
  rw [← map_entriesFrom genesis as, ← map_entriesFrom genesis bs, hentries]

/-- Records that are hashed alike differ in which empty payload they have, if at all. -/
theorem eq_of_hashed {a b : AuditRecord} (h : hashed a = hashed b)
    (hempty : BothEmpty a.payload b.payload → a.payload = b.payload) : a = b := by
  obtain ⟨hid, huser, haction, htime, hpayload, hhash⟩ := AuditRecord.mk.inj h
  have hpayload' : a.payload = b.payload :=
    (eq_or_bothEmpty (Option.some.inj hpayload)).elim id hempty
  cases a
  cases b
  simp_all

/-- Wherever both lists have an empty payload they have the same one. -/
def SameEmptyPayloads (as bs : List AuditRecord) : Prop :=
  ∀ (i : ℕ) (a b : AuditRecord), as[i]? = some a → bs[i]? = some b →
    BothEmpty a.payload b.payload → a.payload = b.payload

/-- **Tamper evidence up to empty payloads**: two lists of one length that pass and end
in one hash are the same if and only if, wherever both have an empty payload, they have
the same one. -/
theorem verifyChain_tamper_evident_iff (hsha : NoCollision sha256 as bs)
    (has : verifyChain sha256 as = true) (hbs : verifyChain sha256 bs = true)
    (hlength : as.length = bs.length)
    (hlast : as.getLast?.map AuditRecord.hash = bs.getLast?.map AuditRecord.hash) :
    as = bs ↔ SameEmptyPayloads as bs := by
  constructor
  · rintro rfl i a b ha hb -
    rw [ha] at hb
    rw [Option.some.inj hb]
  · intro hempty
    have hhashed := hashed_eq_of_verifyChain hsha has hbs hlength hlast
    refine List.ext_getElem hlength fun i hi hi' => ?_
    have hat := congrArg (·[i]?) hhashed
    simp only [List.getElem?_map, List.getElem?_eq_getElem hi, List.getElem?_eq_getElem hi',
      Option.map_some] at hat
    exact eq_of_hashed (Option.some.inj hat)
      (hempty i _ _ (List.getElem?_eq_getElem hi) (List.getElem?_eq_getElem hi'))

/-! ## A record without a payload -/

/-- The record of the request `1`, with the given payload. -/
def requested (payload : Option JsonValue) : AuditRecord :=
  { id := some (.num (.ofNat 1))
    userId := some (.str "u1")
    action := some (.str "LEAVE_REQUESTED")
    timestamp := some (.str "2026-06-01T10:00:00Z")
    payload := payload
    hash := some (.str "781fdf6aa55c3c615c2059669306f627893a0f1e0d492517db10c877d233a1cd") }

/-- The record of its approval, which comes after it. -/
def approved : AuditRecord :=
  { id := some (.num (.ofNat 2))
    userId := some (.str "m1")
    action := some (.str "LEAVE_APPROVED")
    timestamp := some (.str "2026-06-01T11:00:00Z")
    payload := some (.obj [("days", .num (.ofNat 2))])
    hash := some (.str "b0325a06717d5f9fa26be817dbb6f72438a49cef7ecda0b87734740485b23ec1") }

/-- SHA-256 on the texts of the two records. -/
def requestedDigest (text : String) : String :=
  if text = "\x7b\"id\":1,\"userId\":\"u1\",\"action\":\"LEAVE_REQUESTED\""
      ++ ",\"timestamp\":\"2026-06-01T10:00:00Z\",\"payload\":\x7b\x7d"
      ++ ",\"prev\":\"GENESIS\"\x7d" then
    "781fdf6aa55c3c615c2059669306f627893a0f1e0d492517db10c877d233a1cd"
  else if text = "\x7b\"id\":2,\"userId\":\"m1\",\"action\":\"LEAVE_APPROVED\""
      ++ ",\"timestamp\":\"2026-06-01T11:00:00Z\",\"payload\":\x7b\"days\":2\x7d,\"prev\":"
      ++ "\"781fdf6aa55c3c615c2059669306f627893a0f1e0d492517db10c877d233a1cd\"\x7d" then
    "b0325a06717d5f9fa26be817dbb6f72438a49cef7ecda0b87734740485b23ec1"
  else ""

theorem verifyChain_requested :
    verifyChain requestedDigest [requested (some .null)] = true
    ∧ verifyChain requestedDigest [requested (some (.obj []))] = true := by
  decide +kernel

theorem noCollision_requested :
    NoCollision requestedDigest [requested (some .null)] [requested (some (.obj []))] := by
  intro t ht t' ht' _
  rw [List.mem_singleton.mp ht, List.mem_singleton.mp ht']
  rfl

/-- The request and the approval that is linked to it. -/
def approvedChain (payload : Option JsonValue) : List AuditRecord := [requested payload, approved]

theorem verifyChain_tamper_evident_requested :
    approvedChain (some .null) ≠ approvedChain (some (.obj []))
      ∧ ¬ SameEmptyPayloads (approvedChain (some .null)) (approvedChain (some (.obj []))) := by
  have hsha : NoCollision requestedDigest (approvedChain (some .null))
      (approvedChain (some (.obj []))) := by
    unfold NoCollision
    decide +kernel
  have hnull : verifyChain requestedDigest (approvedChain (some .null)) = true := by
    decide +kernel
  have hobj : verifyChain requestedDigest (approvedChain (some (.obj []))) = true := by
    decide +kernel
  have hne : approvedChain (some .null) ≠ approvedChain (some (.obj [])) := by
    intro h
    have hpayload := (AuditRecord.mk.inj (List.cons.inj h).1).2.2.2.2.1
    cases hpayload
  exact ⟨hne, mt (verifyChain_tamper_evident_iff hsha hnull hobj rfl rfl).mpr hne⟩

/-- A payload of null and one without members are hashed alike, in two lists that both
pass and end in one hash. -/
theorem null_payload_undetected :
    NoCollision requestedDigest [requested (some .null)] [requested (some (.obj []))]
    ∧ verifyChain requestedDigest [requested (some .null)] = true
    ∧ verifyChain requestedDigest [requested (some (.obj []))] = true
    ∧ [requested (some .null)].length = [requested (some (.obj []))].length
    ∧ [requested (some .null)].getLast?.map AuditRecord.hash
        = [requested (some (.obj []))].getLast?.map AuditRecord.hash
    ∧ (requested (some .null)).payload ≠ (requested (some (.obj []))).payload := by
  refine ⟨noCollision_requested, verifyChain_requested.1, verifyChain_requested.2, rfl, rfl, ?_⟩
  intro h
  cases h

end AuditHasher

end LeaveLedger
