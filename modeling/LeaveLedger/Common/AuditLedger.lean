import LeaveLedger.Js.JsonText
import LeaveLedger.Lib.HashChain

/-!
# Common — AuditLedger

`common/utils/audit-logger.util`: the append-only ledger whose entries are
linked by the SHA-256 of their text. The digest is the runtime's, so it is a
parameter here. A ledger is a hash chain, and its text determines an entry
up to its hash.
-/

namespace LeaveLedger

open Js Lib

structure AuditEntry where
  index : JsonValue
  previousHash : JsonValue
  timestamp : JsonValue
  employeeId : JsonValue
  mutation : JsonValue
  reason : JsonValue
  hash : JsonValue

/-- The arguments of a call of `append`, `none` for `undefined`, and the clock. -/
structure AppendCall where
  employeeId : Option JsonValue
  mutation : JsonValue
  reason : Option JsonValue
  now : Decimal

namespace AuditLedger

/-- `'0'.repeat(64)`. -/
def genesisHash : String := String.ofList (List.replicate 64 '0')

/-- What is hashed of an entry: all of it but the hash. -/
def payload (entry : AuditEntry) : String :=
  (JsonValue.obj
    [ ("index", entry.index)
    , ("previousHash", entry.previousHash)
    , ("timestamp", entry.timestamp)
    , ("employeeId", entry.employeeId)
    , ("mutation", entry.mutation)
    , ("reason", entry.reason) ]).stringify

def hashEntry (sha256 : String → String) (entry : AuditEntry) : String := sha256 (payload entry)

/-- `reason || 'UNSPECIFIED'`. -/
def reasonOrUnspecified : Option JsonValue → JsonValue
  | none => .str "UNSPECIFIED"
  | some .null => .str "UNSPECIFIED"
  | some (.bool false) => .str "UNSPECIFIED"
  | some (.num x) => if x.significand = 0 then .str "UNSPECIFIED" else .num x
  | some (.str s) => if s = "" then .str "UNSPECIFIED" else .str s
  | some v => v

/-- The hash that the next entry is linked to. -/
def lastHash (chain : List AuditEntry) : JsonValue :=
  (chain.getLast?.map AuditEntry.hash).getD (.str genesisHash)

/-- The entry of a call. -/
def newEntry (sha256 : String → String) (chain : List AuditEntry) (employeeId : String)
    (call : AppendCall) : AuditEntry :=
  let entry : AuditEntry :=
    { index := .num (.ofNat chain.length)
      previousHash := lastHash chain
      timestamp := .num call.now
      employeeId := .str employeeId
      mutation := call.mutation
      reason := reasonOrUnspecified call.reason
      hash := .null }
  { entry with hash := .str (hashEntry sha256 entry) }

/-- `append`: the entry or the error it throws, and the chain then. -/
def append (sha256 : String → String) (chain : List AuditEntry) (call : AppendCall) :
    Except String AuditEntry × List AuditEntry :=
  match call.employeeId with
  | some (.str employeeId) =>
      if employeeId = "" then (.error "employeeId must be a non-empty string", chain)
      else
        let entry := newEntry sha256 chain employeeId call
        (.ok entry, chain ++ [entry])
  | _ => (.error "employeeId must be a non-empty string", chain)

/-- The ledger after some calls. -/
def ledger (sha256 : String → String) (calls : List AppendCall) : List AuditEntry :=
  calls.foldl (fun chain call => (append sha256 chain call).2) []

/-- `===` as it is used here, where one side is always a string: no array and
no object is meant. -/
def strictEq : JsonValue → JsonValue → Bool
  | .null, .null => true
  | .bool a, .bool b => a = b
  | .num x, .num y => x.text = y.text
  | .str s, .str s' => s = s'
  | _, _ => false

/-- The loop of `verifyIntegrity`, from an entry that should be linked to
`expectedPrev` on. -/
def verifyFrom (sha256 : String → String) (expectedPrev : JsonValue) : List AuditEntry → Bool
  | [] => true
  | entry :: rest =>
      if !strictEq entry.previousHash expectedPrev then false
      else if !strictEq entry.hash (.str (hashEntry sha256 entry)) then false
      else verifyFrom sha256 entry.hash rest

def verifyIntegrity (sha256 : String → String) (chain : List AuditEntry) : Bool :=
  verifyFrom sha256 (.str genesisHash) chain

/-! ## The ledger as a hash chain -/

/-- The links and hashes of the entries. -/
def links (sha256 : String → String) : HashChain AuditEntry JsonValue where
  previous := AuditEntry.previousHash
  hash := AuditEntry.hash
  digest entry := .str (hashEntry sha256 entry)

theorem tip_links (sha256 : String → String) (chain : List AuditEntry) :
    (links sha256).tip (.str genesisHash) chain = lastHash chain := rfl

theorem strictEq_str {v : JsonValue} {s : String} : strictEq v (.str s) = true ↔ v = .str s := by
  cases v <;> simp [strictEq]

/-- `verifyIntegrity` accepts the chains. -/
theorem verifyFrom_iff {sha256 : String → String} {s : String} {chain : List AuditEntry} :
    verifyFrom sha256 (.str s) chain = true ↔ (links sha256).Linked (.str s) chain := by
  induction chain generalizing s with
  | nil => simp [verifyFrom, HashChain.Linked]
  | cons entry rest ih =>
      have hloop : verifyFrom sha256 (.str s) (entry :: rest) = true
          ↔ strictEq entry.previousHash (.str s) = true
            ∧ strictEq entry.hash (.str (hashEntry sha256 entry)) = true
            ∧ verifyFrom sha256 entry.hash rest = true := by
        rw [verifyFrom]
        by_cases hprev : strictEq entry.previousHash (.str s) = true
        · by_cases hhash : strictEq entry.hash (.str (hashEntry sha256 entry)) = true
          · simp [hprev, hhash]
          · simp [hhash]
        · simp [hprev]
      rw [hloop, strictEq_str, strictEq_str]
      constructor
      · intro h
        obtain ⟨hprev, hhash, hrest⟩ := h
        rw [hhash] at hrest
        have hlinked := ih.mp hrest
        rw [← hhash] at hlinked
        exact ⟨hprev, hhash, hlinked⟩
      · intro h
        obtain ⟨hprev, hhash, hlinked⟩ := h
        have hhash' : entry.hash = .str (hashEntry sha256 entry) := hhash
        refine ⟨hprev, hhash, ?_⟩
        rw [hhash']
        refine ih.mpr ?_
        rw [← hhash']
        exact hlinked

theorem verifyIntegrity_iff {sha256 : String → String} {chain : List AuditEntry} :
    verifyIntegrity sha256 chain = true
      ↔ (links sha256).Linked (.str genesisHash) chain := verifyFrom_iff

/-- What one call does to a chain: nothing, or it adds an entry linked to the tip. -/
theorem append_cases (sha256 : String → String) (chain : List AuditEntry) (call : AppendCall) :
    (append sha256 chain call).2 = chain
    ∨ ∃ entry, (append sha256 chain call).2 = chain ++ [entry]
        ∧ entry.previousHash = lastHash chain ∧ entry.hash = .str (hashEntry sha256 entry) := by
  unfold append
  split
  · split_ifs
    · exact Or.inl rfl
    · exact Or.inr ⟨_, rfl, rfl, rfl⟩
  · exact Or.inl rfl

/-- A call keeps a chain linked. -/
theorem linked_append {sha256 : String → String} {chain : List AuditEntry} (call : AppendCall)
    (h : (links sha256).Linked (.str genesisHash) chain) :
    (links sha256).Linked (.str genesisHash) (append sha256 chain call).2 := by
  obtain hsame | ⟨entry, hadded, hprev, hhash⟩ := append_cases sha256 chain call
  · rw [hsame]
    exact h
  · rw [hadded]
    exact (links sha256).linked_concat.mpr ⟨h, hprev, hhash⟩

/-- So every ledger is a hash chain. -/
theorem linked_ledger (sha256 : String → String) (calls : List AppendCall) :
    (links sha256).Linked (.str genesisHash) (ledger sha256 calls) := by
  have hrun : ∀ chain, (links sha256).Linked (.str genesisHash) chain →
      (links sha256).Linked (.str genesisHash)
        (calls.foldl (fun chain call => (append sha256 chain call).2) chain) := by
    induction calls with
    | nil => exact fun chain h => h
    | cons call calls ih => exact fun chain h => ih _ (linked_append call h)
  exact hrun [] trivial

/-! ## Tampering -/

/-- The text that is hashed determines every field but the hash. -/
theorem payload_inj {a b : AuditEntry} (h : payload a = payload b) (hhash : a.hash = b.hash) :
    a = b := by
  have hfields := JsonValue.stringify_injective h
  simp only [JsonValue.obj.injEq, List.cons.injEq, Prod.mk.injEq, true_and, and_true] at hfields
  obtain ⟨hindex, hprev, htime, hemployee, hmutation, hreason⟩ := hfields
  cases a
  cases b
  simp_all

/-- What is relied on of SHA-256: no two texts hashed here have one digest, and
no digest is the genesis hash. -/
structure NoCollision (sha256 : String → String) (entries : List AuditEntry) : Prop where
  injective : ∀ a ∈ entries, ∀ b ∈ entries,
    sha256 (payload a) = sha256 (payload b) → payload a = payload b
  nonzero : ∀ a ∈ entries, sha256 (payload a) ≠ genesisHash

theorem NoCollision.binding {sha256 : String → String} {entries : List AuditEntry}
    (h : NoCollision sha256 entries) : (links sha256).Binding (.str genesisHash) entries where
  injective a ha b hb hhash hhash' hdigest := by
    have hpayload := h.injective a ha b hb (JsonValue.str.inj hdigest)
    refine payload_inj hpayload ?_
    show (links sha256).hash a = (links sha256).hash b
    rw [hhash, hhash', hdigest]
  fresh a ha hdigest := h.nonzero a ha (JsonValue.str.inj hdigest)

/-- **Tamper evidence**: every ledger passes its check, and an array that passes
it too and ends in the same hash is that ledger, field by field. -/
theorem ledger_tamper_evident (sha256 : String → String) (calls : List AppendCall) :
    verifyIntegrity sha256 (ledger sha256 calls) = true
    ∧ ∀ forged : List AuditEntry, NoCollision sha256 (ledger sha256 calls ++ forged) →
        verifyIntegrity sha256 forged = true →
        forged.getLast?.map AuditEntry.hash
          = (ledger sha256 calls).getLast?.map AuditEntry.hash →
        forged = ledger sha256 calls := by
  have hlinked := linked_ledger sha256 calls
  refine ⟨verifyIntegrity_iff.mpr hlinked, ?_⟩
  intro forged hsha hforged hlast
  have htip : (links sha256).tip (.str genesisHash) (ledger sha256 calls)
      = (links sha256).tip (.str genesisHash) forged := by
    rw [tip_links, tip_links, lastHash, lastHash, hlast]
  exact (hlinked.unique (verifyIntegrity_iff.mp hforged) hsha.binding htip).symm

/-- The calls of a day, one of them without an employee. -/
def recordedCalls : List AppendCall :=
  [ ⟨some (.str "EMP-001"),
      .obj [("delta", .num ⟨true, 2, 0, by decide⟩), ("balanceAfter", .num (.ofNat 18))],
      some (.str "VACATION_TAKEN"), .ofNat 1735689600000⟩
  , ⟨some .null, .obj [], none, .ofNat 1735691400000⟩
  , ⟨some (.str "EMP-002"), .obj [("delta", .num ⟨true, 1, 0, by decide⟩)], none,
      .ofNat 1735693200000⟩ ]

/-- The digests of the two texts of `recordedDigest`. -/
def firstDigest : String := "aa64f46dd3ec77c75d5b90c524919ca8af2d95431ac3f7b611dc081657c9fdf3"
def secondDigest : String := "e6ebf6a1de71630a0f3bc15db08fd8d137c6c89c5a3db41a9c7f61a97f7dfa0f"

/-- SHA-256 on the texts of the two entries. -/
def recordedDigest (text : String) : String :=
  if text = "\x7b\"index\":0,\"previousHash\":\"" ++ genesisHash
      ++ "\",\"timestamp\":1735689600000,\"employeeId\":\"EMP-001\""
      ++ ",\"mutation\":\x7b\"delta\":-2,\"balanceAfter\":18\x7d"
      ++ ",\"reason\":\"VACATION_TAKEN\"\x7d" then firstDigest
  else if text = "\x7b\"index\":1,\"previousHash\":\"" ++ firstDigest
      ++ "\",\"timestamp\":1735693200000,\"employeeId\":\"EMP-002\""
      ++ ",\"mutation\":\x7b\"delta\":-1\x7d,\"reason\":\"UNSPECIFIED\"\x7d" then secondDigest
  else ""

/-- The array that was kept of them. -/
def recordedEntries : List AuditEntry :=
  [ ⟨.num (.ofNat 0), .str genesisHash, .num (.ofNat 1735689600000), .str "EMP-001",
      .obj [("delta", .num ⟨true, 2, 0, by decide⟩), ("balanceAfter", .num (.ofNat 18))],
      .str "VACATION_TAKEN", .str firstDigest⟩
  , ⟨.num (.ofNat 1), .str firstDigest, .num (.ofNat 1735693200000), .str "EMP-002",
      .obj [("delta", .num ⟨true, 1, 0, by decide⟩)], .str "UNSPECIFIED", .str secondDigest⟩ ]

/-- No two texts have one of the two digests. -/
theorem recordedDigest_inj {a b : String} (h : recordedDigest a = recordedDigest b)
    (hne : recordedDigest a ≠ "") : a = b := by
  have hdigests : firstDigest ≠ secondDigest := by decide
  unfold recordedDigest at h hne
  grind

theorem noCollision_recorded {entries : List AuditEntry}
    (h : entries.map (hashEntry recordedDigest) ⊆ [firstDigest, secondDigest]) :
    NoCollision recordedDigest entries := by
  have hcases : ∀ e ∈ entries,
      hashEntry recordedDigest e = firstDigest ∨ hashEntry recordedDigest e = secondDigest := by
    intro e he
    simpa using h (List.mem_map_of_mem he)
  refine ⟨fun a ha b _ hab => recordedDigest_inj hab ?_, fun a ha => ?_⟩
  · change hashEntry recordedDigest a ≠ ""
    rcases hcases a ha with hfirst | hsecond
    · rw [hfirst]; decide
    · rw [hsecond]; decide
  · change hashEntry recordedDigest a ≠ genesisHash
    rcases hcases a ha with hfirst | hsecond
    · rw [hfirst]; decide +kernel
    · rw [hsecond]; decide +kernel

theorem ledger_recordedDigest :
    (ledger recordedDigest recordedCalls).map (hashEntry recordedDigest)
      = [firstDigest, secondDigest] := by
  decide +kernel

theorem recordedEntries_digest :
    recordedEntries.map (hashEntry recordedDigest) = [firstDigest, secondDigest] := by
  decide +kernel

/-- The last hash of a chain is the last digest. -/
theorem last_hash {chain : List AuditEntry}
    (h : (links recordedDigest).Linked (.str genesisHash) chain) :
    chain.getLast?.map AuditEntry.hash
      = (chain.map (hashEntry recordedDigest)).getLast?.map .str := by
  rw [List.getLast?_map, Option.map_map]
  refine Option.map_congr fun e he => ?_
  exact h.hash_eq e (List.mem_of_getLast? he)

theorem ledger_tamper_evident_recorded :
    recordedEntries = ledger recordedDigest recordedCalls := by
  have hled := ledger_recordedDigest
  have hrec := recordedEntries_digest
  obtain ⟨hfirst, hrest⟩ := List.cons.inj hrec
  obtain ⟨hsecond, -⟩ := List.cons.inj hrest
  have hlinked : (links recordedDigest).Linked (.str genesisHash) recordedEntries :=
    ⟨rfl, congrArg JsonValue.str hfirst.symm, rfl, congrArg JsonValue.str hsecond.symm, trivial⟩
  refine (ledger_tamper_evident recordedDigest recordedCalls).2 recordedEntries
    (noCollision_recorded ?_) (verifyIntegrity_iff.mpr hlinked) ?_
  · rw [List.map_append, hled, hrec]
    simp
  · rw [last_hash hlinked, last_hash (linked_ledger recordedDigest recordedCalls), hled, hrec]

end AuditLedger

end LeaveLedger
