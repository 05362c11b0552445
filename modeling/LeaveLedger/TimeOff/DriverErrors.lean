import LeaveLedger.TimeOff.TimeOffService

/-!
# TimeOff — Errors of the driver and of the service

`_isSqliteTransientTxError` reads the text of a message, so it matters that no message of
the service itself reads like contention. Where a status or a number is put into a message,
neither it nor the text around it has a letter `c`, and both phrases the test looks for have
one.
-/

namespace LeaveLedger

open Js

/-- A phrase is not found where one of its letters is missing. -/
theorem isInfixOf_of_not_mem {needle hay : List Char} {c : Char} (hc : c ∈ needle)
    (hno : c ∉ hay) : isInfixOf needle hay = false := by
  induction hay with
  | nil =>
      cases needle with
      | nil => cases hc
      | cons x needle => rfl
  | cons x hay ih =>
      have hrest : isInfixOf needle hay = false := ih fun h => hno (List.mem_cons_of_mem x h)
      have hhead : needle.isPrefixOf (x :: hay) = false := by
        by_contra hpre
        have hstart : needle <+: x :: hay :=
          List.isPrefixOf_iff_prefix.mp (Bool.not_eq_false _ ▸ hpre)
        exact hno (hstart.subset hc)
      simp [isInfixOf, hhead, hrest]

/-- The message has no `c` and no `C`. -/
def HasNoC (message : String) : Prop := ∀ c ∈ message.toList, c.toLower ≠ 'c'

instance (message : String) : Decidable (HasNoC message) :=
  List.decidableBAll (fun c : Char => c.toLower ≠ 'c') message.toList

theorem HasNoC.append {a b : String} (ha : HasNoC a) (hb : HasNoC b) : HasNoC (a ++ b) := by
  intro c hc
  rw [String.toList_append] at hc
  rcases List.mem_append.mp hc with h | h
  · exact ha c h
  · exact hb c h

/-- A domain error whose message has no `c` does not read like contention. -/
theorem HasNoC.not_transient {message : String} (h : HasNoC message) (status : ℕ)
    (error : ErrorCode) (details : List (String × String)) :
    isSqliteTransientTxError (.http status error message details) = false := by
  have hlower : 'c' ∉ message.toLower.toList := by
    show 'c' ∉ (message.map Char.toLower).toList
    rw [String.toList_map]
    intro hmem
    obtain ⟨c, hc, hlow⟩ := List.mem_map.mp hmem
    exact h c hc hlow
  have hnested : isInfixOf "cannot start a transaction within a transaction".toList
      message.toLower.toList = false :=
    isInfixOf_of_not_mem (c := 'c') (by decide) hlower
  have hlocked : isInfixOf "database is locked".toList message.toLower.toList = false :=
    isInfixOf_of_not_mem (c := 'c') (by decide) hlower
  simp only [isSqliteTransientTxError, hnested, hlocked]
  simp

/-! ## The numbers in a message -/

theorem toLower_of_isNumberChar {c : Char} (h : isNumberChar c) : c.toLower = c := by
  have hrange : c.toNat < 65 ∨ 90 < c.toNat := by
    simp only [isNumberChar, Bool.or_eq_true, decide_eq_true_eq] at h
    rcases h with (((hdigit | rfl) | rfl) | rfl) | rfl
    · have hle : 48 ≤ c.toNat ∧ c.toNat ≤ 57 := by
        simpa [Char.isDigit, UInt32.le_iff_toNat_le] using hdigit
      omega
    all_goals decide
  unfold Char.toLower
  split
  · rename_i hupper
    have hbetween : 65 ≤ c.toNat ∧ c.toNat ≤ 90 := by
      simpa [UInt32.le_iff_toNat_le] using hupper
    omega
  · rfl

theorem hasNoC_numberText (q : ℚ) : HasNoC (numberText q) := by
  intro c hc hlow
  have hnumber := numberText_chars q c hc
  rw [toLower_of_isNumberChar hnumber] at hlow
  subst hlow
  cases hnumber

/-! ## The errors of a create -/

theorem overlapping_not_transient {status : RequestStatus} (hactive : status = .pending
    ∨ status = .approved) (details : List (String × String)) :
    isSqliteTransientTxError (conflict .overlappingRequest
      ("Request overlaps with existing " ++ status.text ++ " request") details) = false := by
  apply HasNoC.not_transient
  rcases hactive with rfl | rfl <;> decide

theorem balanceNotFound_not_transient (details : List (String × String)) :
    isSqliteTransientTxError (notFound .balanceNotFound
      "Balance record not found. Create a balance record before submitting requests."
      details) = false := by
  show isSqliteTransientTxError (notFound .balanceNotFound
    "Balance record not found. Create a balance record before submitting requests.") = false
  decide +kernel

theorem insufficient_not_transient (wanted available : ℚ) (details : List (String × String)) :
    isSqliteTransientTxError (unprocessable .insufficientBalance
      ("Requested " ++ numberText wanted ++ " days but only " ++ numberText available
        ++ " days available") details) = false := by
  refine HasNoC.not_transient ?_ _ _ _
  exact ((((by decide : HasNoC "Requested ").append (hasNoC_numberText wanted)).append
    (by decide : HasNoC " days but only ")).append (hasNoC_numberText available)).append
    (by decide : HasNoC " days available")

/-- A key that is taken is no contention. -/
theorem uniqueKey_not_transient :
    isSqliteTransientTxError (uniqueError "time_off_requests.idempotencyKey") = false := by
  decide +kernel

/-- Days that are not a number are neither contention nor an error of the schema. -/
theorem notANumber_class : isSqliteTransientTxError (sqlError "no such column: NaN") = false
    ∧ isSqliteConstraintError (sqlError "no such column: NaN") = false := by
  decide +kernel

theorem isSqliteConstraintError_constraintError (message : String) :
    isSqliteConstraintError (constraintError message) = true := by
  simp [isSqliteConstraintError, constraintError]

/-- Contention is told apart from the errors of the schema. -/
theorem Transient.exception_class (t : Transient) : isSqliteTransientTxError t.exception = true
    ∧ isSqliteConstraintError t.exception = false := by
  cases t <;> decide +kernel

end LeaveLedger
