import LeaveLedger.Book.Durability

/-!
# Book — Which errors a call can end in

The services have more branches that throw than can be reached: a settlement
has its own errors for a row that is missing or holds too few days, and a
create one for a row that is missing. `ServiceCall.errors` is what is left
of them in a history of the service, and `MayBreak` when an error is none
of the domain at all.
-/

namespace LeaveLedger

open Js Lib

/-- The errors a call can be answered with, each with its status. -/
def ServiceCall.errors : ServiceCall → List (ℕ × ErrorCode)
  | .createRequest _ _ =>
      [(400, .missingIdempotencyKey), (422, .invalidDateRange), (409, .idempotencyConflict),
        (409, .overlappingRequest), (404, .balanceNotFound), (422, .insufficientBalance),
        (409, .balanceConflict)]
  | .settle _ _ => [(404, .requestNotFound), (409, .invalidStatusTransition)]
  | .getRequest _ => [(404, .requestNotFound)]
  | .getBalance _ _ _ => [(404, .balanceNotFound)]
  | .upsertBalance _ _ _ _ | .applyHcmRealTimeUpdate _ _ _ _ | .reconcileRecord _
  | .getBalancesForEmployee _ _ | .runDeferred _ | .retryPendingHcmSyncs | .tick _ => []

/-- When a call can end in an error that is none of the domain: a create whose days are not a
number, and a single transaction that was disturbed. -/
def ServiceCall.MayBreak : ServiceCall × List Fate → Prop
  | (.createRequest dto _, _) => daysOf dto = none
  | (.settle _ _, fates) | (.applyHcmRealTimeUpdate _ _ _ _, fates) => Contended 1 fates
  | (.getRequest _, _) | (.upsertBalance _ _ _ _, _) | (.reconcileRecord _, _)
  | (.getBalance _ _ _, _) | (.getBalancesForEmployee _ _, _) | (.runDeferred _, _)
  | (.retryPendingHcmSyncs, _) | (.tick _, _) => False

/-- A call and its reply as the error table has it. -/
def WithinErrors (call : ServiceCall × List Fate) : Reply → Prop
  | .refused status error =>
      (status, error) ∈ call.1.errors ∧ (error = .balanceConflict → Contended 3 call.2)
  | .broken => ServiceCall.MayBreak call
  | .booked _ | .account _ | .accounts _ | .reconciled _ | .nothing => True

namespace LeaveBook

variable {env : Env} {book book' : LeaveBook} {call : ServiceCall × List Fate} {reply : Reply}
  {dto : CreateTimeOffRequestDto} {k : String} {fates : List Fate}

theorem screen_within (h : book.screen env dto k = some reply) :
    WithinErrors (.createRequest dto k, fates) reply := by
  unfold screen at h
  split at h
  · cases h
    exact ⟨by simp [ServiceCall.errors], by simp⟩
  · split at h
    · cases h
      exact ⟨by simp [ServiceCall.errors], by simp⟩
    · split at h
      · cases h
        exact ⟨by simp [ServiceCall.errors], by simp⟩
      · cases hrec : book.receipts k with
        | none => simp [hrec] at h
        | some receipt =>
            simp only [hrec] at h
            split at h
            · cases h
            · split at h
              · cases h
                exact ⟨by simp [ServiceCall.errors], by simp⟩
              · cases h
                trivial

/-- What each refusal says of the create. -/
theorem verdict_within {refusal : Refusal} (h : book.verdict dto k = .error refusal) :
    match refusal with
    | .because status error =>
        (status, error) ∈ [((409 : ℕ), ErrorCode.overlappingRequest), (404, .balanceNotFound),
          (422, .insufficientBalance)]
    | .notANumber => daysOf dto = none
    | .keyTaken => ∃ b ∈ book.bookings, b.idempotencyKey = k := by
  unfold verdict at h
  split at h
  · cases h
    simp
  · cases hacc : book.accountOf dto.balanceKey with
    | none =>
        rw [hacc] at h
        cases h
        simp
    | some account =>
        cases hdays : daysOf dto with
        | none =>
            simp only [hacc, hdays] at h
            cases h
            rfl
        | some d =>
            simp only [hacc, hdays] at h
            split at h
            · cases h
              simp
            · split at h
              · rename_i hkey
                cases h
                exact hkey
              · cases h

theorem refuse_within {refusal : Refusal} (h : book.verdict dto k = .error refusal) :
    WithinErrors (.createRequest dto k, fates) (book.refuse k refusal) := by
  have hwithin := verdict_within h
  cases refusal with
  | because status error =>
      simp only [List.mem_cons, Prod.mk.injEq, List.not_mem_nil, or_false] at hwithin
      rcases hwithin with ⟨rfl, rfl⟩ | ⟨rfl, rfl⟩ | ⟨rfl, rfl⟩
      · exact ⟨by simp [ServiceCall.errors], by simp⟩
      · exact ⟨by simp [ServiceCall.errors], by simp⟩
      · exact ⟨by simp [ServiceCall.errors], by simp⟩
  | notANumber => exact hwithin
  | keyTaken =>
      show WithinErrors _ (book.retrieve k .broken)
      unfold retrieve
      cases hfind : book.bookings.find? fun b => b.idempotencyKey = k with
      | some b => trivial
      | none =>
          obtain ⟨b, hb, hkey⟩ := hwithin
          exact absurd hkey (by simpa using List.find?_eq_none.mp hfind b hb)

theorem Answers.within (h : book.Answers env call reply book') : WithinErrors call reply := by
  cases h with
  | screened h => exact screen_within h
  | turnedDown hs hv => exact refuse_within hv
  | createContended hs hc =>
      unfold retrieve
      split
      · trivial
      · exact ⟨by simp [ServiceCall.errors], fun _ => hc⟩
  | settleContended hc => exact hc
  | updateContended hc => exact hc
  | settleUnknown | settleClosed | notFound | noBalance =>
      exact ⟨by simp [ServiceCall.errors], by simp⟩
  | _ => trivial

end LeaveBook

/-- **The error table**: in every history of the service a call is refused only with an error
of its own list, a create for contention only after each of its transactions was disturbed,
and a call breaks only where it may. -/
theorem service_errors (env : Env) (clock : ℤ) (calls : List (ServiceCall × List Fate)) :
    ∃ history w', transcript (serve env) calls (World.initial clock) = some (history, w')
      ∧ ∀ entry ∈ history, WithinErrors entry.1 entry.2 := by
  obtain ⟨history, w', hrun, -, hall⟩ := allowed_of_simulation (serve_answers env) calls
    (s := World.initial clock) ⟨sound_initial clock, rfl⟩
  refine ⟨history, w', hrun, fun entry hentry => ?_⟩
  obtain ⟨before, after, rfl⟩ := List.append_of_mem hentry
  obtain ⟨t₁, t₂, -, hstep, -⟩ := hall.at_answer (l := entry.1) (r := entry.2)
  exact hstep.within

end LeaveLedger
