import LeaveLedger.Sync.Machine
import Mathlib.Data.List.Perm.Basic

/-!
# Sync — What HCM debits

Every message that reaches HCM is processed as it is: there is no check of
its `referenceId`. So the total that HCM subtracts for a request is the
number of its messages that got through times its days, and the service
keeps it down to one exactly when it sends a message only while no earlier
one of the request can still have, or has had, its effect.
-/

namespace LeaveLedger

open Js Lib

/-- What HCM has subtracted with a `referenceId`. -/
def debited (s : SyncState) (requestId : Id) : ℚ :=
  sumWhere (fun m => m.referenceId = requestId) BalanceMutation.daysRequested s.processed

/-- No request has been debited for more than its days. -/
def DebitsBounded (s : SyncState) : Prop :=
  ∀ r ∈ s.db.requests.rows, debited s r.id ≤ r.daysRequested

/-- HCM does not overdebit, whichever of the messages on their way it still
processes. -/
def NeverOverdebits (env : Env) (s : SyncState) : Prop :=
  ∀ (ms : List ℕ) (s' : SyncState),
    run (syncStep env) s (ms.map SyncLabel.process) = some s' → DebitsBounded s'

/-- The step sends a message only when no message of the request is on its way
or processed. -/
def SendsAlone (s : SyncState) (l : SyncLabel) : Prop :=
  ∀ i answer o k m, l = .step i answer → s.running[i]? = some (.await o k) →
    m ∈ sent answer o → ∀ m' ∈ s.inFlight ++ s.processed, m'.referenceId ≠ m.referenceId

instance (s : SyncState) : ∀ l, Decidable (SendsAlone s l)
  | .step i answer =>
      match hrun : s.running[i]? with
      | some (.await o k) =>
          decidable_of_iff
            (∀ m ∈ sent answer o, ∀ m' ∈ s.inFlight ++ s.processed,
              m'.referenceId ≠ m.referenceId)
            ⟨fun h _ _ _ _ m hl hawait => by
                cases hl
                rw [hrun] at hawait
                cases hawait
                exact h m,
              fun h m => h i answer o k m rfl hrun⟩
      | some (.done _) | some (.fail _) | none =>
          isTrue fun _ _ _ _ _ hl hawait => by
            cases hl
            rw [hrun] at hawait
            cases hawait
  | .ledger _ _ | .turn | .worker | .process _ | .drop _ | .restart =>
      isTrue fun _ _ _ _ _ hl => by cases hl

/-! ## The messages -/

/-- Every message carries the days of its request. -/
def MessagesOk (s : SyncState) : Prop :=
  ∀ m ∈ s.inFlight ++ s.processed, ∃ r ∈ s.db.requests.rows,
    r.id = m.referenceId ∧ r.daysRequested = m.daysRequested

/-- What one step does to the messages: it sends some, or HCM or the network
takes one off the way. -/
inductive MessageStep (s s' : SyncState) : SyncLabel → Prop where
  | sends (l : SyncLabel) (msgs : List BalanceMutation) (hflight : s'.inFlight = s.inFlight ++ msgs)
      (hprocessed : s'.processed = s.processed)
      (hsent : msgs = [] ∨ ∃ i answer o k, l = .step i answer
        ∧ s.running[i]? = some (.await o k) ∧ msgs = sent answer o) : MessageStep s s' l
  | processes (j : ℕ) (hj : j < s.inFlight.length) (hflight : s'.inFlight = s.inFlight.eraseIdx j)
      (hprocessed : s'.processed = s.processed ++ [s.inFlight[j]]) : MessageStep s s' (.process j)
  | drops (j : ℕ) (hflight : s'.inFlight = s.inFlight.eraseIdx j)
      (hprocessed : s'.processed = s.processed) : MessageStep s s' (.drop j)

variable {env : Env} {s s' : SyncState} {l : SyncLabel}

theorem syncStep_messages (h : syncStep env s l = some s') : MessageStep s s' l := by
  cases l with
  | ledger op fates =>
      obtain ⟨w, hw, rfl⟩ := Option.map_eq_some_iff.mp h
      exact .sends _ [] (by simp) rfl (Or.inl rfl)
  | turn =>
      obtain ⟨c, rest, -, rfl⟩ := syncStep_turn h
      exact .sends _ [] (by simp) rfl (Or.inl rfl)
  | worker => cases h; exact .sends _ [] (by simp) rfl (Or.inl rfl)
  | step i answer =>
      obtain ⟨o, k, x, w, hp, -, rfl⟩ := syncStep_step h
      exact .sends _ (sent answer o) rfl rfl (Or.inr ⟨i, answer, o, k, rfl, hp, rfl⟩)
  | process j =>
      obtain ⟨msg, hmsg, rfl⟩ := Option.map_eq_some_iff.mp h
      obtain ⟨hj, rfl⟩ := List.getElem?_eq_some_iff.mp hmsg
      exact .processes j hj rfl rfl
  | drop j =>
      obtain ⟨msg, -, rfl⟩ := Option.map_eq_some_iff.mp h
      exact .drops j rfl rfl
  | restart => cases h; exact .sends _ [] (by simp) rfl (Or.inl rfl)

/-- A message is sent by a callback or pass, and about its stored request. -/
theorem sent_ok {db : Database} {answer : HttpOutcome} {o : SvcOp} {k : SvcSig.Res o → Svc Unit}
    {m : BalanceMutation} (hfits : Fits db (.await o k)) (hm : m ∈ sent answer o) :
    ∃ r ∈ db.requests.rows, r.id = m.referenceId ∧ r.daysRequested = m.daysRequested := by
  obtain ⟨rfl, -⟩ := sent_spec hm
  rcases hfits with hpass | hasks
  · cases hpass
  · exact hasks.1

theorem perm_processed (j : ℕ) (hj : j < s.inFlight.length) :
    (s.inFlight.eraseIdx j ++ (s.processed ++ [s.inFlight[j]])).Perm
      (s.inFlight ++ s.processed) := by
  calc (s.inFlight.eraseIdx j ++ (s.processed ++ [s.inFlight[j]])).Perm
        (s.inFlight[j] :: (s.inFlight.eraseIdx j ++ s.processed)) := by
          rw [← List.append_assoc]
          exact List.perm_append_singleton _ _
    _ |>.Perm (s.inFlight ++ s.processed) :=
          (List.getElem_cons_eraseIdx_perm hj).append_right s.processed

theorem messagesOk_step (hinv : SyncInv s) (hok : MessagesOk s) (h : syncStep env s l = some s') :
    MessagesOk s' := by
  have hgrows := (syncStep_inv hinv h).2
  have hold : ∀ m ∈ s.inFlight ++ s.processed, ∃ r ∈ s'.db.requests.rows,
      r.id = m.referenceId ∧ r.daysRequested = m.daysRequested := by
    intro m hm
    obtain ⟨r, hr, hid, hdays⟩ := hok m hm
    obtain ⟨r', hr', hsame, -⟩ := hgrows r hr
    exact ⟨r', hr', hsame.id.trans hid, hsame.daysRequested.trans hdays⟩
  intro m hm
  cases syncStep_messages h with
  | sends _ msgs hflight hprocessed hsent =>
      rw [hflight, hprocessed] at hm
      rcases List.mem_append.mp hm with hm | hm
      · rcases List.mem_append.mp hm with hm | hm
        · exact hold m (List.mem_append_left _ hm)
        · rcases hsent with rfl | ⟨i, answer, o, k, rfl, hp, rfl⟩
          · cases hm
          · have hfits := hinv.running _ (List.mem_of_getElem? hp)
            obtain ⟨r, hr, hid, hdays⟩ := sent_ok hfits hm
            obtain ⟨r', hr', hsame, -⟩ := hgrows r hr
            exact ⟨r', hr', hsame.id.trans hid, hsame.daysRequested.trans hdays⟩
      · exact hold m (List.mem_append_right _ hm)
  | processes j hj hflight hprocessed =>
      rw [hflight, hprocessed] at hm
      exact hold m ((perm_processed j hj).mem_iff.mp hm)
  | drops j hflight hprocessed =>
      rw [hflight, hprocessed] at hm
      rcases List.mem_append.mp hm with hm | hm
      · exact hold m (List.mem_append_left _ (List.mem_of_mem_eraseIdx hm))
      · exact hold m (List.mem_append_right _ hm)

theorem messagesOk_run {ls : List SyncLabel} (hinv : SyncInv s) (hok : MessagesOk s)
    (h : run (syncStep env) s ls = some s') : SyncInv s' ∧ MessagesOk s' :=
  run_induct (I := fun s => SyncInv s ∧ MessagesOk s)
    (fun _ _ _ hI hstep => ⟨(syncStep_inv hI.1 hstep).1, messagesOk_step hI.1 hI.2 hstep⟩)
    ⟨hinv, hok⟩ h

theorem messagesOk_initial (clock : ℤ) : MessagesOk (SyncState.initial clock) :=
  fun m hm => by cases hm

/-! ## One message for a request -/

/-- No two messages that are on their way or processed are of one request. -/
def OneMessageEach (s : SyncState) : Prop :=
  ((s.inFlight ++ s.processed).map BalanceMutation.referenceId).Nodup

theorem debitsBounded_of_one (hinv : SyncInv s) (hok : MessagesOk s) (hone : OneMessageEach s) :
    DebitsBounded s := by
  intro r hr
  have hnd : (s.processed.map BalanceMutation.referenceId).Nodup :=
    hone.sublist ((List.sublist_append_right _ _).map _)
  refine sumWhere_le_of_nodup hnd (hinv.ledger.positive r hr).le fun m hm href => ?_
  obtain ⟨r', hr', hid, hdays⟩ := hok m (List.mem_append_right _ hm)
  obtain rfl := Table.eq_of_pk hr' hr (hid.trans href)
  exact hdays.ge

/-- **One step** keeps it so, when it sends alone. -/
theorem oneMessage_step (hone : OneMessageEach s) (halone : SendsAlone s l)
    (h : syncStep env s l = some s') : OneMessageEach s' := by
  unfold OneMessageEach at hone ⊢
  cases syncStep_messages h with
  | sends _ msgs hflight hprocessed hsent =>
      rw [hflight, hprocessed]
      rcases hsent with rfl | ⟨i, answer, o, k, rfl, hp, rfl⟩
      · simpa using hone
      · cases hmsgs : sent answer o with
        | nil => simpa using hone
        | cons m rest =>
            have hm : m ∈ sent answer o := by rw [hmsgs]; exact List.mem_cons_self
            rw [← hmsgs, (sent_spec hm).2]
            have hperm : ((s.inFlight ++ [m]) ++ s.processed).Perm
                (m :: (s.inFlight ++ s.processed)) := by
              rw [List.append_assoc]
              exact List.perm_middle
            rw [(hperm.map _).nodup_iff, List.map_cons, List.nodup_cons]
            refine ⟨fun hmem => ?_, hone⟩
            obtain ⟨m', hm', href⟩ := List.mem_map.mp hmem
            exact halone i answer o k m rfl hp hm m' hm' href
  | processes j hj hflight hprocessed =>
      rw [hflight, hprocessed]
      exact ((perm_processed j hj).map _).nodup_iff.mpr hone
  | drops j hflight hprocessed =>
      rw [hflight, hprocessed]
      exact hone.sublist (((List.eraseIdx_sublist _ _).append_right _).map _)

theorem sendsAlone_process (s : SyncState) (j : ℕ) : SendsAlone s (.process j) := by
  intro i answer o k m hl
  cases hl

theorem syncStep_process {j : ℕ} {m : BalanceMutation} (hj : s.inFlight[j]? = some m) :
    syncStep env s (.process j) = some { s with
      inFlight := s.inFlight.eraseIdx j, processed := s.processed ++ [m] } := by
  simp only [syncStep, hj, Option.map_some]

/-- Two messages of one request are more than its days. -/
theorem two_messages {msgs : List BalanceMutation} {m m' : BalanceMutation} {requestId : Id}
    {d : ℚ} (hd : 0 < d) (hmsgs : ∀ a ∈ msgs, 0 ≤ a.daysRequested) (hmem : m' ∈ msgs)
    (hm : m.referenceId = requestId ∧ m.daysRequested = d)
    (hm' : m'.referenceId = requestId ∧ m'.daysRequested = d) :
    d < sumWhere (fun a => a.referenceId = requestId) BalanceMutation.daysRequested
      (msgs ++ [m]) := by
  have hle : m'.daysRequested ≤ sumWhere (fun a => a.referenceId = requestId)
      BalanceMutation.daysRequested msgs :=
    le_sumWhere (fun a ha _ => hmsgs a ha) hmem (decide_eq_true hm'.1)
  rw [sumWhere_append, sumWhere_cons, sumWhere_nil, if_pos (decide_eq_true hm.1), hm.2]
  rw [hm'.2] at hle
  linarith

/-- A message that is sent while another of its request may still have an
effect: HCM can process both. -/
theorem overdebits_of_second (hinv : SyncInv s) (hok : MessagesOk s)
    (h : syncStep env s l = some s') (hnot : ¬ SendsAlone s l) : ¬ NeverOverdebits env s' := by
  intro hnever
  unfold SendsAlone at hnot
  push Not at hnot
  obtain ⟨i, answer, o, k, m, rfl, hp, hm, m', hm', href⟩ := hnot
  -- both messages carry the days of one stored request
  obtain ⟨r, hr, hid, hdays⟩ := sent_ok (hinv.running _ (List.mem_of_getElem? hp)) hm
  obtain ⟨r₀, hr₀, hid₀, hdays₀⟩ := hok m' hm'
  obtain rfl := Table.eq_of_pk hr₀ hr (hid₀.trans (href.trans hid.symm))
  obtain ⟨x, hx, hsame, -⟩ := (syncStep_inv hinv h).2 r₀ hr₀
  have hpos : 0 < x.daysRequested := by
    rw [hsame.daysRequested]
    exact hinv.ledger.positive r₀ hr₀
  have hm₁ : m.referenceId = x.id ∧ m.daysRequested = x.daysRequested :=
    ⟨hid.symm.trans hsame.id.symm, hdays.symm.trans hsame.daysRequested.symm⟩
  have hm₂ : m'.referenceId = x.id ∧ m'.daysRequested = x.daysRequested :=
    ⟨hid₀.symm.trans hsame.id.symm, hdays₀.symm.trans hsame.daysRequested.symm⟩
  have hold : ∀ a ∈ s.processed, 0 ≤ a.daysRequested := by
    intro a ha
    obtain ⟨y, hy, -, hdy⟩ := hok a (List.mem_append_right _ ha)
    exact hdy ▸ (hinv.ledger.positive y hy).le
  -- HCM processes the new message
  obtain ⟨o', k', z, w, hp', -, hs'⟩ := syncStep_step h
  rw [hp] at hp'
  cases hp'
  have hflight : s'.inFlight = s.inFlight ++ [m] := by rw [hs', ← (sent_spec hm).2]
  have hprocessed : s'.processed = s.processed := by rw [hs']
  set s₁ : SyncState := { s' with
    inFlight := s.inFlight, processed := s.processed ++ [m] } with hs₁
  have hstep₁ : syncStep env s' (.process s.inFlight.length) = some s₁ := by
    have hlast : s'.inFlight[s.inFlight.length]? = some m := by rw [hflight]; simp
    rw [syncStep_process hlast, hflight, hprocessed,
      List.eraseIdx_append_of_length_le (le_refl _)]
    simp [hs₁]
  rcases List.mem_append.mp hm' with hway | hdone
  · -- and then the earlier one, which is still on its way
    obtain ⟨j, hj, rfl⟩ := List.getElem_of_mem hway
    set s₂ : SyncState := { s₁ with
      inFlight := s.inFlight.eraseIdx j, processed := s.processed ++ [m] ++ [s.inFlight[j]] }
    have hstep₂ : syncStep env s₁ (.process j) = some s₂ :=
      syncStep_process (List.getElem?_eq_getElem hj)
    have hrun : run (syncStep env) s' ([s.inFlight.length, j].map .process) = some s₂ := by
      rw [List.map_cons, run_cons, hstep₁, Option.bind_some, List.map_cons, run_cons, hstep₂]
      rfl
    have hfinal := hnever _ s₂ hrun x hx
    refine absurd hfinal (not_le.mpr (two_messages hpos ?_
      (List.mem_append_right _ List.mem_cons_self) hm₂ hm₁))
    intro a ha
    rcases List.mem_append.mp ha with ha | ha
    · exact hold a ha
    · rw [List.mem_singleton.mp ha, hm₁.2]
      exact hpos.le
  · -- the earlier one is processed
    have hrun : run (syncStep env) s' ([s.inFlight.length].map .process) = some s₁ := by
      rw [List.map_cons, run_cons, hstep₁]
      rfl
    have hfinal := hnever _ s₁ hrun x hx
    exact absurd hfinal (not_le.mpr (two_messages hpos hold hdone hm₁ hm₂))

/-- From a state with at most one message each: HCM never overdebits along a run
exactly when every message is sent alone. -/
theorem overdebits_iff {ls : List SyncLabel} (hinv : SyncInv s) (hok : MessagesOk s)
    (hone : OneMessageEach s) (hrun : run (syncStep env) s ls = some s') :
    (∀ n s₁, run (syncStep env) s (ls.take n) = some s₁ → NeverOverdebits env s₁)
      ↔ Meets (syncStep env) SendsAlone s ls := by
  have hsafe : ∀ {ms : List SyncLabel} {t t' : SyncState}, SyncInv t → MessagesOk t →
      OneMessageEach t → Meets (syncStep env) SendsAlone t ms →
      run (syncStep env) t ms = some t' → OneMessageEach t' := by
    intro ms t t' hinv hok hone hmeets hrun
    exact (run_meets (I := fun t => SyncInv t ∧ MessagesOk t ∧ OneMessageEach t)
      (fun t l t' hI hC hstep => ⟨(syncStep_inv hI.1 hstep).1,
        messagesOk_step hI.1 hI.2.1 hstep, oneMessage_step hI.2.2 hC hstep⟩)
      ⟨hinv, hok, hone⟩ hmeets hrun).2.2
  constructor
  · intro h
    rw [meets_iff]
    intro pre l post t hls hpre
    obtain ⟨t₀, h₀, hpost⟩ := run_append_some (hls ▸ hrun)
    rw [hpre] at h₀
    cases h₀
    obtain ⟨t', hstep, -⟩ := run_cons_some hpost
    obtain ⟨hinv', hok'⟩ := messagesOk_run hinv hok hpre
    by_contra hnot
    refine overdebits_of_second hinv' hok' hstep hnot (h (pre.length + 1) t' ?_)
    have htake : ls.take (pre.length + 1) = pre ++ [l] := by
      simp [hls, List.take_append]
    rw [htake, run_append, hpre]
    show Option.bind (syncStep env t l) _ = _
    rw [hstep]
    rfl
  · intro hmeets n s₁ h₁ ms s₂ h₂
    obtain ⟨s₀, h₀, hrest⟩ := run_take hrun n
    rw [h₁] at h₀
    cases h₀
    have hmeets₁ : Meets (syncStep env) SendsAlone s (ls.take n) := by
      rw [← List.take_append_drop n ls] at hmeets
      exact ((meets_append h₁).mp hmeets).1
    obtain ⟨hinv₁, hok₁⟩ := messagesOk_run hinv hok h₁
    obtain ⟨hinv₂, hok₂⟩ := messagesOk_run hinv₁ hok₁ h₂
    have hdeliver : Meets (syncStep env) SendsAlone s₁ (ms.map SyncLabel.process) := by
      rw [meets_iff]
      intro pre l post t hls _
      have hmem : l ∈ ms.map SyncLabel.process := by rw [hls]; simp
      obtain ⟨j, -, rfl⟩ := List.mem_map.mp hmem
      exact sendsAlone_process t j
    have hone₁ := hsafe hinv hok hone hmeets₁ h₁
    exact debitsBounded_of_one hinv₂ hok₂ (hsafe hinv₁ hok₁ hone₁ hdeliver h₂)

/-- **HCM is debited at most once exactly when every message is sent alone.**
In every run: whenever HCM processes which of the messages on their way, the
total subtracted for a request stays within its days, if and only if each
message was sent when none of its request was on its way or processed. -/
theorem debited_once_iff (env : Env) (clock : ℤ) (ls : List SyncLabel) (s : SyncState)
    (hrun : run (syncStep env) (SyncState.initial clock) ls = some s) :
    (∀ n s₁, run (syncStep env) (SyncState.initial clock) (ls.take n) = some s₁ →
        NeverOverdebits env s₁)
      ↔ Meets (syncStep env) SendsAlone (SyncState.initial clock) ls :=
  overdebits_iff (syncInv_initial clock) (messagesOk_initial clock) List.nodup_nil hrun

/-- An approval is notified, its answer gets lost, and the retry of the HTTP
call succeeds; HCM processes both messages. -/
def lostAnswerRun : List SyncLabel :=
  sampleRequest ++ [sampleApproval, .turn, .turn, .step 1 validAnswer, .step 1 lostAnswer,
    .step 1 successAnswer, .process 0, .process 0]

/-- Two days are subtracted twice. -/
theorem lostAnswerRun_outcome : ∃ s,
    run (syncStep .default) (SyncState.initial 0) lostAnswerRun = some s
    ∧ s.db.requests.rows.map (fun r => (r.id, r.daysRequested)) = [(8, 2)] ∧ debited s 8 = 4 := by
  have h : (run (syncStep .default) (SyncState.initial 0) lostAnswerRun).map (fun s =>
      (s.db.requests.rows.map (fun r => (r.id, r.daysRequested)), debited s 8))
      = some ([(8, 2)], 4) := by
    decide +kernel
  obtain ⟨s, hs, h⟩ := Option.map_eq_some_iff.mp h
  obtain ⟨hrows, hdebit⟩ := Prod.mk.inj h
  exact ⟨s, hs, hrows, hdebit⟩

/-- HCM can be debited more than once. -/
theorem hcm_debited_twice :
    ¬ ∀ (env : Env) (clock : ℤ) (ls : List SyncLabel) (s : SyncState),
      run (syncStep env) (SyncState.initial clock) ls = some s →
      ∀ r ∈ s.db.requests.rows, debited s r.id ≤ r.daysRequested := by
  intro h
  obtain ⟨s, hs, hrows, hdebit⟩ := lostAnswerRun_outcome
  obtain ⟨r, hr, hpair⟩ := List.map_eq_singleton_iff.mp hrows
  obtain ⟨hid, hdays⟩ := Prod.mk.inj hpair
  have hle := h _ _ _ s hs r (by rw [hr]; exact List.mem_cons_self)
  rw [hid, hdebit, hdays] at hle
  norm_num at hle

/-- An approval is notified, and the first attempt succeeds. -/
def firstAttemptRun : List SyncLabel :=
  sampleRequest ++ [sampleApproval, .turn, .turn, .step 1 validAnswer, .step 1 successAnswer,
    .process 0]

/-- The one message is sent alone, and two days are subtracted once. -/
theorem debited_once_first_attempt :
    ((run (syncStep .default) (SyncState.initial 0) firstAttemptRun).map fun s => debited s 8)
        = some 2
      ∧ Meets (syncStep .default) SendsAlone (SyncState.initial 0) firstAttemptRun
      ∧ ∀ n s₁, run (syncStep .default) (SyncState.initial 0) (firstAttemptRun.take n) = some s₁ →
        NeverOverdebits .default s₁ := by
  have h : ((run (syncStep .default) (SyncState.initial 0) firstAttemptRun).map fun s =>
      debited s 8) = some 2 := by
    decide +kernel
  have halone : Meets (syncStep .default) SendsAlone (SyncState.initial 0) firstAttemptRun := by
    decide +kernel
  obtain ⟨s, hs, -⟩ := Option.map_eq_some_iff.mp h
  exact ⟨h, halone, (debited_once_iff .default 0 _ s hs).mpr halone⟩

end LeaveLedger
