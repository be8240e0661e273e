import AriOs.Kernel.Interleaving

/-!
# Crash recovery

The process dies at any point of any number of live calls; at the next boot the reconciler
asks the chain once about every trade that was left `sent`. It covers the trades the live
path had recorded as sent, and trusts what the live path had already recorded of the others.
-/

namespace AriOs.Kernel

open AriOs.Async AriOs.Storage AriOs.Kernel.Gateway

/-- What `recover` reports. -/
structure ReconcileSummary where
  checked : Nat
  confirmed : Nat
  failed : Nat
  deriving DecidableEq, Repr

/-- Release and fail one trade. -/
def giveUp (trade : TradeRow) (state : TradeState) (error : String) : Gateway Bool := do
  releaseIfHeld trade.reservationId
  let failedAt ← now
  store (.fail trade.id state error failedAt)
  pure false

/-- One trade of the work list; whether it had confirmed. A missing and an empty signature
are the same to the code. -/
def recoverTrade (trade : TradeRow) : Gateway Bool :=
  match trade.signature.getD "" with
  | "" => giveUp trade .errored "RECONCILE_NO_SIGNATURE"
  | signature => do
    let status ← confirm signature trade.lastValidBlockHeight
    match status with
    | .confirmed => do
      consumeIfHeld trade.reservationId
      let confirmedAt ← now
      store (.setState trade.id .confirmed confirmedAt)
      pure true
    | status =>
      giveUp trade (if status = .expired then .expired else .errored)
        ("RECONCILE_" ++ status.upperName)

/-- The loop over the work list, with its two counters. -/
def recoverAll : List TradeRow → Nat → Nat → Gateway (Nat × Nat)
  | [], confirmed, failed => pure (confirmed, failed)
  | trade :: pending, confirmed, failed => do
    let ok ← recoverTrade trade
    if ok then recoverAll pending (confirmed + 1) failed
    else recoverAll pending confirmed (failed + 1)

def pendingSent : Gateway (List TradeRow) := Task.total (I := interface) .pendingSent

/-- Boot-time crash recovery. -/
def recover : Gateway ReconcileSummary := do
  let pending ← pendingSent
  let counts ← recoverAll pending 0 0
  pure ⟨pending.length, counts.1, counts.2⟩

/-! ### What recovery is for -/

/-- The transaction of a trade landed, by what the chain says of its signature. -/
def landed (chain : String → ConfirmStatus) (t : TradeRow) : Bool :=
  chain (t.signature.getD "") = .confirmed

/-- The trade `id` is terminal, and its reservation is consumed if its transaction landed
and released otherwise. -/
def Settled (chain : String → ConfirmStatus) (s : KernelStore) (id : String) : Prop :=
  ∃ t ∈ s.trades.find? id, t.state.Terminal ∧ ∀ rid ∈ t.reservationId,
    (s.spends.find? rid).map SpendRow.state =
      some (if landed chain t then .consumed else .released)

instance (chain : String → ConfirmStatus) (s : KernelStore) (id : String) :
    Decidable (Settled chain s id) := by
  unfold Settled; infer_instance

/-- What the crash left of a trade: it had been recorded as sent or settled, and whatever the
live path had already recorded about its outcome is what the chain says. -/
def Recoverable (chain : String → ConfirmStatus) (s : KernelStore) (t : TradeRow) : Prop :=
  match t.state with
  | .reserved | .rejected => False
  | .sent => ∀ rid ∈ t.reservationId, ∀ r ∈ s.spends.find? rid,
      if landed chain t then t.signature ≠ some "" ∨ r.state = .consumed
      else r.state ≠ .consumed
  | .confirmed => t.reservationId = none ∨ landed chain t = true
  | .expired | .errored => t.reservationId = none ∨ landed chain t = false

instance (chain : String → ConfirmStatus) (s : KernelStore) (t : TradeRow) :
    Decidable (Recoverable chain s t) := by
  unfold Recoverable; split <;> infer_instance

/-! ### One trade -/

section OneTrade

variable {chain : String → ConfirmStatus} {env : Nat → ∀ o, interface.Ans o}

/-- The confirmer gives the chain's answer, at once and for every signature. -/
def Definite (chain : String → ConfirmStatus) (env : Nat → ∀ o, interface.Ans o) : Prop :=
  ∀ n signature height, env n (Op.confirm signature height) = .ok (chain signature)

/-- The state recovery puts a trade in. -/
def recoveredState (chain : String → ConfirmStatus) (t : TradeRow) : TradeState :=
  if t.signature.getD "" = "" then .errored
  else match chain (t.signature.getD "") with
    | .confirmed => .confirmed
    | .expired => .expired
    | .failed => .errored

/-- What recovery does to the state of the trade's spend. -/
def recoveredSpend (chain : String → ConfirmStatus) (t : TradeRow) (state : SpendState) :
    SpendState :=
  if recoveredState chain t = .confirmed then .consumed
  else if state = .reserved then .released else state

/-- What one pass over the work list did to the store: its trades are where the chain says,
their spends followed, and nothing else moved. -/
structure Recovered (chain : String → ConfirmStatus) (ts : List TradeRow) (s s' : KernelStore) :
    Prop where
  trade : ∀ t ∈ ts, ∃ t', s'.trades.find? t.id = some t' ∧
    t'.state = recoveredState chain t ∧ t'.reservationId = t.reservationId ∧
    t'.signature = t.signature
  spend : ∀ t ∈ ts, ∀ rid, t.reservationId = some rid →
    (s'.spends.find? rid).map SpendRow.state =
      (s.spends.find? rid).map fun r => recoveredSpend chain t r.state
  otherTrade : ∀ id, id ∉ ts.map TradeRow.id → s'.trades.find? id = s.trades.find? id
  otherSpend : ∀ rid, (∀ t ∈ ts, t.reservationId ≠ some rid) →
    s'.spends.find? rid = s.spends.find? rid

variable {s s' : KernelStore} {t : TradeRow} {n : Nat}

/-- The store after `releaseIfHeld`. -/
def releaseHeld (s : KernelStore) : Option String → KernelStore
  | some rid => s.releaseReservation rid
  | none => s

/-- The store after `consumeIfHeld`. -/
def consumeHeld (s : KernelStore) : Option String → KernelStore
  | some rid => s.consumeReservation rid
  | none => s

theorem exec_giveUp (env : Nat → ∀ o, interface.Ans o) (t : TradeRow) (state : TradeState)
    (error : String) (n : Nat) (s : KernelStore) :
    ∃ n' at_, (giveUp t state error).run.exec machine env n s =
      (.ok false, n', (releaseHeld s t.reservationId).fail t.id state error at_) := by
  unfold giveUp
  cases t.reservationId with
  | none => exact ⟨_, _, rfl⟩
  | some rid => exact ⟨_, _, rfl⟩

theorem exec_confirm (henv : Definite chain env) (signature : String) (height : Int) (n : Nat)
    (s : KernelStore) : (confirm signature height).run.exec machine env n s =
      (.ok (chain signature), n + 1, s) := by
  rw [← henv n signature height]
  rfl

/-- Recovery of one trade, in terms of the store. -/
theorem exec_recoverTrade (henv : Definite chain env) (t : TradeRow) (n : Nat)
    (s : KernelStore) : ∃ ok n' at_ error, (recoverTrade t).run.exec machine env n s =
      (.ok ok, n', if recoveredState chain t = .confirmed then
          (consumeHeld s t.reservationId).setState t.id .confirmed at_
        else (releaseHeld s t.reservationId).fail t.id (recoveredState chain t) error at_) := by
  unfold recoverTrade recoveredState
  split
  · -- a row without signature was never broadcast
    rename_i hsig
    obtain ⟨n', at_, h⟩ := exec_giveUp env t .errored "RECONCILE_NO_SIGNATURE" n s
    exact ⟨false, n', at_, _, by simpa [hsig] using h⟩
  · rename_i hsig
    rw [Task.exec_bind, exec_confirm henv, if_neg hsig]
    cases chain (t.signature.getD "") with
    | confirmed =>
      cases t.reservationId with
      | none => exact ⟨true, _, _, "", rfl⟩
      | some rid => exact ⟨true, _, _, "", rfl⟩
    | expired =>
      obtain ⟨n', at_, h⟩ := exec_giveUp env t .expired "RECONCILE_EXPIRED" (n + 1) s
      exact ⟨false, n', at_, _, h⟩
    | failed =>
      obtain ⟨n', at_, h⟩ := exec_giveUp env t .errored "RECONCILE_FAILED" (n + 1) s
      exact ⟨false, n', at_, _, h⟩

/-- The trade itself moved to `state`. -/
theorem recovered_trade (ht : s.trades.find? t.id = some t) {f : TradeRow → TradeRow}
    {hf : ∀ r, (f r).id = r.id} (hstate : (f t).state = recoveredState chain t)
    (hres : (f t).reservationId = t.reservationId) (hsig : (f t).signature = t.signature)
    (htrades : s'.trades = s.trades)
    (hspend : ∀ rid, t.reservationId = some rid → (s'.spends.find? rid).map SpendRow.state =
      (s.spends.find? rid).map fun r => recoveredSpend chain t r.state)
    (hother : ∀ rid, t.reservationId ≠ some rid → s'.spends.find? rid = s.spends.find? rid) :
    Recovered chain [t] s (s'.setTrade t.id f hf) where
  trade t₀ ht₀ := by
    obtain rfl := List.mem_singleton.mp ht₀
    exact ⟨f t₀, by simp [KernelStore.find?_setTrade, htrades, ht], hstate, hres, hsig⟩
  spend t₀ ht₀ := by
    obtain rfl := List.mem_singleton.mp ht₀
    exact hspend
  otherTrade id hid := by
    rw [KernelStore.find?_setTrade, htrades]
    cases hr : s.trades.find? id with
    | none => rfl
    | some r =>
      obtain ⟨-, rfl⟩ := Table.find?_eq_some_iff.mp hr
      have hne : r.id ≠ t.id := by simpa using hid
      simp [hne]
  otherSpend rid hrid := hother rid (hrid t (List.mem_singleton_self t))

theorem find?_setSpendState_own {p : SpendRow → Bool} {state : SpendState} {rid : String}
    (hp : ∀ r, p r = true → r.id = rid) {k : String} (hk : k ≠ rid) :
    (s.setSpendState p state).spends.find? k = s.spends.find? k := by
  rw [KernelStore.find?_setSpendState]
  cases hr : s.spends.find? k with
  | none => rfl
  | some r =>
    obtain ⟨-, rfl⟩ := Table.find?_eq_some_iff.mp hr
    have : p r = false := by
      by_contra h
      exact hk (hp r (by simpa using h))
    simp [this]

/-- Recovery of one trade. -/
theorem recoverTrade_recovered (henv : Definite chain env) (ht : s.trades.find? t.id = some t)
    (n : Nat) : ∃ ok n' s', (recoverTrade t).run.exec machine env n s = (.ok ok, n', s') ∧
      Recovered chain [t] s s' := by
  obtain ⟨ok, n', at_, error, heq⟩ := exec_recoverTrade henv t n s
  refine ⟨ok, n', _, heq, ?_⟩
  split
  · -- landed: the row is confirmed and its reservation consumed
    rename_i hconf
    refine recovered_trade ht hconf.symm rfl rfl ?_ ?_ ?_
    · cases t.reservationId <;> rfl
    · intro rid hrid
      rw [hrid, consumeHeld, KernelStore.consumeReservation, KernelStore.find?_setSpendState]
      cases hr : s.spends.find? rid with
      | none => rfl
      | some r =>
        obtain ⟨-, rfl⟩ := Table.find?_eq_some_iff.mp hr
        simp [recoveredSpend, hconf]
    · intro rid hrid
      cases hres : t.reservationId with
      | none => rfl
      | some own =>
        exact find?_setSpendState_own (fun r h => by simpa using h)
          fun h => hrid (hres.trans (congrArg some h.symm))
  · rename_i hconf
    -- not landed: the row fails and a reservation that is still open is released
    refine recovered_trade ht rfl rfl rfl ?_ ?_ ?_
    · cases t.reservationId <;> rfl
    · intro rid hrid
      rw [hrid, releaseHeld, KernelStore.releaseReservation, KernelStore.find?_setSpendState]
      cases hr : s.spends.find? rid with
      | none => rfl
      | some r =>
        obtain ⟨-, rfl⟩ := Table.find?_eq_some_iff.mp hr
        by_cases hreserved : r.state = .reserved <;> simp [recoveredSpend, hconf, hreserved]
    · intro rid hrid
      cases hres : t.reservationId with
      | none => rfl
      | some own =>
        exact find?_setSpendState_own (fun r h => (by simpa using h : r.id = own ∧ _).1)
          fun h => hrid (hres.trans (congrArg some h.symm))

end OneTrade

/-! ### The whole work list -/

section WorkList

variable {chain : String → ConfirmStatus} {env : Nat → ∀ o, interface.Ans o}
  {s s' s'' : KernelStore} {t : TradeRow} {ts : List TradeRow}

/-- Trades that can be recovered one after the other: they are in the store, and no two of
them share an id or a reservation. -/
structure WorkList (s : KernelStore) (ts : List TradeRow) : Prop where
  stored : ∀ t ∈ ts, s.trades.find? t.id = some t
  ids : (ts.map TradeRow.id).Nodup
  reservations : ts.Pairwise fun t t' => ∀ rid, t.reservationId = some rid →
    t'.reservationId ≠ some rid

/-- The head of a work list does not disturb the rest. -/
theorem WorkList.tail (h : WorkList s (t :: ts)) (hrec : Recovered chain [t] s s') :
    WorkList s' ts where
  stored t' ht' := by
    rw [hrec.otherTrade]
    · exact h.stored t' (List.mem_cons_of_mem t ht')
    · have hids := (List.nodup_cons.mp h.ids).1
      intro hmem
      rw [List.map_singleton, List.mem_singleton] at hmem
      exact hids (hmem ▸ List.mem_map_of_mem ht')
  ids := (List.nodup_cons.mp h.ids).2
  reservations := (List.pairwise_cons.mp h.reservations).2

/-- Recovering the head and then the rest recovers the list. -/
theorem Recovered.cons (h : WorkList s (t :: ts)) (hhead : Recovered chain [t] s s')
    (htail : Recovered chain ts s' s'') : Recovered chain (t :: ts) s s'' := by
  -- rows and reservations of the list are all different
  have hid : t.id ∉ ts.map TradeRow.id := (List.nodup_cons.mp h.ids).1
  have hres := (List.pairwise_cons.mp h.reservations).1
  refine ⟨?_, ?_, ?_, ?_⟩
  · intro t₀ ht₀
    rcases List.mem_cons.mp ht₀ with rfl | ht₀
    · obtain ⟨t', ht', hrest⟩ := hhead.trade t₀ (List.mem_singleton_self t₀)
      exact ⟨t', by rw [htail.otherTrade _ hid, ht'], hrest⟩
    · exact htail.trade t₀ ht₀
  · intro t₀ ht₀ rid hrid
    rcases List.mem_cons.mp ht₀ with rfl | hmem
    · rw [htail.otherSpend rid fun t' ht' => hres t' ht' rid hrid]
      exact hhead.spend t₀ (List.mem_singleton_self t₀) rid hrid
    · rw [htail.spend t₀ hmem rid hrid, hhead.otherSpend]
      intro t' ht' hrid'
      obtain rfl := List.mem_singleton.mp ht'
      exact hres t₀ hmem rid hrid' hrid
  · intro id hmem
    rw [List.map_cons, List.mem_cons, not_or] at hmem
    rw [htail.otherTrade id hmem.2, hhead.otherTrade id (by simpa using hmem.1)]
  · intro rid hne
    rw [htail.otherSpend rid fun t' ht' => hne t' (List.mem_cons_of_mem t ht'),
      hhead.otherSpend rid fun t' ht' => hne t' (by simp_all)]

theorem recoverAll_recovered (henv : Definite chain env) (h : WorkList s ts)
    (n confirmed failed : Nat) :
    ∃ counts n' s', (recoverAll ts confirmed failed).run.exec machine env n s =
      (.ok counts, n', s') ∧ Recovered chain ts s s' := by
  induction ts generalizing s n confirmed failed with
  | nil => exact ⟨_, _, s, rfl, by simp, by simp, fun _ _ => rfl, fun _ _ => rfl⟩
  | cons t ts ih =>
    obtain ⟨ok, n₁, s₁, heq, hhead⟩ :=
      recoverTrade_recovered henv (h.stored t List.mem_cons_self) n
    rw [recoverAll, Task.exec_bind, heq]
    have hrest := h.tail hhead
    cases ok with
    | true =>
      obtain ⟨counts, n', s', heq', htail⟩ := ih hrest n₁ (confirmed + 1) failed
      exact ⟨counts, n', s', heq', hhead.cons h htail⟩
    | false =>
      obtain ⟨counts, n', s', heq', htail⟩ := ih hrest n₁ confirmed (failed + 1)
      exact ⟨counts, n', s', heq', hhead.cons h htail⟩

/-- The store after a recovery run alone at boot. -/
def recoveredStore (env : Nat → ∀ o, interface.Ans o) (s : KernelStore) : KernelStore :=
  (recover.run.exec machine env 0 s).2.2

theorem recover_recovered (henv : Definite chain env) (h : WorkList s s.pendingSent) :
    Recovered chain s.pendingSent s (recoveredStore env s) := by
  obtain ⟨counts, n', s', heq, hrec⟩ := recoverAll_recovered henv h 1 0 0
  have hexec : recover.run.exec machine env 0 s =
      (.ok ⟨s.pendingSent.length, counts.1, counts.2⟩, n', s') := by
    rw [recover, Task.exec_bind]
    change (recoverAll s.pendingSent 0 0 >>= _).run.exec machine env 1 s = _
    rw [Task.exec_bind, heq]
    rfl
  rw [recoveredStore, hexec]
  exact hrec

/-- In a consistent store the sent trades form a work list. -/
theorem workList_pendingSent (hs : Consistent s) : WorkList s s.pendingSent := by
  have hstored : ∀ t ∈ s.pendingSent, s.trades.find? t.id = some t := fun t ht =>
    Table.mem_rows_iff.mp (List.mem_filter.mp ht).1
  have hids : (s.pendingSent.map TradeRow.id).Nodup :=
    s.trades.nodup.sublist (List.filter_sublist.map _)
  refine ⟨hstored, hids, ?_⟩
  refine (List.pairwise_map.mp hids).imp_of_mem fun {t t'} ht ht' hne rid hrid hrid' => hne ?_
  -- the spend names the one trade it was reserved for
  obtain ⟨r, hr, htrade, -⟩ := (hs _ t (hstored t ht)).linked rid hrid
  obtain ⟨r', hr', htrade', -⟩ := (hs _ t' (hstored t' ht')).linked rid hrid'
  rw [hr] at hr'
  obtain rfl := Option.some_inj.mp hr'
  exact htrade.symm.trans htrade'

end WorkList

/-! ### What recovery achieves -/

section Settles

variable {chain : String → ConfirmStatus} {s s' : KernelStore} {t t' : TradeRow}

theorem settled_iff_of_find {id : String} (h : s.trades.find? id = some t) :
    Settled chain s id ↔ t.state.Terminal ∧ ∀ rid ∈ t.reservationId,
      (s.spends.find? rid).map SpendRow.state =
        some (if landed chain t then .consumed else .released) := by
  simp [Settled, h]

theorem recoveredState_terminal : (recoveredState chain t).Terminal := by
  unfold recoveredState
  split
  · simp [TradeState.Terminal]
  · split <;> simp [TradeState.Terminal]

theorem recoveredState_eq_confirmed_iff :
    recoveredState chain t = .confirmed ↔ t.signature.getD "" ≠ "" ∧ landed chain t = true := by
  unfold recoveredState landed
  split
  · simp_all
  · cases chain (t.signature.getD "") <;> simp_all

/-- A trade left `sent` follows the chain, except where the live path had consumed the spend
or the signature is empty. -/
theorem settled_sent_iff (hs : Consistent s) (hstored : s.trades.find? t.id = some t)
    (hsignature : t.signature.isSome) (hsent : t.state = .sent)
    (hrec : Recovered chain s.pendingSent s s') :
    Settled chain s' t.id ↔ Recoverable chain s t := by
  have hmem : t ∈ s.pendingSent :=
    List.mem_filter.mpr ⟨Table.mem_rows_iff.mpr hstored, by simp [hsent]⟩
  obtain ⟨t', ht', hstate, hres, hsig⟩ := hrec.trade t hmem
  have hlanded : landed chain t' = landed chain t := by simp [landed, hsig]
  obtain ⟨signature, hsome⟩ := Option.isSome_iff_exists.mp hsignature
  rw [settled_iff_of_find ht', hstate, hres, hlanded]
  simp only [Recoverable, hsent, recoveredState_terminal, true_and]
  refine forall_congr' fun rid => forall_congr' fun hrid => ?_
  obtain ⟨r, hr, -, -⟩ := (hs _ t hstored).linked rid hrid
  rw [hrec.spend t hmem rid hrid, hr]
  simp only [Option.map_some, Option.some_inj, Option.mem_def, forall_eq', recoveredSpend,
    recoveredState_eq_confirmed_iff, hsome, Option.getD_some, ne_eq]
  cases hl : landed chain t <;> by_cases hempty : signature = "" <;>
    cases hstate : r.state <;> simp_all

/-- A trade the work list does not cover stays as the live path left it. -/
theorem settled_other_iff (hs : Consistent s) (hstored : s.trades.find? t.id = some t)
    (hsent : t.state ≠ .sent) (hrec : Recovered chain s.pendingSent s s') :
    Settled chain s' t.id ↔ Recoverable chain s t := by
  have hpending : ∀ t' ∈ s.pendingSent, s.trades.find? t'.id = some t' ∧ t'.state = .sent :=
    fun t' ht' => ⟨Table.mem_rows_iff.mp (List.mem_filter.mp ht').1,
      by simpa using (List.mem_filter.mp ht').2⟩
  -- a row that was not sent is none of those the recovery goes over
  have hid : t.id ∉ s.pendingSent.map TradeRow.id := by
    intro hmem
    obtain ⟨t', ht', heq⟩ := List.mem_map.mp hmem
    obtain ⟨hfind, hstate⟩ := hpending t' ht'
    rw [heq, hstored] at hfind
    obtain rfl := Option.some_inj.mp hfind
    exact hsent hstate
  have htrade : s'.trades.find? t.id = some t := by rw [hrec.otherTrade _ hid, hstored]
  -- nor is its reservation one of theirs, as no two rows share one
  have hspend : ∀ rid, t.reservationId = some rid → s'.spends.find? rid = s.spends.find? rid := by
    intro rid hrid
    refine hrec.otherSpend rid fun t' ht' hrid' => hid ?_
    obtain ⟨r, hr, hr₁, -⟩ := (hs _ t hstored).linked rid hrid
    obtain ⟨r', hr', hr₂, -⟩ := (hs _ t' (hpending t' ht').1).linked rid hrid'
    rw [hr] at hr'
    obtain rfl := Option.some_inj.mp hr'
    exact List.mem_map.mpr ⟨t', ht', hr₂.symm.trans hr₁⟩
  rw [settled_iff_of_find htrade]
  obtain ⟨hlinked, -, hrejected⟩ := hs _ t hstored
  cases hres : t.reservationId with
  | none =>
    cases hstate : t.state <;> simp_all [Recoverable, TradeState.Terminal]
  | some rid =>
    obtain ⟨r, hr, -, hagree⟩ := hlinked rid hres
    have hs' := hspend rid hres
    simp only [Option.mem_def, Option.some_inj, forall_eq', hs', hr, Option.map_some]
    cases hstate : t.state <;> cases hl : landed chain t <;>
      simp_all [Recoverable, TradeState.Terminal, Agree]

end Settles

/-- **Crash recovery.** The process dies anywhere in any interleaving of live calls and the
chain then answers for every signature: a trade whose signed bytes were persisted is settled
by the recovery exactly when the crash left it recoverable. -/
theorem recover_settles_iff (d : Deps) (es : List (Event interface Request))
    (chain : String → ConfirmStatus) (env : Nat → ∀ o, interface.Ans o)
    (henv : Definite chain env) (t : TradeRow)
    (ht : t ∈ (gatewayRun d es).shared.trades.rows) (hsigned : t.signedWire.isSome) :
    Settled chain (recoveredStore env (gatewayRun d es).shared) t.id ↔
      Recoverable chain (gatewayRun d es).shared t := by
  have hs : Consistent (gatewayRun d es).shared := (gateways_coherent d es).shared
  have hrec := recover_recovered henv (workList_pendingSent hs)
  have hstored := Table.mem_rows_iff.mp ht
  by_cases hsent : t.state = .sent
  · exact settled_sent_iff hs hstored ((hs _ t hstored).signature hsigned) hsent hrec
  · exact settled_other_iff hs hstored hsent hrec

/-- Ports that answer every call, and a chain on which everything landed. -/
def sampleEnv : Nat → ∀ o, interface.Ans o := fun _ => sampleAnswers "a" 0 (.ok .confirmed)

/-- The process dies right after the trade was recorded as sent. -/
theorem recover_settles_sent :
    ∃ t ∈ (gatewayRun sampleDeps (sampleEvents (.ok .confirmed) 23)).shared.trades.rows,
      t.signedWire.isSome ∧ t.state = .sent ∧
        Settled (fun _ => .confirmed)
          (recoveredStore sampleEnv
            (gatewayRun sampleDeps (sampleEvents (.ok .confirmed) 23)).shared) t.id := by
  have hrun : ∃ t ∈ (gatewayRun sampleDeps (sampleEvents (.ok .confirmed) 23)).shared.trades.rows,
      t.signedWire.isSome ∧ t.state = .sent ∧ Recoverable (fun _ => .confirmed)
        (gatewayRun sampleDeps (sampleEvents (.ok .confirmed) 23)).shared t := by decide +kernel
  obtain ⟨t, ht, hsigned, hsent, hrec⟩ := hrun
  refine ⟨t, ht, hsigned, hsent, ?_⟩
  exact (recover_settles_iff sampleDeps _ (fun _ => .confirmed) sampleEnv (fun _ _ _ => rfl)
    t ht hsigned).mpr hrec

/-- The process dies right after the signed bytes were persisted: recovery does not look at
the trade, and its reservation stays. -/
theorem recover_leaves_persisted :
    ¬ ∀ (d : Deps) (es : List (Event interface Request)) (chain : String → ConfirmStatus)
      (env : Nat → ∀ o, interface.Ans o), Definite chain env →
      ∀ t ∈ (gatewayRun d es).shared.trades.rows, t.signedWire.isSome →
        Settled chain (recoveredStore env (gatewayRun d es).shared) t.id := by
  intro h
  have hsample := h sampleDeps (sampleEvents (.ok .confirmed) 16) (fun _ => .confirmed) sampleEnv
    fun _ _ _ => rfl
  revert hsample
  decide +kernel

end AriOs.Kernel
