import AriOs.Kernel.TradeGateway

/-!
# What a running gateway knows

A gateway call writes only rows it created: the spend it reserved and the trade it
inserted. So the calls it has made tell it what these two rows hold, whatever other
gateways do in the meantime. This file follows the live path once, with that knowledge as
the view, and records what the path promises at each of its calls.
-/

namespace AriOs.Kernel

open AriOs.Async AriOs.Js AriOs.Kernel.Gateway

/-- What a gateway call knows from its own calls. -/
structure Known where
  /-- the idempotency key it serves -/
  key : String
  claimed : Bool
  policy : Option PolicyConfig
  spend : Option SpendRow
  trade : Option TradeRow
  signs : Nat
  broadcasts : Nat
  /-- the broadcaster took the transaction -/
  accepted : Bool
  /-- the confirmer's answer, if it was asked -/
  verdict : Option (Except KernelError ConfirmStatus)
  /-- a balance read threw after the confirmer had answered -/
  readLost : Bool

namespace Known

/-- Before the first call. -/
def start (r : Request) : Known where
  key := r.opts.idempotencyKey
  claimed := false
  policy := none
  spend := none
  trade := none
  signs := 0
  broadcasts := 0
  accepted := false
  verdict := none
  readLost := false

/-- An `UPDATE` of the owned spend. -/
def setSpend (v : Known) (p : SpendRow → Bool) (state : SpendState) : Known :=
  { v with spend := v.spend.map fun r => if p r then { r with state } else r }

/-- An `UPDATE` of the owned trade. -/
def setTrade (v : Known) (id : String) (f : TradeRow → TradeRow) : Known :=
  { v with trade := v.trade.map fun r => if r.id = id then f r else r }

def onReserve (v : Known) (args : ReserveArgs) : Except KernelError ReserveOutcome → Known
  | .ok (.reserved reservationId _ _) => { v with
      spend := some ⟨reservationId, args.tradeId, args.bucket, args.amount, .reserved, args.now⟩ }
  | _ => v

def onInsertTrade (v : Known) (row : NewTradeRow) (reservationId : Option String) :
    Except KernelError Unit → Known
  | .ok _ => { v with trade := some (KernelStore.newTrade row reservationId) }
  | .error _ => v

def onBroadcast (v : Known) : Except KernelError String → Known
  | .ok _ => { v with broadcasts := v.broadcasts + 1, accepted := true }
  | .error _ => { v with broadcasts := v.broadcasts + 1 }

def onReadPair (v : Known) : Except KernelError (Int × Int) → Known
  | .ok _ => v
  | .error _ => { v with readLost := v.readLost || v.verdict.isSome }

/-- What a call adds. -/
def upd (v : Known) : Entry interface → Known
  | ⟨.policy, p⟩ => { v with policy := some p }
  | ⟨.claimIdempotency _ _ _, ok⟩ => { v with claimed := v.claimed || ok }
  | ⟨.reserve args, r⟩ => v.onReserve args r
  | ⟨.releaseReservation id, _⟩ => v.setSpend (fun r => r.id = id ∧ r.state = .reserved) .released
  | ⟨.consumeReservation id, _⟩ => v.setSpend (fun r => r.id = id) .consumed
  | ⟨.insertTrade row reservationId, r⟩ => v.onInsertTrade row reservationId r
  | ⟨.persistSigned id wire signature now, _⟩ => v.setTrade id fun r =>
      { r with signedWire := some wire, signature := some signature, updatedAt := now }
  | ⟨.setSignature id signature now, _⟩ => v.setTrade id fun r =>
      { r with signature := some signature, updatedAt := now }
  | ⟨.setState id state now, _⟩ => v.setTrade id fun r => { r with state, updatedAt := now }
  | ⟨.fail id state error now, _⟩ => v.setTrade id fun r =>
      { r with state, error := some error, updatedAt := now }
  | ⟨.sign _, _⟩ => { v with signs := v.signs + 1 }
  | ⟨.broadcast _ _ _, r⟩ => v.onBroadcast r
  | ⟨.confirm _ _, r⟩ => { v with verdict := some r }
  | ⟨.readPair _ _ _, r⟩ => v.onReadPair r
  | _ => v

theorem onReserve_eq (v : Known) (args : ReserveArgs) (r : Except KernelError ReserveOutcome) :
    ∃ spend, v.onReserve args r = { v with spend } := by
  unfold onReserve
  split <;> exact ⟨_, rfl⟩

theorem onInsertTrade_eq (v : Known) (row : NewTradeRow) (id : Option String)
    (r : Except KernelError Unit) : ∃ trade, v.onInsertTrade row id r = { v with trade } := by
  cases r <;> exact ⟨_, rfl⟩

/-- The confirmer said that the transaction expired or failed. -/
def Dead (v : Known) : Prop := ∃ status, v.verdict = some (.ok status) ∧ status ≠ .confirmed

/-- The outcome was lost: the confirmer threw, or a balance read after its answer did. -/
def Lost (v : Known) : Prop := (∃ e, v.verdict = some (.error e)) ∨ v.readLost = true

instance (v : Known) : Decidable v.Dead :=
  match h : v.verdict with
  | some (.ok status) => decidable_of_iff (status ≠ .confirmed) (by simp [Dead, h])
  | some (.error _) => isFalse (by simp [Dead, h])
  | none => isFalse (by simp [Dead, h])

instance (v : Known) : Decidable v.Lost :=
  match h : v.verdict with
  | some (.error e) => isTrue (.inl ⟨e, h⟩)
  | some (.ok _) => decidable_of_iff (v.readLost = true) (by simp [Lost, h])
  | none => decidable_of_iff (v.readLost = true) (by simp [Lost, h])

/-- The owned spend, if any, is in `state`. -/
def SpendIs (v : Known) (state : SpendState) : Prop := ∀ r, v.spend = some r → r.state = state

/-- The trade `id` is the call's own. -/
def OwnsTrade (v : Known) (id : String) : Prop := ∃ r, v.trade = some r ∧ r.id = id

theorem OwnsTrade.setTrade {v : Known} {id : String} {f : TradeRow → TradeRow}
    (h : v.OwnsTrade id) (hf : ∀ r, (f r).id = r.id) : (v.setTrade id f).OwnsTrade id := by
  obtain ⟨r, hr, rfl⟩ := h
  exact ⟨f r, by simp [Known.setTrade, hr], hf r⟩

theorem OwnsTrade.exists_setTrade {v : Known} {id : String} {f : TradeRow → TradeRow}
    {P : TradeRow → Prop} (h : v.OwnsTrade id) (hf : ∀ r, (f r).id = r.id) (hP : ∀ r, P (f r)) :
    ∃ r, (v.setTrade id f).trade = some r ∧ r.id = id ∧ P r := by
  obtain ⟨r, hr, rfl⟩ := h
  exact ⟨f r, by simp [Known.setTrade, hr], hf r, hP r⟩

/-- What the gateway makes sure of before each of its calls. -/
def Allows (v : Known) : Op → Prop
  | .claimIdempotency key _ _ => key = v.key ∧ v.claimed = false ∧ v.signs = 0 ∧ v.broadcasts = 0
  | .reserve args => v.spend = none ∧ v.trade = none ∧ v.accepted = false ∧ 0 ≤ args.amount ∧
      ∃ policy, v.policy = some policy ∧ args.caps = policy.capsFor args.bucket
  | .insertTrade row reservationId =>
      v.trade = none ∧ v.spend.map SpendRow.id = reservationId ∧
        ∀ r, v.spend = some r → r.tradeId = row.id
  | .sign _ => v.claimed = true ∧ v.signs = 0
  | .broadcast _ _ _ => v.claimed = true ∧ v.broadcasts = 0 ∧ v.SpendIs .reserved
  | .persistSigned id _ _ _ => v.OwnsTrade id
  | .setSignature id _ _ => v.OwnsTrade id
  | .setState id state _ => v.OwnsTrade id ∧
      (state = .sent ∨ state = .confirmed ∧ v.SpendIs .consumed)
  | .fail id state _ _ => v.OwnsTrade id ∧ (state = .expired ∨ state = .errored) ∧
      v.SpendIs .released
  | .readPair _ _ _ => v.verdict = none ∨ v.verdict = some (.ok .confirmed)
  | .confirm _ _ => v.verdict = none ∧ v.readLost = false
  | .releaseReservation id => v.spend.map SpendRow.id = some id ∧
      (v.accepted = true → v.Dead ∨ v.Lost)
  | .consumeReservation id => v.spend.map SpendRow.id = some id ∧ v.SpendIs .reserved ∧
      ∃ r, v.trade = some r ∧ r.state = .sent
  | .pendingSent => False
  | _ => True

/-- The discipline of a gateway call; it relies on no particular answers. -/
def discipline : Discipline interface Known := ⟨upd, Allows, fun _ _ => True⟩

/-! ### How far a live call has come -/

/-- It has claimed its key and holds nothing. -/
structure Idle (v : Known) : Prop where
  claimed : v.claimed = true
  spend : v.spend = none
  trade : v.trade = none
  signs : v.signs = 0
  broadcasts : v.broadcasts = 0
  accepted : v.accepted = false
  verdict : v.verdict = none
  readLost : v.readLost = false

/-- The owned spend is the reservation `reservationId` of trade `tradeId`. -/
structure Holds (v : Known) (tradeId : String) (reservationId : Option String) : Prop where
  spend : v.spend.map SpendRow.id = reservationId
  tradeId : ∀ r, v.spend = some r → r.tradeId = tradeId
  reserved : v.SpendIs .reserved

/-- Nothing was broadcast. -/
structure Unsent (v : Known) : Prop where
  claimed : v.claimed = true
  broadcasts : v.broadcasts = 0
  accepted : v.accepted = false
  verdict : v.verdict = none
  readLost : v.readLost = false

/-- The broadcast was accepted and recorded; the confirmer was not asked yet. -/
structure Sent (v : Known) (tradeId : String) : Prop where
  trade : ∃ r, v.trade = some r ∧ r.id = tradeId ∧ r.state = .sent
  verdict : v.verdict = none
  readLost : v.readLost = false

/-- The catch block may run: it is entitled to release. -/
structure Throws (v : Known) (tradeId : String) (reservationId : Option String)
    (inserted : Bool) : Prop where
  spend : v.spend.map SpendRow.id = reservationId
  reserved : v.SpendIs .reserved
  trade : inserted = true → v.OwnsTrade tradeId
  entitled : v.accepted = true → v.Lost

/-- At the end: a lost outcome has cost the call its reservation. -/
def Done (v : Known) : Prop := v.Lost → v.SpendIs .released

end Known

/-! ### One rule for each call -/

section Rules

open Known

variable {α β : Type} {post : Known → Except KernelError β → Prop} {v : Known}

theorem safe_now {f : Int → Gateway β} :
    Prog.Safe discipline post (now >>= f).run v ↔ ∀ n, Prog.Safe discipline post (f n).run v :=
  ⟨fun h n => h.2 n trivial, fun h => ⟨trivial, fun n _ => h n⟩⟩

theorem safe_newTradeId {f : String → Gateway β} :
    Prog.Safe discipline post (newTradeId >>= f).run v ↔
      ∀ id, Prog.Safe discipline post (f id).run v :=
  ⟨fun h n => h.2 n trivial, fun h => ⟨trivial, fun n _ => h n⟩⟩

theorem safe_policy {f : PolicyConfig → Gateway β} :
    Prog.Safe discipline post (Gateway.policy >>= f).run v ↔
      ∀ p, Prog.Safe discipline post (f p).run { v with policy := some p } :=
  ⟨fun h n => h.2 n trivial, fun h => ⟨trivial, fun n _ => h n⟩⟩

theorem safe_usage {bucket : QuoteBucket} {at_ : Int} {f : Int × Int → Gateway β} :
    Prog.Safe discipline post (usage bucket at_ >>= f).run v ↔
      ∀ used, Prog.Safe discipline post (f used).run v :=
  ⟨fun h n => h.2 n trivial, fun h => ⟨trivial, fun n _ => h n⟩⟩

theorem safe_claimIdempotency {key tradeId : String} {at_ : Int} {f : Bool → Gateway β} :
    Prog.Safe discipline post (claimIdempotency key tradeId at_ >>= f).run v ↔
      v.Allows (.claimIdempotency key tradeId at_) ∧
        ∀ ok : Bool, Prog.Safe discipline post (f ok).run { v with claimed := v.claimed || ok } :=
  ⟨fun h => ⟨h.1, fun n => h.2 n trivial⟩, fun h => ⟨h.1, fun n _ => h.2 n⟩⟩

theorem safe_getTradeByIdempotency {key : String} {f : Option TradeRow → Gateway β} :
    Prog.Safe discipline post (getTradeByIdempotency key >>= f).run v ↔
      ∀ prior, Prog.Safe discipline post (f prior).run v :=
  ⟨fun h n => h.2 n trivial, fun h => ⟨trivial, fun n _ => h n⟩⟩

/-- A statement whose answer is empty. -/
theorem safe_store {o : Op} {f : Unit → Gateway β} :
    Prog.Safe discipline post (store o >>= f).run v ↔
      v.Allows o ∧ ∀ r, Prog.Safe discipline post (f ()).run (v.upd ⟨o, r⟩) :=
  ⟨fun h => ⟨h.1, fun n => h.2 n trivial⟩, fun h => ⟨h.1, fun n _ => h.2 n⟩⟩

theorem safe_journal {event : JournalEvent} {f : Unit → Gateway β} :
    Prog.Safe discipline post (store (.appendJournal event) >>= f).run v ↔
      Prog.Safe discipline post (f ()).run v :=
  ⟨fun h => h.2 () trivial, fun h => ⟨trivial, fun _ _ => h⟩⟩

theorem safe_ofExcept {x : Except KernelError α} {f : α → Gateway β}
    (hok : ∀ a, x = .ok a → Prog.Safe discipline post (f a).run v)
    (herr : ∀ e, x = .error e → post v (.error e)) :
    Prog.Safe discipline post ((Task.ofExcept x : Gateway α) >>= f).run v := by
  rw [Task.safe_bind, Task.safe_ofExcept]
  cases x with
  | ok a => exact hok a rfl
  | error e => exact herr e rfl

theorem safe_inspectMints {input output : String} {f : Bool × Bool → Gateway β}
    (hok : ∀ info, Prog.Safe discipline post (f info).run v) (herr : ∀ e, post v (.error e)) :
    Prog.Safe discipline post (inspectMints input output >>= f).run v :=
  Task.safe_bind.mpr ⟨trivial, fun r _ => match r with
    | .ok info => hok info
    | .error e => herr e⟩

theorem safe_simulate {tx : String} {f : SimOutcome → Gateway β}
    (hok : ∀ sim, Prog.Safe discipline post (f sim).run v) (herr : ∀ e, post v (.error e)) :
    Prog.Safe discipline post (simulate tx >>= f).run v :=
  Task.safe_bind.mpr ⟨trivial, fun r _ => match r with
    | .ok sim => hok sim
    | .error e => herr e⟩

theorem safe_readPosition {d : Deps} {intent : TradeIntent} {f : Option Int → Gateway β}
    (hok : ∀ position, Prog.Safe discipline post (f position).run v)
    (herr : ∀ e, post v (.error e)) :
    Prog.Safe discipline post (readPosition d intent >>= f).run v := by
  rw [Task.safe_bind]
  unfold readPosition
  split
  · exact ⟨trivial, fun r _ => match r with
      | .ok position => hok (some position)
      | .error e => herr e⟩
  · exact hok none

theorem safe_reserve {args : ReserveArgs} {f : ReserveOutcome → Gateway β}
    (hpre : v.Allows (.reserve args))
    (hok : ∀ outcome, Prog.Safe discipline post (f outcome).run (v.onReserve args (.ok outcome)))
    (herr : ∀ e, post v (.error e)) :
    Prog.Safe discipline post (reserve args >>= f).run v :=
  Task.safe_bind.mpr ⟨hpre, fun r _ => match r with
    | .ok outcome => hok outcome
    | .error e => herr e⟩

theorem safe_readPair {d : Deps} {intent : TradeIntent} {f : Int × Int → Gateway β}
    (hpre : v.verdict = none ∨ v.verdict = some (.ok .confirmed))
    (hok : ∀ pair, Prog.Safe discipline post (f pair).run v)
    (herr : ∀ e, post { v with readLost := v.readLost || v.verdict.isSome } (.error e)) :
    Prog.Safe discipline post (readPair d intent >>= f).run v :=
  Task.safe_bind.mpr ⟨hpre, fun r _ => match r with
    | .ok pair => hok pair
    | .error e => herr e⟩

theorem safe_insertTrade {row : NewTradeRow} {reservationId : Option String}
    {f : Unit → Gateway β} (hpre : v.Allows (.insertTrade row reservationId))
    (hok : Prog.Safe discipline post (f ()).run
      { v with trade := some (KernelStore.newTrade row reservationId) })
    (herr : ∀ e, post v (.error e)) :
    Prog.Safe discipline post (insertTrade row reservationId >>= f).run v :=
  Task.safe_bind.mpr ⟨hpre, fun r _ => match r with
    | .ok () => hok
    | .error e => herr e⟩

theorem safe_sign {tx : String} {f : SignedTx → Gateway β} (hpre : v.Allows (.sign tx))
    (hok : ∀ signed, Prog.Safe discipline post (f signed).run { v with signs := v.signs + 1 })
    (herr : ∀ e, post { v with signs := v.signs + 1 } (.error e)) :
    Prog.Safe discipline post (sign tx >>= f).run v :=
  Task.safe_bind.mpr ⟨hpre, fun r _ => match r with
    | .ok signed => hok signed
    | .error e => herr e⟩

theorem safe_broadcast {mode : LandMode} {signed : SignedTx} {handle : Option String}
    {f : String → Gateway β} (hpre : v.Allows (.broadcast mode signed handle))
    (hok : ∀ signature, Prog.Safe discipline post (f signature).run
      { v with broadcasts := v.broadcasts + 1, accepted := true })
    (herr : ∀ e, post { v with broadcasts := v.broadcasts + 1 } (.error e)) :
    Prog.Safe discipline post (broadcast mode signed handle >>= f).run v :=
  Task.safe_bind.mpr ⟨hpre, fun r _ => match r with
    | .ok signature => hok signature
    | .error e => herr (.guard .broadcastFailed e.message)⟩

theorem safe_confirm {signature : String} {height : Int} {f : ConfirmStatus → Gateway β}
    (hpre : v.Allows (.confirm signature height))
    (hok : ∀ status, Prog.Safe discipline post (f status).run
      { v with verdict := some (.ok status) })
    (herr : ∀ e, post { v with verdict := some (.error e) } (.error e)) :
    Prog.Safe discipline post (confirm signature height >>= f).run v :=
  Task.safe_bind.mpr ⟨hpre, fun r _ => match r with
    | .ok status => hok status
    | .error e => herr e⟩

end Rules

/-! ### The stages of the live path -/

section Stages

open Known

variable {d : Deps} {intent : TradeIntent} {opts : ExecuteOptions} {tradeId : String} {at_ : Int}
  {reservationId : Option String} {v : Known}

theorem safe_journalReserved {β : Type} {f : Unit → Gateway β}
    {post : Known → Except KernelError β → Prop} :
    Prog.Safe discipline post (journalReserved intent tradeId at_ reservationId >>= f).run v ↔
      Prog.Safe discipline post (f ()).run v := by
  cases reservationId with
  | none => rfl
  | some id => exact safe_journal

theorem assertMintsSupported_safe {policy : PolicyConfig} {β : Type} {f : Unit → Gateway β}
    {post : Known → Except KernelError β → Prop}
    (hok : Prog.Safe discipline post (f ()).run v) (herr : ∀ e, post v (.error e)) :
    Prog.Safe discipline post (assertMintsSupported policy intent >>= f).run v := by
  rw [Task.safe_bind, assertMintsSupported]
  refine safe_inspectMints (fun info => ?_) herr
  rw [Task.safe_ofExcept]
  unfold throwIf
  split
  · rename_i h
    split at h
    · simp at h
    · exact hok
  · exact herr _

/-- From nothing held to the reservation. -/
theorem reserveStage_safe (hv : v.Idle) :
    Prog.Safe discipline (fun w r => match r with
      | .ok reservationId => w.trade = none ∧ w.signs = 0 ∧ w.Unsent ∧ w.Holds tradeId reservationId
      | .error _ => w.Idle) (reserveStage d intent opts tradeId at_).run v := by
  rw [reserveStage, safe_policy]
  intro p
  have hidle : ({ v with policy := some p } : Known).Idle := { hv with }
  have hunsent : ({ v with policy := some p } : Known).Unsent := { hv with }
  refine safe_ofExcept (fun _ hguards => ?_) fun _ _ => hidle
  refine safe_ofExcept (fun _ _ => ?_) fun _ _ => hidle
  refine assertMintsSupported_safe ?_ fun _ => hidle
  unfold reserveCap
  split
  · rename_i bucket _
    refine safe_reserve ⟨hv.spend, hv.trade, hv.accepted, staticGuards_amount_nonneg hguards, p, rfl, rfl⟩
      (fun outcome => ?_) fun _ => hidle
    cases outcome with
    -- the row is new and reserved, and is the only one of this trade
    | reserved id usedHour usedDay =>
      refine ⟨hv.trade, hv.signs, { hunsent with }, rfl, ?_, ?_⟩
      · rintro r ⟨rfl⟩; rfl
      · rintro r ⟨rfl⟩; rfl
    | denied reason cap would => exact hidle
  · refine ⟨hv.trade, hv.signs, hunsent, by simp [hv.spend], ?_, ?_⟩
    · simp [hv.spend]
    · simp [SpendIs, hv.spend]

/-- From the reservation to the trade row. -/
theorem insertStage_safe (htrade : v.trade = none) (hunsent : v.Unsent)
    (hholds : v.Holds tradeId reservationId) :
    Prog.Safe discipline (fun w r => match r with
      | .ok _ => w.signs = v.signs ∧ w.Unsent ∧ w.Holds tradeId reservationId ∧ w.OwnsTrade tradeId
      | .error _ => w.Throws tradeId reservationId false)
      (insertStage d intent opts tradeId at_ reservationId).run v := by
  have hthrows : v.Throws tradeId reservationId false :=
    ⟨hholds.spend, hholds.reserved, by simp, by simp [hunsent.accepted]⟩
  refine safe_readPair (.inl hunsent.verdict) (fun pre => ?_) fun _ =>
      ⟨hholds.spend, hholds.reserved, by simp, ?_⟩
  · refine safe_readPosition (fun position => ?_) fun _ => hthrows
    refine safe_ofExcept (fun _ _ => ?_) fun _ _ => hthrows
    refine safe_insertTrade ⟨htrade, hholds.spend, hholds.tradeId⟩ ?_ fun _ => hthrows
    exact ⟨rfl, { hunsent with }, { hholds with }, _, rfl, rfl⟩
  · simp [hunsent.accepted]

/-- From the trade row to the persisted signature. -/
theorem signStage_safe (hsigns : v.signs = 0) (hunsent : v.Unsent)
    (hholds : v.Holds tradeId reservationId) (howns : v.OwnsTrade tradeId) :
    Prog.Safe discipline (fun w r => match r with
      | .ok _ => w.Unsent ∧ w.Holds tradeId reservationId ∧ w.OwnsTrade tradeId
      | .error _ => w.Throws tradeId reservationId true)
      (signStage intent opts tradeId at_ reservationId).run v := by
  -- until the broadcast a stage that throws leaves the reservation held
  have hthrows : v.Throws tradeId reservationId true :=
    ⟨hholds.spend, hholds.reserved, fun _ => howns, by simp [hunsent.accepted]⟩
  rw [signStage, safe_journal, safe_journalReserved]
  refine safe_simulate (fun sim => ?_) fun _ => hthrows
  rw [safe_now]
  intro simulatedAt
  rw [safe_journal]
  refine safe_ofExcept (fun _ _ => ?_) fun _ _ => hthrows
  refine safe_sign ⟨hunsent.claimed, hsigns⟩ (fun signed => ?_) fun _ => { hthrows with }
  rw [safe_now]
  intro persistedAt
  refine safe_store.mpr ⟨howns, fun _ => ?_⟩
  rw [safe_now]
  intro signedAt
  rw [safe_journal]
  exact ⟨{ hunsent with }, { hholds with }, howns.setTrade fun _ => rfl⟩

/-- From the signature to the recorded broadcast. -/
theorem broadcastStage_safe {signed : SignedTx} (hunsent : v.Unsent)
    (hholds : v.Holds tradeId reservationId) (howns : v.OwnsTrade tradeId) :
    Prog.Safe discipline (fun w r => match r with
      | .ok _ => w.Holds tradeId reservationId ∧ w.Sent tradeId
      | .error _ => w.Throws tradeId reservationId true)
      (broadcastStage d intent tradeId signed).run v := by
  -- a broadcast that throws leaves the reservation held
  have hthrows : v.Throws tradeId reservationId true :=
    ⟨hholds.spend, hholds.reserved, fun _ => howns, by simp [hunsent.accepted]⟩
  refine safe_ofExcept (fun _ _ => ?_) fun _ _ => hthrows
  refine safe_broadcast ⟨hunsent.claimed, hunsent.broadcasts, hholds.reserved⟩
    (fun signature => ?_) fun _ => { hthrows with }
  rw [safe_now]
  -- the rest only writes down that the transaction is sent
  intro setAt
  refine safe_store.mpr ⟨howns, fun _ => ?_⟩
  rw [safe_now]
  intro sentAt
  refine safe_store.mpr ⟨⟨howns.setTrade fun _ => rfl, .inl rfl⟩, fun _ => ?_⟩
  rw [safe_now]
  intro journaledAt
  rw [safe_journal]
  refine ⟨{ hholds with }, ?_, hunsent.verdict, hunsent.readLost⟩
  refine OwnsTrade.exists_setTrade (howns.setTrade fun _ => rfl) ?_ ?_
  · exact fun _ => rfl
  · exact fun _ => rfl

theorem releaseIfHeld_safe {β : Type} {f : Unit → Gateway β}
    {post : Known → Except KernelError β → Prop} (hspend : v.spend.map SpendRow.id = reservationId)
    (hreserved : v.SpendIs .reserved) (hentitled : v.accepted = true → v.Dead ∨ v.Lost)
    (hok : ∀ spend : Option SpendRow, (∀ r, spend = some r → r.state = .released) →
      Prog.Safe discipline post (f ()).run { v with spend }) :
    Prog.Safe discipline post (releaseIfHeld reservationId >>= f).run v := by
  cases hs : v.spend with
  | none =>
    obtain rfl : none = reservationId := by simpa [hs] using hspend
    have hv : v = { v with spend := none } := by rw [← hs]
    rw [hv]
    exact hok none (by simp)
  | some r =>
    obtain rfl : some r.id = reservationId := by simpa [hs] using hspend
    refine safe_store.mpr ⟨⟨hspend, hentitled⟩, fun _ => ?_⟩
    have hr := hreserved r hs
    have := hok (some { r with state := .released }) (by simp)
    simpa [upd, setSpend, hs, hr] using this

theorem consumeIfHeld_safe {β : Type} {f : Unit → Gateway β}
    {post : Known → Except KernelError β → Prop} (hspend : v.spend.map SpendRow.id = reservationId)
    (hreserved : v.SpendIs .reserved) (hsent : ∃ r, v.trade = some r ∧ r.state = .sent)
    (hok : ∀ spend : Option SpendRow, (∀ r, spend = some r → r.state = .consumed) →
      Prog.Safe discipline post (f ()).run { v with spend }) :
    Prog.Safe discipline post (consumeIfHeld reservationId >>= f).run v := by
  cases hs : v.spend with
  | none =>
    obtain rfl : none = reservationId := by simpa [hs] using hspend
    have hv : v = { v with spend := none } := by rw [← hs]
    rw [hv]
    exact hok none (by simp)
  | some r =>
    obtain rfl : some r.id = reservationId := by simpa [hs] using hspend
    refine safe_store.mpr ⟨⟨hspend, hreserved, hsent⟩, fun _ => ?_⟩
    have := hok (some { r with state := .consumed }) (by simp)
    simpa [upd, setSpend, hs] using this

/-- The catch block, wherever it is entered from. -/
theorem liveCatch_safe {inserted : Bool} {err : KernelError}
    (hv : v.Throws tradeId reservationId inserted) :
    Prog.Safe discipline (fun w _ => w.Done) (liveCatch tradeId reservationId inserted err).run v := by
  refine releaseIfHeld_safe hv.spend hv.reserved (fun h => .inr (hv.entitled h))
    fun spend hspend => ?_
  cases inserted with
  | false =>
    refine Task.safe_bind.mpr ?_
    simp only [recordFailure, Bool.false_eq_true, ↓reduceIte]
    rw [safe_now]
    intro journaledAt
    exact ⟨trivial, fun _ _ _ => hspend⟩
  | true =>
    refine Task.safe_bind.mpr ?_
    simp only [recordFailure, ↓reduceIte]
    rw [safe_now]
    intro failedAt
    refine safe_store.mpr ⟨⟨hv.trade rfl, .inr rfl, hspend⟩, fun _ => ?_⟩
    rw [safe_now]
    intro journaledAt
    exact ⟨trivial, fun _ _ _ => hspend⟩

theorem settle_safe {β : Type} {outputDelta : Int} {prePosition : Option Int}
    {f : Settlement → Gateway β} {post : Known → Except KernelError β → Prop}
    (hok : ∀ settlement, Prog.Safe discipline post (f settlement).run v) :
    Prog.Safe discipline post (settle d intent outputDelta prePosition >>= f).run v := by
  rw [Task.safe_bind]
  unfold settle
  split
  · exact ⟨trivial, fun r _ => match r with
      | .ok _ => hok _
      | .error _ => hok _⟩
  · exact hok _

theorem not_lost {status : ConfirmStatus} (hverdict : v.verdict = some (.ok status))
    (hread : v.readLost = false) : ¬ v.Lost := by
  simp [Lost, hverdict, hread]

/-- A verdict against the transaction. -/
theorem unconfirmed_safe {status : ConfirmStatus} (hverdict : v.verdict = some (.ok status))
    (hdead : status ≠ .confirmed) (hread : v.readLost = false)
    (hholds : v.Holds tradeId reservationId) (howns : v.OwnsTrade tradeId) :
    Prog.Safe discipline (fun w r => match r with
      | .ok _ => w.Done
      | .error _ => w.Throws tradeId reservationId true)
      (unconfirmed tradeId reservationId status).run v := by
  refine releaseIfHeld_safe hholds.spend hholds.reserved
    (fun _ => .inl ⟨status, hverdict, hdead⟩) fun spend hspend => ?_
  rw [safe_now]
  intro failedAt
  refine safe_store.mpr ⟨⟨howns, ?_, hspend⟩, fun _ => ?_⟩
  · split <;> simp
  · rw [safe_now]
    intro journaledAt
    rw [safe_journal]
    exact fun hlost => absurd hlost (not_lost hverdict hread)

/-- A verdict for the transaction. -/
theorem confirmed_safe {signature : String} {baseline : Baseline}
    (hverdict : v.verdict = some (.ok .confirmed)) (hread : v.readLost = false)
    (hholds : v.Holds tradeId reservationId)
    (htrade : ∃ r, v.trade = some r ∧ r.id = tradeId ∧ r.state = .sent) :
    Prog.Safe discipline (fun w r => match r with
      | .ok _ => w.Done
      | .error _ => w.Throws tradeId reservationId true)
      (confirmed d intent tradeId signature reservationId baseline).run v := by
  obtain ⟨r, hr, hid, hstate⟩ := htrade
  refine safe_readPair (.inr hverdict) (fun post => ?_) fun _ =>
    ⟨hholds.spend, hholds.reserved, fun _ => ⟨r, hr, hid⟩, fun _ => .inr (by simp [hverdict])⟩
  refine settle_safe fun settlement => ?_
  refine consumeIfHeld_safe hholds.spend hholds.reserved ⟨r, hr, hstate⟩ fun spend hspend => ?_
  rw [safe_now]
  intro confirmedAt
  refine safe_store.mpr ⟨⟨⟨r, hr, hid⟩, .inr ⟨rfl, hspend⟩⟩, fun _ => ?_⟩
  rw [safe_now]
  intro journaledAt
  rw [safe_journal]
  exact fun hlost => absurd hlost (not_lost hverdict hread)

/-- From the recorded broadcast to the end, unless something throws. -/
theorem confirmStage_safe {signature : String} {baseline : Baseline}
    (hholds : v.Holds tradeId reservationId) (hsent : v.Sent tradeId) :
    Prog.Safe discipline (fun w r => match r with
      | .ok _ => w.Done
      | .error _ => w.Throws tradeId reservationId true)
      (confirmStage d intent tradeId signature reservationId baseline).run v := by
  have howns : v.OwnsTrade tradeId := by
    obtain ⟨r, hr, hid, -⟩ := hsent.trade
    exact ⟨r, hr, hid⟩
  refine safe_confirm ⟨hsent.verdict, hsent.readLost⟩ (fun status => ?_) fun e =>
    ⟨hholds.spend, hholds.reserved, fun _ => howns, fun _ => .inl ⟨e, rfl⟩⟩
  cases status with
  | confirmed => exact confirmed_safe rfl hsent.readLost { hholds with } hsent.trade
  | expired => exact unconfirmed_safe rfl (by simp) hsent.readLost { hholds with } howns
  | failed => exact unconfirmed_safe rfl (by simp) hsent.readLost { hholds with } howns

theorem sendStage_safe {baseline : Baseline} (hsigns : v.signs = 0) (hunsent : v.Unsent)
    (hholds : v.Holds tradeId reservationId) (howns : v.OwnsTrade tradeId) :
    Prog.Safe discipline (fun w r => match r with
      | .ok _ => w.Done
      | .error _ => w.Throws tradeId reservationId true)
      (sendStage d intent opts tradeId at_ reservationId baseline).run v := by
  rw [sendStage, Task.safe_bind]
  refine (signStage_safe hsigns hunsent hholds howns).mono fun w r hw => ?_
  cases r with
  | error e => exact hw
  | ok signed =>
    obtain ⟨hunsent, hholds, howns⟩ := hw
    refine Task.safe_bind.mpr ?_
    refine (broadcastStage_safe hunsent hholds howns).mono fun w r hw => ?_
    cases r with
    | error e => exact hw
    | ok signature => exact confirmStage_safe hw.1 hw.2

/-- The live path after the claim: each stage hands the catch block what it may act on. -/
theorem liveClaimed_safe (hv : v.Idle) :
    Prog.Safe discipline (fun w _ => w.Done) (liveClaimed d intent opts tradeId at_).run v := by
  rw [liveClaimed, Task.safe_orCatch]
  refine (reserveStage_safe hv).mono fun w r hw => ?_
  cases r with
  | error e =>
    exact liveCatch_safe ⟨by simp [hw.spend], by simp [SpendIs, hw.spend], by simp,
      by simp [hw.accepted]⟩
  | ok reservationId =>
    obtain ⟨htrade, hsigns, hunsent, hholds⟩ := hw
    refine Task.safe_orCatch.mpr ?_
    refine (insertStage_safe htrade hunsent hholds).mono fun w r hw => ?_
    cases r with
    | error e => exact liveCatch_safe hw
    | ok baseline =>
      obtain ⟨hsame, hunsent, hholds, howns⟩ := hw
      refine Task.safe_orCatch.mpr ?_
      refine (sendStage_safe (hsame.trans hsigns) hunsent hholds howns).mono fun w r hw => ?_
      cases r with
      | error e => exact liveCatch_safe hw
      | ok result => exact hw

theorem live_safe {r : Request} :
    Prog.Safe discipline (fun w _ => w.Done) (live d r.intent r.opts).run (start r) := by
  rw [live, safe_now]
  intro at_
  rw [safe_newTradeId]
  intro tradeId
  refine safe_claimIdempotency.mpr ⟨⟨rfl, rfl, rfl, rfl⟩, fun ok => ?_⟩
  cases ok with
  | true => exact liveClaimed_safe ⟨rfl, rfl, rfl, rfl, rfl, rfl, rfl, rfl⟩
  | false =>
    refine safe_getTradeByIdempotency.mpr fun prior => ?_
    exact fun _ row hrow => by simp [start] at hrow

theorem previewChecks_safe :
    Prog.Safe discipline (fun w _ => w.spend = v.spend)
      (previewChecks d intent opts tradeId).run v := by
  rw [previewChecks, safe_policy]
  intro p
  refine safe_ofExcept (fun _ _ => ?_) fun _ _ => rfl
  refine safe_ofExcept (fun _ _ => ?_) fun _ _ => rfl
  refine assertMintsSupported_safe ?_ fun _ => rfl
  -- a simulation reserves nothing
  have hrest : Prog.Safe discipline (fun w _ => w.spend = v.spend)
      (do
        let sim ← simulate intent.unsignedTxBase64
        Task.ofExcept (assertSimulated sim)
        pure (ExecuteResult.mk tradeId .reserved none true intent.summary none none) :
          Gateway ExecuteResult).run { v with policy := some p } :=
    safe_simulate (fun sim => safe_ofExcept (fun _ _ => rfl) fun _ _ => rfl) fun _ => rfl
  rw [Task.safe_bind]
  unfold previewCaps
  split
  · rw [safe_now]
    intro at_
    rw [safe_usage]
    intro used
    rw [Task.safe_ofExcept]
    split
    · exact hrest
    · rfl
  · exact hrest

/-- Every call of `execute` is one that `Known.Allows`, and a call that loses the outcome of
an accepted broadcast ends with its reservation released. -/
theorem execute_safe (d : Deps) (r : Request) :
    (execute d r).Safe discipline (fun w _ => w.Done) (start r) := by
  unfold execute
  split
  · rw [preview]
    refine safe_newTradeId.mpr fun tradeId => ?_
    rw [Task.safe_orCatch]
    refine previewChecks_safe.mono fun w x hw => ?_
    have hdone : w.Done := fun _ row hrow => by simp [hw, start] at hrow
    cases x <;> exact hdone
  · exact live_safe

end Stages

end AriOs.Kernel
