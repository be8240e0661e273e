import AriOs.Kernel.Reconciler

/-!
# Gateways and reconcilers over one store

Any number of `execute` calls and of `recover` passes run over one store at once. Each of them
settles a trade at most once, as it was told, and none consumes a reservation it has released:
this is said here once, about the calls an operation has made before and their answers, and needs
nothing of what the others do except that no two trades of a work list share an id or a
reservation.
-/

namespace AriOs.Kernel

open AriOs.Async AriOs.Storage AriOs.Kernel.Gateway

/-! ### Parties -/

inductive Party where
  | gateway (r : Request)
  | reconciler

/-- What a party ends in. -/
inductive Outcome where
  | executed (r : ExecuteResult)
  | recovered (s : ReconcileSummary)

def Party.body (d : Deps) : Party → Gateway Outcome
  | .gateway r => do
    let result ← ExceptT.mk (execute d r)
    return .executed result
  | .reconciler => do
    let summary ← recover
    return .recovered summary

abbrev KernelPool := Pool interface KernelStore Party (Except KernelError Outcome)

/-- Any interleaving of gateways and reconcilers, with any answers and any crashes. -/
def kernelRun (d : Deps) (es : List (Event interface Party)) : KernelPool :=
  (Pool.start .empty).run machine (fun x => (x.body d).run) es

/-- The states a trade should not leave. -/
def TradeState.Final (s : TradeState) : Prop := s.Terminal ∨ s = .rejected

instance (s : TradeState) : Decidable s.Final := by
  unfold TradeState.Final; infer_instance

/-- The trade and the state a statement settles it in. -/
def settlement? : Op → Option (String × TradeState)
  | .setState id state _ | .fail id state _ _ => if state.Final then some (id, state) else none
  | _ => none

/-! ### Verdicts -/

/-- A verdict after one more answer: the confirmer decides it, a throw of the confirmer or of the
reading that follows it makes the trade `errored`, and a write of a state begins the next one. -/
def verdictAfter (x : TradeState) : Entry interface → TradeState
  | ⟨.confirm _ _, .ok .confirmed⟩ => .confirmed
  | ⟨.confirm _ _, .ok .expired⟩ => .expired
  | ⟨.confirm _ _, _⟩ | ⟨.readPair _ _ _, .error _⟩ => .errored
  | ⟨.setState _ _ _, _⟩ | ⟨.fail _ _ _ _, _⟩ => .errored
  | _ => x

/-- What the answers a party got say of the trade it is at. -/
def verdict (h : List (Entry interface)) : TradeState := h.foldl verdictAfter .errored

theorem verdict_append (h : List (Entry interface)) (e : Entry interface) :
    verdict (h ++ [e]) = verdictAfter (verdict h) e := by
  simp [verdict]

theorem verdict_final (h : List (Entry interface)) : (verdict h).Final := by
  induction h using List.reverseRecOn with
  | nil => decide
  | append_singleton h e ih =>
    rw [verdict_append]
    unfold verdictAfter
    split <;> first | exact ih | decide

/-- The trades an answer says a reservation is for: the own one where it was made, those of the
work list that name it where they are listed. -/
def holders (rid : String) : Entry interface → List String
  | ⟨.reserve args, .ok (.reserved rid' _ _)⟩ => if rid' = rid then [args.tradeId] else []
  | ⟨.pendingSent, ts⟩ =>
    (List.filter (fun t : TradeRow => t.reservationId = some rid) ts).map TradeRow.id
  | _ => []

/-! ### Promises -/

/-- The party has settled the trade. -/
def HasSettled (h : List (Entry interface)) (id : String) : Prop :=
  ∃ e ∈ h, ∃ x ∈ settlement? e.op, x.1 = id

/-- The party has released the reservation. -/
def HasReleased (h : List (Entry interface)) (rid : String) : Prop :=
  ∃ e ∈ h, e.op = .releaseReservation rid

/-- The party knows the reservation to be for the trade. -/
def Held (h : List (Entry interface)) (rid tradeId : String) : Prop :=
  ∃ e ∈ h, tradeId ∈ holders rid e

/-- What a party makes sure of before each of its statements: it says what it was told. -/
def Promises (v : Trace interface Party) : Op → Prop
  | .consumeReservation rid => ¬ HasReleased v.history rid ∧ verdict v.history = .confirmed ∧
      ∃ id, Held v.history rid id
  | .releaseReservation rid => verdict v.history ≠ .confirmed ∧ ∃ id, Held v.history rid id
  | .setState id state _ | .fail id state _ _ => ¬ HasSettled v.history id ∧
      (state.Final → verdict v.history = state)
  | .insertTrade row reservationId => ∀ rid ∈ reservationId, Held v.history rid row.id
  | _ => True

/-- No two trades share an id or a reservation. -/
def Distinct (ts : List TradeRow) : Prop :=
  ts.Pairwise fun t u => t.id ≠ u.id ∧ ∀ rid ∈ t.reservationId, u.reservationId ≠ some rid

/-- What a party relies on. -/
def Relies : Entry interface → Prop
  | ⟨.pendingSent, ts⟩ => Distinct ts
  | _ => True

/-- The discipline of a party. -/
def partyDiscipline : Discipline interface (Trace interface Party) where
  upd := Trace.push
  pre := Promises
  adm _ e := Relies e

/-- The party has settled nothing, and was told `x`. -/
structure Decided (v : Trace interface Party) (x : TradeState) : Prop where
  unsettled : ∀ id, ¬ HasSettled v.history id
  told : verdict v.history = x

/-- Nor has it released anything, and it holds the reservation of its trade. -/
structure Fresh (v : Trace interface Party) (tradeId : String) (reservationId : Option String)
    (x : TradeState) : Prop extends Decided v x where
  unreleased : ∀ rid, ¬ HasReleased v.history rid
  held : ∀ rid ∈ reservationId, Held v.history rid tradeId

section Promise

variable {v : Trace interface Party} {tradeId : String} {reservationId : Option String}
  {x : TradeState}

theorem hasSettled_append {h : List (Entry interface)} {e : Entry interface} {id : String} :
    HasSettled (h ++ [e]) id ↔ HasSettled h id ∨ ∃ x ∈ settlement? e.op, x.1 = id := by
  simp [HasSettled, or_and_right, exists_or]

theorem hasReleased_append {h : List (Entry interface)} {e : Entry interface} {rid : String} :
    HasReleased (h ++ [e]) rid ↔ HasReleased h rid ∨ e.op = .releaseReservation rid := by
  simp [HasReleased, or_and_right, exists_or]

theorem held_append {h : List (Entry interface)} {e : Entry interface} {rid id : String} :
    Held (h ++ [e]) rid id ↔ Held h rid id ∨ id ∈ holders rid e := by
  simp [Held, or_and_right, exists_or]

theorem Decided.push (hv : Decided v x) {o : Op} (hsettle : settlement? o = none) (r : o.Res) :
    Decided (v.push ⟨o, r⟩) (verdictAfter x ⟨o, r⟩) where
  unsettled id := by
    rw [Trace.push_history, hasSettled_append]
    simpa [hsettle] using hv.unsettled id
  told := by rw [Trace.push_history, verdict_append, hv.told]

theorem Decided.now (hv : Decided v x) (n : Int) : Decided (v.push ⟨.now, (n : Int)⟩) x :=
  hv.push (o := .now) rfl n

/-- Calls that neither settle nor release leave it at that. -/
theorem Fresh.push (hv : Fresh v tradeId reservationId x) {o : Op}
    (hsettle : settlement? o = none) (hrelease : ∀ rid, o ≠ .releaseReservation rid) (r : o.Res) :
    Fresh (v.push ⟨o, r⟩) tradeId reservationId (verdictAfter x ⟨o, r⟩) where
  toDecided := hv.toDecided.push hsettle r
  unreleased rid := by
    rw [Trace.push_history, hasReleased_append, not_or]
    exact ⟨hv.unreleased rid, hrelease rid⟩
  held rid hrid := by
    rw [Trace.push_history, held_append]
    exact .inl (hv.held rid hrid)

/-- A call that leaves the outcome open settles nothing, releases nothing and decides nothing. -/
theorem Quiet.leaves {o : Op} (ho : Quiet o) : settlement? o = none ∧
    (∀ rid, o ≠ .releaseReservation rid) ∧ ∀ r, verdictAfter .errored ⟨o, r⟩ = .errored := by
  cases o with
  | setState id state now =>
    obtain rfl : state = .sent := ho
    exact ⟨rfl, by simp, fun _ => rfl⟩
  | releaseReservation _ | confirm _ _ | readPair _ _ _ => exact ho.elim
  | fail _ _ _ _ => exact ho.elim
  | _ => exact ⟨rfl, by simp, fun _ => rfl⟩

theorem Quiet.promises {o : Op} (ho : Quiet o) (hv : Decided v .errored) : Promises v o := by
  cases o with
  | setState id state now =>
    obtain rfl : state = .sent := ho
    exact ⟨hv.unsettled id, fun h => by simp [TradeState.Final, TradeState.Terminal] at h⟩
  | consumeReservation _ | releaseReservation _ | insertTrade _ _ => exact ho.elim
  | fail _ _ _ _ => exact ho.elim
  | _ => trivial

/-- Before the confirmer is asked every promise is kept, and nothing is settled. -/
theorem Quiet.fresh {o : Op} (ho : Quiet o) (hv : Fresh v tradeId reservationId .errored) :
    Promises v o ∧ ∀ r, Fresh (v.push ⟨o, r⟩) tradeId reservationId .errored := by
  obtain ⟨hsettle, hrelease, htold⟩ := ho.leaves
  exact ⟨ho.promises hv.toDecided, fun r => htold r ▸ hv.push hsettle hrelease r⟩

/-- A statement on the trade's own rows. -/
theorem ends_store {α : Type} {o : Op} {Q : Trace interface Party → α → Prop}
    {E : Trace interface Party → KernelError → Prop} {f : Unit → Gateway α} (hpre : Promises v o)
    (hf : ∀ r, Task.Ends partyDiscipline Q E (f ()) (v.push ⟨o, r⟩)) :
    Task.Ends partyDiscipline Q E (store o >>= f) v :=
  Task.ends_bind.mpr ⟨hpre, fun r _ => hf r⟩

theorem ends_now {α : Type} {Q : Trace interface Party → α → Prop}
    {E : Trace interface Party → KernelError → Prop} {f : Int → Gateway α}
    (hf : ∀ n, Task.Ends partyDiscipline Q E (f n) (v.push ⟨.now, (n : Int)⟩)) :
    Task.Ends partyDiscipline Q E (now >>= f) v :=
  Task.ends_bind.mpr ⟨trivial, fun n _ => hf n⟩

/-- What a stretch of code that leaves the outcome open keeps. -/
theorem Quiet.ends {α : Type} {y : Gateway α} (hy : Task.Only Quiet y)
    (hv : Fresh v tradeId reservationId .errored) :
    Task.Ends partyDiscipline (fun w _ => Fresh w tradeId reservationId .errored)
      (fun w _ => Fresh w tradeId reservationId .errored) y v := by
  refine Prog.Safe.mono (Task.Only.ends
    (K := fun w => Fresh w tradeId reservationId .errored) hy
    (fun _ _ hv ho => Quiet.fresh ho hv) hv) ?_
  rintro w (e | a) hw <;> exact hw

/-- Both balances: where they cannot be read, the verdict is lost. -/
theorem readPair_ends {d : Deps} {intent : TradeIntent}
    (hv : Fresh v tradeId reservationId x) :
    Task.Ends partyDiscipline (fun w _ => Fresh w tradeId reservationId x)
      (fun w _ => Fresh w tradeId reservationId .errored) (readPair d intent) v := by
  refine ⟨trivial, fun r _ => ?_⟩
  have hw := hv.push (o := .readPair d.walletPubkey intent.input.mint intent.outputMint) rfl
    (by simp) r
  cases r <;> exact hw

end Promise

/-! ### The gateway keeps its promises -/

section GatewayStages

variable {d : Deps} {intent : TradeIntent} {opts : ExecuteOptions} {tradeId : String} {at_ : Int}
  {reservationId : Option String} {baseline : Baseline} {v : Trace interface Party}

/-- How a stretch of code ends: what it returns may be anything; where it throws, nothing is
settled yet. -/
abbrev Throws {α : Type} (tradeId : String) (reservationId : Option String) (x : Gateway α)
    (v : Trace interface Party) : Prop :=
  Task.Ends partyDiscipline (fun _ _ => True)
    (fun w _ => Fresh w tradeId reservationId .errored) x v

/-- The reservation is recorded under the trade. -/
theorem reserveStage_ends (hv : Fresh v tradeId none .errored) :
    Task.Ends partyDiscipline (fun w reservationId => Fresh w tradeId reservationId .errored)
      (fun w _ => Fresh w tradeId none .errored) (reserveStage d intent opts tradeId at_) v := by
  refine Task.ends_bind.mpr (Task.ends_total.mpr ⟨trivial, fun policy _ => ?_⟩)
  have hv := (Quiet.fresh (o := .policy) trivial hv).2 policy
  -- the guards come before anything is reserved
  refine Task.ends_bind.mpr (Task.ends_ofExcept.mpr ⟨fun _ _ => ?_, fun _ _ => hv⟩)
  refine Task.ends_bind.mpr (Task.ends_ofExcept.mpr ⟨fun _ _ => ?_, fun _ _ => hv⟩)
  refine Task.ends_bind.mpr ((Quiet.ends (quiet_assertMintsSupported policy) hv).mono ?_)
  rintro w - hw
  unfold reserveCap
  split
  · rename_i bucket hbucket
    refine Task.ends_bind.mpr ⟨trivial, fun r _ => ?_⟩
    have hw := (Quiet.fresh (o := .reserve ⟨bucket, intent.input.amount, policy.capsFor bucket,
      tradeId, at_⟩) trivial hw).2 r
    cases r with
    | error e => exact hw
    | ok outcome =>
      cases outcome with
      -- a reservation that is denied leaves nothing behind
      | denied reason cap would => exact hw
      | reserved rid usedHour usedDay =>
        refine { hw with held := fun rid' hrid => ?_ }
        obtain rfl := Option.some_inj.mp hrid
        exact held_append.mpr (.inr (by simp [holders]))
  · exact hw

theorem insertStage_ends (hv : Fresh v tradeId reservationId .errored) :
    Task.Ends partyDiscipline (fun w _ => Fresh w tradeId reservationId .errored)
      (fun w _ => Fresh w tradeId reservationId .errored)
      (insertStage d intent opts tradeId at_ reservationId) v := by
  refine Task.ends_bind.mpr ((readPair_ends hv).mono fun w pre hw => ?_)
  refine Task.ends_bind.mpr ((Quiet.ends quiet_readPosition hw).mono fun u prePosition hu => ?_)
  refine Task.ends_bind.mpr (Task.ends_ofExcept.mpr ⟨fun _ _ => ?_, fun _ _ => hu⟩)
  -- inserting the row neither settles a trade nor releases a reservation
  refine Task.ends_bind.mpr ⟨hu.held, fun r _ => ?_⟩
  have hu := hu.push (o := .insertTrade ⟨tradeId, opts.idempotencyKey, intent.input.mint,
    intent.outputMint, intent.input.amount, intent.lastValidBlockHeight, at_⟩ reservationId) rfl
    (by simp) r
  cases r <;> exact hu

/-- Release, then go on. -/
theorem releaseIfHeld_ends {α : Type} {Q : Trace interface Party → α → Prop}
    {E : Trace interface Party → KernelError → Prop} {f : Unit → Gateway α} {x : TradeState}
    (hv : Fresh v tradeId reservationId x) (hx : x ≠ .confirmed)
    (hf : ∀ w, Decided w x → Task.Ends partyDiscipline Q E (f ()) w) :
    Task.Ends partyDiscipline Q E (releaseIfHeld reservationId >>= f) v := by
  cases reservationId with
  | none => exact hf v hv.toDecided
  | some rid =>
    exact ends_store ⟨hv.told ▸ hx, tradeId, hv.held rid rfl⟩ fun r =>
      hf _ (hv.toDecided.push (o := .releaseReservation rid) rfl r)

/-- Consume, then go on. -/
theorem consumeIfHeld_ends {α : Type} {Q : Trace interface Party → α → Prop}
    {E : Trace interface Party → KernelError → Prop} {f : Unit → Gateway α}
    (hv : Fresh v tradeId reservationId .confirmed)
    (hf : ∀ w, Decided w .confirmed → Task.Ends partyDiscipline Q E (f ()) w) :
    Task.Ends partyDiscipline Q E (consumeIfHeld reservationId >>= f) v := by
  cases reservationId with
  | none => exact hf v hv.toDecided
  | some rid =>
    exact ends_store ⟨hv.unreleased rid, hv.told, tradeId, hv.held rid rfl⟩ fun r =>
      hf _ (hv.toDecided.push (o := .consumeReservation rid) rfl r)

/-- What is done about a trade once its outcome is known can be journaled, and throws nothing. -/
theorem journaled_ends {α : Type} {E : Trace interface Party → KernelError → Prop}
    {event : Int → JournalEvent} {a : Int → α} :
    Task.Ends partyDiscipline (fun _ _ => True) E (do
      let journaledAt ← now
      store (.appendJournal (event journaledAt))
      pure (a journaledAt) : Gateway α) v :=
  ends_now fun _ => ends_store trivial fun _ => trivial

theorem unconfirmed_ends {status : ConfirmStatus}
    (hv : Fresh v tradeId reservationId (if status = .expired then .expired else .errored)) :
    Throws tradeId reservationId (unconfirmed tradeId reservationId status) v := by
  refine releaseIfHeld_ends hv (by split <;> simp) fun w hw => ends_now fun failedAt => ?_
  have hw := hw.now failedAt
  exact ends_store ⟨hw.unsettled tradeId, fun _ => hw.told⟩ fun _ => journaled_ends

/-- Reading the position back throws nothing. -/
theorem settle_ends {outputDelta : Int} {position : Option Int} {x : TradeState}
    (hv : Fresh v tradeId reservationId x) :
    Task.Ends partyDiscipline (fun w _ => Fresh w tradeId reservationId x)
      (fun w _ => Fresh w tradeId reservationId .errored) (settle d intent outputDelta position)
      v := by
  unfold settle
  split
  · rename_i ref _ _ _ _
    refine ⟨trivial, fun r _ => ?_⟩
    have hw := hv.push (o := .readPosition ref) rfl (by simp) r
    cases r <;> exact hw
  · exact hv

theorem confirmed_ends {signature : String} (hv : Fresh v tradeId reservationId .confirmed) :
    Throws tradeId reservationId
      (confirmed d intent tradeId signature reservationId baseline) v := by
  refine Task.ends_bind.mpr ((readPair_ends hv).mono fun w post hw => ?_)
  refine Task.ends_bind.mpr ((settle_ends hw).mono fun w settlement hw => ?_)
  refine consumeIfHeld_ends hw fun w hw => ends_now fun confirmedAt => ?_
  have hw := hw.now confirmedAt
  exact ends_store ⟨hw.unsettled tradeId, fun _ => hw.told⟩ fun _ => journaled_ends

theorem sendStage_ends (hv : Fresh v tradeId reservationId .errored) :
    Throws tradeId reservationId
      (sendStage d intent opts tradeId at_ reservationId baseline) v := by
  refine Task.ends_bind.mpr ((Quiet.ends (quiet_signStage reservationId) hv).mono ?_)
  refine fun w signed hw => Task.ends_bind.mpr ((Quiet.ends (quiet_broadcastStage signed) hw).mono ?_)
  refine fun w signature hw => Task.ends_bind.mpr ⟨trivial, fun r _ => ?_⟩
  have hw := hw.push (o := .confirm signature intent.lastValidBlockHeight) rfl (by simp) r
  cases r with
  | error e => exact hw
  | ok status =>
    cases status with
    | confirmed => exact confirmed_ends hw
    | expired => exact unconfirmed_ends hw
    | failed => exact unconfirmed_ends hw

/-- The catch block, wherever it is entered from. -/
theorem liveCatch_ends {inserted : Bool} {err : KernelError}
    (hv : Fresh v tradeId reservationId .errored) :
    Task.Ends partyDiscipline (fun _ _ => True) (fun _ _ => True)
      (liveCatch tradeId reservationId inserted err) v := by
  refine releaseIfHeld_ends hv (by simp) fun w hw => Task.ends_bind.mpr ?_
  unfold recordFailure
  split
  · refine ends_now fun failedAt => ?_
    have hw := hw.now failedAt
    refine ends_store ⟨hw.unsettled tradeId, fun _ => hw.told⟩ fun _ => ?_
    exact ends_now fun _ => ⟨trivial, fun _ _ => trivial⟩
  · exact ends_now fun _ => ⟨trivial, fun _ _ => trivial⟩

theorem live_ends (hv : ∀ tradeId, Fresh v tradeId none .errored) :
    Task.Ends partyDiscipline (fun _ _ => True) (fun _ _ => True) (live d intent opts) v := by
  refine ends_now fun at_ => Task.ends_bind.mpr (Task.ends_total.mpr ⟨trivial, fun tradeId _ => ?_⟩)
  refine Task.ends_bind.mpr (Task.ends_total.mpr ⟨trivial, fun claimed _ => ?_⟩)
  have hv : Fresh (((v.push ⟨.now, at_⟩).push ⟨.newTradeId, tradeId⟩).push
      ⟨.claimIdempotency opts.idempotencyKey tradeId at_, claimed⟩) tradeId none .errored :=
    (((hv tradeId).push (o := .now) rfl (by simp) _).push (o := .newTradeId) rfl (by simp) _).push
      (o := .claimIdempotency _ _ _) rfl (by simp) _
  split
  · refine Task.ends_orCatch.mpr (Prog.Safe.mono (reserveStage_ends hv) fun w r hr => ?_)
    cases r with
    | error e => exact liveCatch_ends hr
    | ok reservationId =>
      refine Task.ends_orCatch.mpr (Prog.Safe.mono (insertStage_ends hr) fun w r hr => ?_)
      cases r with
      | error e => exact liveCatch_ends hr
      | ok baseline =>
        refine Task.ends_orCatch.mpr (Prog.Safe.mono (sendStage_ends hr) fun w r hr => ?_)
        cases r with
        | error e => exact liveCatch_ends hr
        | ok result => trivial
  · exact Task.ends_bind.mpr (Task.ends_total.mpr ⟨trivial, fun _ _ => trivial⟩)

end GatewayStages

/-! ### The reconciler keeps its promises -/

section Recovery

variable {v : Trace interface Party} {trade other : TradeRow} {ts : List TradeRow}
  {x : TradeState}

/-- The party has not touched the trade, and knows its reservation. -/
structure Untouched (v : Trace interface Party) (t : TradeRow) : Prop where
  unsettled : ¬ HasSettled v.history t.id
  unreleased : ∀ rid ∈ t.reservationId, ¬ HasReleased v.history rid
  held : ∀ rid ∈ t.reservationId, Held v.history rid t.id

theorem Untouched.push (hv : Untouched v other) {o : Op}
    (hsettle : ∀ x ∈ settlement? o, x.1 ≠ other.id)
    (hrelease : ∀ rid ∈ other.reservationId, o ≠ .releaseReservation rid) (r : o.Res) :
    Untouched (v.push ⟨o, r⟩) other where
  unsettled := by
    rw [Trace.push_history, hasSettled_append]
    rintro (h | ⟨x, hx, heq⟩)
    · exact hv.unsettled h
    · exact hsettle x hx heq
  unreleased rid hrid := by
    rw [Trace.push_history, hasReleased_append, not_or]
    exact ⟨hv.unreleased rid hrid, hrelease rid hrid⟩
  held rid hrid := held_append.mpr (.inl (hv.held rid hrid))

/-- A trade of the work list, of which the party was told `x`, and those that come after it. -/
structure AtHand (v : Trace interface Party) (t : TradeRow) (ts : List TradeRow)
    (x : TradeState) : Prop where
  unsettled : ¬ HasSettled v.history t.id
  held : ∀ rid ∈ t.reservationId, Held v.history rid t.id
  told : verdict v.history = x
  others : ∀ u ∈ ts, Untouched v u
  apart : ∀ u ∈ ts, t.id ≠ u.id ∧ ∀ rid ∈ t.reservationId, u.reservationId ≠ some rid

theorem AtHand.push (hv : AtHand v trade ts x) {o : Op} (hsettle : settlement? o = none)
    (hrelease : ∀ rid, o = .releaseReservation rid → trade.reservationId = some rid) (r : o.Res) :
    AtHand (v.push ⟨o, r⟩) trade ts (verdictAfter x ⟨o, r⟩) where
  unsettled := by
    rw [Trace.push_history, hasSettled_append]
    simpa [hsettle] using hv.unsettled
  held rid hrid := held_append.mpr (.inl (hv.held rid hrid))
  told := by rw [Trace.push_history, verdict_append, hv.told]
  others u hu := by
    refine (hv.others u hu).push (by simp [hsettle]) (fun rid hrid ho => ?_) r
    exact (hv.apart u hu).2 rid (hrelease rid ho) hrid
  apart := hv.apart

/-- The trades that are left, of which nothing is known yet. -/
def Left (ts : List TradeRow) (v : Trace interface Party) : Prop :=
  (∀ u ∈ ts, Untouched v u) ∧ verdict v.history = .errored

/-- Writing its state leaves the others alone. -/
theorem AtHand.written (hv : AtHand v trade ts x) {o : Op} {state : TradeState} {e : String}
    {at_ : Int} (ho : o = .setState trade.id state at_ ∨ o = .fail trade.id state e at_)
    (r : o.Res) : Left ts (v.push ⟨o, r⟩) := by
  refine ⟨fun u hu => (hv.others u hu).push (fun y hy heq => (hv.apart u hu).1 ?_)
    (fun rid _ => ?_) r, ?_⟩
  · rcases ho with rfl | rfl
    all_goals
      obtain ⟨-, hsettled⟩ := Option.ite_none_right_eq_some.mp hy
      exact (congrArg Prod.fst (Option.some_inj.mp hsettled)).trans heq
  · rcases ho with rfl | rfl <;> simp
  · rw [Trace.push_history, verdict_append]
    rcases ho with rfl | rfl <;> rfl

theorem giveUp_ends {error : String} (hv : AtHand v trade ts x) (hx : x ≠ .confirmed) :
    Task.Ends partyDiscipline (fun w _ => Left ts w) (fun _ _ => True)
      (giveUp trade x error) v := by
  -- the trade is failed after its reservation is released
  have hrest : ∀ w, AtHand w trade ts x →
      Task.Ends partyDiscipline (fun w _ => Left ts w) (fun _ _ => True) (do
        let failedAt ← now
        store (.fail trade.id x error failedAt)
        pure false : Gateway Bool) w := by
    refine fun w hw => ends_now fun failedAt => ?_
    have hw := hw.push (o := .now) rfl (by simp) failedAt
    exact ends_store ⟨hw.unsettled, fun _ => hw.told⟩ fun r => hw.written (.inr rfl) r
  unfold giveUp
  cases hrid : trade.reservationId with
  | none => exact hrest v hv
  | some rid =>
    refine ends_store ⟨hv.told ▸ hx, trade.id, hv.held rid hrid⟩ fun r => hrest _ ?_
    refine hv.push (o := .releaseReservation rid) rfl (fun rid' heq => ?_) r
    obtain rfl := Op.releaseReservation.inj heq
    exact hrid

theorem consumed_ends (hv : AtHand v trade ts .confirmed)
    (hreleased : ∀ rid ∈ trade.reservationId, ¬ HasReleased v.history rid) :
    Task.Ends partyDiscipline (fun w _ => Left ts w) (fun _ _ => True) (do
      consumeIfHeld trade.reservationId
      let confirmedAt ← now
      store (.setState trade.id .confirmed confirmedAt)
      pure true : Gateway Bool) v := by
  -- the trade is confirmed after its reservation is consumed
  have hrest : ∀ w, AtHand w trade ts .confirmed →
      Task.Ends partyDiscipline (fun w _ => Left ts w) (fun _ _ => True) (do
        let confirmedAt ← now
        store (.setState trade.id .confirmed confirmedAt)
        pure true : Gateway Bool) w := by
    refine fun w hw => ends_now fun confirmedAt => ?_
    have hw := hw.push (o := .now) rfl (by simp) confirmedAt
    exact ends_store ⟨hw.unsettled, fun _ => hw.told⟩ fun r =>
      hw.written (e := "") (.inl rfl) r
  cases hrid : trade.reservationId with
  | none => exact hrest v hv
  | some rid =>
    refine ends_store ⟨hreleased rid hrid, hv.told, trade.id, hv.held rid hrid⟩ fun r =>
      hrest _ ?_
    exact hv.push (o := .consumeReservation rid) rfl (by simp) r

/-- One trade of the work list. -/
theorem recoverTrade_ends (hv : AtHand v trade ts .errored)
    (hreleased : ∀ rid ∈ trade.reservationId, ¬ HasReleased v.history rid) :
    Task.Ends partyDiscipline (fun w _ => Left ts w) (fun _ _ => True) (recoverTrade trade) v := by
  unfold recoverTrade
  split
  · exact giveUp_ends hv (by simp)
  · generalize trade.signature.getD "" = signature
    refine Task.ends_bind.mpr ⟨trivial, fun r _ => ?_⟩
    have hv := hv.push (o := .confirm signature trade.lastValidBlockHeight) rfl (by simp) r
    cases r with
    | error e => trivial
    | ok status =>
      cases status with
      | confirmed =>
        refine consumed_ends hv fun rid hrid => ?_
        refine mt (fun h => ?_) (hreleased rid hrid)
        exact (hasReleased_append.mp h).resolve_right (by simp)
      | expired => exact giveUp_ends hv (by simp)
      | failed => exact giveUp_ends hv (by simp)

/-- The loop: by induction on the rest of the work list, of which nothing has been touched. -/
theorem recoverAll_ends (hdistinct : Distinct ts) (hv : Left ts v) (confirmed failed : Nat) :
    Task.Ends partyDiscipline (fun _ _ => True) (fun _ _ => True)
      (recoverAll ts confirmed failed) v := by
  induction ts generalizing v confirmed failed with
  | nil => trivial
  | cons t ts ih =>
    obtain ⟨hapart, hdistinct⟩ := List.pairwise_cons.mp hdistinct
    have ht := hv.1 t List.mem_cons_self
    have hhand : AtHand v t ts .errored :=
      ⟨ht.unsettled, ht.held, hv.2, fun u hu => hv.1 u (List.mem_cons_of_mem t hu), hapart⟩
    refine Task.ends_bind.mpr ((recoverTrade_ends hhand ht.unreleased).mono fun w ok hw => ?_)
    split
    · exact ih hdistinct hw _ _
    · exact ih hdistinct hw _ _

theorem recover_ends (hv : Fresh v "" none .errored) :
    Task.Ends partyDiscipline (fun _ _ => True) (fun _ _ => True) recover v := by
  refine Task.ends_bind.mpr (Task.ends_total.mpr ⟨trivial, fun ts hdistinct => ?_⟩)
  have hv := hv.push (o := .pendingSent) rfl (by simp) ts
  have hleft : Left ts (v.push ⟨.pendingSent, ts⟩) := by
    refine ⟨fun u hu => ⟨hv.unsettled _, fun rid _ => hv.unreleased rid, fun rid hrid => ?_⟩,
      hv.told⟩
    -- the list names the reservation
    refine held_append.mpr (.inr (List.mem_map.mpr ⟨u, List.mem_filter.mpr ⟨hu, ?_⟩, rfl⟩))
    simpa using hrid
  exact Task.ends_bind.mpr ((recoverAll_ends hdistinct hleft 0 0).mono fun _ _ _ => trivial)

end Recovery

/-! ### Every run -/

/-- Every party keeps its promises. -/
theorem body_safe (d : Deps) (x : Party) :
    (x.body d).run.Safe partyDiscipline (fun _ _ => True) (.start x) := by
  have hfresh : ∀ tradeId, Fresh (.start x) tradeId none .errored := fun tradeId =>
    { unsettled := fun _ => by simp [HasSettled, Trace.start]
      told := rfl
      unreleased := fun _ => by simp [HasReleased, Trace.start]
      held := fun _ h => by simp at h }
  have hall : ∀ {α : Type} {y : Gateway α} {f : α → Outcome},
      Task.Ends partyDiscipline (fun _ _ => True) (fun _ _ => True) y (.start x) →
        (do let a ← y; return f a : Gateway Outcome).run.Safe partyDiscipline (fun _ _ => True)
          (.start x) := by
    intro α y f hy
    refine Task.safe_bind.mpr (Prog.Safe.mono hy fun w r _ => ?_)
    cases r <;> trivial
  cases x with
  | gateway r =>
    refine hall (y := ExceptT.mk (execute d r)) ?_
    unfold execute
    split
    · exact Prog.Safe.mono (Quiet.ends quiet_preview (hfresh "")) fun _ r _ => by cases r <;> trivial
    · exact live_ends hfresh
  | reconciler => exact hall (recover_ends (hfresh ""))

section Statements

variable {s : KernelStore}

/-- What a call does to the spends: nothing, a new one, or one of the two updates. -/
theorem spends_handle (o : Op) (s : KernelStore) (a : o.Ans) :
    (machine.handle o s a).2.spends = s.spends ∨
    (∃ (args : ReserveArgs) (rid : String),
      s.spends.insert? ⟨rid, args.tradeId, args.bucket, args.amount, .reserved, args.now⟩ =
        some (machine.handle o s a).2.spends) ∨
    (∃ rid, o = .releaseReservation rid ∧ ∀ k, (machine.handle o s a).2.spends.find? k =
      (s.spends.find? k).map fun r =>
        if k = rid ∧ r.state = .reserved then { r with state := .released } else r) ∨
    ∃ rid, o = .consumeReservation rid ∧ ∀ k, (machine.handle o s a).2.spends.find? k =
      (s.spends.find? k).map fun r => if k = rid then { r with state := .consumed } else r := by
  cases o with
  | claimIdempotency key tradeId now => exact .inl KernelStore.claimIdempotency_spends
  | reserve args =>
    rcases s.reserve_cases args (newId "rsv" a) with ⟨spends, _, _, -, -, -, hins, heq⟩ | ⟨heq, -⟩
    · refine .inr (.inl ⟨args, newId "rsv" a, hins.trans ?_⟩)
      exact congrArg (fun out : _ × KernelStore => some out.2.spends) heq.symm
    · exact .inl (congrArg KernelStore.spends heq)
  -- a trade is its own row, the spends are not touched
  | insertTrade row reservationId =>
    rcases s.insertTrade_cases row reservationId with ⟨trades, -, heq⟩ | ⟨e, heq⟩
    · exact .inl (congrArg (fun out : _ × KernelStore => out.2.spends) heq)
    · exact .inl (congrArg (fun out : _ × KernelStore => out.2.spends) heq)
  -- both statements write one row, found by its id
  | releaseReservation rid =>
    refine .inr (.inr (.inl ⟨rid, rfl, fun k => ?_⟩))
    refine KernelStore.find?_setSpendState.trans (Option.map_congr fun r hr => ?_)
    simp [(Table.find?_eq_some_iff.mp hr).2]
  | consumeReservation rid =>
    refine .inr (.inr (.inr ⟨rid, rfl, fun k => ?_⟩))
    refine KernelStore.find?_setSpendState.trans (Option.map_congr fun r hr => ?_)
    simp [(Table.find?_eq_some_iff.mp hr).2]
  | _ => exact .inl rfl

/-- What a call does to the trades: nothing, a new one, a field that is not its state, or its
state. -/
theorem trades_handle (o : Op) (s : KernelStore) (a : o.Ans) :
    (machine.handle o s a).2.trades = s.trades ∨
    (∃ row reservationId, o = .insertTrade row reservationId ∧
      s.trades.insert? (KernelStore.newTrade row reservationId) =
        some (machine.handle o s a).2.trades) ∨
    ∃ (id : String) (f : TradeRow → TradeRow), (∀ k, (machine.handle o s a).2.trades.find? k =
        (s.trades.find? k).map fun r => if k = id then f r else r) ∧
      (∀ r, (f r).id = r.id ∧ (f r).reservationId = r.reservationId) ∧
      ((∀ r, (f r).state = r.state) ∨ ∃ state error at_,
        (o = .setState id state at_ ∨ o = .fail id state error at_) ∧ ∀ r, (f r).state = state) := by
  -- an update writes the one row with the id
  have hset : ∀ (id : String) (f : TradeRow → TradeRow) (hf : ∀ r, (f r).id = r.id) k,
      (s.setTrade id f hf).trades.find? k =
        (s.trades.find? k).map fun r => if k = id then f r else r := by
    intro id f hf k
    refine KernelStore.find?_setTrade.trans (Option.map_congr fun r hr => ?_)
    rw [(Table.find?_eq_some_iff.mp hr).2]
  cases o with
  | claimIdempotency key tradeId now => exact .inl KernelStore.claimIdempotency_trades
  | reserve args =>
    rcases s.reserve_cases args (newId "rsv" a) with ⟨spends, _, _, -, -, -, -, heq⟩ | ⟨heq, -⟩
    · exact .inl (congrArg (fun out : _ × KernelStore => out.2.trades) heq)
    · exact .inl (congrArg KernelStore.trades heq)
  | insertTrade row reservationId =>
    rcases s.insertTrade_cases row reservationId with ⟨trades, hins, heq⟩ | ⟨e, heq⟩
    · refine .inr (.inl ⟨row, reservationId, rfl, ?_⟩)
      exact hins.trans (congrArg (fun out : _ × KernelStore => some out.2.trades) heq).symm
    · exact .inl (congrArg (fun out : _ × KernelStore => out.2.trades) heq)
  | persistSigned id wire signature now =>
    exact .inr (.inr ⟨id, _, hset id _ _, fun _ => ⟨rfl, rfl⟩, .inl fun _ => rfl⟩)
  | setSignature id signature now =>
    exact .inr (.inr ⟨id, _, hset id _ _, fun _ => ⟨rfl, rfl⟩, .inl fun _ => rfl⟩)
  -- only these two write a state
  | setState id state now =>
    exact .inr (.inr ⟨id, _, hset id _ _, fun _ => ⟨rfl, rfl⟩,
      .inr ⟨state, "", now, .inl rfl, fun _ => rfl⟩⟩)
  | fail id state error now =>
    exact .inr (.inr ⟨id, _, hset id _ _, fun _ => ⟨rfl, rfl⟩,
      .inr ⟨state, error, now, .inr rfl, fun _ => rfl⟩⟩)
  | _ => exact .inl rfl

/-- The reservation is there, for the trade. -/
def ReservedFor (s : KernelStore) (rid tradeId : String) : Prop :=
  ∃ r, s.spends.find? rid = some r ∧ r.tradeId = tradeId

theorem ReservedFor.handle {rid tradeId : String} (h : ReservedFor s rid tradeId) (o : Op)
    (a : o.Ans) : ReservedFor (machine.handle o s a).2 rid tradeId := by
  obtain ⟨r, hr, htrade⟩ := h
  rcases spends_handle o s a with heq | ⟨args, rid', hins⟩ | ⟨rid', -, heq⟩ | ⟨rid', -, heq⟩
  · exact ⟨r, heq ▸ hr, htrade⟩
  · exact ⟨r, Table.find?_insert?_of_some hins hr, htrade⟩
  · refine ⟨_, (heq rid).trans (congrArg (Option.map _) hr), ?_⟩
    dsimp only
    split <;> exact htrade
  · refine ⟨_, (heq rid).trans (congrArg (Option.map _) hr), ?_⟩
    dsimp only
    split <;> exact htrade

/-- The reservation of a trade is there, and made for it. -/
def Linked (s : KernelStore) : Prop :=
  ∀ id t, s.trades.find? id = some t → ∀ rid ∈ t.reservationId, ReservedFor s rid t.id

/-- What a party holds is there. -/
def Backed (s : KernelStore) (v : Trace interface Party) : Prop :=
  ∀ rid tradeId, Held v.history rid tradeId → ReservedFor s rid tradeId

theorem Linked.handle {v : Trace interface Party} {o : Op} (h : Linked s) (hv : Backed s v)
    (hpre : Promises v o) (a : o.Ans) : Linked (machine.handle o s a).2 := by
  intro id t ht rid hrid
  rcases trades_handle o s a with heq | ⟨row, reservationId, rfl, hins⟩ | ⟨id', f, heq, hf, -⟩
  · exact (h id t (heq ▸ ht) rid hrid).handle o a
  · rw [Table.find?_insert? hins] at ht
    split at ht
    · obtain rfl := Option.some_inj.mp ht
      exact (hv rid row.id (hpre rid hrid)).handle _ a
    · exact (h id t ht rid hrid).handle _ a
  · rw [heq] at ht
    obtain ⟨t₀, ht₀, rfl⟩ := Option.map_eq_some_iff.mp ht
    have hsame : (if id = id' then f t₀ else t₀).id = t₀.id ∧
        (if id = id' then f t₀ else t₀).reservationId = t₀.reservationId := by
      split
      · exact hf t₀
      · exact ⟨rfl, rfl⟩
    rw [hsame.2] at hrid
    rw [hsame.1]
    exact (h id t₀ ht₀ rid hrid).handle o a

theorem Backed.handle {v : Trace interface Party} {o : Op} (h : Backed s v) (a : o.Ans) :
    Backed (machine.handle o s a).2 v :=
  fun rid tradeId hheld => (h rid tradeId hheld).handle o a

/-- An answer that names a reservation of a trade names one that is there. -/
theorem reservedFor_of_holders {o : Op} {a : o.Ans} {rid id : String} (hs : Linked s)
    (h : id ∈ holders rid ⟨o, (machine.handle o s a).1⟩) :
    ReservedFor (machine.handle o s a).2 rid id := by
  cases o with
  | reserve args =>
    change id ∈ holders rid ⟨.reserve args, (s.reserve args (newId "rsv" a)).1⟩ at h
    change ReservedFor (s.reserve args (newId "rsv" a)).2 rid id
    rcases s.reserve_cases args (newId "rsv" a) with ⟨spends, _, _, -, -, -, hins, heq⟩ |
      ⟨-, hne⟩
    · -- the row has just been inserted
      rw [heq] at h ⊢
      simp only [holders] at h
      split at h
      · rename_i hrid
        obtain rfl := List.mem_singleton.mp h
        exact ⟨_, (Table.find?_insert? hins).trans (if_pos hrid), rfl⟩
      · simp at h
    · generalize (s.reserve args (newId "rsv" a)).1 = r at h hne
      cases r with
      | error e => simp [holders] at h
      | ok outcome =>
        cases outcome with
        | denied reason cap would => simp [holders] at h
        | reserved rid' usedHour usedDay => exact absurd rfl (hne rid' usedHour usedDay)
  | pendingSent =>
    obtain ⟨t, ht, rfl⟩ := List.mem_map.mp h
    obtain ⟨hlisted, hrid⟩ := List.mem_filter.mp ht
    have hrow := Table.mem_rows_iff.mp (List.mem_filter.mp hlisted).1
    exact hs t.id t hrow rid (by simpa using hrid)
  | _ => simp [holders] at h

theorem Backed.push {v : Trace interface Party} {o : Op} (h : Backed s v) (hs : Linked s)
    (a : o.Ans) : Backed (machine.handle o s a).2 (v.push ⟨o, (machine.handle o s a).1⟩) := by
  intro rid tradeId hheld
  rcases held_append.mp hheld with hheld | hheld
  · exact (h rid tradeId hheld).handle o a
  · exact reservedFor_of_holders hs hheld

/-- No two trades of a store whose reservations were made for their trades share one. -/
theorem Linked.distinct (h : Linked s) {ts : List TradeRow} (hts : ts.Sublist s.trades.rows) :
    Distinct ts := by
  have hids : s.trades.rows.Pairwise fun t u => t.id ≠ u.id :=
    List.pairwise_map.mp s.trades.nodup
  refine (hids.sublist hts).imp_of_mem fun {t u} ht hu hne => ⟨hne, fun rid hrid hrid' => ?_⟩
  obtain ⟨r, hr, htrade⟩ := h t.id t (Table.mem_rows_iff.mp (hts.subset ht)) rid hrid
  obtain ⟨r', hr', htrade'⟩ := h u.id u (Table.mem_rows_iff.mp (hts.subset hu)) rid hrid'
  obtain rfl := Option.some_inj.mp (hr.symm.trans hr')
  exact hne (htrade.symm.trans htrade')

theorem relies_handle (h : Linked s) (o : Op) (a : o.Ans) :
    Relies ⟨o, (machine.handle o s a).1⟩ := by
  cases o with
  | pendingSent => exact h.distinct List.filter_sublist
  | _ => trivial

end Statements

/-- What holds of the parties of a run. -/
abbrev Parties (p : KernelPool) : Prop :=
  Coherent partyDiscipline Trace.start (fun _ _ => True) Linked Backed (fun _ _ => True) p

theorem parties_modular (d : Deps) :
    Modular machine (fun x : Party => (x.body d).run) partyDiscipline Trace.start
      (fun _ _ => True) Linked Backed (fun _ _ => True) fun _ _ => True where
  body_safe := body_safe d
  symm _ _ h := h
  spawn p x _ _ := by
    refine ⟨fun rid tradeId hheld => ?_, fun _ _ => trivial⟩
    obtain ⟨e, hmem, -⟩ := hheld
    simp [Trace.start] at hmem
  call p t ans c o k _ hct _ hs hv hpre :=
    ⟨relies_handle hs o _, hs.handle (hv t c hct) hpre _, (hv t c hct).push hs _⟩
  frame s v o a w _ _ _ hw _ := ⟨hw.handle a, trivial⟩

/-- In every run every party keeps its promises. -/
theorem parties_coherent (d : Deps) (es : List (Event interface Party)) :
    Parties (kernelRun d es) := by
  refine (parties_modular d).run (Pool.meets_true _ _) (Modular.coherent_start ?_)
  intro id t ht
  simp [KernelStore.empty] at ht

end AriOs.Kernel
