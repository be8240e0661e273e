import AriOs.Async.Transition
import AriOs.Kernel.Interleaving

/-!
# What a settlement verdict is about

The settlement of a swap compares two readings of the wallet's balance of the output mint, one
before the transaction is signed and one after it is confirmed. The balance is moved by more than
the transaction: by the fees and the rent the wallet pays in SOL, and by whatever else it trades
or receives in the meantime. This file runs any number of gateway calls next to the chain, with a
reader that is exact or throws, and says exactly when the verdict is the one the transaction
itself deserves.
-/

namespace AriOs.Kernel

open AriOs.Async AriOs.Js AriOs.Storage AriOs.Kernel.Gateway

/-! ### The chain -/

/-- Why a balance moved: a transaction's swap, what it cost beyond that, or something else. -/
inductive Cause where
  | swap (signature : String)
  | networkFee (signature : String)
  | priorityFee (signature : String)
  | rent (signature : String)
  | other
  deriving DecidableEq, Repr

/-- A change of one balance. Native SOL counts under its sentinel mint. -/
structure Movement where
  owner : String
  mint : String
  amount : Int
  cause : Cause
  deriving DecidableEq, Repr

/-- What the selected movements come to. -/
def moved (p : Movement → Bool) (chain : List Movement) : Int :=
  (chain.map fun m => if p m then m.amount else 0).sum

/-- What a wallet holds of a mint. -/
def balance (owner mint : String) : List Movement → Int :=
  moved fun m => m.owner = owner ∧ m.mint = mint

/-- What the swap of a transaction gave the wallet. -/
def credited (owner mint signature : String) : List Movement → Int :=
  moved fun m => (m.owner = owner ∧ m.mint = mint) ∧ m.cause = .swap signature

/-- What else moved the balance: fees, rent, other trades, transfers. -/
def elsewhere (owner mint signature : String) : List Movement → Int :=
  moved fun m => (m.owner = owner ∧ m.mint = mint) ∧ ¬ m.cause = .swap signature

section Chain

variable {p q : Movement → Bool} {chain chain' : List Movement}

@[simp] theorem moved_nil : moved p [] = 0 := rfl

@[simp] theorem moved_append : moved p (chain ++ chain') = moved p chain + moved p chain' := by
  simp [moved]

variable (chain) in
/-- A movement is selected by one half of a test or by the other. -/
theorem moved_split : moved p chain =
    moved (fun m => p m ∧ q m) chain + moved (fun m => p m ∧ ¬ q m) chain := by
  induction chain with
  | nil => rfl
  | cons m chain ih =>
    have hm : (if p m then m.amount else 0) =
        (if p m ∧ q m then m.amount else 0) + (if p m ∧ ¬ q m then m.amount else 0) := by
      cases p m <;> cases q m <;> simp
    simp only [moved, List.map_cons, List.sum_cons] at ih ⊢
    simp only [decide_eq_true_eq] at ih ⊢
    omega

theorem balance_eq (chain : List Movement) (owner mint signature : String) :
    balance owner mint chain =
      credited owner mint signature chain + elsewhere owner mint signature chain := by
  have h := moved_split chain (p := fun m => decide (m.owner = owner ∧ m.mint = mint))
    (q := fun m => decide (m.cause = .swap signature))
  simpa [balance, credited, elsewhere] using h

/-- The chain in three parts: up to `i`, from there up to `j`, and the rest. -/
theorem moved_take_drop {i j : Nat} (hij : i ≤ j) :
    moved p (chain.take j) = moved p (chain.take i) + moved p ((chain.take j).drop i) := by
  rw [← moved_append]
  congr 1
  have h := List.take_append_drop i (chain.take j)
  rwa [List.take_take, min_eq_left hij, eq_comm] at h

end Chain

/-! ### What a call reads and learns -/

/-- A reading of a balance of the output mint, or its failure. -/
structure Reading where
  owner : String
  mint : String
  answer : Except KernelError (Int × Int)

/-- The reading a call made. -/
def reading? : Entry interface → Option Reading
  | ⟨.readPair owner _ output, r⟩ => some ⟨owner, output, r⟩
  | _ => none

/-- The transaction a call was told is confirmed. -/
def confirmation? : Entry interface → Option String
  | ⟨.confirm signature _, (r : Except KernelError ConfirmStatus)⟩ =>
    match r with
    | .ok .confirmed => some signature
    | _ => none
  | _ => none

/-- The readings a call has made and the confirmations it has got. -/
structure Seen (h : List (Entry interface)) (readings : List Reading)
    (confirmations : List String) : Prop where
  readings : h.filterMap reading? = readings
  confirmations : h.filterMap confirmation? = confirmations

/-- What a call of the gateway is followed with: everything it has done. -/
abbrev fillDiscipline : Discipline interface (Trace interface Request) := .ofTrace fun _ _ => True

/-- The calls that read no balance and get no confirmation. -/
def Silent : Op → Prop
  | .readPair _ _ _ | .confirm _ _ => False
  | _ => True

/-- A reading of the output mint of an intent, by the wallet that trades. -/
def ownReading (d : Deps) (intent : TradeIntent) (answer : Except KernelError (Int × Int)) :
    Reading :=
  ⟨d.walletPubkey, intent.outputMint, answer⟩

/-- The code of a shortfall is what `execute` reports. -/
def ReportsShortfall (result : ExecuteResult) : Prop :=
  result.error.map Problem.code = some GuardCode.settleShortfall.name

instance (result : ExecuteResult) : Decidable (ReportsShortfall result) :=
  inferInstanceAs (Decidable (_ = _))

/-- What the gateway makes of the two readings: the second minus the first is too little, or
the second failed with this very code. -/
def FallsShort (intent : TradeIntent) (pre : Int × Int) : Except KernelError (Int × Int) → Prop
  | .ok post => post.2 - pre.2 < intent.quote.minOutAmount
  | .error e => e.codeOr "INTERNAL" = GuardCode.settleShortfall.name

/-- A call at its end: it was told of no confirmation, or it reports what its two readings say. -/
def Judged (d : Deps) (intent : TradeIntent) (h : List (Entry interface))
    (result : ExecuteResult) : Prop :=
  (∃ readings, Seen h readings []) ∨ ∃ pre post signature,
    Seen h [ownReading d intent (.ok pre), ownReading d intent post] [signature] ∧
      (ReportsShortfall result ↔ FallsShort intent pre post)

/-- How a stretch of the gateway ends, in what it has done by then. -/
abbrev FillEnds {α : Type} (Q : List (Entry interface) → α → Prop)
    (E : List (Entry interface) → KernelError → Prop) (x : Gateway α)
    (v : Trace interface Request) : Prop :=
  Task.Ends fillDiscipline (fun w a => Q w.history a) (fun w e => E w.history e) x v

section Seen

variable {d : Deps} {intent : TradeIntent} {h : List (Entry interface)} {rs : List Reading}
  {cs : List String} {v : Trace interface Request}

theorem Seen.push (hv : Seen v.history rs cs) (e : Entry interface) :
    Seen (v.push e).history (rs ++ (reading? e).toList) (cs ++ (confirmation? e).toList) where
  readings := by
    rw [Trace.push_history, List.filterMap_append, hv.readings]
    cases hr : reading? e <;> simp [hr]
  confirmations := by
    rw [Trace.push_history, List.filterMap_append, hv.confirmations]
    cases hc : confirmation? e <;> simp [hc]

theorem Seen.push_silent (hv : Seen v.history rs cs) {o : Op} (ho : Silent o) (r : o.Res) :
    Seen (v.push ⟨o, r⟩).history rs cs := by
  have hr : reading? ⟨o, r⟩ = none := by
    cases o with
    | readPair owner input output => exact ho.elim
    | _ => rfl
  have hc : confirmation? ⟨o, r⟩ = none := by
    cases o with
    | confirm signature height => exact ho.elim
    | _ => rfl
  simpa [hr, hc] using hv.push ⟨o, r⟩

theorem Quiet.silent {o : Op} (ho : Quiet o) : Silent o := by
  cases o with
  | readPair owner input output => exact ho.elim
  | confirm signature height => exact ho.elim
  | _ => trivial

/-- A silent stretch adds nothing. -/
theorem fill_of_silent {α : Type} {x : Gateway α} (hx : Task.Only Silent x)
    (hv : Seen v.history rs cs) : FillEnds (fun h _ => Seen h rs cs) (fun h _ => Seen h rs cs) x v :=
  hx.ends (K := fun w : Trace interface Request => Seen w.history rs cs)
    (fun _ _ hw ho => ⟨trivial, fun r => hw.push_silent ho r⟩) hv

theorem fill_of_quiet {α : Type} {x : Gateway α} (hx : Task.Only Quiet x)
    (hv : Seen v.history rs cs) : FillEnds (fun h _ => Seen h rs cs) (fun h _ => Seen h rs cs) x v :=
  fill_of_silent (hx.imp fun _ => Quiet.silent) hv

theorem readPair_seen (hv : Seen v.history rs cs) :
    FillEnds (fun h pair => Seen h (rs ++ [ownReading d intent (.ok pair)]) cs)
      (fun h e => Seen h (rs ++ [ownReading d intent (.error e)]) cs) (readPair d intent) v := by
  refine ⟨trivial, fun r _ => ?_⟩
  have hpush := hv.push ⟨.readPair d.walletPubkey intent.input.mint intent.outputMint, r⟩
  rw [show confirmation? ⟨.readPair d.walletPubkey intent.input.mint intent.outputMint, r⟩ = none
    from rfl, Option.toList_none, List.append_nil] at hpush
  cases r with
  | ok pair => exact hpush
  | error e => exact hpush

/-- A store statement, or a reading of the clock. -/
theorem fill_store {α : Type} {o : Op} {f : Unit → Gateway α}
    {Q : List (Entry interface) → α → Prop} {E : List (Entry interface) → KernelError → Prop}
    (ho : Silent o) (hv : Seen v.history rs cs)
    (hf : ∀ {w : Trace interface Request}, Seen w.history rs cs → FillEnds Q E (f ()) w) :
    FillEnds Q E (store o >>= f) v :=
  Task.ends_bind.mpr ⟨trivial, fun r _ => hf (hv.push_silent ho r)⟩

theorem fill_now {α : Type} {f : Int → Gateway α}
    {Q : List (Entry interface) → α → Prop} {E : List (Entry interface) → KernelError → Prop}
    (hv : Seen v.history rs cs)
    (hf : ∀ n {w : Trace interface Request}, Seen w.history rs cs → FillEnds Q E (f n) w) :
    FillEnds Q E (now >>= f) v :=
  Task.ends_bind.mpr ⟨trivial, fun n _ => hf n (hv.push_silent (o := .now) trivial n)⟩

end Seen

/-! ### The gateway -/

section Stages

variable {d : Deps} {intent : TradeIntent} {opts : ExecuteOptions} {tradeId : String} {at_ : Int}
  {reservationId : Option String} {rs : List Reading} {cs : List String}
  {v : Trace interface Request} {pre : Int × Int} {baseline : Baseline}

theorem releaseIfHeld_seen {α : Type} {f : Unit → Gateway α}
    {Q : List (Entry interface) → α → Prop} {E : List (Entry interface) → KernelError → Prop}
    (hv : Seen v.history rs cs)
    (hf : ∀ {w : Trace interface Request}, Seen w.history rs cs → FillEnds Q E (f ()) w) :
    FillEnds Q E (releaseIfHeld reservationId >>= f) v := by
  cases reservationId with
  | none => exact hf hv
  | some rid => exact fill_store trivial hv hf

theorem consumeIfHeld_seen {α : Type} {f : Unit → Gateway α}
    {Q : List (Entry interface) → α → Prop} {E : List (Entry interface) → KernelError → Prop}
    (hv : Seen v.history rs cs)
    (hf : ∀ {w : Trace interface Request}, Seen w.history rs cs → FillEnds Q E (f ()) w) :
    FillEnds Q E (consumeIfHeld reservationId >>= f) v := by
  cases reservationId with
  | none => exact hf hv
  | some rid => exact fill_store trivial hv hf

theorem recordFailure_seen (inserted : Bool) (err : KernelError) (hv : Seen v.history rs cs) :
    FillEnds (fun h _ => Seen h rs cs) (fun _ _ => False) (recordFailure tradeId inserted err) v := by
  have hjournal : ∀ (event : JournalEvent) {w : Trace interface Request}, Seen w.history rs cs →
      FillEnds (fun h _ => Seen h rs cs) (fun _ _ => False) (store (.appendJournal event)) w :=
    fun event w hw => ⟨trivial, fun r _ => hw.push_silent (o := .appendJournal event) trivial r⟩
  cases inserted with
  | true =>
    refine fill_now hv fun failedAt w hw => ?_
    refine fill_store (o := .fail _ _ _ _) trivial hw fun hw => ?_
    exact fill_now hw fun journaledAt w hw => hjournal _ hw
  | false => exact fill_now hv fun journaledAt w hw => hjournal _ hw

/-- The catch block reports the code of what was thrown, and throws nothing itself. -/
theorem liveCatch_seen (inserted : Bool) (err : KernelError) (hv : Seen v.history rs cs) :
    FillEnds (fun h result => Seen h rs cs ∧
        (ReportsShortfall result ↔ err.codeOr "INTERNAL" = GuardCode.settleShortfall.name))
      (fun _ _ => False) (liveCatch tradeId reservationId inserted err) v := by
  refine releaseIfHeld_seen hv fun hw => Task.ends_bind.mpr ?_
  refine (recordFailure_seen inserted err hw).mono fun w _ hw => ⟨hw, ?_⟩
  simp [ReportsShortfall, errorResult]

/-- A throw before the confirmer was asked, or after it said no, ends in a settled call. -/
theorem liveCatch_judged (inserted : Bool) (err : KernelError)
    (hv : ∃ readings, Seen v.history readings []) :
    FillEnds (Judged d intent) (fun _ _ => False)
      (liveCatch tradeId reservationId inserted err) v := by
  obtain ⟨readings, hv⟩ := hv
  exact (liveCatch_seen inserted err hv).mono fun w result hw => .inl ⟨readings, hw.1⟩

/-- The baseline is the first reading. -/
theorem insertStage_seen (hv : Seen v.history [] []) :
    FillEnds (fun h baseline => ∃ pre : Int × Int, baseline.output = pre.2 ∧
        Seen h [ownReading d intent (.ok pre)] [])
      (fun h _ => ∃ readings, Seen h readings [])
      (insertStage d intent opts tradeId at_ reservationId) v := by
  have hthrown : ∀ {h : List (Entry interface)} {rs}, Seen h rs [] → ∃ readings, Seen h readings [] :=
    fun h => ⟨_, h⟩
  refine Task.ends_bind.mpr ((readPair_seen hv).imp (fun w pre hw => ?_) fun w e hw => hthrown hw)
  refine Task.ends_bind.mpr ((fill_of_quiet quiet_readPosition hw).imp (fun u prePosition hu => ?_)
    fun u e hu => hthrown hu)
  refine Task.ends_bind.mpr (Task.ends_ofExcept.mpr ⟨fun _ _ => ?_, fun _ _ => hthrown hu⟩)
  refine Task.ends_bind.mpr ⟨trivial, fun r _ => ?_⟩
  have hpush := hu.push_silent (o := .insertTrade ⟨tradeId, opts.idempotencyKey, intent.input.mint,
    intent.outputMint, intent.input.amount, intent.lastValidBlockHeight, at_⟩ reservationId) trivial r
  cases r with
  | ok _ => exact ⟨pre, rfl, hpush⟩
  | error e => exact hthrown hpush

/-- How the code after the inserted row throws: without a confirmation, or on the second
reading. -/
def ThrownWith (d : Deps) (intent : TradeIntent) (pre : Int × Int) (h : List (Entry interface))
    (err : KernelError) : Prop :=
  (∃ readings, Seen h readings []) ∨ ∃ signature,
    Seen h [ownReading d intent (.ok pre), ownReading d intent (.error err)] [signature]

theorem unconfirmed_judged {status : ConfirmStatus}
    (hv : Seen v.history rs []) :
    FillEnds (Judged d intent) (ThrownWith d intent pre)
      (unconfirmed tradeId reservationId status) v := by
  refine releaseIfHeld_seen hv fun hw => fill_now hw fun failedAt w hw => ?_
  refine fill_store trivial hw fun hw => fill_now hw fun journaledAt w hw => ?_
  exact fill_store trivial hw fun hw => .inl ⟨rs, hw⟩

/-- A swap is settled on the difference of the two readings. -/
theorem settle_seen (htoken : settleModeFor intent.kind = .tokenDelta) (hv : Seen v.history rs cs)
    (outputDelta : Int) (prePosition : Option Int) :
    FillEnds (fun h settlement => Seen h rs cs ∧ settlement = tokenSettlement intent outputDelta)
      (fun _ _ => False) (settle d intent outputDelta prePosition) v := by
  have href : positionRef d intent = none := by
    unfold positionRef
    rw [htoken]
    split <;> simp_all
  unfold settle
  rw [href]
  exact ⟨hv, rfl⟩

theorem confirmed_judged {signature : String} (htoken : settleModeFor intent.kind = .tokenDelta)
    (hb : baseline.output = pre.2)
    (hv : Seen v.history [ownReading d intent (.ok pre)] [signature]) :
    FillEnds (Judged d intent) (ThrownWith d intent pre)
      (confirmed d intent tradeId signature reservationId baseline) v := by
  refine Task.ends_bind.mpr ((readPair_seen hv).imp (fun w post hw => ?_)
    fun w e hw => .inr ⟨signature, hw⟩)
  refine Task.ends_bind.mpr ((settle_seen htoken hw _ _).imp ?_ fun w e hw => hw.elim)
  rintro w settlement ⟨hw, rfl⟩
  refine consumeIfHeld_seen hw fun hw => fill_now hw fun confirmedAt w hw => ?_
  refine fill_store trivial hw fun hw => fill_now hw fun journaledAt w hw => ?_
  refine fill_store trivial hw fun hw => .inr ⟨pre, .ok post, signature, hw, ?_⟩
  simp only [ReportsShortfall, FallsShort, tokenSettlement, hb]
  split <;> simp_all

theorem confirmStage_judged {signature : String}
    (htoken : settleModeFor intent.kind = .tokenDelta) (hb : baseline.output = pre.2)
    (hv : Seen v.history [ownReading d intent (.ok pre)] []) :
    FillEnds (Judged d intent) (ThrownWith d intent pre)
      (confirmStage d intent tradeId signature reservationId baseline) v := by
  refine Task.ends_bind.mpr ⟨trivial, fun r _ => ?_⟩
  have hpush := hv.push ⟨.confirm signature intent.lastValidBlockHeight, r⟩
  cases r with
  | error e => exact .inl ⟨_, hpush⟩
  | ok status =>
    cases status with
    | confirmed => exact confirmed_judged htoken hb hpush
    | expired => exact unconfirmed_judged hpush
    | failed => exact unconfirmed_judged hpush

theorem sendStage_judged (htoken : settleModeFor intent.kind = .tokenDelta)
    (hb : baseline.output = pre.2) (hv : Seen v.history [ownReading d intent (.ok pre)] []) :
    FillEnds (Judged d intent) (ThrownWith d intent pre)
      (sendStage d intent opts tradeId at_ reservationId baseline) v := by
  refine Task.ends_bind.mpr ((fill_of_quiet (quiet_signStage _) hv).imp (fun w signed hw => ?_)
    fun w e hw => .inl ⟨_, hw⟩)
  refine Task.ends_bind.mpr ((fill_of_quiet (quiet_broadcastStage _) hw).imp
    (fun w signature hw => ?_) fun w e hw => .inl ⟨_, hw⟩)
  exact confirmStage_judged htoken hb hw

theorem liveClaimed_judged (htoken : settleModeFor intent.kind = .tokenDelta)
    (hv : Seen v.history [] []) :
    FillEnds (Judged d intent) (fun _ _ => False) (liveClaimed d intent opts tradeId at_) v := by
  refine Task.ends_orCatch.mpr ((fill_of_quiet quiet_reserveStage hv).imp (fun w rid hw => ?_)
    fun w e hw => liveCatch_judged false e ⟨_, hw⟩)
  refine Task.ends_orCatch.mpr ((insertStage_seen hw).imp ?_ fun w e hw =>
    liveCatch_judged false e hw)
  rintro w baseline ⟨pre, hb, hw⟩
  refine Task.ends_orCatch.mpr ((sendStage_judged htoken hb hw).imp (fun w result hw => hw) ?_)
  rintro w e (hw | ⟨signature, hw⟩)
  · exact liveCatch_judged true e hw
  · exact (liveCatch_seen true e hw).mono fun w result hw =>
      .inr ⟨pre, .error e, signature, hw.1, hw.2⟩

theorem live_judged (htoken : settleModeFor intent.kind = .tokenDelta) (hv : Seen v.history [] []) :
    FillEnds (Judged d intent) (fun _ _ => False) (live d intent opts) v := by
  refine fill_now hv fun at_ w hw => Task.ends_bind.mpr ⟨trivial, fun tradeId _ => ?_⟩
  have hw := hw.push_silent (o := .newTradeId) trivial tradeId
  refine Task.ends_bind.mpr ⟨trivial, fun claimed _ => ?_⟩
  have hw := hw.push_silent (o := .claimIdempotency opts.idempotencyKey tradeId at_) trivial claimed
  cases claimed with
  | true => exact liveClaimed_judged htoken hw
  | false =>
    refine Task.ends_bind.mpr ⟨trivial, fun prior _ => .inl ⟨[], ?_⟩⟩
    exact hw.push_silent (o := .getTradeByIdempotency opts.idempotencyKey) trivial prior

theorem preview_judged (hv : Seen v.history [] []) :
    FillEnds (Judged d intent) (fun _ _ => False) (preview d intent opts) v := by
  refine Task.ends_bind.mpr ⟨trivial, fun tradeId _ => ?_⟩
  have hw := hv.push_silent (o := .newTradeId) trivial tradeId
  exact Task.ends_orCatch.mpr ((fill_of_quiet quiet_previewChecks hw).imp
    (fun w result hw => .inl ⟨[], hw⟩) fun w e hw => .inl ⟨[], hw⟩)

/-- A swap that was confirmed is judged by its two readings. -/
theorem fill_judged (d : Deps) (r : Request) (htoken : settleModeFor r.intent.kind = .tokenDelta) :
    (execute d r).Safe fillDiscipline
      (fun w res => ∃ result, res = .ok result ∧ Judged d r.intent w.history result) (.start r) := by
  have hstart : Seen (Trace.start r : Trace interface Request).history [] [] := ⟨rfl, rfl⟩
  have hends : FillEnds (Judged d r.intent) (fun _ _ => False)
      (if r.opts.dryRun then preview d r.intent r.opts else live d r.intent r.opts) (.start r) := by
    split
    · exact preview_judged hstart
    · exact live_judged htoken hstart
  refine Prog.Safe.mono hends fun w res hres => ?_
  cases res with
  | ok result => exact ⟨result, rfl, hres⟩
  | error e => exact hres.elim

end Stages

/-! ### Gateway calls next to the chain -/

/-- A call of `execute`. -/
abbrev GatewayCall := Call interface Request (Except KernelError ExecuteResult)

/-- The gateway calls and the chain. -/
structure World where
  pool : Pool interface KernelStore Request (Except KernelError ExecuteResult)
  chain : List Movement
  /-- which call read its balances, with how much of the chain behind it; kept for the
  statements, the program does not see it -/
  reads : List (Nat × Nat)

/-- A gateway call moves on, or a balance moves on chain. -/
inductive Happening where
  | gateway (e : Event interface Request)
  | moved (m : Movement)

namespace World

/-- Nothing has been called, and nothing is owned. -/
def start : World := ⟨gatewayStart, [], []⟩

/-- The reading an event makes. -/
def readOf (w : World) : Event interface Request → List (Nat × Nat)
  | .step t _ =>
    match w.pool.next? t with
    | some (.readPair _ _ _) => [(t, w.chain.length)]
    | _ => []
  | _ => []

def step (d : Deps) (w : World) : Happening → World
  | .gateway e =>
    { w with pool := w.pool.apply machine (execute d) e, reads := w.reads ++ w.readOf e }
  | .moved m => { w with chain := w.chain ++ [m] }

/-- How much of the chain each reading of a call had behind it. -/
def moments (w : World) (t : Nat) : List Nat :=
  w.reads.filterMap fun x => if x.1 = t then some x.2 else none

end World

/-- The reader says what the wallet holds of the output mint, or throws an error of its own. Of
the input nothing is asked. -/
def AnswersExactly (chain : List Movement) (owner output : String) :
    Except KernelError (Int × Int) → Prop
  | .ok pair => pair.2 = balance owner output chain
  | .error (.other _) => True
  | .error (.guard _ _) => False

instance decidableAnswersExactly (chain : List Movement) (owner output : String)
    (r : Except KernelError (Int × Int)) : Decidable (AnswersExactly chain owner output r) :=
  match r with
  | .ok pair => inferInstanceAs (Decidable (pair.2 = balance owner output chain))
  | .error (.other _) => inferInstanceAs (Decidable True)
  | .error (.guard _ _) => inferInstanceAs (Decidable False)

/-- A balance that is read is read exactly. -/
def World.Exact (w : World) : Happening → Prop
  | .gateway (.step t ans) =>
    match w.pool.next? t with
    | some (.readPair owner input output) =>
      AnswersExactly w.chain owner output (ans (.readPair owner input output))
    | _ => True
  | _ => True

instance (w : World) (h : Happening) : Decidable (w.Exact h) := by
  unfold World.Exact
  split
  · split
    · exact decidableAnswersExactly _ _ _ _
    · infer_instance
  · infer_instance

/-- Any interleaving of gateway calls and movements on chain. -/
def worldRun (d : Deps) (hs : List Happening) : World := Transition.run (World.step d) .start hs

/-! ### Every reading is of its moment -/

/-- A reading and the part of the chain it was made on. -/
def Recorded (chain : List Movement) (r : Reading) (n : Nat) : Prop :=
  n ≤ chain.length ∧ AnswersExactly (chain.take n) r.owner r.mint r.answer

/-- The readings of the calls are those of the world, each exact at its moment. -/
structure World.Sound (w : World) : Prop where
  recorded : ∀ (t : Nat) (c : GatewayCall), w.pool.calls[t]? = some c →
    List.Forall₂ (Recorded w.chain) (c.history.filterMap reading?) (w.moments t)
  ordered : w.reads.Pairwise fun x y => x.2 ≤ y.2
  made : ∀ x ∈ w.reads, x.1 < w.pool.calls.length ∧ x.2 ≤ w.chain.length

section Sound

variable {d : Deps} {w : World} {t n : Nat} {c : GatewayCall}

theorem Recorded.append {chain : List Movement} {r : Reading} (h : Recorded chain r n)
    (m : Movement) : Recorded (chain ++ [m]) r n := by
  refine ⟨by rw [List.length_append]; exact Nat.le_add_right_of_le h.1, ?_⟩
  rw [List.take_append_of_le_length h.1]
  exact h.2

/-- What one more reading adds to the moments of a call. -/
theorem World.moments_append (w : World) (l : List (Nat × Nat))
    (pool : Pool interface KernelStore Request (Except KernelError ExecuteResult))
    (chain : List Movement) : World.moments ⟨pool, chain, w.reads ++ l⟩ t =
      w.moments t ++ l.filterMap fun x => if x.1 = t then some x.2 else none :=
  List.filterMap_append

theorem World.moments_eq_nil (h : ∀ x ∈ w.reads, x.1 ≠ t) : w.moments t = [] := by
  rw [moments, List.filterMap_eq_nil_iff]
  intro x hx
  simp [h x hx]

theorem World.Sound.start : World.start.Sound where
  recorded t c hc := by simp [World.start, gatewayStart, Pool.start] at hc
  ordered := List.Pairwise.nil
  made x hx := by simp [World.start] at hx

/-- The moments of a call are in order. -/
theorem World.Sound.moments_le (hw : w.Sound) {i j : Nat} (h : w.moments t = [i, j]) : i ≤ j := by
  have hpair : (w.moments t).Pairwise (· ≤ ·) := by
    refine List.Pairwise.filterMap _ (fun x y hxy n hn k hk => ?_) hw.ordered
    have hn := Option.some_inj.mp (Option.ite_none_right_eq_some.mp hn).2
    have hk := Option.some_inj.mp (Option.ite_none_right_eq_some.mp hk).2
    omega
  rw [h] at hpair
  simpa using hpair

/-- What a body's next call records. -/
theorem World.readOf_eq {o : Op} (hnext : w.pool.next? t = some o) (ans : ∀ o, interface.Ans o)
    (r : o.Res) :
    w.readOf (.step t ans) = ((reading? ⟨o, r⟩).map fun _ => (t, w.chain.length)).toList := by
  simp only [World.readOf, hnext]
  cases o <;> rfl

theorem World.Sound.spawn (hw : w.Sound) (r : Request) :
    (w.step d (.gateway (.spawn r))).Sound := by
  have hreads : w.step d (.gateway (.spawn r)) =
      { w with pool := w.pool.spawn (execute d) r } := by simp [World.step, World.readOf, Pool.apply]
  rw [hreads]
  refine ⟨fun t c hc => ?_, hw.ordered, fun x hx => ?_⟩
  · rcases getElem?_append_singleton_cases hc with ⟨rfl, rfl⟩ | hc
    · -- The new call has read nothing: the readings so far are of calls before it.
      have hnil : w.moments w.pool.calls.length = [] :=
        World.moments_eq_nil fun x hx => Nat.ne_of_lt (hw.made x hx).1
      exact hnil ▸ List.Forall₂.nil
    · exact hw.recorded t c hc
  · obtain ⟨hcall, hchain⟩ := hw.made x hx
    exact ⟨by simp only [Pool.spawn, List.length_append, List.length_singleton]; omega, hchain⟩

theorem World.Sound.kill (hw : w.Sound) (u : Nat) : (w.step d (.gateway (.kill u))).Sound := by
  have hreads : w.step d (.gateway (.kill u)) = { w with pool := w.pool.kill u } := by
    simp [World.step, World.readOf, Pool.apply]
  rw [hreads]
  refine ⟨fun t c hc => ?_, hw.ordered, fun x hx => ?_⟩
  · obtain ⟨c', hc', -, hhistory, -⟩ := Pool.getElem?_kill hc
    rw [hhistory]
    exact hw.recorded t c' hc'
  · simpa [Pool.kill] using hw.made x hx

/-- A call that is made is recorded as it was answered. -/
theorem World.Sound.call (hw : w.Sound) {ans : ∀ o, interface.Ans o} {o : Op}
    {k : o.Res → Prog interface (Except KernelError ExecuteResult)}
    (hexact : w.Exact (.gateway (.step t ans))) (hc : w.pool.calls[t]? = some c)
    (hrest : c.rest = some (.call o k)) : (w.step d (.gateway (.step t ans))).Sound := by
  have hnext := Pool.next?_eq hc hrest
  have hlt : t < w.pool.calls.length := (List.getElem?_eq_some_iff.mp hc).1
  generalize hr : (machine.handle o w.pool.shared (ans o)).1 = r
  have hstep : w.step d (.gateway (.step t ans)) =
      { pool := ⟨(machine.handle o w.pool.shared (ans o)).2,
          w.pool.calls.set t (c.advance o k r)⟩, chain := w.chain,
        reads := w.reads ++ ((reading? ⟨o, r⟩).map fun _ => (t, w.chain.length)).toList } := by
    simp only [World.step, World.readOf_eq hnext ans r, Pool.apply, Pool.step, hc, hrest, hr]
  -- what was read is how the chain is now
  have hrecorded : ∀ reading ∈ reading? ⟨o, r⟩, Recorded w.chain reading w.chain.length := by
    intro reading hreading
    cases o with
    | readPair owner input output =>
      obtain rfl := Option.some_inj.mp hreading
      refine ⟨le_refl _, ?_⟩
      simp only [World.Exact, hnext] at hexact
      rw [List.take_length, ← hr]
      exact hexact
    | _ => simp [reading?] at hreading
  rw [hstep]
  refine ⟨fun u c' hc' => ?_, ?_, fun x hx => ?_⟩
  · -- the reading is added to those of this call, the others keep theirs
    rw [World.moments_append]
    rcases getElem?_set_cases hc' with ⟨rfl, rfl⟩ | ⟨hut, hc'⟩
    · simp only [Call.advance, List.filterMap_append]
      refine List.rel_append (hw.recorded u c hc) ?_
      cases hreading : reading? ⟨o, r⟩ with
      | none => simp [hreading]
      | some reading => simpa [hreading] using hrecorded reading hreading
    · have hnone : (((reading? ⟨o, r⟩).map fun _ => (t, w.chain.length)).toList.filterMap
          fun x => if x.1 = u then some x.2 else none) = [] := by
        cases reading? ⟨o, r⟩ <;> simp [Ne.symm hut]
      rw [hnone, List.append_nil]
      exact hw.recorded u c' hc'
  · refine List.pairwise_append.mpr ⟨hw.ordered, ?_, fun x hx y hy => ?_⟩
    · cases reading? ⟨o, r⟩ <;> simp
    · obtain rfl : y = (t, w.chain.length) := by
        revert hy
        cases reading? ⟨o, r⟩ <;> simp
      exact (hw.made x hx).2
  · rw [List.length_set]
    rcases List.mem_append.mp hx with hx | hx
    · exact hw.made x hx
    · obtain rfl : x = (t, w.chain.length) := by
        revert hx
        cases reading? ⟨o, r⟩ <;> simp
      exact ⟨hlt, le_refl _⟩

theorem World.Sound.step (hw : w.Sound) {h : Happening} (hexact : w.Exact h) :
    (w.step d h).Sound := by
  cases h with
  | moved m =>
    refine ⟨fun t c hc => (hw.recorded t c hc).imp fun _ _ hr => hr.append m, hw.ordered,
      fun x hx => ⟨(hw.made x hx).1, ?_⟩⟩
    simp only [World.step, List.length_append]
    exact Nat.le_add_right_of_le (hw.made x hx).2
  | gateway e =>
    cases e with
    | spawn r => exact hw.spawn r
    | kill u => exact hw.kill u
    | step t ans =>
      cases hnext : w.pool.next? t with
      | none =>
        -- a call that waits for nothing is not stepped
        have hsame : w.step d (.gateway (.step t ans)) = w := by
          simp [World.step, World.readOf, hnext, Pool.apply, Pool.step_eq_self hnext ans]
        rw [hsame]
        exact hw
      | some o =>
        obtain ⟨c, k, hc, hrest⟩ := Pool.exists_of_next? hnext
        exact hw.call hexact hc hrest

theorem worldRun_sound {hs : List Happening}
    (hexact : Transition.Meets (World.step d) World.Exact .start hs) : (worldRun d hs).Sound :=
  Transition.run_induction (fun _ _ hw hh => hw.step hh) hexact .start

end Sound

/-! ### The verdict -/

/-- The call was told of the transaction and returned the result. -/
structure GatewayCall.Confirmed (c : GatewayCall) (signature : String) (result : ExecuteResult) :
    Prop where
  token : settleModeFor c.request.intent.kind = .tokenDelta
  confirmed : signature ∈ c.history.filterMap confirmation?
  returned : c.result? = some (.ok result)

/-- What the transaction's swap gave the wallet of the output mint. -/
def World.creditOf (d : Deps) (w : World) (c : GatewayCall) (signature : String) : Int :=
  credited d.walletPubkey c.request.intent.outputMint signature w.chain

/-- What else moved the output balance from moment `i` to moment `j`, and what the swap moved
before or after. -/
def World.disturbance (d : Deps) (w : World) (c : GatewayCall) (signature : String) (i j : Nat) :
    Int :=
  elsewhere d.walletPubkey c.request.intent.outputMint signature ((w.chain.take j).drop i) -
    (credited d.walletPubkey c.request.intent.outputMint signature (w.chain.take i) +
      credited d.walletPubkey c.request.intent.outputMint signature (w.chain.drop j))

/-- One of the call's readings threw. -/
def GatewayCall.readLost (c : GatewayCall) : Bool :=
  (c.history.filterMap reading?).any fun r => !r.answer.isOk

/-- Nothing but the swap decides on which side of the committed minimum the balance ends up: a
full fill has room for what was taken, a short one is not made up for, and what could not be
read back was filled. -/
def World.Undisturbed (d : Deps) (w : World) (t : Nat) (c : GatewayCall) (signature : String) :
    Prop :=
  let short := c.request.intent.quote.minOutAmount - w.creditOf d c signature
  match w.moments t with
  | [i, j] =>
    if c.readLost then short ≤ 0
    else if 0 < short then w.disturbance d c signature i j < short
    else short ≤ w.disturbance d c signature i j
  | _ => True

instance (d : Deps) (w : World) (t : Nat) (c : GatewayCall) (signature : String) :
    Decidable (w.Undisturbed d t c signature) := by
  unfold World.Undisturbed
  dsimp only
  split <;> infer_instance

section Verdict

variable {d : Deps} {w : World} {t : Nat} {c : GatewayCall} {signature : String}

/-- The difference of the two readings: what the swap gave, and what else there was. -/
theorem World.balance_between (d : Deps) (w : World) (c : GatewayCall) (signature : String)
    {i j : Nat} (hij : i ≤ j) :
    balance d.walletPubkey c.request.intent.outputMint (w.chain.take j) -
        balance d.walletPubkey c.request.intent.outputMint (w.chain.take i) =
      w.creditOf d c signature + w.disturbance d c signature i j := by
  generalize howner : d.walletPubkey = owner
  generalize hmint : c.request.intent.outputMint = mint
  have hbalance : balance owner mint (w.chain.take j) =
      balance owner mint (w.chain.take i) + balance owner mint ((w.chain.take j).drop i) :=
    moved_take_drop hij
  have hinside : credited owner mint signature (w.chain.take j) =
      credited owner mint signature (w.chain.take i) +
        credited owner mint signature ((w.chain.take j).drop i) := moved_take_drop hij
  have hwhole : credited owner mint signature w.chain =
      credited owner mint signature (w.chain.take j) +
        credited owner mint signature (w.chain.drop j) := by
    rw [credited, ← moved_append, List.take_append_drop]
  have hsplit := balance_eq ((w.chain.take j).drop i) owner mint signature
  simp only [World.creditOf, World.disturbance, howner, hmint]
  omega

/-- The pool of a world is a run of gateway calls. -/
theorem worldRun_pool (d : Deps) (w : World) (hs : List Happening) :
    ∃ es, (Transition.run (World.step d) w hs).pool = w.pool.run machine (execute d) es := by
  induction hs generalizing w with
  | nil => exact ⟨[], rfl⟩
  | cons h hs ih =>
    obtain ⟨es, hes⟩ := ih (w.step d h)
    cases h with
    | moved m => exact ⟨es, hes⟩
    | gateway e => exact ⟨e :: es, hes⟩

/-- A call that was told of a confirmation has settled on its two readings. -/
theorem GatewayCall.Confirmed.judged {hs : List Happening} {result : ExecuteResult}
    (hc : (worldRun d hs).pool.calls[t]? = some c) (hdone : c.Confirmed signature result) :
    ∃ pre post, c.history.filterMap reading? =
        [ownReading d c.request.intent (.ok pre), ownReading d c.request.intent post] ∧
      (ReportsShortfall result ↔ FallsShort c.request.intent pre post) := by
  obtain ⟨es, hes⟩ := worldRun_pool d .start hs
  rw [worldRun, hes] at hc
  have hreach :=
    Pool.replayed_run KernelStore.empty es t c _ hc (Call.result?_eq_some.mp hdone.returned)
  obtain ⟨_, heq, hjudged⟩ := (fill_judged d c.request hdone.token).reaches hreach
  obtain rfl := Except.ok.inj heq
  rcases hjudged with ⟨readings, hseen⟩ | ⟨pre, post, signature', hseen, hiff⟩
  · have hmem := hdone.confirmed
    rw [hseen.confirmations] at hmem
    simp at hmem
  · exact ⟨pre, post, hseen.readings, hiff⟩

/-- **A settlement verdict is about the transaction itself exactly if it was undisturbed.** In
any interleaving of gateway calls with movements on chain, with a reader that is exact or throws,
a confirmed swap is reported as a shortfall iff its transaction credited the wallet with less
than the committed minimum, provided that what else moved the balance between the two readings
(fees, rent, other trades) does not carry it over that minimum; and only then. -/
theorem verdict_iff_undisturbed (d : Deps) (hs : List Happening)
    (hexact : Transition.Meets (World.step d) World.Exact .start hs) (t : Nat) (c : GatewayCall)
    (signature : String) (result : ExecuteResult)
    (hc : (worldRun d hs).pool.calls[t]? = some c) (hdone : c.Confirmed signature result) :
    (ReportsShortfall result ↔
        (worldRun d hs).creditOf d c signature < c.request.intent.quote.minOutAmount) ↔
      (worldRun d hs).Undisturbed d t c signature := by
  obtain ⟨pre, post, hreadings, hiff⟩ := hdone.judged hc
  have hsound := worldRun_sound hexact
  have hrecorded := hsound.recorded t c hc
  rw [hreadings] at hrecorded
  generalize worldRun d hs = w at *
  obtain ⟨i, j, hmoments, ⟨-, hpre⟩, -, hpost⟩ : ∃ i j, w.moments t = [i, j] ∧
      Recorded w.chain (ownReading d c.request.intent (.ok pre)) i ∧
      Recorded w.chain (ownReading d c.request.intent post) j := by
    obtain ⟨i, l, hi, hrest, hl⟩ := List.forall₂_cons_left_iff.mp hrecorded
    obtain ⟨j, l', hj, hnil, hl'⟩ := List.forall₂_cons_left_iff.mp hrest
    rw [List.forall₂_nil_left_iff] at hnil
    exact ⟨i, j, by rw [hl, hl', hnil], hi, hj⟩
  have hbetween := w.balance_between d c signature (hsound.moments_le hmoments)
  rw [hiff]
  simp only [World.Undisturbed, hmoments, GatewayCall.readLost, hreadings]
  cases post with
  | ok pair =>
    have hpre : pre.2 = balance d.walletPubkey c.request.intent.outputMint (w.chain.take i) := hpre
    have hpair : pair.2 =
        balance d.walletPubkey c.request.intent.outputMint (w.chain.take j) := hpost
    simp only [FallsShort, ownReading, Except.isOk, Except.toBool, List.any_cons, List.any_nil,
      Bool.not_true, Bool.or_false, Bool.false_eq_true, if_false, hpre, hpair, hbetween]
    split <;> omega
  | error e =>
    -- A reader's own error is no guard's, so what is reported is no shortfall.
    have hnot : ¬ FallsShort c.request.intent pre (.error e) := by
      cases e with
      | guard code message => exact hpost.elim
      | other message => simp [FallsShort, KernelError.codeOr, GuardCode.name]
    simp only [ownReading, Except.isOk, Except.toBool, List.any_cons, List.any_nil, Bool.not_true,
      Bool.not_false, Bool.or_false, Bool.or_true, if_true, hnot, false_iff]
    omega

end Verdict

/-! ### A fee and a neighbour -/

/-- A swap into SOL, quoted at 100 lamports and committed to all of them. -/
def buySol : Request :=
  ⟨{ sampleIntent with input := ⟨USDC_MINT, 1000⟩, outputMint := WSOL_MINT }, ⟨"k", false, true⟩⟩

/-- Every port answers, and the wallet holds `output` of the output mint. -/
def holding (output : Int) : ∀ o : Op, o.Ans
  | .readPair _ _ _ => .ok (10000000, output)
  | o => sampleAnswers "a" 0 (.ok .confirmed) o

/-- One call from the signature of its transaction to its return; in between the transaction
gives the wallet 100 of the output mint and costs it 5000 lamports. -/
def landing (r : Request) (held after : Int) : List Happening :=
  .moved ⟨"wallet", r.intent.outputMint, held, .other⟩ :: .gateway (.spawn r) ::
    List.replicate 15 (.gateway (.step 0 (holding held))) ++
    [.moved ⟨"wallet", r.intent.outputMint, 100, .swap "sig"⟩,
      .moved ⟨"wallet", WSOL_MINT, -5000, .networkFee "sig"⟩] ++
    List.replicate 20 (.gateway (.step 0 (holding after)))

/-- A swap whose wallet pays no fee in the output mint is judged by its transaction. -/
theorem verdict_iff_undisturbed_usdc : ∃ c ∈ (worldRun sampleDeps
      (landing (sampleRequest "k") 0 100)).pool.calls, ∃ result, GatewayCall.Confirmed c "sig" result ∧
    (ReportsShortfall result ↔ (worldRun sampleDeps
      (landing (sampleRequest "k") 0 100)).creditOf sampleDeps c "sig" < 100) := by
  have hrun : ∃ c ∈ (worldRun sampleDeps (landing (sampleRequest "k") 0 100)).pool.calls,
      c.request.intent = sampleIntent ∧ "sig" ∈ c.history.filterMap confirmation? ∧
      (∃ r ∈ c.result?.toList, r.isOk) ∧ (worldRun sampleDeps
        (landing (sampleRequest "k") 0 100)).Undisturbed sampleDeps 0 c "sig" := by decide +kernel
  -- there is one request
  have hone : (worldRun sampleDeps (landing (sampleRequest "k") 0 100)).pool.calls.length = 1 := by
    decide +kernel
  obtain ⟨c, hmem, hrequest, hsig, ⟨r, hr, hok⟩, hundisturbed⟩ := hrun
  obtain ⟨t, ht⟩ := List.mem_iff_getElem?.mp hmem
  obtain rfl : t = 0 := by
    have := (List.getElem?_eq_some_iff.mp ht).1
    omega
  cases r with
  | error e => simp [Except.isOk, Except.toBool] at hok
  | ok result =>
    have hdone : GatewayCall.Confirmed c "sig" result :=
      ⟨by rw [hrequest]; rfl, hsig, by simpa using hr⟩
    have hmin : c.request.intent.quote.minOutAmount = 100 := by
      rw [hrequest]
      rfl
    refine ⟨c, hmem, result, hdone, ?_⟩
    have h := (verdict_iff_undisturbed sampleDeps (landing (sampleRequest "k") 0 100)
      (by decide +kernel) 0 c "sig" result ht hdone).mpr hundisturbed
    rwa [hmin] at h

/-- A transaction that credits the wallet with all of the committed minimum in SOL is reported
as a shortfall, since the wallet paid its fee in SOL too. -/
theorem fee_reported_as_shortfall : ¬ ∀ (d : Deps) (hs : List Happening),
    Transition.Meets (World.step d) World.Exact .start hs →
    ∀ c ∈ (worldRun d hs).pool.calls, ∀ signature result,
      GatewayCall.Confirmed c signature result →
      (ReportsShortfall result ↔
        (worldRun d hs).creditOf d c signature < c.request.intent.quote.minOutAmount) := by
  intro h
  have hrun : ∃ c ∈ (worldRun sampleDeps (landing buySol 10000000 9995100)).pool.calls,
      settleModeFor c.request.intent.kind = .tokenDelta ∧
      "sig" ∈ c.history.filterMap confirmation? ∧
      (∃ r ∈ c.result?.toList, ∃ result ∈ r.toOption.toList, ReportsShortfall result) ∧
      ¬ (worldRun sampleDeps (landing buySol 10000000 9995100)).creditOf sampleDeps c "sig" <
        c.request.intent.quote.minOutAmount := by decide +kernel
  obtain ⟨c, hmem, htoken, hsig, ⟨r, hr, result, hresult, hshort⟩, hfull⟩ := hrun
  obtain rfl : r = .ok result := by
    cases r with
    | error e => simp [Except.toOption] at hresult
    | ok a => simpa [Except.toOption, eq_comm] using hresult
  exact hfull ((h sampleDeps _ (by decide +kernel) c hmem "sig" result
    ⟨htoken, hsig, by simpa using hr⟩).mp hshort)

end AriOs.Kernel
