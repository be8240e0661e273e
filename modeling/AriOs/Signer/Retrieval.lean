import AriOs.Signer.Settlement
import AriOs.Signer.SingleUse

/-!
# Looking up a signature that was handed out

A record only moves forward: from `claimed` to `signed`, from there to `broadcast` or
`reconciliation`, and on to what the cluster says. As long as it is in `signed`, its data are the
ones the signature was recorded with, and the lookup finds it. The broadcast writes other data,
without the hash of the request, and from then on the lookup refuses.
-/

namespace AriOs.Signer

open AriOs.Async AriOs.Js AriOs.Storage Daemon

/-! ### The lookup -/

/-- No statement of the store fails. -/
def storeAnswers : ∀ o, daemon.Ans o
  | .inl (.get _) | .inl (.consume _ _) | .inl (.transition _ _ _ _) => (none : Option String)
  | .inl .now => JsNumber.nan
  | .inl (.verify _ _ _) => (.error "unavailable" : Except String Bool)
  | .inl .blockHeight => (.error "unavailable" : Except String JsNumber)
  | .inl (.signMessage _) => (.error "unavailable" : Except String Bytes)
  | .inr (.list _) | .inr (.recoverSigned _) => (none : Option String)
  | .inr (.sendTransaction _) => (.error "unavailable" : Except String JsValue)
  | .inr (.getSignatureStatus _) => (.error "unavailable" : Except String (Option ClusterStatus))
  | .inr .getBlockHeight => (.error "unavailable" : Except String JsValue)

/-- `result(id, requestHash)` on a store. -/
def lookup (s : ReplayStore) (id requestHash : String) : Except String LookupResult :=
  ((result id requestHash false).run.exec daemonMachine (fun _ => storeAnswers) 0 s).1

section Lookup

variable {s : ReplayStore} {id requestHash : String} {row : ReplayRow}

theorem exec_stored (h : s.find? id = some row) (hhash : requestHash ≠ "") {n : Nat}
    {env : Nat → ∀ o, interface.Ans o} (henv : env n (.get id) = (none : Option String)) :
    (stored id requestHash).run.exec machine env n s =
      (storedResult row requestHash, n + 1, s) := by
  have hcheck : throwIf (requestHash = "") "request_hash_invalid" = .ok () := by
    simp [throwIf, hhash]
  have hget : (Signing.get id).run.exec machine env n s = (.ok (some row), n + 1, s) := by
    change ((statement s (env n (.get id)) (s.find? id, s)).1, n + 1,
      (statement s (env n (.get id)) (s.find? id, s)).2) = _
    rw [henv, h]
    rfl
  rw [stored, hcheck, Task.exec_bind]
  change Prog.exec machine env (ExceptT.run (Signing.get id >>= _)) n s = _
  rw [Task.exec_bind, hget]
  rfl

theorem lookup_of_find? (h : s.find? id = some row) (hexpired : row.state ≠ .expired)
    (hhash : requestHash ≠ "") :
    lookup s id requestHash = (storedResult row requestHash).map fun
      | none => .notFound
      | some data => .signed data.signature none := by
  unfold lookup result
  have hget : (signer (Signing.get id)).run.exec daemonMachine (fun _ => storeAnswers) 0 s =
      (.ok (some row), 1, s) := by
    rw [← h]
    rfl
  rw [Task.exec_bind, hget]
  have hlive : ¬ (some row).map ReplayRow.state = some .expired := by simpa using hexpired
  simp only [if_neg hlive]
  have hstored : (signer (stored id requestHash)).run.exec daemonMachine (fun _ => storeAnswers) 1 s =
      (storedResult row requestHash, 2, s) :=
    Task.exec_inl.trans (exec_stored h hhash rfl)
  rw [Task.exec_bind, hstored]
  cases storedResult row requestHash with
  | error e => rfl
  | ok data => cases data <;> rfl

end Lookup

/-! ### Records that were signed -/

/-- A state that only signed records come to. -/
def ExecutionState.PastSigned (s : ExecutionState) : Prop :=
  s = .broadcast ∨ s = .reconciliation ∨ s = .confirmed ∨ s = .reverted ∨ s = .dropped

/-- The record of `id` was `signed` with `data`, and still is if it is `signed`. -/
def Since (s : ReplayStore) (id : String) (data : Option ReplayData) : Prop :=
  ∃ row, s.find? id = some row ∧
    ((row.state = .signed ∧ row.data = data) ∨ row.state.PastSigned)

/-- The call saw a record `signed`, or made it so. -/
def signedFact : Entry daemon → Option (String × Option ReplayData)
  | ⟨.inl (.get id), .ok (some row)⟩ => if row.state = .signed then some (id, row.data) else none
  | ⟨.inl (.transition id source target data), .ok true⟩ =>
    if source = .claimed ∧ target = .signed then some (id, data) else none
  | _ => none

/-- A move that goes forward. -/
def Forward (source target : ExecutionState) : Prop :=
  (source = .claimed ∧ target.Settled) ∨
    ((source = .signed ∨ source.PastSigned) ∧ target.PastSigned)

/-- What an operation promises before a call: records only move forward. -/
def MovesForward : daemon.Op → Prop
  | .inl (.transition _ source target _) => Forward source target
  | _ => True

/-- What an operation relies on: the rows it lists are in the states it asked for. -/
def ListsStates : Entry daemon → Prop
  | ⟨.inr (.list states), .ok rows⟩ => ∀ row ∈ rows, row.state ∈ states
  | _ => True

def progress : Discipline daemon (Trace daemon Request) where
  upd := Trace.push
  pre _ := MovesForward
  adm _ := ListsStates

theorem progress_view (c : Call daemon Request (Except String Response)) :
    c.view progress Trace.start = ⟨c.request, c.history⟩ := Call.view_of_push rfl c

/-- What the operation has seen `signed` was so. -/
def Recorded (s : ReplayStore) (v : Trace daemon Request) : Prop :=
  ∀ e ∈ v.history, ∀ id data, signedFact e = some (id, data) → Since s id data

section Records

variable {s : ReplayStore} {id : String} {data : Option ReplayData}

/-- A record that was signed only moves on. -/
theorem Since.transition (h : Since s id data) {k : String} {source target : ExecutionState}
    {written : Option ReplayData} (hforward : Forward source target) :
    Since (s.transition k source target written).2 id data := by
  obtain ⟨row, hrow, hstate⟩ := h
  refine ⟨_, find?_transition.trans (by rw [hrow, Option.map_some]), ?_⟩
  split
  · rename_i hmoved
    right
    rcases hforward with ⟨rfl, -⟩ | ⟨-, htarget⟩
    · -- what is in `claimed` was never signed
      rw [hmoved.2] at hstate
      simp [ExecutionState.PastSigned] at hstate
    · exact htarget
  · exact hstate

theorem find?_recoverSigned {k : String} :
    (s.recoverSigned k).2.find? id = (s.find? id).map fun row =>
      if row.id = k ∧ row.state = .signed ∧ row.recovered = false then
        { row with recovered := true, version := row.version + 1 } else row := by
  simp [ReplayStore.recoverSigned, Table.find?_update]

theorem Since.recoverSigned (h : Since s id data) (k : String) :
    Since (s.recoverSigned k).2 id data := by
  obtain ⟨row, hrow, hstate⟩ := h
  refine ⟨_, find?_recoverSigned.trans (by rw [hrow, Option.map_some]), ?_⟩
  split <;> exact hstate

theorem Since.handle (h : Since s id data) {o : daemon.Op} (hpre : MovesForward o)
    (a : daemon.Ans o) : Since (daemonMachine.handle o s a).2 id data := by
  have hstatement : ∀ {β : Type} {failure : Option String} {out : β × ReplayStore},
      Since out.2 id data → Since (statement s failure out).2 id data := by
    intro β failure out hout
    cases failure with
    | none => exact hout
    | some e => exact h
  rcases o with o | o
  · cases o with
    | get k => exact hstatement h
    | consume k expiresAt =>
      refine hstatement ?_
      obtain ⟨row, hrow, hstate⟩ := h
      exact ⟨row, find?_consume hrow, hstate⟩
    | transition k source target written => exact hstatement (h.transition hpre)
    | now | verify | blockHeight | signMessage => exact h
  · cases o with
    | list states => exact hstatement h
    | recoverSigned k => exact hstatement (h.recoverSigned k)
    | sendTransaction | getSignatureStatus | getBlockHeight => exact h

/-- A compare-and-set that was won found its record, and wrote it. -/
theorem since_of_transition (hwon : (s.transition id .claimed .signed data).1 = true) :
    Since (s.transition id .claimed .signed data).2 id data := by
  have hcount : s.count (fun r => r.id = id ∧ r.state = .claimed) = 1 := of_decide_eq_true hwon
  have hpos : 0 < s.rows.countP fun r => decide (r.id = id ∧ r.state = .claimed) := by
    rw [Table.count] at hcount
    omega
  obtain ⟨row, hmem, hrow⟩ := List.countP_pos_iff.mp hpos
  obtain ⟨hid, hclaimed⟩ := of_decide_eq_true hrow
  have hfind : s.find? id = some row := Table.find?_eq_some_iff.mpr ⟨hmem, hid⟩
  refine ⟨_, find?_transition.trans (by rw [hfind, Option.map_some, if_pos ⟨hid, hclaimed⟩]), ?_⟩
  exact .inl ⟨rfl, rfl⟩

/-- What a call has just seen or written. -/
theorem since_of_signedFact {o : daemon.Op} (a : daemon.Ans o)
    (hfact : signedFact ⟨o, (daemonMachine.handle o s a).1⟩ = some (id, data)) :
    Since (daemonMachine.handle o s a).2 id data := by
  -- only a read and a transition of the store tell that something was signed
  rcases o with o | o
  · cases o with
    | get k =>
      change Option String at a
      cases a with
      | some e => simp [signedFact, daemonMachine, Machine.sum, machine, statement] at hfact
      | none =>
        change signedFact ⟨.inl (.get k), .ok (s.find? k)⟩ = some (id, data) at hfact
        change Since s id data
        cases hrow : s.find? k with
        | none => simp [signedFact, hrow] at hfact
        | some row =>
          rw [hrow] at hfact
          simp only [signedFact] at hfact
          split at hfact
          · rename_i hsigned
            obtain ⟨rfl, rfl⟩ := Prod.mk.inj (Option.some_inj.mp hfact)
            exact ⟨row, hrow, .inl ⟨hsigned, rfl⟩⟩
          · simp at hfact
    | transition k source target written =>
      change Option String at a
      cases a with
      | some e => simp [signedFact, daemonMachine, Machine.sum, machine, statement] at hfact
      | none =>
        change signedFact ⟨.inl (.transition k source target written),
          .ok (s.transition k source target written).1⟩ = some (id, data) at hfact
        change Since (s.transition k source target written).2 id data
        cases hwon : (s.transition k source target written).1 with
        | false => simp [signedFact, hwon] at hfact
        | true =>
          rw [hwon] at hfact
          simp only [signedFact] at hfact
          split at hfact
          · rename_i hsigned
            obtain ⟨rfl, rfl⟩ := hsigned
            obtain ⟨rfl, rfl⟩ := Prod.mk.inj (Option.some_inj.mp hfact)
            exact since_of_transition hwon
          · simp at hfact
    | consume | now | verify | blockHeight | signMessage => simp [signedFact] at hfact
  · cases o <;> simp [signedFact] at hfact

end Records

/-! ### One operation -/

/-- A record that is `signed` with these data hands out the result. -/
def Yields (data : ReplayData) (requestHash : String) (r : SignResult) : Prop :=
  ∀ row : ReplayRow, row.state = .signed → row.data = some data →
    storedResult row requestHash = .ok (some r)

/-- How a signature was come by. -/
def Obtained (S : SignerService) (r : SignRequest) (history : List (Entry daemon))
    (out : SignResult) : Prop :=
  ∃ id decoded data, r.authorizationId = some id ∧
    decodeTransaction S.web3 S.encodings r.transaction = .ok decoded ∧
    (∃ e ∈ history, signedFact e = some (id, some data)) ∧ Yields data decoded.messageHash out

section Operations

variable {S : SignerService} {v : Trace daemon Request} {r : SignRequest} {id : String}
  {decoded : DecodedTransaction}

theorem returns_signer {α : Type} {P : Trace daemon Request → α → Prop} {x : Signing α} :
    Task.Returns progress P (signer x) v ↔ Task.Returns progress.left P x v := Task.returns_inl

theorem returns_left_check {α : Type} {P : Trace daemon Request → α → Prop}
    {x : Except String α} :
    Task.Returns progress.left P (Signing.check x) v ↔ ∀ a, x = .ok a → P v a := Iff.rfl

theorem returns_daemon_check {α : Type} {P : Trace daemon Request → α → Prop}
    {x : Except String α} :
    Task.Returns progress P (Daemon.check x) v ↔ ∀ a, x = .ok a → P v a := Iff.rfl

/-- What is handed out again is what the record yields. -/
theorem yields_of_storedResult {row : ReplayRow} {requestHash : String} {out : SignResult}
    (h : storedResult row requestHash = .ok (some out)) :
    row.state = .signed ∧ ∃ data, row.data = some data ∧ Yields data requestHash out := by
  -- what is read depends on state and data alone
  have hsame : ∀ row' : ReplayRow, row'.state = row.state → row'.data = row.data →
      storedResult row' requestHash = storedResult row requestHash := by
    intro row' hstate hdata
    simp only [storedResult, hstate, hdata]
  have hsigned : row.state = .signed := by
    unfold storedResult at h
    split at h
    · simp at h
    · split at h
      · simp at h
      · simp only [bind_eq_ok, throwIf_eq_ok] at h
        obtain ⟨_, -, _, hstate, -⟩ := h
        exact not_not.mp hstate
  refine ⟨hsigned, ?_⟩
  cases hdata : row.data with
  | none =>
    unfold storedResult at h
    split at h
    · simp at h
    · rw [hdata] at h
      simp at h
  | some data =>
    refine ⟨data, rfl, fun row' hstate' hdata' => ?_⟩
    rw [hsame row' (hstate'.trans hsigned.symm) (hdata'.trans hdata.symm), h]

/-- What `stored` returns was read from a signed record. -/
def SeenSigned (v : Trace daemon Request) (id requestHash : String) (prior : Option SignResult) :
    Prop :=
  ∀ out, prior = some out → ∃ data,
    (∃ e ∈ v.history, signedFact e = some (id, some data)) ∧ Yields data requestHash out

theorem stored_seen (id requestHash : String) :
    Task.Returns progress.left (fun w prior => SeenSigned w id requestHash prior)
      (stored id requestHash) v := by
  refine Task.returns_bind.mpr (returns_left_check.mpr fun _ _ => ?_)
  refine Task.returns_bind.mpr ⟨trivial, fun answer _ row hrow => ?_⟩
  obtain rfl : answer = .ok row := hrow
  cases row with
  | none => exact Task.returns_pure.mpr fun out hout => by simp at hout
  | some row =>
    refine returns_left_check.mpr fun prior hprior out hout => ?_
    subst hout
    obtain ⟨hsigned, data, hdata, hyields⟩ := yields_of_storedResult hprior
    refine ⟨data, ⟨_, List.mem_append_right _ (List.mem_singleton.mpr rfl), ?_⟩, hyields⟩
    simp [Entry.inl, signedFact, hsigned, hdata]

/-- What the verification calls leaves what was seen before. -/
theorem verify_seen {prior : Option SignResult} {requestHash : String}
    (h : SeenSigned v id requestHash prior) (d : VerifierDependencies) (envelope : JsValue) :
    Task.Returns progress.left (fun w _ => SeenSigned w id requestHash prior)
      (verify S.json d decoded envelope) v := by
  have hpush : ∀ {w : Trace daemon Request} {e : Entry daemon}, SeenSigned w id requestHash prior →
      SeenSigned (w.push e) id requestHash prior := by
    intro w e hw out hout
    obtain ⟨data, ⟨e', he', hfact⟩, hyields⟩ := hw out hout
    exact ⟨data, ⟨e', List.mem_append_left _ he', hfact⟩, hyields⟩
  refine Task.returns_bind.mpr (Task.returns_total.mpr ⟨trivial, fun now _ => ?_⟩)
  refine Task.returns_bind.mpr (returns_left_check.mpr fun _ _ => ?_)
  refine Task.returns_bind.mpr ⟨trivial, fun answer _ valid _ => ?_⟩
  refine Task.returns_bind.mpr (returns_left_check.mpr fun _ _ => ?_)
  exact returns_left_check.mpr fun _ _ => hpush (hpush h)

/-- A transaction on the wire is never the empty text. -/
def WireNonempty (S : SignerService) : Prop :=
  ∀ tx wire, S.web3.serialize tx = .ok wire → S.encodings.toBase64 wire ≠ ""

theorem attachSignature_nonempty (hwire : WireNonempty S) {raw : Bytes} {out : SignResult}
    (h : attachSignature S.web3 S.encodings decoded raw = .ok out) : out.transaction ≠ "" := by
  simp only [attachSignature, bind_eq_ok] at h
  obtain ⟨-, -, wire, hserialize, heq⟩ := h
  obtain rfl := Except.ok.inj heq
  exact hwire _ wire hserialize

/-- The record of a signature yields it. -/
theorem yields_signed {out : SignResult} (hout : out.transaction ≠ "") (requestHash : String)
    (last : Option Int) :
    Yields { requestHash := some requestHash, transaction := some out.transaction
             signature := some out.signature, lastValidBlockHeight := last } requestHash out := by
  intro row hstate hdata
  have hconfigured : configured (some out.transaction) = some out.transaction := by
    simp [configured, Option.filter_some, hout]
  simp [storedResult, hstate, hdata, throwIf, hconfigured, orThrow]

/-- A signature that `signClaimed` returns is on record. -/
theorem signClaimed_seen (hwire : WireNonempty S) (last : Option Int) :
    Task.Returns progress.left
      (fun w out => SeenSigned w id decoded.messageHash (some out))
      (signClaimed S id decoded last) v := by
  refine Task.returns_orCatch (fun w e => ?_) ?_
  · exact Task.returns_bind.mpr ⟨.inl ⟨rfl, .inr (.inr rfl)⟩, fun _ _ _ _ => Task.returns_throw⟩
  · refine Task.returns_bind.mpr ⟨trivial, fun _ _ raw _ => ?_⟩
    refine Task.returns_bind.mpr (returns_left_check.mpr fun out hattach => ?_)
    refine Task.returns_bind.mpr ⟨.inl ⟨rfl, .inl rfl⟩, fun answer _ won hwon => ?_⟩
    refine Task.returns_bind.mpr (returns_left_check.mpr fun _ htrue => ?_)
    obtain rfl : won = true := by simpa using htrue
    obtain rfl : answer = .ok true := hwon
    refine Task.returns_pure.mpr (Task.returns_pure.mpr fun out' hout' => ?_)
    obtain rfl := Option.some_inj.mp hout'
    refine ⟨_, ⟨_, List.mem_append_right _ (List.mem_singleton.mpr rfl), ?_⟩,
      yields_signed (attachSignature_nonempty hwire hattach) decoded.messageHash last⟩
    simp [Entry.inl, signedFact]

theorem fenceBlockhash_forward {P : Trace daemon Request → Unit → Prop} (hP : ∀ w, P w ())
    (hasBlockHeight : Bool) (last : Option Int) :
    Task.Returns progress.left P (fenceBlockhash hasBlockHeight id last) v := by
  unfold fenceBlockhash
  split
  · exact Task.returns_pure.mpr (hP v)
  · split
    · refine Task.returns_bind.mpr ⟨trivial, fun _ _ answer _ => ?_⟩
      refine Task.returns_bind.mpr (returns_left_check.mpr fun height _ => ?_)
      split
      · exact Task.returns_pure.mpr (hP _)
      · exact Task.returns_bind.mpr ⟨.inl ⟨rfl, .inr (.inl rfl)⟩, fun _ _ _ _ => Task.returns_throw⟩
    · exact Task.returns_pure.mpr (hP v)

theorem signEnvelope_obtains (hwire : WireNonempty S) (r : SignRequest) :
    Task.Returns progress.left (fun w out => Obtained S r w.history out) (signEnvelope S r) v := by
  refine Task.returns_bind.mpr (returns_left_check.mpr fun wire _ => ?_)
  refine Task.returns_bind.mpr (returns_left_check.mpr fun decoded hdecodes => ?_)
  refine Task.returns_bind.mpr (returns_left_check.mpr fun id hid => ?_)
  rw [orThrow_eq_ok] at hid
  refine Task.returns_bind.mpr ((stored_seen id decoded.messageHash).mono fun w prior hw => ?_)
  refine Task.returns_bind.mpr ((verify_seen hw wire.dependencies r.envelope).mono fun u _ hu => ?_)
  refine Task.returns_bind.mpr (returns_left_check.mpr fun evaluation _ => ?_)
  cases prior with
  | some out =>
    obtain ⟨data, hfact, hyields⟩ := hu out rfl
    exact Task.returns_pure.mpr ⟨id, decoded, data, hid, hdecodes, hfact, hyields⟩
  | none =>
    refine Task.returns_bind.mpr ⟨trivial, fun _ _ claimed _ => ?_⟩
    refine Task.returns_bind.mpr (returns_left_check.mpr fun _ _ => ?_)
    refine Task.returns_bind.mpr (fenceBlockhash_forward (fun w => ?_) _ _)
    refine (signClaimed_seen hwire _).mono fun w out hw => ?_
    obtain ⟨data, hfact, hyields⟩ := hw out rfl
    exact ⟨id, decoded, data, hid, hdecodes, hfact, hyields⟩

/-- A compare-and-set of the daemon. -/
theorem returns_transition {P : Trace daemon Request → Bool → Prop} (hP : ∀ w b, P w b)
    {source target : ExecutionState} {data : Option ReplayData} (h : Forward source target) :
    Task.Returns progress P (signer (Signing.transition id source target data)) v :=
  returns_signer.mpr ⟨h, fun _ _ b _ => hP _ b⟩

theorem broadcastSigned_forward (W : Web3) (enc : Encodings) (transaction : String) :
    Task.Returns progress (fun _ _ => True) (broadcastSigned W enc id transaction) v := by
  refine Task.returns_bind.mpr (returns_daemon_check.mpr fun expected _ => ?_)
  refine Task.returns_bind.mpr ⟨trivial, fun prior _ => ?_⟩
  rintro _ -
  refine Task.returns_bind.mpr ⟨trivial, fun _ _ returned _ => ?_⟩
  unfold settleBroadcast
  beta_reduce
  split
  · exact Task.returns_bind.mpr (returns_transition (fun _ _ => Task.returns_throw)
      (.inr ⟨.inl rfl, .inr (.inl rfl)⟩))
  · refine Task.returns_bind.mpr (returns_transition (fun _ won => ?_) (.inr ⟨.inl rfl, .inl rfl⟩))
    exact Task.returns_bind.mpr (returns_daemon_check.mpr fun _ _ => Task.returns_pure.mpr trivial)

/-- What a status settles a record as lies ahead of it. -/
theorem ClusterStatus.settles_past {status : ClusterStatus} {state settled : ExecutionState}
    (h : status.settles state = some settled) : settled.PastSigned := by
  unfold settles at h
  split at h
  · obtain rfl := Option.some_inj.mp h
    simp [ExecutionState.PastSigned]
  · split at h
    · obtain rfl := Option.some_inj.mp h
      simp [ExecutionState.PastSigned]
    · split at h
      · obtain rfl := Option.some_inj.mp h
        simp [ExecutionState.PastSigned]
      · simp at h

theorem reconcileRow_forward {row : ReplayRow} (hrow : row.state.PastSigned) :
    Task.Returns progress (fun _ _ => True) (reconcileRow row) v := by
  unfold reconcileRow
  dsimp only
  split
  · exact Task.returns_pure.mpr trivial
  · refine Task.returns_bind.mpr ⟨trivial, fun _ _ status _ => ?_⟩
    beta_reduce
    split
    · -- seen by the cluster: confirmed, finalized or failed
      unfold settleSeen
      split
      · rename_i settled hsettled
        exact Task.returns_bind.mpr (returns_transition (fun _ _ => Task.returns_pure.mpr trivial)
          (.inr ⟨.inr hrow, ClusterStatus.settles_past hsettled⟩))
      · exact Task.returns_pure.mpr trivial
    · -- not seen: expired, once the height is past
      unfold settleUnseen
      split
      · exact Task.returns_pure.mpr trivial
      · refine Task.returns_bind.mpr ⟨trivial, fun _ _ height _ => ?_⟩
        beta_reduce
        split
        · exact Task.returns_pure.mpr trivial
        · exact Task.returns_bind.mpr (returns_transition (fun _ _ => Task.returns_pure.mpr trivial)
            (.inr ⟨.inr hrow, by simp [ExecutionState.PastSigned]⟩))

theorem reconcileRows_forward {rows : List ReplayRow}
    (hrows : ∀ row ∈ rows, row.state.PastSigned) :
    Task.Returns progress (fun _ _ => True) (reconcileRows rows) v := by
  induction rows generalizing v with
  | nil => exact Task.returns_pure.mpr trivial
  | cons row rows ih =>
    refine Task.returns_bind.mpr ((reconcileRow_forward (hrows row (by simp))).mono fun w _ _ => ?_)
    exact ih fun row' hrow' => hrows row' (List.mem_cons_of_mem row hrow')

theorem reconcileTransactions_forward :
    Task.Returns progress (fun _ _ => True) reconcileTransactions v := by
  refine Task.returns_bind.mpr ⟨trivial, fun answer hadm rows hrows => ?_⟩
  obtain rfl : answer = .ok rows := hrows
  refine reconcileRows_forward fun row hrow => ?_
  have hstate := hadm row hrow
  rcases List.mem_cons.mp hstate with hstate | hstate
  · exact .inl hstate
  · exact .inr (.inl (List.mem_singleton.mp hstate))

theorem recoverRawBytes_forward :
    Task.Returns progress (fun _ _ => True) (recoverRawBytes id) v := by
  refine Task.returns_bind.mpr ⟨trivial, fun _ _ row _ => ?_⟩
  cases row with
  | none => exact Task.returns_pure.mpr trivial
  | some row =>
    exact Task.returns_bind.mpr (returns_daemon_check.mpr fun _ _ => Task.returns_pure.mpr trivial)

theorem result_forward (requestHash : String) (recoverRaw : Bool) :
    Task.Returns progress (fun _ _ => True) (result id requestHash recoverRaw) v := by
  refine Task.returns_bind.mpr (returns_signer.mpr ⟨trivial, fun _ _ row _ => ?_⟩)
  beta_reduce
  by_cases hexpired : row.map ReplayRow.state = some .expired
  · rw [if_pos hexpired]
    exact Task.returns_pure.mpr trivial
  · rw [if_neg hexpired]
    refine Task.returns_bind.mpr (returns_signer.mpr ((stored_seen id requestHash).mono
      fun w data _ => ?_))
    cases data with
    | none => exact Task.returns_pure.mpr trivial
    | some data =>
      cases recoverRaw with
      | false => exact Task.returns_pure.mpr trivial
      | true =>
        exact Task.returns_bind.mpr (recoverRawBytes_forward.mono fun _ _ _ =>
          Task.returns_pure.mpr trivial)

/-- A signature that an operation returns is on record, for its own request. -/
def ReturnsObtained (S : SignerService) (v : Trace daemon Request) (a : Response) : Prop :=
  ∀ r out, v.request = .sign r → a = .signed out → Obtained S r v.history out

theorem serve_returns (hwire : WireNonempty S) (r : Request) :
    Task.Returns progress (ReturnsObtained S) (serve S r) (Trace.start r) := by
  cases r with
  | sign r =>
    -- the other requests answer with no signature of their own
    have hbody : Task.Returns progress (fun w out => Obtained S r w.history out)
        (signer (signEnvelope S r)) (Trace.start (.sign r)) :=
      returns_signer.mpr (signEnvelope_obtains hwire r)
    refine Task.returns_bind.mpr ((hbody.request_eq fun _ _ => rfl).mono ?_)
    rintro w out ⟨hobtained, hw⟩
    refine Task.returns_pure.mpr fun r' out' hr' hout' => ?_
    obtain rfl := Request.sign.inj (hw.symm.trans hr')
    obtain rfl := Response.signed.inj hout'
    exact hobtained
  | broadcast id transaction =>
    refine Task.returns_bind.mpr ((broadcastSigned_forward _ _ transaction).mono fun w out _ => ?_)
    exact Task.returns_pure.mpr fun r out hr hout => by simp at hout
  | reconcile =>
    refine Task.returns_bind.mpr (reconcileTransactions_forward.mono fun w out _ => ?_)
    exact Task.returns_pure.mpr fun r out hr hout => by simp at hout
  | result id requestHash recoverRaw =>
    refine Task.returns_bind.mpr ((result_forward requestHash recoverRaw).mono fun w out _ => ?_)
    exact Task.returns_pure.mpr fun r out hr hout => by simp at hout

end Operations

/-! ### Runs -/

/-- Whether the environment lets a compare-and-set fail. -/
def transitionFailure (ans : ∀ o, daemon.Ans o) (id : String) (source target : ExecutionState)
    (data : Option ReplayData) : Option String := ans (.inl (.transition id source target data))

/-- The step takes no record out of `signed`. -/
def KeepsSigned (p : DaemonPool) : Event daemon Request → Prop
  | .step t ans => ∀ id target data, p.next? t = some (.inl (.transition id .signed target data)) →
      transitionFailure ans id .signed target data = none → p.shared.stateOf id ≠ some .signed
  | _ => True

/-- Every signature that was handed out is found. -/
def Retrievable (S : SignerService) (p : DaemonPool) : Prop :=
  ∀ c ∈ p.calls, ∀ r id decoded out, c.request = .sign r → r.authorizationId = some id →
    decodeTransaction S.web3 S.encodings r.transaction = .ok decoded →
    c.result? = some (.ok (.signed out)) →
    lookup p.shared id decoded.messageHash = .ok (.signed out.signature none)

section Runs

variable {S : SignerService}

theorem Recorded.handle {s : ReplayStore} {w : Trace daemon Request} (hw : Recorded s w)
    {o : daemon.Op} (hpre : MovesForward o) (a : daemon.Ans o) :
    Recorded (daemonMachine.handle o s a).2 w :=
  fun e he id data hfact => (hw e he id data hfact).handle hpre a

/-- The rows the store lists are in the states it was asked for. -/
theorem listsStates_handle {s : ReplayStore} (o : daemon.Op) (a : daemon.Ans o) :
    ListsStates ⟨o, (daemonMachine.handle o s a).1⟩ := by
  rcases o with o | o
  · cases o <;> trivial
  · cases o with
    | list states =>
      change Option String at a
      cases a with
      | some e => trivial
      | none =>
        intro row hrow
        exact of_decide_eq_true (List.mem_filter.mp hrow).2
    | recoverSigned | sendTransaction | getSignatureStatus | getBlockHeight => trivial

/-- What holds of the store whatever is called holds in every run. -/
theorem daemon_modular (hwire : WireNonempty S) {J : ReplayStore → Prop}
    {cond : DaemonPool → Event daemon Request → Prop}
    (hJ : ∀ (p : DaemonPool) t ans (c : Call daemon Request (Except String Response)) o k,
      cond p (.step t ans) → p.calls[t]? = some c → c.rest = some (.call o k) → J p.shared →
      MovesForward o → J (daemonMachine.handle o p.shared (ans o)).2) :
    Modular daemonMachine (fun r => (serve S r).run) progress Trace.start
      (fun v r => ∀ a, r = .ok a → ReturnsObtained S v a) J Recorded (fun _ _ => True) cond where
  body_safe r := serve_returns hwire r
  symm _ _ h := h
  spawn _ _ _ _ := ⟨fun e he => by simp [Trace.start] at he, fun _ _ => trivial⟩
  call p t ans c o k hcond hc hrest hjoint hR hpre := by
    refine ⟨listsStates_handle o (ans o), ?_, fun e he id data hfact => ?_⟩
    · exact hJ p t ans c o k hcond hc hrest hjoint hpre
    · rcases List.mem_append.mp he with he | he
      · exact (hR t c hc).handle hpre (ans o) e he id data hfact
      · rw [List.mem_singleton.mp he] at hfact
        exact since_of_signedFact (ans o) hfact
  frame s v o a w _ _ hpre hw _ := ⟨hw.handle hpre a, trivial⟩

/-- A signature that was handed out is the one of a record that is `signed` or past it. -/
theorem since_of_signed (hwire : WireNonempty S) {store : ReplayStore}
    {es : List (Event daemon Request)} {c : Call daemon Request (Except String Response)}
    (hc : c ∈ (daemonRun S store es).calls) {r : SignRequest} {out : SignResult}
    (hreq : c.request = .sign r) (hresult : c.result? = some (.ok (.signed out))) :
    ∃ id decoded data, r.authorizationId = some id ∧
      decodeTransaction S.web3 S.encodings r.transaction = .ok decoded ∧
      Since (daemonRun S store es).shared id (some data) ∧ Yields data decoded.messageHash out := by
  have hmodular : Modular daemonMachine (fun r => (serve S r).run) progress Trace.start
      (fun v r => ∀ a, r = .ok a → ReturnsObtained S v a) (fun _ => True) Recorded
      (fun _ _ => True) fun _ _ => True :=
    daemon_modular hwire fun _ _ _ _ _ _ _ _ _ _ _ => trivial
  have hp := hmodular.run (Pool.meets_true (Pool.start store) es) (Modular.coherent_start trivial)
  have hobtained := hp.safe_mem hc _ (Call.result?_eq_some.mp hresult) (.signed out) rfl
  have hrecorded := hp.known_mem hc
  rw [progress_view] at hobtained hrecorded
  obtain ⟨id, decoded, data, hid, hdecodes, ⟨e, he, hfact⟩, hyields⟩ := hobtained r out hreq rfl
  exact ⟨id, decoded, data, hid, hdecodes, hrecorded e he id _ hfact, hyields⟩

/-- The lookup finds the signature exactly while its record is in `signed`. -/
theorem Since.lookup_iff {s : ReplayStore} {id : String} {data : ReplayData} {out : SignResult}
    {requestHash : String} (h : Since s id (some data)) (hyields : Yields data requestHash out)
    (hhash : requestHash ≠ "") :
    lookup s id requestHash = .ok (.signed out.signature none) ↔ s.stateOf id = some .signed := by
  obtain ⟨row, hrow, hstate⟩ := h
  have hstateOf : s.stateOf id = some row.state := by
    rw [ReplayStore.stateOf, hrow, Option.map_some]
  -- a row that was signed is not expired
  have hlive : row.state ≠ .expired := by
    intro hexpired
    simp [hexpired, ExecutionState.PastSigned] at hstate
  rw [hstateOf, lookup_of_find? hrow hlive hhash]
  constructor
  · intro hfound
    cases hstored : storedResult row requestHash with
    | error e => simp [hstored, Except.map] at hfound
    | ok prior =>
      cases prior with
      | none => simp [hstored, Except.map] at hfound
      | some prior => rw [(yields_of_storedResult hstored).1]
  · intro hsigned
    rcases hstate with ⟨hstate, hdata⟩ | hpast
    · rw [hyields row hstate hdata]
      rfl
    · simp [Option.some_inj.mp hsigned, ExecutionState.PastSigned] at hpast

/-- No record is past `signed`. -/
def NonePast (s : ReplayStore) : Prop :=
  ∀ id row, s.find? id = some row → ¬ row.state.PastSigned

theorem NonePast.transition {s : ReplayStore} (h : NonePast s) {k : String}
    {source target : ExecutionState} {data : Option ReplayData} (hforward : Forward source target)
    (hkeeps : source = .signed → s.stateOf k ≠ some .signed) :
    NonePast (s.transition k source target data).2 := by
  intro id row hrow hpast
  rw [find?_transition] at hrow
  obtain ⟨row', hrow', rfl⟩ := Option.map_eq_some_iff.mp hrow
  split at hpast
  · rename_i hmoved
    obtain ⟨rfl, rfl⟩ := hmoved
    have hid : row'.id = id := (Table.find?_eq_some_iff.mp hrow').2
    rcases hforward with ⟨-, hsettled⟩ | ⟨hsource | hsource, -⟩
    · rcases hsettled with rfl | rfl | rfl <;> simp [ExecutionState.PastSigned] at hpast
    · refine hkeeps hsource ?_
      rw [ReplayStore.stateOf, hid, hrow', Option.map_some, hsource]
    · exact h id row' hrow' hsource
  · exact h id row' hrow' hpast

theorem nonePast_handle {p : DaemonPool} {t : Nat} {ans : ∀ o, daemon.Ans o} {o : daemon.Op}
    (h : NonePast p.shared) (hpre : MovesForward o)
    (hnext : p.next? t = some o) (hcond : KeepsSigned p (.step t ans)) :
    NonePast (daemonMachine.handle o p.shared (ans o)).2 := by
  have hstatement : ∀ {β : Type} {failure : Option String} {out : β × ReplayStore},
      (failure = none → NonePast out.2) → NonePast (statement p.shared failure out).2 := by
    intro β failure out hout
    cases failure with
    | none => exact hout rfl
    | some e => exact h
  rcases o with o | o
  · cases o with
    | get k => exact hstatement fun _ => h
    | consume k expiresAt =>
      refine hstatement fun _ id row hrow => ?_
      cases hold : p.shared.find? id with
      | some row' =>
        rw [find?_consume hold] at hrow
        obtain rfl := Option.some_inj.mp hrow
        exact h id row' hold
      | none =>
        -- a record that was not there before was claimed just now
        unfold ReplayStore.consume at hrow
        split at hrow
        · simp [hold] at hrow
        · split at hrow
          · rename_i s' hins
            rw [Table.find?_insert? hins, hold] at hrow
            split at hrow
            · obtain rfl := Option.some_inj.mp hrow
              simp [ExecutionState.PastSigned]
            · simp at hrow
          · simp [hold] at hrow
    | transition k source target data =>
      refine hstatement fun hanswered => h.transition hpre ?_
      rintro rfl
      exact hcond k target data hnext hanswered
    | now | verify | blockHeight | signMessage => exact h
  · cases o with
    | list states => exact hstatement fun _ => h
    | recoverSigned k =>
      refine hstatement fun _ id row hrow hpast => ?_
      rw [find?_recoverSigned] at hrow
      obtain ⟨row', hrow', rfl⟩ := Option.map_eq_some_iff.mp hrow
      refine h id row' hrow' ?_
      split at hpast <;> exact hpast
    | sendTransaction | getSignatureStatus | getBlockHeight => exact h

theorem messageHash_ne {wire : String} {decoded : DecodedTransaction}
    (h : decodeTransaction S.web3 S.encodings wire = .ok decoded) : decoded.messageHash ≠ "" := by
  rw [(decodeTransaction_message h).1, sha256Hex]
  simp

/-- **A signature that was handed out is found** exactly while its record is in `signed`. From
any store and in every interleaving, after `signEnvelope` has returned a signature the lookup
for its authorization and its message finds the same one iff the record has not left `signed`;
so in a run from the empty store in which no compare-and-set takes a record out of `signed`, that
is in which no broadcast is recorded, every signature is found in every state. -/
theorem signature_retrievable_iff (S : SignerService) (hwire : WireNonempty S) :
    (∀ store es, ∀ c ∈ (daemonRun S store es).calls, ∀ r id decoded out, c.request = .sign r →
      r.authorizationId = some id →
      decodeTransaction S.web3 S.encodings r.transaction = .ok decoded →
      c.result? = some (.ok (.signed out)) →
      (lookup (daemonRun S store es).shared id decoded.messageHash =
          .ok (.signed out.signature none) ↔
        (daemonRun S store es).shared.stateOf id = some .signed)) ∧
    ∀ es, Pool.Meets daemonMachine (fun r => (serve S r).run) KeepsSigned (Pool.start .empty) es →
      ∀ es', es' <+: es → Retrievable S (daemonRun S .empty es') := by
  -- what was signed stays in the row, whatever state the row is in
  have hiff : ∀ store es, ∀ c ∈ (daemonRun S store es).calls, ∀ r id decoded out,
      c.request = .sign r → r.authorizationId = some id →
      decodeTransaction S.web3 S.encodings r.transaction = .ok decoded →
      c.result? = some (.ok (.signed out)) → ∃ row,
        (daemonRun S store es).shared.find? id = some row ∧
        (row.state = .signed ∨ row.state.PastSigned) ∧
        (lookup (daemonRun S store es).shared id decoded.messageHash =
            .ok (.signed out.signature none) ↔
          (daemonRun S store es).shared.stateOf id = some .signed) := by
    intro store es c hc r id decoded out hreq hid hdecodes hresult
    obtain ⟨id', decoded', data, hid', hdecodes', hsince, hyields⟩ :=
      since_of_signed hwire hc hreq hresult
    obtain rfl := Option.some_inj.mp (hid.symm.trans hid')
    obtain rfl := Except.ok.inj (hdecodes.symm.trans hdecodes')
    have hlookup := hsince.lookup_iff hyields (messageHash_ne hdecodes)
    obtain ⟨row, hrow, hstate⟩ := hsince
    exact ⟨row, hrow, hstate.imp_left And.left, hlookup⟩
  constructor
  · intro store es c hc r id decoded out hreq hid hdecodes hresult
    obtain ⟨row, -, -, hlookup⟩ := hiff store es c hc r id decoded out hreq hid hdecodes hresult
    exact hlookup
  · rintro es hmeets es' ⟨after, rfl⟩ c hc r id decoded out hreq hid hdecodes hresult
    obtain ⟨row, hrow, hstate, hlookup⟩ :=
      hiff .empty es' c hc r id decoded out hreq hid hdecodes hresult
    -- in such a run no row gets past `signed`
    have hnone : NonePast (daemonRun S .empty es').shared :=
      ((daemon_modular hwire fun p t ans c o k hcond hc hrest hJ hpre =>
        nonePast_handle hJ hpre (Pool.next?_eq hc hrest) hcond).run (Pool.meets_append.mp hmeets).1
        (Modular.coherent_start fun id row hrow => by simp at hrow)).shared
    refine hlookup.mpr ?_
    rw [ReplayStore.stateOf, hrow, Option.map_some, hstate.resolve_right (hnone id row hrow)]

end Runs

/-! ### A signature that is broadcast -/

/-- A service that knows two wire forms, one unsigned and one signed. -/
def broadcastService : SignerService :=
  { sampleService with
    web3 := { sampleService.web3 with
      deserialize := fun raw =>
        if raw = [1] then .ok sampleTransaction
        else if raw = [2] then .ok { sampleTransaction with signatures := [List.replicate 64 1] }
        else .error "no transaction" }
    encodings := { sampleService.encodings with
      fromBase64 := fun s => if s = "AQ==" then [1] else if s = "Ag==" then [2] else [] } }

/-- As `sampleAnswers`; the cluster takes what it is sent and returns its signature. -/
def broadcastAnswers : ∀ o, daemon.Ans o
  | .inl o => sampleAnswers o
  | .inr (.list _) | .inr (.recoverSigned _) => (none : Option String)
  | .inr (.sendTransaction _) => (.ok (.string "signature") : Except String JsValue)
  | .inr (.getSignatureStatus _) => (.ok none : Except String (Option ClusterStatus))
  | .inr .getBlockHeight => (.ok (.number (.ofInt 90)) : Except String JsValue)

/-- The envelope is signed. -/
def signedEvents : List (Event daemon Request) :=
  .spawn (.sign sampleRequest) :: List.replicate 7 (.step 0 broadcastAnswers)

/-- The envelope is signed, and what was signed is broadcast. -/
def broadcastEvents : List (Event daemon Request) :=
  signedEvents ++ .spawn (.broadcast "a1" "Ag==") :: List.replicate 3 (.step 1 broadcastAnswers)

theorem wireNonempty_broadcastService : WireNonempty broadcastService := by
  intro tx wire h
  have hwire : wire = [1] ∨ wire = [2] := by
    have heq := Except.ok.inj h
    by_cases htx : tx = sampleTransaction
    · left
      rw [← heq, if_pos htx]
    · right
      rw [← heq, if_neg htx]
  rcases hwire with rfl | rfl <;> decide

theorem exists_decoded_sample :
    ∃ decoded, decodeTransaction broadcastService.web3 broadcastService.encodings
      sampleRequest.transaction = .ok decoded ∧ decoded.messageHash = "0xab" := by
  have h : (decodeTransaction broadcastService.web3 broadcastService.encodings
      sampleRequest.transaction).map DecodedTransaction.messageHash = .ok "0xab" := by
    decide
  cases hdecoded : decodeTransaction broadcastService.web3 broadcastService.encodings
      sampleRequest.transaction with
  | error e => simp [hdecoded, Except.map] at h
  | ok decoded => exact ⟨decoded, rfl, by simpa [hdecoded, Except.map] using h⟩

theorem signature_retrievable_iff_sample :
    (daemonRun broadcastService .empty signedEvents).shared.stateOf "a1" = some .signed ∧
    lookup (daemonRun broadcastService .empty signedEvents).shared "a1" "0xab" =
      .ok (.signed "signature" none) := by
  have hstate : (daemonRun broadcastService .empty signedEvents).shared.stateOf "a1" =
      some .signed := by decide
  have hrequest : (daemonRun broadcastService .empty signedEvents).calls[0]?.map Call.request =
      some (.sign sampleRequest) := rfl
  have hresult : (daemonRun broadcastService .empty signedEvents).calls[0]?.bind Call.result? =
      some (.ok (.signed ⟨"Ag==", "signature"⟩)) := by decide
  obtain ⟨c, hc, hreq⟩ := Option.map_eq_some_iff.mp hrequest
  rw [hc] at hresult
  obtain ⟨decoded, hdecodes, hhash⟩ := exists_decoded_sample
  refine ⟨hstate, ?_⟩
  rw [← hhash]
  exact ((signature_retrievable_iff broadcastService wireNonempty_broadcastService).1 .empty
    signedEvents c (List.mem_of_getElem? hc) sampleRequest "a1" decoded ⟨"Ag==", "signature"⟩ hreq
    (by decide) hdecodes hresult).mpr hstate

/-- The signature was handed out and broadcast, and the lookup says that it belongs to another
request. -/
theorem broadcast_signature_not_found :
    (daemonRun broadcastService .empty broadcastEvents).calls.map Call.result? =
      [some (.ok (.signed ⟨"Ag==", "signature"⟩)), some (.ok (.broadcast "signature"))] ∧
    lookup (daemonRun broadcastService .empty broadcastEvents).shared "a1" "0xab" =
      .error "authorization_request_mismatch" ∧
    ¬ Retrievable broadcastService (daemonRun broadcastService .empty broadcastEvents) := by
  have hlookup : lookup (daemonRun broadcastService .empty broadcastEvents).shared "a1" "0xab" =
      .error "authorization_request_mismatch" := by decide
  refine ⟨by decide, hlookup, fun hretrievable => ?_⟩
  have hrequest : (daemonRun broadcastService .empty broadcastEvents).calls[0]?.map Call.request =
      some (.sign sampleRequest) := rfl
  have hresult : (daemonRun broadcastService .empty broadcastEvents).calls[0]?.bind Call.result? =
      some (.ok (.signed ⟨"Ag==", "signature"⟩)) := by decide
  obtain ⟨c, hc, hreq⟩ := Option.map_eq_some_iff.mp hrequest
  rw [hc] at hresult
  obtain ⟨decoded, hdecodes, hhash⟩ := exists_decoded_sample
  have hfound := hretrievable c (List.mem_of_getElem? hc) sampleRequest "a1" decoded
    ⟨"Ag==", "signature"⟩ hreq (by decide) hdecodes hresult
  rw [hhash, hlookup] at hfound
  simp at hfound

end AriOs.Signer
