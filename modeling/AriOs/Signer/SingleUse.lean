import AriOs.Signer.Service

/-!
# What the signer signs, and how often

A request only learns what its own calls return, so what licenses a signature is read off
the calls it made before: it claimed its authorization id, the envelope was verified for
the very bytes, the policy accepted them, and the fence let them through. Two requests
cannot both have claimed one id, because the record of the first one refuses the second.
-/

namespace AriOs.Signer

open AriOs.Async AriOs.Js AriOs.Storage Signing

/-! ### Reading a history -/

/-- The message was handed to the signing key. -/
def isSignMessage : Entry interface → Bool
  | ⟨.signMessage _, _⟩ => true
  | _ => false

/-- The block height was read. -/
def isBlockHeight : Entry interface → Bool
  | ⟨.blockHeight, _⟩ => true
  | _ => false

/-- The authorization `id` was claimed. -/
def Claims (history : List (Entry interface)) (id : String) : Prop :=
  ∃ expiresAt, (⟨.consume id expiresAt, (.ok true : Except String Bool)⟩ : Entry interface) ∈ history

/-- The block height read by the fence is not past the last valid one. -/
def Fences (claims : JsValue) (answer : Except String JsNumber) : Prop :=
  ∃ number height last, answer = .ok number ∧
    (JsValue.number number).safeInteger? = some height ∧
    lastValidBlockHeight? claims = some last ∧ height ≤ last

/-- What a request must have done before it signs `message`. -/
structure Licensed (S : SignerService) (r : SignRequest) (before : List (Entry interface))
    (message : Bytes) : Prop where
  /-- it claimed its authorization, and has not signed yet -/
  claimed : ∃ id, r.authorizationId = some id ∧ Claims before id
  first : ∀ e ∈ before, isSignMessage e = false
  /-- the message is the one that was decoded, and the policy accepted it -/
  accepted : ∃ decoded evaluation,
    decodeTransaction S.web3 S.encodings r.transaction = .ok decoded ∧
    message = decoded.messageBytes ∧
    evaluatePolicy decoded S.policy S.publicKey = .ok evaluation
  /-- the envelope was verified, and claims this message by its bytes and by its hash -/
  verified : ∃ signature keyId,
    (⟨.verify (canonicalClaims S.json (r.envelope.field "claims")) signature keyId,
      (.ok true : Except String Bool)⟩ : Entry interface) ∈ before
  bytes : ((r.envelope.field "claims").field "message").text? =
    some (S.encodings.toBase64 message)
  hash : ((r.envelope.field "claims").field "messageHash").text?.map toLowerCase =
    some (toLowerCase (sha256Hex S.encodings message))
  /-- if block heights are read at all, one was, and none was past the last valid one -/
  fenced : ∀ wire, S.wire = some wire → wire.hasBlockHeight = true →
    (∃ e ∈ before, isBlockHeight e = true) ∧
    ∀ answer, (⟨.blockHeight, answer⟩ : Entry interface) ∈ before →
      Fences (r.envelope.field "claims") answer

/-! ### The discipline of a request -/

/-- What a request knows. -/
abbrev SignTrace := Trace interface SignRequest

/-- A state a record stays in, as far as signing is concerned. -/
def ExecutionState.Settled (s : ExecutionState) : Prop := s = .signed ∨ s = .expired ∨ s = .failed

/-- What a request promises before a call. -/
def Allows (S : SignerService) (v : SignTrace) : Op → Prop
  | .transition _ source target _ => source = .claimed ∧ target.Settled
  | .signMessage message => Licensed S v.request v.history message
  | _ => True

abbrev discipline (S : SignerService) : Discipline interface SignTrace := .ofTrace (Allows S)

/-- The ids a request has claimed are on record. -/
def OnRecord (s : ReplayStore) (v : SignTrace) : Prop :=
  ∀ id, Claims v.history id → (s.find? id).isSome

/-- No id was claimed by both. -/
def Apart (v w : SignTrace) : Prop := ∀ id, ¬ (Claims v.history id ∧ Claims w.history id)

/-! ### One request -/

/-- Neither the key nor the block height was asked for yet. -/
structure Preparing (r : SignRequest) (v : SignTrace) : Prop where
  request : v.request = r
  quiet : ∀ e ∈ v.history, isSignMessage e = false ∧ isBlockHeight e = false

/-- The envelope was verified for the decoded transaction. -/
structure Verified (S : SignerService) (r : SignRequest) (decoded : DecodedTransaction)
    (v : SignTrace) : Prop extends Preparing r v where
  answered : ∃ signature keyId,
    (⟨.verify (canonicalClaims S.json (r.envelope.field "claims")) signature keyId,
      (.ok true : Except String Bool)⟩ : Entry interface) ∈ v.history
  describes : describes S.json (r.envelope.field "claims") decoded
  lastValid : ∃ last, lastValidBlockHeight? (r.envelope.field "claims") = some last

section Request

variable {S : SignerService} {r : SignRequest} {v : SignTrace} {decoded : DecodedTransaction}

theorem returns_check {α : Type} {Q : SignTrace → α → Prop} {x : Except String α} :
    Task.Returns (discipline S) Q (check x) v ↔ ∀ a, x = .ok a → Q v a := Iff.rfl

theorem Preparing.start : Preparing r (.start r) := ⟨rfl, by simp [Trace.start]⟩

theorem Preparing.upd (h : Preparing r v) {e : Entry interface} (hsign : isSignMessage e = false)
    (hheight : isBlockHeight e = false) : Preparing r ((discipline S).upd v e) := by
  refine ⟨h.request, fun e' he' => ?_⟩
  rcases List.mem_append.mp he' with he' | he'
  · exact h.quiet e' he'
  · rw [List.mem_singleton.mp he']
    exact ⟨hsign, hheight⟩

theorem stored_returns (h : Preparing r v) (id requestHash : String) :
    Task.Returns (discipline S) (fun w _ => Preparing r w) (stored id requestHash) v := by
  refine Task.returns_bind.mpr (returns_check.mpr fun _ _ => ?_)
  refine Task.returns_bind.mpr ⟨trivial, fun answer _ row _ => ?_⟩
  have hnext : Preparing r ((discipline S).upd v ⟨.get id, answer⟩) := h.upd rfl rfl
  cases row with
  | none => exact Task.returns_pure.mpr hnext
  | some row => exact returns_check.mpr fun _ _ => hnext

theorem verify_returns (h : Preparing r v) (d : VerifierDependencies) :
    Task.Returns (discipline S) (fun w _ => Verified S r decoded w)
      (verify S.json d decoded r.envelope) v := by
  refine Task.returns_bind.mpr (Task.returns_total.mpr ⟨trivial, fun now _ => ?_⟩)
  refine Task.returns_bind.mpr (returns_check.mpr fun _ _ => ?_)
  refine Task.returns_bind.mpr ⟨trivial, fun answer _ valid hvalid => ?_⟩
  refine Task.returns_bind.mpr (returns_check.mpr fun _ htrue => ?_)
  refine returns_check.mpr fun _ hbinding => ?_
  obtain rfl : valid = true := by simpa using htrue
  obtain rfl : answer = .ok true := hvalid
  obtain ⟨hlast, hdescribes⟩ := checkBinding_eq_ok hbinding
  exact ⟨(h.upd rfl rfl).upd rfl rfl, ⟨_, _, List.mem_append_right _ (List.mem_singleton.mpr rfl)⟩,
    hdescribes, hlast⟩

/-- A claimed authorization for a transaction that passed every check. -/
structure Claimed (S : SignerService) (r : SignRequest) (decoded : DecodedTransaction)
    (v : SignTrace) : Prop extends Verified S r decoded v where
  decodes : decodeTransaction S.web3 S.encodings r.transaction = .ok decoded
  accepts : ∃ evaluation, evaluatePolicy decoded S.policy S.publicKey = .ok evaluation
  claims : ∃ id, r.authorizationId = some id ∧ Claims v.history id

theorem signClaimed_returns {id : String} {last : Option Int}
    (h : Licensed S v.request v.history decoded.messageBytes) :
    Task.Returns (discipline S) (fun _ _ => True) (signClaimed S id decoded last) v := by
  refine Task.returns_orCatch (fun w e => ?_) ?_
  · exact Task.returns_bind.mpr ⟨⟨rfl, .inr (.inr rfl)⟩, fun _ _ _ _ => Task.returns_throw⟩
  · refine Task.returns_bind.mpr ⟨h, fun _ _ _ _ => ?_⟩
    refine Task.returns_bind.mpr (returns_check.mpr fun _ _ => ?_)
    refine Task.returns_bind.mpr ⟨⟨rfl, .inl rfl⟩, fun _ _ _ _ => ?_⟩
    refine Task.returns_bind.mpr (returns_check.mpr fun _ _ => ?_)
    simp

/-- What is left to license a signature is the fence. -/
theorem Claimed.licensed (h : Claimed S r decoded v) {tail : List (Entry interface)}
    (hquiet : ∀ e ∈ tail, isSignMessage e = false)
    (hfenced : ∀ wire, S.wire = some wire → wire.hasBlockHeight = true →
      (∃ e ∈ tail, isBlockHeight e = true) ∧
      ∀ answer, (⟨.blockHeight, answer⟩ : Entry interface) ∈ tail →
        Fences (r.envelope.field "claims") answer) :
    Licensed S v.request (v.history ++ tail) decoded.messageBytes := by
  obtain rfl := h.request
  obtain ⟨-, hmessage, hhash, -⟩ := h.describes
  obtain ⟨hhash', hbase64⟩ := decodeTransaction_message h.decodes
  constructor
  case claimed =>
    obtain ⟨id, hid, expiresAt, hmem⟩ := h.claims
    exact ⟨id, hid, expiresAt, List.mem_append_left _ hmem⟩
  case first =>
    intro e he
    rcases List.mem_append.mp he with he | he
    · exact (h.quiet e he).1
    · exact hquiet e he
  case accepted =>
    obtain ⟨evaluation, haccepts⟩ := h.accepts
    exact ⟨decoded, evaluation, h.decodes, rfl, haccepts⟩
  case verified =>
    obtain ⟨signature, keyId, hmem⟩ := h.answered
    exact ⟨signature, keyId, List.mem_append_left _ hmem⟩
  case bytes =>
    rw [hmessage, hbase64]
  case hash =>
    rw [← hhash']
    exact not_not.mp hhash
  -- the heights are asked for after the claim
  case fenced =>
    intro wire hwire hheight
    obtain ⟨⟨e, he, heq⟩, hall⟩ := hfenced wire hwire hheight
    refine ⟨⟨e, List.mem_append_right _ he, heq⟩, fun answer hmem => ?_⟩
    rcases List.mem_append.mp hmem with hmem | hmem
    · simpa [isBlockHeight] using (h.quiet _ hmem).2
    · exact hall answer hmem

/-- The fence lets through what licenses a signature. -/
theorem fenceBlockhash_returns (h : Claimed S r decoded v) {wire : Wire}
    (hwire : S.wire = some wire)
    (id : String) :
    Task.Returns (discipline S) (fun w _ => Licensed S w.request w.history decoded.messageBytes)
      (fenceBlockhash wire.hasBlockHeight id (lastValidBlockHeight? (r.envelope.field "claims")))
      v := by
  obtain ⟨last, hlast⟩ := h.lastValid
  rw [hlast, fenceBlockhash]
  cases hheight : wire.hasBlockHeight with
  -- a wire that cannot ask for the height fences nothing
  | false =>
    refine Task.returns_pure.mpr ?_
    rw [← List.append_nil v.history]
    refine h.licensed (by simp) fun wire' hwire' hheight' => ?_
    obtain rfl := Option.some_inj.mp (hwire.symm.trans hwire')
    simp [hheight] at hheight'
  | true =>
    rw [if_pos rfl]
    refine Task.returns_bind.mpr ⟨trivial, fun answer _ number hnumber => ?_⟩
    obtain rfl : answer = .ok number := hnumber
    refine Task.returns_bind.mpr (returns_check.mpr fun height hread => ?_)
    rw [orThrow_eq_ok, Option.filter_eq_some_iff] at hread
    -- the height that was answered is within the claim, or the signature is refused
    by_cases hle : height ≤ last
    · rw [if_pos hle]
      refine Task.returns_pure.mpr (h.licensed (by simp [isSignMessage]) fun _ _ _ => ?_)
      refine ⟨⟨_, List.mem_singleton.mpr rfl, rfl⟩, fun answer hmem => ?_⟩
      obtain rfl : answer = .ok number :=
        eq_of_heq (Entry.mk.inj (List.mem_singleton.mp hmem)).2
      exact ⟨number, height, last, rfl, hread.1, hlast, hle⟩
    · rw [if_neg hle]
      exact Task.returns_bind.mpr ⟨⟨rfl, .inr (.inl rfl)⟩, fun _ _ _ _ => Task.returns_throw⟩

theorem claimAndSign_returns (h : Verified S r decoded v) {wire : Wire} (hwire : S.wire = some wire)
    {id : String} (hid : r.authorizationId = some id)
    (hdecodes : decodeTransaction S.web3 S.encodings r.transaction = .ok decoded)
    {evaluation : PolicyEvaluation}
    (haccepts : evaluatePolicy decoded S.policy S.publicKey = .ok evaluation) :
    Task.Returns (discipline S) (fun _ _ => True)
      (claimAndSign S wire id decoded (r.envelope.field "claims")) v := by
  refine Task.returns_bind.mpr ⟨trivial, fun answer _ claimed hclaimed => ?_⟩
  refine Task.returns_bind.mpr (returns_check.mpr fun _ htrue => ?_)
  obtain rfl : claimed = true := by simpa using htrue
  obtain rfl : answer = .ok true := hclaimed
  obtain ⟨signature, keyId, hanswered⟩ := h.answered
  refine Task.returns_bind.mpr ((fenceBlockhash_returns ?_ hwire id).mono
    fun w _ hw => signClaimed_returns hw)
  refine ⟨⟨h.toPreparing.upd rfl rfl, ⟨signature, keyId, List.mem_append_left _ hanswered⟩,
    h.describes, h.lastValid⟩, hdecodes, ⟨evaluation, haccepts⟩, id, hid, ?_⟩
  exact ⟨_, List.mem_append_right _ (List.mem_singleton.mpr rfl)⟩

theorem signEnvelope_returns (S : SignerService) (r : SignRequest) :
    Task.Returns (discipline S) (fun _ _ => True) (signEnvelope S r) (.start r) := by
  refine Task.returns_bind.mpr (returns_check.mpr fun wire hwire => ?_)
  refine Task.returns_bind.mpr (returns_check.mpr fun decoded hdecodes => ?_)
  refine Task.returns_bind.mpr (returns_check.mpr fun id hid => ?_)
  rw [orThrow_eq_ok] at hwire hid
  refine Task.returns_bind.mpr ((stored_returns Preparing.start id decoded.messageHash).mono
    fun w prior hw => ?_)
  refine Task.returns_bind.mpr ((verify_returns hw wire.dependencies).mono fun u _ hu => ?_)
  refine Task.returns_bind.mpr (returns_check.mpr fun evaluation haccepts => ?_)
  cases prior with
  | some p => exact Task.returns_pure.mpr trivial
  | none => exact claimAndSign_returns hu hwire hid hdecodes haccepts

end Request

/-! ### The store -/

section Store

variable {s : ReplayStore} {id k : String}

theorem consume_eq_true {expiresAt : Int} (h : (s.consume id expiresAt).1 = true) :
    s.find? id = none ∧ s.insert? ⟨id, expiresAt, .claimed, 1, none, false⟩ =
      some (s.consume id expiresAt).2 := by
  unfold ReplayStore.consume at h ⊢
  split at h
  · simp at h
  · rename_i hid
    rw [if_neg hid]
    split at h
    · rename_i s' hins
      exact ⟨Table.find?_of_insert? hins, by simp [hins]⟩
    · simp at h

theorem find?_consume {expiresAt : Int} {row : ReplayRow} (h : s.find? k = some row) :
    (s.consume id expiresAt).2.find? k = some row := by
  unfold ReplayStore.consume
  split
  · exact h
  · split
    · rename_i s' hins
      exact Table.find?_insert?_of_some hins h
    · exact h

theorem find?_transition {source target : ExecutionState} {data : Option ReplayData} :
    (s.transition id source target data).2.find? k = (s.find? k).map fun row =>
      if row.id = id ∧ row.state = source then
        { row with state := target, data, version := row.version + 1 } else row := by
  simp [ReplayStore.transition, Table.find?_update]

/-- What a request may call leaves every record there, and a settled one as it is. -/
theorem find?_handle {S : SignerService} {v : SignTrace} {o : Op} (hallows : Allows S v o)
    (a : o.Ans) {row : ReplayRow} (h : s.find? k = some row) :
    ∃ row', (machine.handle o s a).2.find? k = some row' ∧
      (row.state.Settled → row'.state = row.state) := by
  cases o with
  | get id =>
    change Option String at a
    cases a <;> exact ⟨row, h, fun _ => rfl⟩
  | consume id expiresAt =>
    change Option String at a
    cases a with
    | some e => exact ⟨row, h, fun _ => rfl⟩
    | none => exact ⟨row, find?_consume h, fun _ => rfl⟩
  | transition id source target data =>
    obtain ⟨rfl, htarget⟩ := hallows
    change Option String at a
    cases a with
    | some e => exact ⟨row, h, fun _ => rfl⟩
    | none =>
      refine ⟨_, find?_transition.trans (by rw [h, Option.map_some]), fun hsettled => ?_⟩
      split
      · -- a transition leaves no settled row, since it starts from `claimed`
        rename_i hclaimed
        rw [hclaimed.2] at hsettled
        simp [ExecutionState.Settled] at hsettled
      · rfl
  | now | verify | blockHeight | signMessage => exact ⟨row, h, fun _ => rfl⟩

/-- A claim is granted for an id that is not on record, and puts it there. -/
theorem handle_consume {expiresAt : Int} {a : Option String}
    (h : (machine.handle (.consume id expiresAt) s a).1 = (.ok true : Except String Bool)) :
    s.find? id = none ∧ ((machine.handle (.consume id expiresAt) s a).2.find? id).isSome := by
  cases a with
  | some e => simp [machine, statement] at h
  | none =>
    obtain ⟨hfree, hins⟩ := consume_eq_true (Except.ok.inj h)
    refine ⟨hfree, ?_⟩
    change ((s.consume id expiresAt).2.find? id).isSome
    rw [Table.find?_insert? hins]
    simp

end Store

/-! ### Interleavings -/

section Interleavings

variable {S : SignerService}

theorem claims_append {history : List (Entry interface)} {e : Entry interface} {id : String} :
    Claims (history ++ [e]) id ↔ Claims history id ∨
      ∃ expiresAt, e = ⟨.consume id expiresAt, (.ok true : Except String Bool)⟩ := by
  unfold Claims
  simp only [List.mem_append, List.mem_singleton, exists_or, eq_comm]

/-- A call leaves what is on record there. -/
theorem onRecord_handle {s : ReplayStore} {v w : SignTrace} {o : Op} (hallows : Allows S v o)
    (a : o.Ans) (h : OnRecord s w) : OnRecord (machine.handle o s a).2 w := by
  intro id hid
  obtain ⟨row, hrow⟩ := Option.isSome_iff_exists.mp (h id hid)
  obtain ⟨row', hrow', -⟩ := find?_handle hallows a hrow
  rw [hrow']
  rfl

theorem signer_modular (S : SignerService) :
    Modular machine (fun r => (signEnvelope S r).run) (discipline S) Trace.start
      (fun _ r => ∀ a, r = .ok a → True) (fun _ => True) OnRecord Apart fun _ _ => True where
  body_safe r := signEnvelope_returns S r
  symm v w h id := by rw [and_comm]; exact h id
  spawn p r _ _ := by
    constructor
    · rintro id ⟨_, hmem⟩
      simp [Trace.start] at hmem
    · rintro w _ id ⟨⟨_, hmem⟩, -⟩
      simp [Trace.start] at hmem
  call p t ans c o k _ hct _ _ hR hpre := by
    refine ⟨trivial, trivial, fun id hid => ?_⟩
    rcases claims_append.mp hid with hid | ⟨expiresAt, he⟩
    · exact onRecord_handle hpre _ (hR t c hct) id hid
    · obtain ⟨rfl, hres⟩ := Entry.mk.inj he
      exact (handle_consume (eq_of_heq hres)).2
  frame s v o a w _ hR hpre hRw hP := by
    refine ⟨onRecord_handle hpre a hRw, ?_⟩
    rintro id ⟨hv, hw⟩
    rcases claims_append.mp hv with hv | ⟨expiresAt, he⟩
    · exact hP id ⟨hv, hw⟩
    · -- the id is on record, so it cannot be claimed again
      obtain ⟨rfl, hres⟩ := Entry.mk.inj he
      have hrecord := hRw id hw
      rw [(handle_consume (eq_of_heq hres)).1] at hrecord
      simp at hrecord

theorem signer_coherent (S : SignerService) (store : ReplayStore)
    (es : List (Event interface SignRequest)) :
    Coherent (discipline S) Trace.start (fun _ r => ∀ a, r = .ok a → True) (fun _ => True)
      OnRecord Apart (signerRun S store es) :=
  (signer_modular S).run (Pool.meets_true _ _) (Modular.coherent_start trivial)

theorem view_eq (c : Call interface SignRequest (Except String SignResult)) :
    c.view (discipline S) Trace.start = ⟨c.request, c.history⟩ := Call.view_ofTrace _ c

/-- Whatever was signed was licensed by the calls made before. -/
theorem licensed_of_signMessage {store : ReplayStore} {es : List (Event interface SignRequest)}
    {c : Call interface SignRequest (Except String SignResult)}
    (hc : c ∈ (signerRun S store es).calls) {before after : List (Entry interface)}
    {message : Bytes} {answer : Except String Bytes}
    (hhistory : c.history = before ++ ⟨.signMessage message, answer⟩ :: after) :
    Licensed S c.request before message :=
  (signer_coherent S store es).pre_of_history hc hhistory

theorem exists_split_of_countP {history : List (Entry interface)}
    (h : history.countP isSignMessage ≠ 0) : ∃ before message answer after,
      history = before ++ (⟨.signMessage message, answer⟩ : Entry interface) :: after := by
  obtain ⟨e, he, hsign⟩ := List.countP_pos_iff.mp (Nat.pos_of_ne_zero h)
  obtain ⟨before, after, rfl⟩ := List.append_of_mem he
  obtain ⟨o, answer⟩ := e
  cases o with
  | signMessage message => exact ⟨before, message, answer, after, rfl⟩
  | get | now | verify | consume | blockHeight | transition => simp [isSignMessage] at hsign

/-- A request that signs has claimed its authorization. -/
theorem claims_of_signs {store : ReplayStore} {es : List (Event interface SignRequest)}
    {c : Call interface SignRequest (Except String SignResult)}
    (hc : c ∈ (signerRun S store es).calls) (h : c.history.countP isSignMessage ≠ 0) {id : String}
    (hid : c.request.authorizationId = some id) : Claims c.history id := by
  obtain ⟨before, message, answer, after, heq⟩ := exists_split_of_countP h
  obtain ⟨id', hid', expiresAt, hmem⟩ := (licensed_of_signMessage hc heq).claimed
  obtain rfl := Option.some_inj.mp (hid.symm.trans hid')
  exact ⟨expiresAt, heq ▸ List.mem_append_left _ hmem⟩

theorem signs_at_most_once (S : SignerService) (store : ReplayStore)
    (es : List (Event interface SignRequest)) (id : String) :
    (signerRun S store es).occurrences (fun r => r.authorizationId = some id) isSignMessage ≤ 1 := by
  refine (signer_coherent S store es).occurrences_le_one (fun c hc _ => ?_)
    fun c hc d hd hidc hidd hapart => ?_
  · refine countP_le_one_of_first fun before e after heq hsign => ?_
    obtain ⟨o, answer⟩ := e
    cases o with
    | signMessage message => exact (licensed_of_signMessage hc heq).first
    | get | now | verify | consume | blockHeight | transition => simp [isSignMessage] at hsign
  · by_contra hboth
    rw [not_or] at hboth
    refine hapart id ⟨?_, ?_⟩
    · rw [view_eq]
      exact claims_of_signs hc hboth.1 (by simpa using hidc)
    · rw [view_eq]
      exact claims_of_signs hd hboth.2 (by simpa using hidd)

theorem stateOf_step {p : SignerPool} (hp : Coherent (discipline S) Trace.start
      (fun _ r => ∀ a, r = .ok a → True) (fun _ => True) OnRecord Apart p)
    {id : String} {state : ExecutionState} (hsettled : state.Settled)
    (h : p.shared.stateOf id = some state) (t : Nat) (ans : ∀ o, interface.Ans o) :
    (p.step machine t ans).shared.stateOf id = some state := by
  rcases Pool.step_cases (M := machine) p t ans with heq | ⟨c, o, k, hct, hrest, heq⟩
  · rw [heq]; exact h
  · obtain ⟨row, hrow, rfl⟩ := Option.map_eq_some_iff.mp h
    obtain ⟨row', hrow', hstate⟩ := find?_handle (hp.safe t c hct _ hrest).1 (ans o) hrow
    rw [heq, ← hstate hsettled]
    exact Option.map_eq_some_iff.mpr ⟨row', hrow', rfl⟩

/-- A settled record stays as it is. -/
theorem stateOf_run {store : ReplayStore} {es : List (Event interface SignRequest)} {id : String}
    {state : ExecutionState} (hsettled : state.Settled)
    (h : (signerRun S store es).shared.stateOf id = some state)
    (es' : List (Event interface SignRequest)) :
    (signerRun S store (es ++ es')).shared.stateOf id = some state := by
  rw [signerRun, Pool.run_append]
  refine (Pool.run_induction (P := fun q => Coherent (discipline S) Trace.start
      (fun _ r => ∀ a, r = .ok a → True) (fun _ => True) OnRecord Apart q ∧
      q.shared.stateOf id = some state) (fun q e hq hc => ?_) (Pool.meets_true _ es')
    ⟨signer_coherent S store es, h⟩).2
  refine ⟨(signer_modular S).run (Pool.meets_true q [e]) hq.1, ?_⟩
  cases e with
  | spawn r => exact hq.2
  | step t ans => exact stateOf_step hq.1 hsettled hq.2 t ans
  | kill t => exact hq.2

/-- In every interleaving of requests, and from any store: the key is used at most once for an
authorization id; whenever it is used, that was licensed by the calls the request had made;
and no record is ever signed and ever expired. -/
theorem signs_once_and_licensed (S : SignerService) (store : ReplayStore)
    (es : List (Event interface SignRequest)) :
    (∀ id, (signerRun S store es).occurrences (fun r => r.authorizationId = some id)
      isSignMessage ≤ 1) ∧
    (∀ c ∈ (signerRun S store es).calls, ∀ before after message answer,
      c.history = before ++ ⟨.signMessage message, answer⟩ :: after →
        Licensed S c.request before message) ∧
    ∀ es' id,
      ((signerRun S store es).shared.stateOf id = some .signed →
        (signerRun S store (es ++ es')).shared.stateOf id ≠ some .expired) ∧
      ((signerRun S store es).shared.stateOf id = some .expired →
        (signerRun S store (es ++ es')).shared.stateOf id ≠ some .signed) := by
  refine ⟨signs_at_most_once S store es,
    fun c hc before after message answer h => licensed_of_signMessage hc h,
    fun es' id => ⟨fun h => ?_, fun h => ?_⟩⟩
  · rw [stateOf_run (.inl rfl) h es']
    simp
  · rw [stateOf_run (.inr (.inl rfl)) h es']
    simp

end Interleavings

/-! ### A request that is signed -/

/-- A transaction of one instruction, with an empty slot for the signature. -/
def sampleTransaction : VersionedTransaction where
  message := {
    version := .legacy, numRequiredSignatures := 1, staticAccountKeys := ["payer", "program"]
    recentBlockhash := "hash", compiledInstructions := [⟨1, [0], [2]⟩], addressTableLookups := [] }
  signatures := [List.replicate 64 0]

/-- A service that knows one wire form and its signed one. -/
def sampleService : SignerService where
  publicKey := "payer"
  policy := {
    feePayers := ["payer"], programs := [⟨"program", "02", .none⟩], caps := []
    maxInstructions := 4, maxAccountKeys := 8, maxRequiredSignatures := 1
    maxComputeUnitLimit := 200000, maxComputeUnitPriceMicroLamports := 0
    maxPriorityFeeLamports := 0, maxPriorityFeeBps := none, addressLookupTables := [] }
  wire := some ⟨"signer", none, none, none, none, none, true⟩
  web3 := {
    deserialize := fun raw => if raw = [1] then .ok sampleTransaction else .error "no transaction"
    serialize := fun tx => .ok (if tx = sampleTransaction then [1] else [2])
    serializeMessage := fun _ => .ok [7] }
  encodings := {
    fromBase64 := fun s => if s = "AQ==" then [1] else []
    toBase64 := fun b => if b = [1] then "AQ==" else if b = [7] then "Bw==" else "Ag=="
    base58 := fun _ => "signature"
    sha256 := fun _ => "ab" }
  json := { string := fun s => "\"" ++ s ++ "\"", number := fun q => toString q.num,
            localeLe := textLe }

/-- The request that goes with it. -/
def sampleRequest : SignRequest where
  transaction := "AQ=="
  envelope := .object [("signature", .string "operator"), ("claims", .object [
    ("protocol", .string AUTHORIZATION_PROTOCOL), ("version", .number (.ofInt 1)),
    ("id", .string "a1"), ("audience", .string "signer"),
    ("issuedAt", .number (.ofInt 0)), ("expiresAt", .number (.ofInt 50)),
    ("lastValidBlockHeight", .number (.ofInt 100)),
    ("transaction", .string "AQ=="), ("message", .string "Bw=="), ("messageHash", .string "0xAB"),
    ("feePayer", .string "payer"), ("recentBlockhash", .string "hash"),
    ("accountKeys", texts ["payer", "program"]), ("programIds", texts ["program"]),
    ("addressTableLookups", texts []),
    ("instructions", .array [.object [("programId", .string "program"),
      ("accounts", texts ["payer"]), ("data", .string "02")]])])]

/-- Every call succeeds, at time 10 and block height 90. -/
def sampleAnswers : ∀ o, interface.Ans o
  | .get _ | .consume _ _ | .transition _ _ _ _ => (none : Option String)
  | .now => JsNumber.ofInt 10
  | .verify _ _ _ => (.ok true : Except String Bool)
  | .blockHeight => (.ok (.ofInt 90) : Except String JsNumber)
  | .signMessage _ => (.ok (List.replicate 64 1) : Except String Bytes)

def sampleEvents : List (Event interface SignRequest) :=
  .spawn sampleRequest :: List.replicate 7 (.step 0 sampleAnswers)

theorem signs_once_and_licensed_sample :
    (signerRun sampleService .empty sampleEvents).occurrences
      (fun r => r.authorizationId = some "a1") isSignMessage = 1 ∧
    ∀ es', (signerRun sampleService .empty (sampleEvents ++ es')).shared.stateOf "a1" ≠
      some .expired := by
  refine ⟨by decide, fun es' => ?_⟩
  exact ((signs_once_and_licensed sampleService .empty sampleEvents).2.2 es' "a1").1
    (by decide)

end AriOs.Signer
