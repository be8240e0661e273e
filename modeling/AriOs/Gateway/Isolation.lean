import AriOs.Gateway.Idempotency
import AriOs.Gateway.RunStore

/-!
# Records of one's own

The gateway keeps its records under a text in which principal, session and key are joined with
colons. It does what a gateway does that keeps them under the three themselves, exactly if no
two callers can be confused: if no piece of the text may belong to the principal of one and to
the session or key of the other, and an absent session does not meet the session `-`.

## Main results

* `recordKey_eq_iff` — the same text is the same caller, or two that can be confused
-/

namespace AriOs.Gateway

open AriOs.Async AriOs.Async.Transition AriOs.Gateway.Api AriOs.Js AriOs.Storage

/-! ### Callers that can be confused -/

/-- The session of a caller, in the text. -/
def Caller.session (x : Caller) : String := x.sessionId.getD "-"

/-- What stands behind the principal, in the text. -/
def Caller.rest (x : Caller) : String := joined x.session x.idempotencyKey.val

/-- Two callers of one principal with the same text behind it. -/
def SameRest (x y : Caller) : Prop :=
  (x.session = y.session ∧ x.idempotencyKey = y.idempotencyKey) ∨
    Shifted x.session x.idempotencyKey.val y.session y.idempotencyKey.val ∨
    Shifted y.session y.idempotencyKey.val x.session x.idempotencyKey.val

/-- Two callers, one of which has a piece of text further left or an absent session for `-`. -/
def Confusable (x y : Caller) : Prop :=
  x ≠ y ∧ ((x.principalId = y.principalId ∧ SameRest x y) ∨
    Shifted x.principalId x.rest y.principalId y.rest ∨
    Shifted y.principalId y.rest x.principalId x.rest)

variable {x y : Caller}

theorem recordKey_eq : recordKey x = joined x.principalId x.rest := by
  simp [recordKey, Caller.rest, Caller.session, joined, String.append_assoc]

theorem rest_eq_iff : x.rest = y.rest ↔ SameRest x y := by
  unfold Caller.rest SameRest
  rw [joined_eq_joined_iff, Subtype.ext_iff]

theorem recordKey_eq_iff : recordKey x = recordKey y ↔ x = y ∨ Confusable x y := by
  rw [recordKey_eq, recordKey_eq, joined_eq_joined_iff, rest_eq_iff, Confusable]
  constructor
  · intro h
    by_cases heq : x = y
    · exact .inl heq
    · exact .inr ⟨heq, h⟩
  · rintro (rfl | ⟨-, h⟩)
    · exact .inl ⟨rfl, .inl ⟨rfl, rfl⟩⟩
    · exact h

/-- Callers whose principals and sessions have no colon, and whose session is not `-`, cannot be
confused. -/
theorem not_confusable (hx : ':' ∉ x.principalId.toList) (hy : ':' ∉ y.principalId.toList)
    (hxs : ∀ s ∈ x.sessionId, ':' ∉ s.toList ∧ s ≠ "-")
    (hys : ∀ s ∈ y.sessionId, ':' ∉ s.toList ∧ s ≠ "-") : ¬Confusable x y := by
  -- a session without a colon, or the dash, has none in its text
  have hsession : ∀ z : Caller, (∀ s ∈ z.sessionId, ':' ∉ s.toList ∧ s ≠ "-") →
      ':' ∉ z.session.toList := by
    intro z hz
    unfold Caller.session
    cases hs : z.sessionId with
    | none => decide
    | some s => exact (hz s hs).1
  rintro ⟨hne, ⟨hprincipal, ⟨hs, hkey⟩ | hshift | hshift⟩ | hshift | hshift⟩
  · refine hne ?_
    -- no session is written like a missing one
    have hid : x.sessionId = y.sessionId := by
      unfold Caller.session at hs
      cases hxid : x.sessionId with
      | none =>
        cases hyid : y.sessionId with
        | none => rfl
        | some s =>
          rw [hxid, hyid] at hs
          exact absurd hs.symm (hys s hyid).2
      | some s =>
        cases hyid : y.sessionId with
        | none =>
          rw [hxid, hyid] at hs
          exact absurd hs (hxs s hxid).2
        | some s' =>
          rw [hxid, hyid] at hs
          exact congrArg some hs
    cases x
    cases y
    simp_all
  · exact hsession y hys hshift.colon_mem
  · exact hsession x hxs hshift.colon_mem
  · exact hy hshift.colon_mem
  · exact hx hshift.colon_mem

/-! ### The gateway with records under the callers themselves -/

namespace Core

variable {κ : Type} [DecidableEq κ] {host : Host} {config : Config} {keyOf : Caller → κ}
  {T : Set Caller} {s s' : Core κ} {i : Core Caller}

/-- The callers whose records were looked up. -/
def callers (s : Core κ) : Set Caller := { x | ∃ stage ∈ s.calls, stage.caller? = some x }

/-- The two gateways have come to the same point. -/
structure Agrees (keyOf : Caller → κ) (T : Set Caller) (s : Core κ) (i : Core Caller) : Prop where
  handlers : s.handlers = i.handlers
  calls : s.calls = i.calls
  records : ∀ x ∈ T, s.idempotency.get (keyOf x) = i.idempotency.get x

theorem Agrees.lookup (h : Agrees keyOf T s i) (request : RequestFrame) (principal : Principal)
    (hT : ∀ x ∈ (s.lookup host keyOf request principal).caller?, x ∈ T) :
    s.lookup host keyOf request principal = i.lookup host id request principal := by
  unfold Core.lookup at hT ⊢
  rw [← h.handlers]
  split
  · rfl
  · rename_i hmethod
    rw [if_neg hmethod] at hT
    cases hhash : requestHash host request with
    | error e => rfl
    | ok hash =>
      dsimp only
      simp only [hhash] at hT
      rw [h.records _ (hT _ (caller?_replay _))]
      rfl

theorem Agrees.verified (h : Agrees keyOf T s i) (request : RequestFrame) (auth : AuthInput)
    (a : Except String (Option Principal))
    (hT : ∀ x ∈ (s.verified host keyOf request auth a).caller?, x ∈ T) :
    s.verified host keyOf request auth a = i.verified host id request auth a := by
  match a with
  | .error _ | .ok none => rfl
  | .ok (some principal) =>
    simp only [Core.verified] at hT ⊢
    split
    · rename_i hdevice
      rw [if_pos hdevice] at hT
      exact h.lookup request principal hT
    · rfl

theorem Agrees.paired (h : Agrees keyOf T s i) (request : RequestFrame) (principal : Principal)
    (a : Except String (Option PairingRecord))
    (hT : ∀ x ∈ (s.paired host keyOf request principal a).caller?, x ∈ T) :
    s.paired host keyOf request principal a = i.paired host id request principal a := by
  match a with
  | .error _ => rfl
  | .ok device =>
    simp only [Core.paired] at hT ⊢
    split
    · rfl
    · rename_i hdevice
      rw [if_neg hdevice] at hT
      exact h.lookup request principal hT

/-- Where callers are named apart, both gateways take the same step. -/
theorem Agrees.apply (h : Agrees keyOf T s i) (hinj : Set.InjOn keyOf T) (e : Event)
    (hT : (s.apply host config keyOf e).callers ⊆ T) :
    Agrees keyOf T (s.apply host config keyOf e) (i.apply host config id e) := by
  cases e with
  | register method =>
    simp only [Core.apply, ← h.handlers]
    split
    · split
      · exact h
      · exact ⟨rfl, h.calls, h.records⟩
    · exact h
  | handle raw auth => exact ⟨h.handlers, congrArg (· ++ [_]) h.calls, h.records⟩
  | answer j a =>
    have hnew : ∀ {new : Stage} {old : Stage}, s.calls[j]? = some old →
        (s.apply host config keyOf (.answer j a)).calls = s.calls.set j new →
        ∀ x ∈ new.caller?, x ∈ T := by
      intro new old hold hcalls x hx
      refine hT ⟨new, ?_, hx⟩
      rw [hcalls]
      exact List.mem_of_getElem? (getElem?_set_of_some hold)
    simp only [Core.apply, ← h.calls] at hnew ⊢
    cases hj : s.calls[j]? with
    | none => exact h
    | some stage =>
      simp only [hj] at hnew ⊢
      -- a call takes only the answer that it waits for
      cases stage with
      | verifying request auth =>
        cases a with
        | verifier a =>
          have hsame := h.verified request auth a (hnew rfl rfl)
          exact ⟨h.handlers, congrArg₂ (fun l x => l.set j x) h.calls hsame, h.records⟩
        | pairingStore | handler => exact h
      | pairing request principal =>
        cases a with
        | pairingStore a =>
          have hsame := h.paired request principal a (hnew rfl rfl)
          exact ⟨h.handlers, congrArg₂ (fun l x => l.set j x) h.calls hsame, h.records⟩
        | verifier | handler => exact h
      | handling request caller hash =>
        cases a with
        | handler r =>
          cases r with
          | error e =>
            exact ⟨h.handlers,
              congrArg (fun l => l.set j (.failed (some caller) (.thrown e))) h.calls, h.records⟩
          | ok result =>
            have hcaller : caller ∈ T := hnew rfl rfl caller rfl
            refine ⟨h.handlers,
              congrArg (fun l => l.set j (.returned caller true (respond request result)))
              h.calls, fun x hx => ?_⟩
            simp only [advance, OrderedMap.get_set, id, h.records x hx]
            exact if_congr ⟨fun heq => hinj hcaller hx heq, congrArg keyOf⟩ rfl rfl
        | verifier | pairingStore => exact h
      | returned | failed => exact h

theorem agrees_start : Agrees keyOf T (start : Core κ) start := ⟨rfl, rfl, fun _ _ => rfl⟩

theorem agrees_run (hinj : Set.InjOn keyOf T) (es : List Event)
    (hT : Throughout (Core.apply host config keyOf) (fun s => s.callers ⊆ T) start es) :
    Agrees keyOf T (run (Core.apply host config keyOf) start es)
      (run (Core.apply host config id) start es) := by
  induction es using List.reverseRecOn with
  | nil => exact agrees_start
  | append_singleton es e ih =>
    have hlast := hT (es ++ [e]) [] (List.append_nil _).symm
    rw [run_append_singleton] at hlast ⊢
    rw [run_append_singleton]
    refine (ih ?_).apply hinj e hlast
    rintro before after rfl
    exact hT before (after ++ [e]) (List.append_assoc _ _ _)

/-- Whatever is returned was recorded by a call with the same name for its caller. -/
theorem faithful_run (es : List Event) :
    Faithful keyOf (run (Core.apply host config keyOf) start es) :=
  run_invariant (fun _ e h => h.apply e) faithful_start

end Core

/-! ### Isolation -/

/-- Every call has come to where it would be if records were kept under the callers themselves,
and what it returned was recorded by a call of its own caller. -/
def Isolated (host : Host) (config : Config) (es : List Event) : Prop :=
  (run (Core.apply host config recordKey) .start es).calls =
      (run (Core.apply host config id) .start es).calls ∧
    ∀ (i : Nat) x own r,
      (run (Core.apply host config recordKey) .start es).calls[i]? = some (.returned x own r) →
      ∃ j : Nat, (run (Core.apply host config recordKey) .start es).calls[j]? =
        some (.returned x true r)

/-- A request of the caller that passes the checks of the frame and can be hashed. -/
structure Sent (host : Host) (config : Config) (x : Caller) (raw : JsValue) (request : RequestFrame)
    (hash : String) : Prop where
  received : receive host config raw = .ok request
  hashed : requestHash host request = .ok hash
  session : request.sessionId = x.sessionId
  key : request.idempotencyKey = x.idempotencyKey

/-- The caller can send a request. -/
def Sendable (host : Host) (config : Config) (x : Caller) : Prop :=
  ∃ raw request hash, Sent host config x raw request hash

section Converse

variable {host : Host} {config : Config} {κ : Type} [DecidableEq κ] {keyOf : Caller → κ}
  {s : Core κ}

/-- The principal of a caller, with no rights. -/
def Caller.principal (x : Caller) : Principal := ⟨x.principalId, [], [], []⟩

variable {rawx rawy : JsValue} {rx ry : RequestFrame} {hx hy : String}

/-- An authenticated request goes on from what is recorded for its caller. -/
theorem Sent.lookup_eq (h : Sent host config x rawx rx hx) (keyOf : Caller → κ) (s : Core κ)
    (hmethod : rx.method ∈ s.handlers) :
    s.lookup host keyOf rx x.principal = replay rx x hx (s.idempotency.get (keyOf x)) := by
  have hcaller : (⟨x.principal.id, rx.sessionId, rx.idempotencyKey⟩ : Caller) = x := by
    rw [h.session, h.key]
    rfl
  unfold Core.lookup
  rw [if_neg (not_not.mpr hmethod), h.hashed]
  simp only [hcaller]

/-- One caller's request is served to its end; then the other one's is looked up. -/
def twoCalls (x y : Caller) (rawx rawy : JsValue) (rx ry : RequestFrame) : List Event :=
  [.register rx.method.val, .register ry.method.val, .handle rawx ⟨"", none⟩,
    .answer 0 (.verifier (.ok (some x.principal))), .answer 0 (.handler (.ok .null)),
    .handle rawy ⟨"", none⟩, .answer 1 (.verifier (.ok (some y.principal)))]

theorem exists_registered (host : Host) (config : Config) (keyOf : Caller → κ) (m m' : Identifier) :
    ∃ hs, m ∈ hs ∧ m' ∈ hs ∧
      (Core.start.apply host config keyOf (.register m.val)) = ⟨[m], Table.empty, []⟩ ∧
      (Core.apply host config keyOf ⟨[m], Table.empty, []⟩ (.register m'.val)) =
        ⟨hs, Table.empty, []⟩ := by
  have hfirst : Core.start.apply host config keyOf (.register m.val) = ⟨[m], Table.empty, []⟩ := by
    simp [Core.apply, Core.start, dif_pos m.property]
  by_cases hsame : m' = m
  · exact ⟨[m], by simp, by simp [hsame], hfirst, by simp [Core.apply, hsame]⟩
  · exact ⟨[m, m'], by simp, by simp, hfirst, by simp [Core.apply, dif_pos m'.property, hsame]⟩

/-- Where one response is recorded, a call has its handler run unless that is for its caller. -/
theorem handling_iff (keyOf : Caller → κ) (ry : RequestFrame) (y : Caller) (hy : String) (k : κ)
    (v : Recorded) : (∃ hash, replay ry y hy
      ((OrderedMap.set Table.empty k v).get (keyOf y)) = .handling ry y hash) ↔ k ≠ keyOf y := by
  rw [OrderedMap.get_set]
  split
  · unfold replay
    dsimp only
    split <;> simp_all
  · simp_all [replay]

/-- The second call has its handler run unless the first one's response is kept under the name
of its caller. -/
theorem twoCalls_run (host : Host) (config : Config) (keyOf : Caller → κ)
    (h : Sent host config x rawx rx hx) (h' : Sent host config y rawy ry hy) :
    Throughout (Core.apply host config keyOf) (fun s => s.callers ⊆ {x, y}) .start
        (twoCalls x y rawx rawy rx ry) ∧
      ((∃ hash, (run (Core.apply host config keyOf) .start
          (twoCalls x y rawx rawy rx ry)).calls[1]? = some (.handling ry y hash)) ↔
        keyOf x ≠ keyOf y) := by
  obtain ⟨hs, hmx, hmy, hfirst, hsecond⟩ := exists_registered host config keyOf rx.method ry.method
  -- the first call runs to its end and leaves a record
  have hhandle : Core.apply host config keyOf ⟨hs, Table.empty, []⟩ (.handle rawx ⟨"", none⟩) =
      ⟨hs, Table.empty, [.verifying rx ⟨"", none⟩]⟩ := by
    simp [Core.apply, h.received]
  have hverify : Core.apply host config keyOf ⟨hs, Table.empty, [.verifying rx ⟨"", none⟩]⟩
      (.answer 0 (.verifier (.ok (some x.principal)))) =
      ⟨hs, Table.empty, [.handling rx x hx]⟩ := by
    have hlookup := h.lookup_eq keyOf ⟨hs, Table.empty, [.verifying rx ⟨"", none⟩]⟩ hmx
    simp [Core.apply, Core.advance, Core.verified, hlookup, replay]
  have hrun : Core.apply host config keyOf ⟨hs, Table.empty, [.handling rx x hx]⟩
      (.answer 0 (.handler (.ok .null))) =
      ⟨hs, OrderedMap.set Table.empty (keyOf x) ⟨hx, respond rx .null⟩,
        [.returned x true (respond rx .null)]⟩ := rfl
  have hlast := handling_iff keyOf ry y hy (keyOf x) ⟨hx, respond rx .null⟩
  generalize OrderedMap.set (Table.empty : OrderedMap κ Recorded) (keyOf x)
    ⟨hx, respond rx .null⟩ = records at hrun hlast
  -- the second one finds it only under the same key
  have hhandle' : Core.apply host config keyOf
      ⟨hs, records, [.returned x true (respond rx .null)]⟩ (.handle rawy ⟨"", none⟩) =
      ⟨hs, records, [.returned x true (respond rx .null), .verifying ry ⟨"", none⟩]⟩ := by
    simp [Core.apply, h'.received]
  have hverify' : Core.apply host config keyOf
      ⟨hs, records, [.returned x true (respond rx .null), .verifying ry ⟨"", none⟩]⟩
      (.answer 1 (.verifier (.ok (some y.principal)))) =
      ⟨hs, records, [.returned x true (respond rx .null),
        replay ry y hy (records.get (keyOf y))]⟩ := by
    have hlookup := h'.lookup_eq keyOf
      ⟨hs, records, [.returned x true (respond rx .null), .verifying ry ⟨"", none⟩]⟩ hmy
    simp [Core.apply, Core.advance, Core.verified, hlookup]
  constructor
  · simp only [twoCalls, throughout_cons, throughout_nil, hfirst, hsecond, hhandle, hverify, hrun,
      hhandle', hverify']
    simp only [Core.callers, Core.start, Set.subset_def, Set.mem_ofPred_eq, List.mem_cons,
      List.not_mem_nil, or_false, exists_eq_or_imp, exists_eq_left, caller?_replay,
      Stage.caller?_verifying, Stage.caller?_handling, Stage.caller?_returned]
    simp [eq_comm]
  · simp only [twoCalls, run_cons, run_nil, hfirst, hsecond, hhandle, hverify, hrun, hhandle',
      hverify']
    simpa using hlast

end Converse

/-- A gateway keeps its records apart, whatever happens, iff no two of its callers can be
confused. -/
theorem gateway_isolated_iff (host : Host) (config : Config) {T : Set Caller}
    (hT : ∀ x ∈ T, Sendable host config x) :
    (∀ es, Throughout (Core.apply host config recordKey) (fun s => s.callers ⊆ T) .start es →
      Isolated host config es) ↔ ∀ x ∈ T, ∀ y ∈ T, ¬Confusable x y := by
  constructor
  · intro h x hx y hy hconf
    obtain ⟨rawx, rx, hashx, hsent⟩ := hT x hx
    obtain ⟨rawy, ry, hashy, hsent'⟩ := hT y hy
    -- of two callers that are confused the second gets the answer of the first
    obtain ⟨hcallers, hcode⟩ := twoCalls_run host config recordKey hsent hsent'
    obtain ⟨-, hideal⟩ := twoCalls_run host config id hsent hsent'
    have hsame := (h _ fun before after heq => (hcallers before after heq).trans
      (Set.insert_subset hx (Set.singleton_subset_iff.mpr hy))).1
    rw [hsame] at hcode
    have hne : id x ≠ id y := hconf.1
    exact hcode.mp (hideal.mpr hne) (recordKey_eq_iff.mpr (.inr hconf))
  · intro hapart es hcallers
    -- without such a pair the key tells the callers apart
    have hinj : Set.InjOn recordKey T := by
      intro x hx y hy heq
      exact (recordKey_eq_iff.mp heq).resolve_right (hapart x hx y hy)
    have hagrees := Core.agrees_run hinj es hcallers
    refine ⟨hagrees.calls, fun i x own r hreturned => ?_⟩
    rw [hagrees.calls] at hreturned ⊢
    obtain ⟨j, y, hj, hxy⟩ := (Core.faithful_run es).shared i x own r hreturned
    obtain rfl : x = y := hxy
    exact ⟨j, hj⟩

/-- Gateway and store of runs keep the records of their callers apart, whatever happens, iff no
two callers can be confused. The ids of runs are new. -/
theorem isolated_iff (host : Host) (config : Config) (T : Set Caller) (U : Set (String × String))
    (hT : ∀ x ∈ T, Sendable host config x) :
    ((∀ es, Throughout (Core.apply host config recordKey) (fun s => s.callers ⊆ T) .start es →
        Isolated host config es) ↔ ∀ x ∈ T, ∀ y ∈ T, ¬Confusable x y) ∧
      ((∀ rs : List (Run × Option String), (rs.map fun r => r.1.id).Nodup →
        (∀ r ∈ rs, r.2.getD "" ≠ "" → fileKey r ∈ U) → RunStore.Separate U rs) ↔ Unshifted U) :=
  ⟨gateway_isolated_iff host config hT, RunStore.separate_iff⟩

/-- Two principals that use the same key. -/
def sampleCaller (principalId : String) : Caller := ⟨principalId, none, ⟨"k", by decide⟩⟩

theorem sampleCaller_sent (principalId : String) : ∃ hash, Sent sampleHost ⟨["1.0"], 1000⟩
    (sampleCaller principalId) (sample "k") (sampleFrame ⟨"k", by decide⟩) hash :=
  ⟨_, receive_sample ⟨"k", by decide⟩ (by decide), rfl, rfl, rfl⟩

/-- Requests and runs of two principals, and of two tenants, under the same key. -/
theorem isolated_iff_sample :
    Isolated sampleHost ⟨["1.0"], 1000⟩ (twoCalls (sampleCaller "alice") (sampleCaller "bob")
        (sample "k") (sample "k") (sampleFrame ⟨"k", by decide⟩) (sampleFrame ⟨"k", by decide⟩)) ∧
      RunStore.Separate {("acme", "k"), ("globex", "k")}
        [(newRun none "r1" "acme", some "k"), (newRun none "r2" "globex", some "k")] := by
  have hT : ∀ x ∈ ({sampleCaller "alice", sampleCaller "bob"} : Set Caller),
      Sendable sampleHost ⟨["1.0"], 1000⟩ x := by
    rintro x (rfl | rfl) <;> exact ⟨_, _, sampleCaller_sent _⟩
  obtain ⟨hgateway, hstore⟩ := isolated_iff sampleHost ⟨["1.0"], 1000⟩ _
    {("acme", "k"), ("globex", "k")} hT
  constructor
  · obtain ⟨_, halice⟩ := sampleCaller_sent "alice"
    obtain ⟨_, hbob⟩ := sampleCaller_sent "bob"
    refine hgateway.mpr ?_ _ (twoCalls_run _ _ _ halice hbob).1
    rintro x (rfl | rfl) y (rfl | rfl) <;>
      exact not_confusable (by decide) (by decide) (fun s hs => by cases hs) fun s hs => by cases hs
  · refine hstore.mpr ?_ _ (by decide) (by simp [fileKey, newRun])
    rintro x (rfl | rfl) y (rfl | rfl) hshift <;> exact absurd hshift.colon_mem (by decide)

/-- The principal `a:-:x` is answered with what was recorded for the principal `a`. -/
theorem answered_with_another :
    ¬∀ (host : Host) (config : Config) (es : List Event) (i : Nat) (x : Caller) (own : Bool)
      (r : ResponseFrame),
      (run (Core.apply host config recordKey) .start es).calls[i]? = some (.returned x own r) →
      ∃ (j : Nat) (y : Caller), (run (Core.apply host config recordKey) .start es).calls[j]? =
        some (.returned y true r) ∧ y.principalId = x.principalId := by
  intro h
  -- both frames are accepted
  have hreceive : receive sampleHost ⟨["1.0"], 1000⟩ (sample "x:-:y") =
      .ok (sampleFrame ⟨"x:-:y", by decide⟩) :=
    receive_sample ⟨"x:-:y", by decide⟩ (by decide)
  have hreceive' : receive sampleHost ⟨["1.0"], 1000⟩ (sample "y") =
      .ok (sampleFrame ⟨"y", by decide⟩) :=
    receive_sample ⟨"y", by decide⟩ (by decide)
  have hregister : isIdentifier "send" = true := by decide
  have hrun := h sampleHost ⟨["1.0"], 1000⟩
    [.register "send", .handle (sample "x:-:y") ⟨"secret", none⟩,
      .answer 0 (.verifier (.ok (some ⟨"a", [], [], []⟩))), .answer 0 (.handler (.ok (.bool true))),
      .handle (sample "y") ⟨"other", none⟩,
      .answer 1 (.verifier (.ok (some ⟨"a:-:x", [], [], []⟩)))] 1
  simp only [run_cons, run_nil, Core.apply, hreceive, hreceive', dif_pos hregister] at hrun
  obtain ⟨j, y, hj, hprincipal⟩ := hrun _ _ _ rfl
  -- the only call that ran its own handler is of another principal
  rcases j with _ | _ | n
  · obtain ⟨rfl, -, -⟩ := Stage.returned.inj (Option.some.inj hj)
    exact absurd hprincipal (by decide)
  · exact absurd (Stage.returned.inj (Option.some.inj hj)).2.1 (by decide)
  · have hlt : n + 2 < 2 := (List.getElem?_eq_some_iff.mp hj).1
    omega

end AriOs.Gateway
