import AriOs.Gateway.Core

/-!
# One run for each idempotency key

A call that finds no record has its handler run, and records the response when the handler is
done. Another call for the same key that looks in between finds no record either, and has the
handler run again. All is well exactly if no handler comes back with a result after another call
has recorded its own.

## Main results

* `Core.apply_cases` — what a step does to the calls and the records
-/

namespace AriOs.Gateway

open AriOs.Async AriOs.Async.Transition AriOs.Js AriOs.Storage

/-! ### What a step does -/

/-- The call has not ended. -/
def Stage.Waits : Stage → Prop
  | .verifying _ _ | .pairing _ _ | .handling _ _ _ => True
  | .returned _ _ _ | .failed _ _ => False

namespace Core

variable {κ : Type} [DecidableEq κ] {host : Host} {config : Config} {keyOf : Caller → κ}
  {s : Core κ}

/-- A call can come to stand there without recording anything. -/
def Admits (s : Core κ) (keyOf : Caller → κ) : Stage → Prop
  | .handling _ caller _ => s.idempotency.get (keyOf caller) = none
  | .returned caller own response =>
    own = false ∧ ∃ hash, s.idempotency.get (keyOf caller) = some ⟨hash, response⟩
  | .verifying _ _ | .pairing _ _ | .failed _ _ => True

theorem admits_replay (request : RequestFrame) (caller : Caller) (hash : String) :
    s.Admits keyOf (replay request caller hash (s.idempotency.get (keyOf caller))) := by
  cases hget : s.idempotency.get (keyOf caller) with
  | none => exact hget
  | some prior =>
    unfold replay
    dsimp only
    split
    · trivial
    · exact ⟨rfl, prior.hash, hget⟩

theorem admits_lookup (request : RequestFrame) (principal : Principal) :
    s.Admits keyOf (s.lookup host keyOf request principal) := by
  unfold lookup
  split
  · trivial
  · split
    · trivial
    · exact admits_replay request _ _

theorem admits_verified (request : RequestFrame) (auth : AuthInput)
    (a : Except String (Option Principal)) :
    s.Admits keyOf (s.verified host keyOf request auth a) := by
  unfold verified
  split
  · trivial
  · trivial
  · split
    · exact admits_lookup request _
    · trivial

theorem admits_paired (request : RequestFrame) (principal : Principal)
    (a : Except String (Option PairingRecord)) :
    s.Admits keyOf (s.paired host keyOf request principal a) := by
  unfold paired
  split
  · trivial
  · split
    · trivial
    · exact admits_lookup request _

/-- A step leaves calls and records alone, begins a call, moves one on, or has a handler come
back with a result. -/
theorem apply_cases (host : Host) (config : Config) (keyOf : Caller → κ) (s : Core κ) (e : Event) :
    ((s.apply host config keyOf e).calls = s.calls ∧
      (s.apply host config keyOf e).idempotency = s.idempotency) ∨
    (∃ stage, stage.caller? = none ∧
      (s.apply host config keyOf e).calls = s.calls ++ [stage] ∧
      (s.apply host config keyOf e).idempotency = s.idempotency) ∨
    (∃ i old new, s.calls[i]? = some old ∧ old.Waits ∧ s.Admits keyOf new ∧
      (s.apply host config keyOf e).calls = s.calls.set i new ∧
      (s.apply host config keyOf e).idempotency = s.idempotency) ∨
    (∃ i request caller hash result, e = .answer i (.handler (.ok result)) ∧
      s.calls[i]? = some (.handling request caller hash) ∧
      (s.apply host config keyOf e).calls =
        s.calls.set i (.returned caller true (respond request result)) ∧
      (s.apply host config keyOf e).idempotency =
        s.idempotency.set (keyOf caller) ⟨hash, respond request result⟩) := by
  cases e with
  | register method =>
    simp only [apply]
    refine .inl ?_
    split
    · split <;> exact ⟨rfl, rfl⟩
    · exact ⟨rfl, rfl⟩
  | handle raw auth =>
    refine .inr (.inl ⟨_, ?_, rfl, rfl⟩)
    split <;> rfl
  | answer i a =>
    simp only [apply]
    cases hi : s.calls[i]? with
    | none => exact .inl ⟨rfl, rfl⟩
    | some stage =>
      -- a call takes only the answer that it waits for
      match stage, a with
      | .verifying request auth, .verifier a =>
        exact .inr (.inr (.inl ⟨i, _, _, hi, trivial, admits_verified request auth a, rfl, rfl⟩))
      | .pairing request principal, .pairingStore a =>
        exact .inr (.inr (.inl ⟨i, _, _, hi, trivial, admits_paired request principal a, rfl, rfl⟩))
      | .handling request caller hash, .handler (.error e) =>
        exact .inr (.inr (.inl ⟨i, _, .failed _ _, hi, trivial, trivial, rfl, rfl⟩))
      | .handling request caller hash, .handler (.ok result) =>
        exact .inr (.inr (.inr ⟨i, request, caller, hash, result, rfl, hi, rfl, rfl⟩))
      | .verifying _ _, .pairingStore _ | .verifying _ _, .handler _ | .pairing _ _, .verifier _
      | .pairing _ _, .handler _ | .handling _ _ _, .verifier _ | .handling _ _ _, .pairingStore _
      | .returned _ _ _, _ | .failed _ _, _ => exact .inl ⟨rfl, rfl⟩

/-! ### One run for each key -/

/-- Of the calls whose records are kept under one key at most one has run the handler to
success, and whatever is returned is what one has run. -/
structure Idempotent (keyOf : Caller → κ) (s : Core κ) : Prop where
  once : ∀ (i j : Nat) x y r r', s.calls[i]? = some (.returned x true r) →
    s.calls[j]? = some (.returned y true r') → keyOf x = keyOf y → i = j
  shared : ∀ (i : Nat) x own r, s.calls[i]? = some (.returned x own r) →
    ∃ (j : Nat) (y : Caller), s.calls[j]? = some (.returned y true r) ∧ keyOf x = keyOf y

/-- A handler that comes back with a result finds nothing recorded: no other call for the key
has recorded a response since this one looked. -/
def Alone (keyOf : Caller → κ) (s : Core κ) : Event → Prop
  | .answer i (.handler (.ok _)) => ∀ request caller hash,
      s.calls[i]? = some (.handling request caller hash) → s.idempotency.get (keyOf caller) = none
  | _ => True

/-- The records are what the successful runs returned, whether there was one for each key or
several. -/
structure Faithful (keyOf : Caller → κ) (s : Core κ) : Prop where
  recorded : ∀ k v, s.idempotency.get k = some v → ∃ (i : Nat) (x : Caller),
    s.calls[i]? = some (.returned x true v.response) ∧ keyOf x = k
  kept : ∀ (i : Nat) x r, s.calls[i]? = some (.returned x true r) →
    (s.idempotency.get (keyOf x)).isSome
  shared : ∀ (i : Nat) x own r, s.calls[i]? = some (.returned x own r) →
    ∃ (j : Nat) (y : Caller), s.calls[j]? = some (.returned y true r) ∧ keyOf x = keyOf y

theorem faithful_start : Faithful keyOf (start : Core κ) where
  recorded _ _ h := by simp [start] at h
  kept _ _ _ h := by simp [start] at h
  shared _ _ _ _ h := by simp [start] at h

omit [DecidableEq κ] in
/-- A call that has ended stays as it is while another one is moved on. -/
theorem returned_set {i j : Nat} {old new : Stage} {x : Caller} {own : Bool} {r : ResponseFrame}
    (hold : s.calls[i]? = some old) (hwaits : old.Waits)
    (h : s.calls[j]? = some (.returned x own r)) :
    (s.calls.set i new)[j]? = some (.returned x own r) := by
  rw [List.getElem?_set_ne]
  · exact h
  · rintro rfl
    rw [hold] at h
    obtain rfl := Option.some.inj h
    exact hwaits

omit [DecidableEq κ] in
/-- A call that begins has not returned. -/
theorem returned_of_append {j : Nat} {stage : Stage} {x : Caller} {own : Bool} {r : ResponseFrame}
    (hstage : stage.caller? = none) (h : (s.calls ++ [stage])[j]? = some (.returned x own r)) :
    s.calls[j]? = some (.returned x own r) := by
  rcases getElem?_append_singleton_cases h with ⟨-, rfl⟩ | h
  · simp [Stage.caller?] at hstage
  · exact h

/-- Nor has a call run that is moved on without recording anything. -/
theorem returned_of_set {i j : Nat} {new : Stage} {x : Caller} {r : ResponseFrame}
    (hadmits : s.Admits keyOf new) (h : (s.calls.set i new)[j]? = some (.returned x true r)) :
    s.calls[j]? = some (.returned x true r) := by
  rcases getElem?_set_cases h with ⟨-, rfl⟩ | ⟨-, h⟩
  · simp [Admits] at hadmits
  · exact h

theorem Faithful.apply (h : Faithful keyOf s) (e : Event) :
    Faithful keyOf (s.apply host config keyOf e) := by
  rcases apply_cases host config keyOf s e with
    ⟨hcalls, hrecords⟩ | ⟨stage, hstage, hcalls, hrecords⟩ |
    ⟨i, old, new, hold, hwaits, hadmits, hcalls, hrecords⟩ |
    ⟨i, request, caller, hash, result, -, hold, hcalls, hrecords⟩
  · exact ⟨by rw [hcalls, hrecords]; exact h.recorded, by rw [hcalls, hrecords]; exact h.kept,
      by rw [hcalls]; exact h.shared⟩
  · refine ⟨?_, ?_, ?_⟩
    · rw [hcalls, hrecords]
      intro k v hk
      obtain ⟨j, x, hj, hx⟩ := h.recorded k v hk
      exact ⟨j, x, getElem?_append_of_some hj _, hx⟩
    · rw [hcalls, hrecords]
      exact fun j x r hj => h.kept j x r (returned_of_append hstage hj)
    · rw [hcalls]
      intro j x own r hj
      obtain ⟨j', y, hj', hy⟩ := h.shared j x own r (returned_of_append hstage hj)
      exact ⟨j', y, getElem?_append_of_some hj' _, hy⟩
  · refine ⟨?_, ?_, ?_⟩
    · rw [hcalls, hrecords]
      intro k v hk
      obtain ⟨j, x, hj, hx⟩ := h.recorded k v hk
      exact ⟨j, x, returned_set hold hwaits hj, hx⟩
    · rw [hcalls, hrecords]
      exact fun j x r hj => h.kept j x r (returned_of_set hadmits hj)
    · rw [hcalls]
      intro j x own r hj
      rcases getElem?_set_cases hj with ⟨-, rfl⟩ | ⟨-, hj⟩
      · -- what is returned from a record some call has run
        obtain ⟨-, hash, hget⟩ := hadmits
        obtain ⟨j', y, hj', hy⟩ := h.recorded _ _ hget
        exact ⟨j', y, returned_set hold hwaits hj', hy.symm⟩
      · obtain ⟨j', y, hj', hy⟩ := h.shared j x own r hj
        exact ⟨j', y, returned_set hold hwaits hj', hy⟩
  · have hself : (s.calls.set i (.returned caller true (respond request result)))[i]? =
        some (.returned caller true (respond request result)) := getElem?_set_of_some hold
    refine ⟨?_, ?_, ?_⟩
    · rw [hcalls, hrecords]
      intro k v hk
      by_cases hkey : keyOf caller = k
      · obtain rfl := hkey
        rw [OrderedMap.get_set_self] at hk
        obtain rfl := Option.some.inj hk
        exact ⟨i, caller, hself, rfl⟩
      · rw [OrderedMap.get_set_ne hkey] at hk
        obtain ⟨j, x, hj, hx⟩ := h.recorded k v hk
        exact ⟨j, x, returned_set hold trivial hj, hx⟩
    · rw [hcalls, hrecords]
      intro j x r hj
      rw [OrderedMap.get_set]
      split
      · rfl
      · rcases getElem?_set_cases hj with ⟨-, heq⟩ | ⟨-, hj⟩
        · exact absurd (congrArg keyOf (Stage.returned.inj heq).1.symm) ‹_›
        · exact h.kept j x r hj
    · rw [hcalls]
      intro j x own r hj
      rcases getElem?_set_cases hj with ⟨-, heq⟩ | ⟨-, hj⟩
      · obtain ⟨rfl, rfl, rfl⟩ := Stage.returned.inj heq
        exact ⟨i, x, hself, rfl⟩
      · obtain ⟨j', y, hj', hy⟩ := h.shared j x own r hj
        exact ⟨j', y, returned_set hold trivial hj', hy⟩

/-- A step at which no handler comes back too late leaves one run for each key. -/
theorem Idempotent.apply (h : Idempotent keyOf s) (hf : Faithful keyOf s) (e : Event)
    (halone : Alone keyOf s e) : Idempotent keyOf (s.apply host config keyOf e) := by
  refine ⟨?_, (hf.apply e).shared⟩
  rcases apply_cases host config keyOf s e with
    ⟨hcalls, -⟩ | ⟨stage, hstage, hcalls, -⟩ | ⟨i, old, new, -, -, hadmits, hcalls, -⟩ |
    ⟨i, request, caller, hash, result, rfl, hold, hcalls, -⟩
  · rw [hcalls]
    exact h.once
  · rw [hcalls]
    exact fun j k x y r r' hj hk =>
      h.once j k x y r r' (returned_of_append hstage hj) (returned_of_append hstage hk)
  · rw [hcalls]
    exact fun j k x y r r' hj hk =>
      h.once j k x y r r' (returned_of_set hadmits hj) (returned_of_set hadmits hk)
  · -- an earlier run for the key would have left a record
    have hnone : s.idempotency.get (keyOf caller) = none := halone request caller hash hold
    have hother : ∀ (j : Nat) x r, s.calls[j]? = some (.returned x true r) →
        keyOf x ≠ keyOf caller := by
      intro j x r hj heq
      have hkept := hf.kept j x r hj
      simp [heq, hnone] at hkept
    rw [hcalls]
    intro j k x y r r' hj hk hkey
    rcases getElem?_set_cases hj with ⟨rfl, heq⟩ | ⟨-, hj'⟩
    · obtain ⟨rfl, -, -⟩ := Stage.returned.inj heq
      rcases getElem?_set_cases hk with ⟨rfl, -⟩ | ⟨-, hk'⟩
      · rfl
      · exact absurd hkey.symm (hother k y r' hk')
    · rcases getElem?_set_cases hk with ⟨rfl, heq⟩ | ⟨-, hk'⟩
      · obtain ⟨rfl, -, -⟩ := Stage.returned.inj heq
        exact absurd hkey (hother j x r hj')
      · exact h.once j k x y r r' hj' hk' hkey

/-- A handler that comes back after another run was recorded is a second run. -/
theorem not_idempotent_of_late (hf : Faithful keyOf s) {e : Event} (hlate : ¬Alone keyOf s e) :
    ¬Idempotent keyOf (s.apply host config keyOf e) := by
  intro h
  obtain ⟨i, result, rfl⟩ : ∃ i result, e = .answer i (.handler (.ok result)) := by
    match e with
    | .answer i (.handler (.ok result)) => exact ⟨i, result, rfl⟩
    | .register _ | .handle _ _ | .answer _ (.verifier _) | .answer _ (.pairingStore _)
    | .answer _ (.handler (.error _)) => exact absurd trivial hlate
  simp only [Alone, not_forall] at hlate
  obtain ⟨request, caller, hash, hold, hsome⟩ := hlate
  obtain ⟨v, hv⟩ := Option.ne_none_iff_exists'.mp hsome
  obtain ⟨j, x, hj, hx⟩ := hf.recorded _ _ hv
  have hcalls : (s.apply host config keyOf (.answer i (.handler (.ok result)))).calls =
      s.calls.set i (.returned caller true (respond request result)) := by
    simp only [Core.apply, hold]
    rfl
  -- the recorded answer and this one are both of calls that ran the handler
  have hsame : j = i := by
    refine h.once j i x caller v.response (respond request result) ?_ ?_ hx
    · rw [hcalls]
      exact returned_set hold trivial hj
    · rw [hcalls]
      exact getElem?_set_of_some hold
  rw [hsame, hold] at hj
  simp at hj

end Core

/-- Whatever the calls and the answers: each key has one successful run, whose response all its
calls return, in every state of a run iff no handler comes back after another call has recorded
its response. -/
theorem idempotent_iff (host : Host) (config : Config) (es : List Event) :
    Throughout (Core.apply host config recordKey) (Core.Idempotent recordKey) .start es ↔
      Meets (Core.apply host config recordKey) (Core.Alone recordKey) .start es :=
  throughout_iff_meets (I := fun s => Core.Faithful recordKey s ∧ Core.Idempotent recordKey s)
    (fun _ h => h.2) (fun _ e h halone => ⟨h.1.apply e, h.2.apply h.1 e halone⟩)
    (fun _ _ h hlate => Core.not_idempotent_of_late h.1 hlate)
    ⟨Core.faithful_start, by simp [Core.start], Core.faithful_start.shared⟩

/-! ### Slow retries -/

/-- A request as it is sent, with a key. -/
def sample (key : String) : JsValue := .object [("version", .string "1.0"), ("id", .string "r1"),
  ("kind", .string "request"), ("method", .string "send"), ("idempotencyKey", .string key),
  ("params", .null)]

/-- The text of a field that is null or a text without quotes; other fields are left out. -/
def sampleField : String × JsValue → Option String
  | (k, .null) => some ("\"" ++ k ++ "\":null")
  | (k, .string s) => some ("\"" ++ k ++ "\":\"" ++ s ++ "\"")
  | _ => none

/-- JSON, where the sample and what is hashed of it are concerned. -/
def sampleText : JsValue → Option String
  | .object fields =>
    some ("\x7b" ++ String.intercalate "," (fields.filterMap sampleField) ++ "\x7d")
  | _ => none

def sampleHost : Host where
  parse _ := none
  stringify v := .ok (sampleText v)
  sha256Hex text := text

/-- What is received of the sample. -/
def sampleFrame (key : Identifier) : RequestFrame where
  version := "1.0"
  id := ⟨"r1", by decide⟩
  method := ⟨"send", by decide⟩
  idempotencyKey := key
  sessionId := none
  runId := none
  params := .null

theorem requestFrameSchema_sample (key : Identifier) :
    requestFrameSchema (sample key.val) = some (sampleFrame key) := by
  have hkey : JsValue.identifier? (.string key.val) = some key := by
    simp [JsValue.identifier?, JsValue.text?, key.property]
  calc requestFrameSchema (sample key.val)
      = (JsValue.identifier? (.string key.val)).bind fun key => some (sampleFrame key) := rfl
    _ = some (sampleFrame key) := by rw [hkey, Option.bind_some]

theorem receive_sample (key : Identifier)
    (hsize : ((sampleText (sample key.val)).getD "").utf8ByteSize ≤ 1000) :
    receive sampleHost ⟨["1.0"], 1000⟩ (sample key.val) = .ok (sampleFrame key) := by
  have hframe := requestFrameSchema_sample key
  obtain ⟨text, htext⟩ : ∃ text, sampleText (sample key.val) = some text := ⟨_, rfl⟩
  have hencoded : sampleHost.stringify (sample key.val) = .ok (some text) :=
    congrArg Except.ok htext
  have hfits : ¬1000 < text.utf8ByteSize := by
    rw [htext] at hsize
    exact Nat.not_lt.mpr hsize
  obtain ⟨fields, hfields⟩ : ∃ fields, sample key.val = .object fields := ⟨_, rfl⟩
  rw [hfields] at hframe hencoded ⊢
  simp [receive, hencoded, hframe, hfits, orThrow, throwIf, bind, Except.bind, pure, Except.pure,
    sampleFrame]

/-- The request is sent, and sent again before the handler of the first call is back. -/
theorem slow_retries :
    ¬∀ (host : Host) (config : Config) (es : List Event),
      Throughout (Core.apply host config recordKey) (Core.Idempotent recordKey) .start es := by
  intro h
  have hidem := h sampleHost ⟨["1.0"], 1000⟩
    [.register "send", .handle (sample "k") ⟨"secret", none⟩,
      .handle (sample "k") ⟨"secret", none⟩,
      .answer 0 (.verifier (.ok (some ⟨"alice", [], [], []⟩))),
      .answer 1 (.verifier (.ok (some ⟨"alice", [], [], []⟩))),
      .answer 0 (.handler (.ok (.bool true))), .answer 1 (.handler (.ok (.bool true)))]
    _ [] (List.append_nil _).symm
  have hreceive : receive sampleHost ⟨["1.0"], 1000⟩ (sample "k") =
      .ok (sampleFrame ⟨"k", by decide⟩) :=
    receive_sample ⟨"k", by decide⟩ (by decide)
  have hregister : isIdentifier "send" = true := by decide
  simp only [run_cons, run_nil, Core.apply, hreceive, dif_pos hregister] at hidem
  have hsame := hidem.once 0 1 _ _ _ _ rfl rfl rfl
  simp at hsame

end AriOs.Gateway
