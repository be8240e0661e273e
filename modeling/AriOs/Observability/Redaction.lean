import AriOs.Js.Heap
import AriOs.Observability.AuditRoots

/-!
# Redaction

What the program logs and what it audits is cleaned first: fields whose keys name secrets are
replaced, texts are cut, and an object that was met before is replaced too, so that a cycle through
objects ends. An array is not noted as met: a cycle through arrays alone runs until the stack of the
host is used up, and the call throws.

Texts are cut between characters: half of a surrogate pair is not kept.
-/

namespace AriOs.Observability

open AriOs.Async AriOs.Js AriOs.Storage

/-! ### Cleaning -/

/-- `/(secret|password|token|authorization|api.?key|private.?key|seed|mnemonic|` and
`signed.?transaction|raw.?tx)/i`. -/
def secret : List (List (Option Char)) :=
  let word (s : String) := s.toList.map some
  [word "secret", word "password", word "token", word "authorization",
    word "api" ++ none :: word "key", word "private" ++ none :: word "key", word "seed",
    word "mnemonic", word "signed" ++ none :: word "transaction", word "raw" ++ none :: word "tx"]

/-- `secret.test(key)`. -/
def isSecret (key : String) : Bool :=
  key.toList.tails.any fun cs => secret.any fun pattern => matchesAt pattern cs

example : isSecret "apiKey" = true ∧ isSecret "rawSignedTransaction" = true ∧
    isSecret "toolId" = false := by decide

/-- The characters that fit into `max` code units. -/
def sliceChars : (max : Nat) → List Char → List Char
  | _, [] => []
  | max, c :: cs =>
    if (codeUnits c).length ≤ max then c :: sliceChars (max - (codeUnits c).length) cs else []

/-- `s.slice(0, max)`. -/
def slice (max : Nat) (s : String) : String := String.ofList (sliceChars max s.toList)

/-- Cleaning keeps which objects were met, and may run out of stack. -/
abbrev Cleaning := StateT (List Nat) Option

/-- `clean`, with a stack of some depth. -/
def clean (h : Heap) (max : Nat) : (depth : Nat) → (key : String) → Held → Cleaning JsValue
  | 0, _, _ => failure
  | depth + 1, key, v =>
    if isSecret key then return .string "[REDACTED]"
    else match v with
    | .string s => return .string (slice max s)
    | .bigint i => return .string (toString i)
    | .ref id =>
      match h.get id with
      | some (.array items) => return .array (← (items.take 20).mapM (clean h max depth ""))
      | some (.object entries) => do
        if id ∈ (← get) then return .string "[CIRCULAR]"
        else
          modify (id :: ·)
          return .object (← (entries.take 50).mapM fun e =>
            return (e.1, ← clean h max depth e.1 e.2))
      -- no reference dangles
      | none => failure
    | .number n => return if n.isFinite then .number n else .string n.text
    | .bool b => return .bool b
    | .null => return .null
    | .undefined => return .string "undefined"
    | .function text => return .string text

/-- `clean` on a value of its own, for which no object was met before. -/
def cleaned (h : Heap) (max depth : Nat) (key : String) (v : Held) : Option JsValue :=
  ((clean h max depth key v).run []).map Prod.fst

/-! ### Logging -/

structure ObservabilityEvent where
  name : String
  timestamp : Int
  correlation : JsValue
  attributes : List (String × JsValue)

structure Options where
  maxFields : Option Nat
  maxValueLength : Option Nat

/-- What a span was given; its attributes are an object of its own. -/
structure Span where
  name : String
  correlation : Held
  attributes : Entries

/-- The heap, the open spans, what the sink was handed, and the batcher of audit events. -/
structure SecureEventLogger where
  heap : Heap
  spans : List Span
  sunk : List ObservabilityEvent
  batcher : AuditRootBatcher

/-- `Object.entries`. -/
def entriesOf (h : Heap) : Held → Entries
  | .ref id =>
    match h.get id with
    | some (.array items) => items.zipIdx.map fun x => (toString x.2, x.1)
    | some (.object entries) => entries
    | none => []
  | _ => []

section Logging

variable (o : Options) (depth : Nat) (hash : String → String) (canonical : JsValue → String)
  (size : JsNumber)

/-- The event that `emit` hands to the sink. -/
def eventOf (h : Heap) (name : String) (correlation : Held) (entries : Entries) (now : Int) :
    Option ObservabilityEvent := do
  let attributes ← (entries.take (o.maxFields.getD 32)).mapM fun e =>
    return (e.1, ← cleaned h (o.maxValueLength.getD 1024) depth e.1 e.2)
  return ⟨slice 128 name, now, ← cleaned h 128 depth "" correlation, attributes⟩

namespace SecureEventLogger

variable (l : SecureEventLogger)

/-- `emit`; nothing reaches the sink if it throws. -/
def emit (name : String) (correlation : Held) (entries : Entries) (now : Int) : SecureEventLogger :=
  { l with sunk := l.sunk ++ (eventOf o depth l.heap name correlation entries now).toList }

/-- The `end` of a span. -/
def endSpan (span : Nat) (now : Int) : SecureEventLogger :=
  match l.spans[span]? with
  | some s => l.emit o depth ("span." ++ s.name) s.correlation s.attributes now
  | none => l

/-- `add`; nothing is added if it throws. -/
def audit (event : Held) (now : Int) : SecureEventLogger :=
  match cleaned l.heap 4096 depth "" event with
  | some v => { l with batcher := l.batcher.add hash canonical size v now }
  | none => l

end SecureEventLogger

/-- What the program does. -/
inductive Action where
  /-- it makes an object or an array, or changes one -/
  | write (id : Nat) (s : Stored)
  | emit (name : String) (correlation attributes : Held) (now : Int)
  | startSpan (name : String) (correlation : Held)
  | setAttribute (span : Nat) (key : String) (v : Held)
  | endSpan (span : Nat) (now : Int)
  | audit (event : Held) (now : Int)
  | flush (now : Int)
  /-- the sink of the roots answers -/
  | settle (i : Nat) (ok : Bool)

def act (l : SecureEventLogger) : Action → SecureEventLogger
  | .write id s => { l with heap := FiniteMap.set l.heap id s }
  | .emit name correlation attributes now =>
    l.emit o depth name correlation (entriesOf l.heap attributes) now
  | .startSpan name correlation => { l with spans := l.spans ++ [⟨name, correlation, []⟩] }
  | .setAttribute span key v =>
    { l with spans := l.spans.modify span fun s =>
        { s with attributes := setEntry s.attributes key v } }
  | .endSpan span now => l.endSpan o depth span now
  | .audit event now => l.audit depth hash canonical size event now
  | .flush now => { l with batcher := l.batcher.flush hash now }
  | .settle i ok => { l with batcher := l.batcher.settle i (if ok then .appended else .failed) }

def logged (l : SecureEventLogger) (as : List Action) : SecureEventLogger :=
  Transition.run (act o depth hash canonical size) l as

end Logging

/-! ### What stands under secret keys -/

/-- Two actions that differ in what they write directly under secret keys alone: the value of a
field or of an attribute. An object that such a value refers to is written by actions of its own,
which are the same in both. -/
inductive Action.Alike : Action → Action → Prop
  | write (id : Nat) {s s' : Stored} (h : s.Agree (isSecret ·) s') :
      Alike (.write id s) (.write id s')
  | setAttribute (span : Nat) {key : String} {v v' : Held} (h : ¬ isSecret key = true → v = v') :
      Alike (.setAttribute span key v) (.setAttribute span key v')
  | refl (a : Action) : Alike a a

section Unseen

variable {o : Options} {depth max : Nat} {hash : String → String} {canonical : JsValue → String}
  {size : JsNumber} {h h' : Heap} {key : String} {v v' : Held} {es es' : Entries}
  {l l' : SecureEventLogger} {a a' : Action}

theorem mapM_congr_forall₂ {m : Type → Type} [Monad m] [LawfulMonad m] {α β : Type}
    {f g : α → m β} {xs ys : List α} (h : List.Forall₂ (fun x y => f x = g y) xs ys) :
    xs.mapM f = ys.mapM g := by
  induction h with
  | nil => rfl
  | cons hx _ ih => rw [List.mapM_cons, List.mapM_cons, hx, ih]

/-- What is left of a value does not depend on what stands under secret keys. -/
theorem clean_eq (hagree : h.Agree (isSecret ·) h') (hv : ¬ isSecret key = true → v = v') :
    clean h max depth key v = clean h' max depth key v' := by
  induction depth generalizing key v v' with
  | zero => rfl
  | succ depth ih =>
    unfold clean
    by_cases hkey : isSecret key = true
    · rw [if_pos hkey, if_pos hkey]
    · rw [if_neg hkey, if_neg hkey, ← hv hkey]
      cases v with
      | ref id =>
        have hrel := hagree id
        dsimp only
        generalize h.get id = s, h'.get id = s' at hrel
        cases hrel with
        | none => rfl
        | @some s s' hs =>
          cases hs with
          | array items =>
            have hitems : (items.take 20).mapM (clean h max depth "") =
                (items.take 20).mapM (clean h' max depth "") :=
              mapM_congr_forall₂ (List.forall₂_same.mpr fun _ _ => ih fun _ => rfl)
            dsimp only
            rw [hitems]
          | @object es es' hes =>
            have hentries : ((es.take 50).mapM fun e => do
                  return (e.1, ← clean h max depth e.1 e.2) : Cleaning _) =
                (es'.take 50).mapM fun e => do return (e.1, ← clean h' max depth e.1 e.2) := by
              refine mapM_congr_forall₂ (List.forall₂_take 50 (List.Forall₂.imp ?_ hes))
              rintro ⟨k, x⟩ ⟨k', x'⟩ ⟨rfl, hx⟩
              rw [ih hx]
            dsimp only
            rw [hentries]
      | undefined | null | bool | number | bigint | string | function => rfl

theorem cleaned_eq (hagree : h.Agree (isSecret ·) h') (hv : ¬ isSecret key = true → v = v') :
    cleaned h max depth key v = cleaned h' max depth key v' := by
  rw [cleaned, cleaned, clean_eq hagree hv]

/-- The fields that are logged agree. -/
theorem sameEntries_entriesOf (hagree : h.Agree (isSecret ·) h') (v : Held) :
    SameEntries (isSecret ·) (entriesOf h v) (entriesOf h' v) := by
  cases v with
  | ref id =>
    have hrel := hagree id
    dsimp only [entriesOf]
    generalize h.get id = s, h'.get id = s' at hrel
    cases hrel with
    | none => exact .nil
    | @some s s' hs =>
      cases hs with
      | array items => exact .refl _
      | object hes => exact hes
  | undefined | null | bool | number | bigint | string | function => exact .nil

theorem eventOf_eq {name : String} {correlation : Held} {now : Int}
    (hagree : h.Agree (isSecret ·) h') (hes : SameEntries (isSecret ·) es es') :
    eventOf o depth h name correlation es now = eventOf o depth h' name correlation es' now := by
  have hattributes : ((es.take (o.maxFields.getD 32)).mapM fun e => do
        return (e.1, ← cleaned h (o.maxValueLength.getD 1024) depth e.1 e.2) : Option _) =
      (es'.take (o.maxFields.getD 32)).mapM fun e => do
        return (e.1, ← cleaned h' (o.maxValueLength.getD 1024) depth e.1 e.2) := by
    refine mapM_congr_forall₂ (List.forall₂_take _ (List.Forall₂.imp ?_ hes))
    rintro ⟨k, x⟩ ⟨k', x'⟩ ⟨rfl, hx⟩
    rw [cleaned_eq hagree hx]
  rw [eventOf, eventOf, hattributes, cleaned_eq hagree fun _ => rfl]

/-! ### Runs -/

/-- Two loggers that were handed the same, apart from what stands under secret keys. -/
structure Same (l l' : SecureEventLogger) : Prop where
  heap : Heap.Agree (isSecret ·) l.heap l'.heap
  spans : List.Forall₂ (fun s s' => s.name = s'.name ∧ s.correlation = s'.correlation ∧
    SameEntries (isSecret ·) s.attributes s'.attributes) l.spans l'.spans
  sunk : l.sunk = l'.sunk
  batcher : l.batcher = l'.batcher

theorem Same.emit {name : String} {correlation : Held} {now : Int} (h : Same l l')
    (hes : SameEntries (isSecret ·) es es') :
    Same (l.emit o depth name correlation es now) (l'.emit o depth name correlation es' now) where
  heap := h.heap
  spans := h.spans
  sunk := by
    rw [SecureEventLogger.emit, SecureEventLogger.emit, h.sunk, eventOf_eq h.heap hes]
  batcher := h.batcher

theorem Same.endSpan (h : Same l l') (span : Nat) (now : Int) :
    Same (l.endSpan o depth span now) (l'.endSpan o depth span now) := by
  have hrel := List.forall₂_iff_get.mp h.spans
  unfold SecureEventLogger.endSpan
  cases hs : l.spans[span]? with
  | none =>
    have hs' : l'.spans[span]? = none := by
      rw [List.getElem?_eq_none_iff] at hs ⊢
      exact hrel.1 ▸ hs
    rwa [hs']
  | some s =>
    obtain ⟨hlt, rfl⟩ := List.getElem?_eq_some_iff.mp hs
    obtain ⟨hname, hcorrelation, hattributes⟩ := hrel.2 span hlt (hrel.1 ▸ hlt)
    rw [List.getElem?_eq_getElem (hrel.1 ▸ hlt)]
    dsimp only
    rw [List.get_eq_getElem, List.get_eq_getElem] at hname hcorrelation
    rw [hname, hcorrelation]
    exact h.emit hattributes

theorem Same.audit (h : Same l l') (event : Held) (now : Int) :
    Same (l.audit depth hash canonical size event now)
      (l'.audit depth hash canonical size event now) := by
  unfold SecureEventLogger.audit
  rw [cleaned_eq h.heap fun _ => rfl]
  cases cleaned l'.heap 4096 depth "" event with
  | none => exact h
  | some v =>
    exact ⟨h.heap, h.spans, h.sunk,
      congrArg (fun b => AuditRootBatcher.add hash canonical size b v now) h.batcher⟩

theorem forall₂_modify {α : Type} {R : α → α → Prop} {f g : α → α} {xs ys : List α}
    (h : List.Forall₂ R xs ys) (hfg : ∀ x y, R x y → R (f x) (g y)) (i : Nat) :
    List.Forall₂ R (xs.modify i f) (ys.modify i g) := by
  induction h generalizing i with
  | nil => simp
  | cons hx hxs ih =>
    cases i with
    | zero => exact .cons (hfg _ _ hx) hxs
    | succ i => exact .cons hx (ih i)

theorem Same.setAttribute (h : Same l l') (span : Nat) (hv : ¬ isSecret key = true → v = v') :
    Same (act o depth hash canonical size l (.setAttribute span key v))
      (act o depth hash canonical size l' (.setAttribute span key v')) := by
  refine ⟨h.heap, forall₂_modify h.spans ?_ span, h.sunk, h.batcher⟩
  rintro s s' ⟨hname, hcorrelation, hattributes⟩
  exact ⟨hname, hcorrelation, hattributes.setEntry hv⟩

/-- One action on both. -/
theorem Same.act (h : Same l l') (ha : a.Alike a') :
    Same (act o depth hash canonical size l a) (act o depth hash canonical size l' a') := by
  cases ha with
  | write id hs => exact ⟨h.heap.set hs, h.spans, h.sunk, h.batcher⟩
  | setAttribute span hv => exact h.setAttribute span hv
  | refl =>
    cases a with
    | write id s => exact ⟨h.heap.set (.refl s), h.spans, h.sunk, h.batcher⟩
    | emit name correlation attributes now => exact h.emit (sameEntries_entriesOf h.heap _)
    | startSpan name correlation =>
      exact ⟨h.heap, List.rel_append h.spans (.cons ⟨rfl, rfl, .nil⟩ .nil), h.sunk, h.batcher⟩
    | setAttribute span key v => exact h.setAttribute span fun _ => rfl
    | endSpan span now => exact h.endSpan span now
    | audit event now => exact h.audit event now
    | flush now =>
      exact ⟨h.heap, h.spans, h.sunk, congrArg (AuditRootBatcher.flush hash · now) h.batcher⟩
    | settle i ok =>
      exact ⟨h.heap, h.spans, h.sunk, congrArg (AuditRootBatcher.settle · i _) h.batcher⟩

/-- Whatever a program logs, traces and audits, with objects that it changes meanwhile and that may
be cyclic: the events that the sink is handed, and the roots and digests of the audit, do not depend
on what stands under secret keys. -/
theorem secrets_unseen {as as' : List Action} (halike : List.Forall₂ Action.Alike as as')
    (o : Options) (depth : Nat) (hash : String → String) (canonical : JsValue → String)
    (size : JsNumber) (l : SecureEventLogger) :
    (logged o depth hash canonical size l as).sunk =
        (logged o depth hash canonical size l as').sunk ∧
      (logged o depth hash canonical size l as).batcher =
        (logged o depth hash canonical size l as').batcher := by
  have hsame : ∀ {as as'}, List.Forall₂ Action.Alike as as' → ∀ {l l'}, Same l l' →
      Same (logged o depth hash canonical size l as) (logged o depth hash canonical size l' as') := by
    intro as as' halike
    induction halike with
    | nil => exact id
    | cons ha _ ih => exact fun h => ih (h.act ha)
  have hl : Same l l :=
    ⟨Heap.agree_refl _, List.forall₂_same.mpr fun _ _ => ⟨rfl, rfl, .refl _⟩, rfl, rfl⟩
  exact ⟨(hsame halike hl).sunk, (hsame halike hl).batcher⟩

end Unseen

/-- A cyclic object with a password, which is logged and audited. -/
def withPassword (password : String) : List Action :=
  [.write 0 (.object [("password", .string password), ("self", .ref 0)]),
    .emit "login" .null (.ref 0) 1, .audit (.ref 0) 2]

theorem secrets_unseen_sample :
    (logged ⟨none, none⟩ 9 id (fun _ => "") (.ofInt 1) ⟨.empty, [], [], .start⟩
        (withPassword "hunter2")).sunk =
      (logged ⟨none, none⟩ 9 id (fun _ => "") (.ofInt 1) ⟨.empty, [], [], .start⟩
        (withPassword "swordfish")).sunk := by
  have hfields : Stored.Agree (isSecret ·)
      (.object [("password", .string "hunter2"), ("self", .ref 0)])
      (.object [("password", .string "swordfish"), ("self", .ref 0)]) :=
    .object (.cons (.mk fun h => absurd (by decide) h) (.cons (.mk fun _ => rfl) .nil))
  exact (secrets_unseen (.cons (.write 0 hfields) (.cons (.refl _) (.cons (.refl _) .nil)))
    _ _ _ _ _ _).1

example : (logged ⟨none, none⟩ 9 id (fun _ => "") (.ofInt 1) ⟨.empty, [], [], .start⟩
    (withPassword "hunter2")).sunk.map (fun e => (e.name, e.attributes.map Prod.fst)) =
      [("login", ["password", "self"])] := by decide +kernel

end AriOs.Observability
