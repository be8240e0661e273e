import AriOs.Signer.SingleUse

/-!
# What becomes of a claimed authorization

A request claims its authorization before it reads the block height and before it signs. From
then on the record is its own: no other request can move it, so the record is settled exactly if
one of the request's own compare-and-sets went through. A key that fails has the record marked
as failed. A block height that cannot be read, or is no height, is thrown past the record.
-/

namespace AriOs.Signer

open AriOs.Async AriOs.Js AriOs.Storage Signing

/-! ### Reading a history -/

/-- A compare-and-set on the record of `id` was answered. -/
def Moved (history : List (Entry interface)) (id : String) : Prop :=
  ∃ target data b, (⟨.transition id .claimed target data, (.ok b : Except String Bool)⟩ :
    Entry interface) ∈ history

/-- An answer that is a block height. -/
def ValidHeight (answer : Except String JsNumber) : Prop :=
  ∃ number height, answer = .ok number ∧ (JsValue.number number).safeInteger? = some height ∧
    0 ≤ height

/-- Every block height that was read is one. -/
def HeightsValid (history : List (Entry interface)) : Prop :=
  ∀ answer, (⟨.blockHeight, answer⟩ : Entry interface) ∈ history → ValidHeight answer

def storeStep (last : Bool) : Entry interface → Bool
  | ⟨.get _, .error _⟩ | ⟨.consume _ _, .error _⟩ | ⟨.transition _ _ _ _, .error _⟩ => false
  | ⟨.get _, .ok _⟩ | ⟨.consume _ _, .ok _⟩ | ⟨.transition _ _ _ _, .ok _⟩ => true
  | _ => last

/-- The store did not fail the last of its statements. -/
def StoreAnswered (history : List (Entry interface)) : Prop := history.foldl storeStep true = true

/-- What a request leaves behind. -/
def Decided (v : SignTrace) : Prop :=
  ∀ id, Claims v.history id →
    (Moved v.history id ↔ HeightsValid v.history ∧ StoreAnswered v.history)

section Histories

variable {history : List (Entry interface)} {e : Entry interface} {id : String}

theorem moved_append : Moved (history ++ [e]) id ↔ Moved history id ∨
    ∃ target data b, e = ⟨.transition id .claimed target data, (.ok b : Except String Bool)⟩ := by
  unfold Moved
  simp only [List.mem_append, List.mem_singleton, exists_or, eq_comm]

theorem heightsValid_append : HeightsValid (history ++ [e]) ↔ HeightsValid history ∧
    ∀ answer, e = ⟨.blockHeight, answer⟩ → ValidHeight answer := by
  unfold HeightsValid
  simp only [List.mem_append, List.mem_singleton, or_imp, forall_and, eq_comm]

theorem storeAnswered_append : StoreAnswered (history ++ [e]) ↔
    storeStep (history.foldl storeStep true) e = true := by
  simp [StoreAnswered]

end Histories

/-! ### The discipline of a request -/

/-- Only records the request has claimed are moved, and they are moved out of `claimed`. -/
def MovesOwn (v : SignTrace) : Op → Prop
  | .transition id source target _ => source = .claimed ∧ target.Settled ∧ Claims v.history id
  | _ => True

/-- The first compare-and-set on a record that the request has claimed is not lost. -/
def FirstWins (v : SignTrace) (e : Entry interface) : Prop :=
  ∀ id target data, e = ⟨.transition id .claimed target data, (.ok false : Except String Bool)⟩ →
    Claims v.history id → Moved v.history id

def ownership : Discipline interface SignTrace where
  upd := Trace.push
  pre := MovesOwn
  adm := FirstWins

theorem ownership_view (c : Call interface SignRequest (Except String SignResult)) :
    c.view ownership Trace.start = ⟨c.request, c.history⟩ := Call.view_of_push rfl c

/-- The body returns with `Q`, or throws with every claim decided. -/
abbrev EndsDecided {α : Type} (Q : SignTrace → α → Prop) (x : Signing α) (v : SignTrace) : Prop :=
  Task.Ends ownership Q (fun w _ => Decided w) x v

/-! ### One request -/

/-- Nothing was claimed yet. -/
structure Unclaimed (v : SignTrace) : Prop where
  claims : ∀ id, ¬ Claims v.history id
  moved : ∀ id, ¬ Moved v.history id
  heights : HeightsValid v.history

/-- The record of `id` was claimed and has not been moved. -/
structure Owns (id : String) (v : SignTrace) : Prop where
  claims : ∀ k, Claims v.history k ↔ k = id
  moved : ∀ k, ¬ Moved v.history k
  heights : HeightsValid v.history

/-- A call that claims nothing, moves nothing and reads no height. -/
def isIdle : Op → Bool
  | .get _ | .now | .verify _ _ _ | .signMessage _ => true
  | _ => false

section Request

variable {v : SignTrace} {id : String} {e : Entry interface}

theorem claims_idle {history : List (Entry interface)} (he : isIdle e.op = true) :
    Claims (history ++ [e]) id ↔ Claims history id := by
  refine claims_append.trans (or_iff_left ?_)
  rintro ⟨expiresAt, rfl⟩
  simp [isIdle] at he

theorem moved_idle {history : List (Entry interface)} (he : isIdle e.op = true) :
    Moved (history ++ [e]) id ↔ Moved history id := by
  refine moved_append.trans (or_iff_left ?_)
  rintro ⟨target, data, b, rfl⟩
  simp [isIdle] at he

theorem heightsValid_idle {history : List (Entry interface)} (he : isIdle e.op = true) :
    HeightsValid (history ++ [e]) ↔ HeightsValid history := by
  refine heightsValid_append.trans (and_iff_left ?_)
  rintro answer rfl
  simp [isIdle] at he

theorem Unclaimed.decided (h : Unclaimed v) : Decided v := fun id hid => absurd hid (h.claims id)

theorem Unclaimed.push (h : Unclaimed v) (he : isIdle e.op = true) : Unclaimed (v.push e) where
  claims id hid := h.claims id ((claims_idle he).mp hid)
  moved id hid := h.moved id ((moved_idle he).mp hid)
  heights := (heightsValid_idle he).mpr h.heights

theorem ends_check {α : Type} {Q : SignTrace → α → Prop} {x : Except String α} (hv : Decided v)
    (h : ∀ a, x = .ok a → Q v a) : EndsDecided Q (check x) v :=
  Task.ends_ofExcept.mpr ⟨h, fun _ _ => hv⟩

theorem stored_ends (h : Unclaimed v) (id requestHash : String) :
    EndsDecided (fun w _ => Unclaimed w) (stored id requestHash) v := by
  refine Task.ends_bind.mpr (ends_check h.decided fun _ _ => ?_)
  refine Task.ends_bind.mpr ⟨trivial, fun answer _ => ?_⟩
  have hnext : Unclaimed (v.push ⟨.get id, answer⟩) := h.push rfl
  refine ends_check hnext.decided fun row _ => ?_
  cases row with
  | none => exact Task.ends_pure.mpr hnext
  | some row => exact ends_check hnext.decided fun _ _ => hnext

theorem verify_ends (h : Unclaimed v) (J : JsonHost) (d : VerifierDependencies)
    (decoded : DecodedTransaction) (envelope : JsValue) :
    EndsDecided (fun w _ => Unclaimed w) (verify J d decoded envelope) v := by
  refine Task.ends_bind.mpr (Task.ends_total.mpr ⟨trivial, fun now _ => ?_⟩)
  have hnow : Unclaimed (v.push ⟨.now, now⟩) := h.push rfl
  refine Task.ends_bind.mpr (ends_check hnow.decided fun _ _ => ?_)
  refine Task.ends_bind.mpr ⟨trivial, fun answer _ => ?_⟩
  have hverify := hnow.push (e := ⟨.verify _ _ _, answer⟩) rfl
  refine ends_check hverify.decided fun valid _ => ?_
  refine Task.ends_bind.mpr (ends_check hverify.decided fun _ _ => ?_)
  exact ends_check hverify.decided fun _ _ => hverify

theorem Owns.push (h : Owns id v) (he : isIdle e.op = true) : Owns id (v.push e) where
  claims k := (claims_idle he).trans (h.claims k)
  moved k hk := h.moved k ((moved_idle he).mp hk)
  heights := (heightsValid_idle he).mpr h.heights

/-- A compare-and-set decides, whether the store fails it or not. -/
theorem Owns.transition (h : Owns id v) (target : ExecutionState) (data : Option ReplayData)
    (answer : Except String Bool) :
    Decided (v.push (⟨.transition id .claimed target data, answer⟩ : Entry interface)) := by
  intro k hk
  rcases claims_append.mp hk with hk | ⟨expiresAt, he⟩
  · obtain rfl := (h.claims k).mp hk
    -- a transition is no reading of the height
    have hheights : HeightsValid (v.push (⟨.transition k .claimed target data, answer⟩ :
        Entry interface)).history := by
      refine heightsValid_append.mpr ⟨h.heights, fun answer he => ?_⟩
      cases (Entry.mk.inj he).1
    rw [and_iff_right hheights]
    refine moved_append.trans ((or_iff_right (h.moved k)).trans (Iff.trans ?_
      storeAnswered_append.symm))
    cases answer with
    | error e =>
      refine iff_of_false ?_ (by simp [storeStep])
      rintro ⟨target, data, b, he⟩
      obtain ⟨ho, hres⟩ := Entry.mk.inj he
      cases ho
      have hres : (.error e : Except String Bool) = .ok b := eq_of_heq hres
      simp at hres
    | ok b => exact iff_of_true ⟨target, data, b, rfl⟩ rfl
  · cases (Entry.mk.inj he).1

/-- The owner of a record goes on owning it if the store fails. -/
theorem Owns.failed (h : Owns id v) (target : ExecutionState) (data : Option ReplayData)
    (e : String) :
    Owns id (v.push (⟨.transition id .claimed target data, (.error e : Except String Bool)⟩ :
      Entry interface)) where
  claims k := by
    refine (claims_append.trans (or_iff_left ?_)).trans (h.claims k)
    rintro ⟨expiresAt, he⟩
    cases (Entry.mk.inj he).1
  moved k hk := by
    rcases moved_append.mp hk with hk | ⟨target', data', b, he⟩
    · exact h.moved k hk
    · obtain ⟨ho, hres⟩ := Entry.mk.inj he
      cases ho
      have hres : (.error e : Except String Bool) = .ok b := eq_of_heq hres
      simp at hres
  heights := by
    refine heightsValid_append.mpr ⟨h.heights, fun answer he => ?_⟩
    cases (Entry.mk.inj he).1

theorem claims_blockHeight {history : List (Entry interface)} {answer : Except String JsNumber} :
    Claims (history ++ [⟨.blockHeight, answer⟩]) id ↔ Claims history id := by
  refine claims_append.trans (or_iff_left ?_)
  rintro ⟨expiresAt, he⟩
  cases (Entry.mk.inj he).1

theorem moved_blockHeight {history : List (Entry interface)} {answer : Except String JsNumber} :
    Moved (history ++ [⟨.blockHeight, answer⟩]) id ↔ Moved history id := by
  refine moved_append.trans (or_iff_left ?_)
  rintro ⟨target, data, b, he⟩
  cases (Entry.mk.inj he).1

/-- A height that is none is thrown past the record. -/
theorem Owns.decided_of_bad (h : Owns id v) {answer : Except String JsNumber}
    (hbad : ¬ ValidHeight answer) :
    Decided (v.push (⟨.blockHeight, answer⟩ : Entry interface)) := by
  intro k _
  refine iff_of_false (fun hmoved => h.moved k (moved_blockHeight.mp hmoved)) ?_
  rintro ⟨hheights, -⟩
  exact hbad ((heightsValid_append.mp hheights).2 answer rfl)

theorem Owns.height (h : Owns id v) {answer : Except String JsNumber}
    (hvalid : ValidHeight answer) :
    Owns id (v.push (⟨.blockHeight, answer⟩ : Entry interface)) where
  claims k := claims_blockHeight.trans (h.claims k)
  moved k hk := h.moved k (moved_blockHeight.mp hk)
  heights := by
    refine heightsValid_append.mpr ⟨h.heights, fun answer' he => ?_⟩
    obtain rfl : answer = answer' := eq_of_heq (Entry.mk.inj he).2
    exact hvalid

theorem fenceBlockhash_ends (h : Owns id v) (hasBlockHeight : Bool)
    (lastValidBlockHeight : Option Int) :
    EndsDecided (fun w _ => Owns id w) (fenceBlockhash hasBlockHeight id lastValidBlockHeight) v := by
  unfold fenceBlockhash
  split
  · exact Task.ends_pure.mpr h
  · split
    · refine Task.ends_bind.mpr ⟨trivial, fun answer _ => ?_⟩
      refine Task.ends_ofExcept.mpr ⟨fun number hnumber => ?_, fun e he => h.decided_of_bad ?_⟩
      · obtain rfl : answer = .ok number := hnumber
        refine Task.ends_bind.mpr (Task.ends_ofExcept.mpr ⟨fun height hheight => ?_, fun e he => ?_⟩)
        · rw [orThrow_eq_ok, Option.filter_eq_some_iff] at hheight
          -- an answer that is a height leaves the row as it is
          have hown := h.height ⟨number, height, rfl, hheight.1, of_decide_eq_true hheight.2⟩
          split
          · exact Task.ends_pure.mpr hown
          · refine Task.ends_bind.mpr ⟨⟨rfl, .inr (.inl rfl), (hown.claims id).mpr rfl⟩,
              fun answer _ => ?_⟩
            exact ends_check (hown.transition .expired _ answer) fun _ _ =>
              hown.transition .expired _ answer
        · refine h.decided_of_bad ?_
          -- one that is none is no height
          rintro ⟨number', height, heq, hsafe, hnonneg⟩
          obtain rfl := Except.ok.inj heq
          simp [hsafe, Option.filter_some, hnonneg, orThrow] at he
      · obtain rfl : answer = .error e := he
        rintro ⟨number, height, heq, -⟩
        simp at heq
    · exact Task.ends_pure.mpr h

theorem signClaimed_ends (h : Owns id v) (S : SignerService) (decoded : DecodedTransaction)
    (last : Option Int) :
    EndsDecided (fun w _ => Decided w) (signClaimed S id decoded last) v := by
  -- the handler moves the record, whatever went wrong before
  have hcatch : ∀ {w : SignTrace} (e : String), Owns id w →
      EndsDecided (fun w (_ : SignResult) => Decided w)
        (do
          let _ ← transition id .claimed .failed none
          throw e) w := by
    intro w e hw
    refine Task.ends_bind.mpr ⟨⟨rfl, .inr (.inr rfl), (hw.claims id).mpr rfl⟩, fun answer _ => ?_⟩
    have hdecided := hw.transition .failed none answer
    exact ends_check hdecided fun _ _ => hdecided
  refine Task.ends_orCatch.mpr ?_
  refine Task.ends_bind.mpr ⟨trivial, fun answer _ => ?_⟩
  have hsigned : Owns id (v.push ⟨.signMessage decoded.messageBytes, answer⟩) := h.push rfl
  refine Task.ends_ofExcept.mpr ⟨fun raw _ => ?_, fun e _ => hcatch e hsigned⟩
  refine Task.ends_bind.mpr (Task.ends_ofExcept.mpr ⟨fun result _ => ?_, fun e _ => hcatch e hsigned⟩)
  refine Task.ends_bind.mpr ⟨⟨rfl, .inl rfl, (hsigned.claims id).mpr rfl⟩, fun answer hadm => ?_⟩
  refine Task.ends_ofExcept.mpr ⟨fun won hwon => ?_, fun e he => hcatch e ?_⟩
  · obtain rfl : answer = .ok won := hwon
    cases won with
    | false => exact absurd (hadm id _ _ rfl ((hsigned.claims id).mpr rfl)) (hsigned.moved id)
    | true => exact hsigned.transition .signed _ (.ok true)
  · obtain rfl : answer = .error e := he
    exact hsigned.failed .signed _ e

theorem moved_consume {history : List (Entry interface)} {id k : String} {expiresAt : Int}
    {answer : Except String Bool} :
    Moved (history ++ [⟨.consume id expiresAt, answer⟩]) k ↔ Moved history k := by
  refine moved_append.trans (or_iff_left ?_)
  rintro ⟨target, data, b, he⟩
  cases (Entry.mk.inj he).1

theorem heightsValid_consume {history : List (Entry interface)} {id : String} {expiresAt : Int}
    {answer : Except String Bool} :
    HeightsValid (history ++ [⟨.consume id expiresAt, answer⟩]) ↔ HeightsValid history := by
  refine heightsValid_append.trans (and_iff_left fun answer he => ?_)
  cases (Entry.mk.inj he).1

theorem Unclaimed.granted (h : Unclaimed v) (id : String) (expiresAt : Int) :
    Owns id (v.push (⟨.consume id expiresAt, (.ok true : Except String Bool)⟩ :
      Entry interface)) where
  claims k := by
    refine claims_append.trans ((or_iff_right (h.claims k)).trans ⟨?_, ?_⟩)
    · rintro ⟨expiresAt', he⟩
      cases (Entry.mk.inj he).1
      rfl
    · rintro rfl
      exact ⟨expiresAt, rfl⟩
  moved k hk := h.moved k (moved_consume.mp hk)
  heights := heightsValid_consume.mpr h.heights

theorem Unclaimed.refused (h : Unclaimed v) (id : String) (expiresAt : Int)
    {answer : Except String Bool} (hanswer : answer ≠ .ok true) :
    Unclaimed (v.push (⟨.consume id expiresAt, answer⟩ : Entry interface)) where
  claims k hk := by
    rcases claims_append.mp hk with hk | ⟨expiresAt', he⟩
    · exact h.claims k hk
    · obtain ⟨ho, hres⟩ := Entry.mk.inj he
      cases ho
      exact hanswer (eq_of_heq hres)
  moved k hk := h.moved k (moved_consume.mp hk)
  heights := heightsValid_consume.mpr h.heights

theorem claimAndSign_ends (h : Unclaimed v) (S : SignerService) (wire : Wire) (id : String)
    (decoded : DecodedTransaction) (claims : JsValue) :
    EndsDecided (fun w _ => Decided w) (claimAndSign S wire id decoded claims) v := by
  refine Task.ends_bind.mpr ⟨trivial, fun answer _ => ?_⟩
  refine Task.ends_ofExcept.mpr ⟨fun claimed hclaimed => ?_, fun e he => ?_⟩
  · obtain rfl : answer = .ok claimed := hclaimed
    refine Task.ends_bind.mpr (Task.ends_ofExcept.mpr ⟨fun _ htrue => ?_, fun e he => ?_⟩)
    · -- the claim was granted, and everything from here on is about this record
      obtain rfl : claimed = true := by simpa using htrue
      refine Task.ends_bind.mpr ((fenceBlockhash_ends (h.granted id _) _ _).mono fun w _ hw => ?_)
      exact signClaimed_ends hw S decoded _
    · have hfalse : claimed = false := by
        cases claimed with
        | false => rfl
        | true => simp [throwIf] at he
      exact (h.refused id _ (by simp [hfalse])).decided
  · obtain rfl : answer = .error e := he
    exact (h.refused id _ (by simp)).decided

theorem signEnvelope_ends (S : SignerService) (r : SignRequest) :
    EndsDecided (fun w _ => Decided w) (signEnvelope S r) (.start r) := by
  have hstart : Unclaimed (.start r) := by
    refine ⟨?_, ?_, ?_⟩
    · rintro id ⟨_, hmem⟩
      simp [Trace.start] at hmem
    · rintro id ⟨_, _, _, hmem⟩
      simp [Trace.start] at hmem
    · intro answer hmem
      simp [Trace.start] at hmem
  refine Task.ends_bind.mpr (ends_check hstart.decided fun wire _ => ?_)
  refine Task.ends_bind.mpr (ends_check hstart.decided fun decoded _ => ?_)
  refine Task.ends_bind.mpr (ends_check hstart.decided fun id _ => ?_)
  refine Task.ends_bind.mpr ((stored_ends hstart id decoded.messageHash).mono fun w prior hw => ?_)
  refine Task.ends_bind.mpr ((verify_ends hw _ _ _ _).mono fun u _ hu => ?_)
  refine Task.ends_bind.mpr (ends_check hu.decided fun evaluation _ => ?_)
  cases prior with
  | some p => exact Task.ends_pure.mpr hu.decided
  | none => exact claimAndSign_ends hu S wire id decoded _

end Request

/-! ### Interleavings -/

/-- A record the request has claimed is in `claimed` until the request moves it. -/
structure Keeps (s : ReplayStore) (v : SignTrace) : Prop where
  claimed : ∀ id, Claims v.history id → ∃ row, s.find? id = some row ∧
    (Moved v.history id → row.state.Settled) ∧ (¬ Moved v.history id → row.state = .claimed)
  moved : ∀ id, Moved v.history id → Claims v.history id

section Interleavings

variable {S : SignerService} {s : ReplayStore} {v w : SignTrace}

/-- A call touches no record the request has not claimed, if it is there. -/
theorem find?_handle_of_not_claims {o : Op} (hmoves : MovesOwn v o) (a : o.Ans) {id : String}
    (hnot : ¬ Claims v.history id) {row : ReplayRow} (h : s.find? id = some row) :
    (machine.handle o s a).2.find? id = some row := by
  cases o with
  | get k =>
    change Option String at a
    cases a <;> exact h
  | consume k expiresAt =>
    change Option String at a
    cases a with
    | some e => exact h
    | none => exact find?_consume h
  | transition k source target data =>
    change Option String at a
    cases a with
    | some e => exact h
    | none =>
      have hid : row.id = id := (Table.find?_eq_some_iff.mp h).2
      -- a call moves only the row that it has claimed
      have hne : row.id ≠ k := by
        rintro rfl
        exact hnot (hid ▸ hmoves.2.2)
      change (s.transition k source target data).2.find? id = some row
      rw [find?_transition, h, Option.map_some, if_neg fun hboth => hne hboth.1]
  | now | verify | blockHeight | signMessage => exact h

theorem Keeps.frame {o : Op} (hmoves : MovesOwn v o) (a : o.Ans) (hapart : Apart v w)
    (hw : Keeps s w) : Keeps (machine.handle o s a).2 w := by
  refine ⟨fun id hid => ?_, hw.moved⟩
  obtain ⟨row, hrow, hstate⟩ := hw.claimed id hid
  exact ⟨row, find?_handle_of_not_claims hmoves a (fun hv => hapart id ⟨hv, hid⟩) hrow, hstate⟩

/-- A call that neither claims nor moves anything. -/
theorem Keeps.push (h : Keeps s v) {e : Entry interface}
    (hclaims : ∀ id, Claims (v.push e).history id ↔ Claims v.history id)
    (hmoved : ∀ id, Moved (v.push e).history id ↔ Moved v.history id) : Keeps s (v.push e) := by
  refine ⟨fun id hid => ?_, fun id hid => (hclaims id).mpr (h.moved id ((hmoved id).mp hid))⟩
  rw [hmoved]
  exact h.claimed id ((hclaims id).mp hid)

/-- A claim that is granted is for a record that was not there. -/
theorem Keeps.consume (h : Keeps s v) (id : String) (expiresAt : Int) (failure : Option String) :
    Keeps (machine.handle (.consume id expiresAt) s failure).2
      (v.push ⟨.consume id expiresAt, (machine.handle (.consume id expiresAt) s failure).1⟩) := by
  refine ⟨fun k hk => ?_, fun k hk => claims_append.mpr (.inl (h.moved k (moved_consume.mp hk)))⟩
  rcases claims_append.mp hk with hk | ⟨expiresAt', he⟩
  · -- a row that was there stays
    obtain ⟨row, hrow, hstate⟩ := h.claimed k hk
    refine ⟨row, ?_, fun hmoved => hstate.1 (moved_consume.mp hmoved),
      fun hmoved => hstate.2 fun hm => hmoved (moved_consume.mpr hm)⟩
    cases failure with
    | some e => exact hrow
    | none => exact find?_consume hrow
  · obtain ⟨ho, hres⟩ := Entry.mk.inj he
    cases ho
    have hgranted : (machine.handle (.consume id expiresAt) s failure).1 =
      (.ok true : Except String Bool) := eq_of_heq hres
    cases failure with
    | some e => simp [machine, statement] at hgranted
    | none =>
      obtain ⟨hfree, hins⟩ := consume_eq_true (Except.ok.inj hgranted)
      -- the row is new, so it has not been moved
      have hnew : ¬ Moved v.history id := by
        intro hmoved
        obtain ⟨row, hrow, -⟩ := h.claimed id (h.moved id hmoved)
        simp [hfree] at hrow
      refine ⟨⟨id, expiresAt, .claimed, 1, none, false⟩, ?_,
        fun hmoved => absurd (moved_consume.mp hmoved) hnew, fun _ => rfl⟩
      change (s.consume id expiresAt).2.find? id = _
      rw [Table.find?_insert? hins, if_pos rfl]

/-- The record of an answered compare-and-set is settled: by it, or by an earlier one. -/
theorem Keeps.transition (h : Keeps s v) (id : String) (target : ExecutionState)
    (data : Option ReplayData) (htarget : target.Settled) (hclaims : Claims v.history id)
    (failure : Option String) :
    Keeps (machine.handle (.transition id .claimed target data) s failure).2
      (v.push ⟨.transition id .claimed target data,
        (machine.handle (.transition id .claimed target data) s failure).1⟩) := by
  have hsame : ∀ {answer : Except String Bool} k, Claims
      (v.history ++ [⟨.transition id .claimed target data, answer⟩]) k ↔ Claims v.history k := by
    intro answer k
    refine claims_append.trans (or_iff_left ?_)
    rintro ⟨expiresAt, he⟩
    cases (Entry.mk.inj he).1
  cases failure with
  | some e =>
    refine h.push (fun k => hsame k) fun k => moved_append.trans (or_iff_left ?_)
    rintro ⟨target', data', b, he⟩
    obtain ⟨ho, hres⟩ := Entry.mk.inj he
    cases ho
    have hres : (.error e : Except String Bool) = .ok b := eq_of_heq hres
    simp at hres
  | none =>
    have hmoved : ∀ {b : Bool} k, Moved (v.history ++ [⟨.transition id .claimed target data,
        (.ok b : Except String Bool)⟩]) k ↔ Moved v.history k ∨ k = id := by
      intro b k
      refine moved_append.trans (or_congr_right ⟨?_, ?_⟩)
      · rintro ⟨target', data', b', he⟩
        cases (Entry.mk.inj he).1
        rfl
      · rintro rfl
        exact ⟨target, data, b, rfl⟩
    refine ⟨fun k hk => ?_, fun k hk => ?_⟩
    · obtain ⟨row, hrow, hstate⟩ := h.claimed k ((hsame k).mp hk)
      have hid : row.id = k := (Table.find?_eq_some_iff.mp hrow).2
      refine ⟨_, find?_transition.trans (by rw [hrow, Option.map_some]), ?_, ?_⟩
      · intro hm
        split
        · exact htarget
        · rename_i hnot
          rcases (hmoved k).mp hm with hm | rfl
          · exact hstate.1 hm
          · -- not moved by this one, so it had left `claimed` before
            refine hstate.1 ?_
            by_contra hunmoved
            exact hnot ⟨hid, hstate.2 hunmoved⟩
      · intro hm
        rw [if_neg]
        · exact hstate.2 fun hold => hm ((hmoved k).mpr (.inl hold))
        · rintro ⟨hrowid, -⟩
          exact hm ((hmoved k).mpr (.inr (hid.symm.trans hrowid)))
    · rcases (hmoved k).mp hk with hk | rfl
      · exact (hsame k).mpr (h.moved k hk)
      · exact (hsame k).mpr hclaims

theorem Keeps.call (h : Keeps s v) {o : Op} (hmoves : MovesOwn v o) (a : o.Ans) :
    Keeps (machine.handle o s a).2 (v.push ⟨o, (machine.handle o s a).1⟩) := by
  cases o with
  | get id =>
    change Option String at a
    cases a <;> exact h.push (fun _ => claims_idle rfl) fun _ => moved_idle rfl
  | now | verify | signMessage => exact h.push (fun _ => claims_idle rfl) fun _ => moved_idle rfl
  | blockHeight => exact h.push (fun _ => claims_blockHeight) fun _ => moved_blockHeight
  | consume id expiresAt => exact h.consume id expiresAt a
  | transition id source target data =>
    obtain ⟨rfl, htarget, hclaims⟩ := hmoves
    exact h.transition id target data htarget hclaims a

/-- A record that is still in `claimed` is won. -/
theorem Keeps.firstWins (h : Keeps s v) (o : Op) (a : o.Ans) :
    FirstWins v ⟨o, (machine.handle o s a).1⟩ := by
  rintro id target data he hclaims
  by_contra hunmoved
  obtain ⟨row, hrow, -, hstate⟩ := h.claimed id hclaims
  obtain ⟨hmem, hid⟩ := Table.find?_eq_some_iff.mp hrow
  obtain ⟨rfl, hres⟩ := Entry.mk.inj he
  have hlost : (machine.handle (.transition id .claimed target data) s a).1 =
    (.ok false : Except String Bool) := eq_of_heq hres
  change Option String at a
  cases a with
  | some e => simp [machine, statement] at hlost
  | none =>
    have hcount : s.count (fun r => r.id = id ∧ r.state = .claimed) = 1 := by
      refine Table.count_eq_one hmem (by simp [hid, hstate hunmoved]) fun r hr hrid => ?_
      have hsame := Table.mem_rows_iff.mp hr
      rw [(of_decide_eq_true hrid).1, hrow] at hsame
      exact (Option.some_inj.mp hsame).symm
    have hfalse : decide (s.count (fun r => r.id = id ∧ r.state = .claimed) = 1) = false :=
      Except.ok.inj hlost
    exact absurd hcount (of_decide_eq_false hfalse)

theorem resolution_modular (S : SignerService) :
    Modular machine (fun r => (signEnvelope S r).run) ownership Trace.start
      (fun v _ => Decided v) (fun _ => True) Keeps Apart fun _ _ => True where
  body_safe r := by
    refine Prog.Safe.mono (signEnvelope_ends S r) fun w r hr => ?_
    cases r <;> exact hr
  symm v w h id := by rw [and_comm]; exact h id
  spawn p r _ _ := by
    refine ⟨⟨?_, ?_⟩, ?_⟩
    · rintro id ⟨_, hmem⟩
      simp [Trace.start] at hmem
    · rintro id ⟨_, _, _, hmem⟩
      simp [Trace.start] at hmem
    · rintro w _ id ⟨⟨_, hmem⟩, -⟩
      simp [Trace.start] at hmem
  call p t ans c o k _ hct _ _ hR hpre :=
    ⟨(hR t c hct).firstWins o (ans o), trivial, (hR t c hct).call hpre (ans o)⟩
  frame s v o a w _ hR hpre hRw hP := by
    refine ⟨hRw.frame hpre a hP, ?_⟩
    rintro id ⟨hv, hw⟩
    rcases claims_append.mp hv with hv | ⟨expiresAt, he⟩
    · exact hP id ⟨hv, hw⟩
    · -- the id is on record, so it cannot be claimed again
      obtain ⟨rfl, hres⟩ := Entry.mk.inj he
      obtain ⟨row, hrow, -⟩ := hRw.claimed id hw
      rw [(handle_consume (eq_of_heq hres)).1] at hrow
      simp at hrow

/-- **Claimed authorizations are resolved** iff the environment plays its part. In every
interleaving of requests, and from any store, take a request that has ended, returning or
throwing, after it claimed an authorization. The record of that authorization is signed, expired
or failed exactly if every block height the request read is a height, and the store did not fail
the last of its statements. -/
theorem consumption_resolved_iff (S : SignerService) (store : ReplayStore)
    (es : List (Event interface SignRequest))
    (c : Call interface SignRequest (Except String SignResult))
    (hc : c ∈ (signerRun S store es).calls) (hfinished : c.Finished) (id : String)
    (hclaims : Claims c.history id) :
    (∃ state, (signerRun S store es).shared.stateOf id = some state ∧ state.Settled) ↔
      HeightsValid c.history ∧ StoreAnswered c.history := by
  have hp := (resolution_modular S).run (Pool.meets_true (Pool.start store) es)
    (Modular.coherent_start trivial)
  have hkeeps := hp.known_mem hc
  -- a call that has finished has decided whether the row moved
  obtain ⟨a, hdecided⟩ := Call.SafeFrom.finished (hp.safe_mem hc) hfinished
  rw [ownership_view] at hkeeps hdecided
  obtain ⟨row, hrow, hsettled, hclaimed⟩ := hkeeps.claimed id hclaims
  rw [← hdecided id hclaims]
  have hstate : (signerRun S store es).shared.stateOf id = some row.state := by
    change ((signerRun S store es).shared.find? id).map ReplayRow.state = _
    exact congrArg (Option.map ReplayRow.state) hrow
  rw [hstate]
  constructor
  · rintro ⟨state, heq, hstate⟩
    obtain rfl := Option.some_inj.mp heq
    -- a row that was not moved is still claimed
    by_contra hunmoved
    rw [hclaimed hunmoved] at hstate
    simp [ExecutionState.Settled] at hstate
  · intro hmoved
    exact ⟨row.state, rfl, hsettled hmoved⟩

end Interleavings

theorem consumption_resolved_iff_sample :
    ∃ c ∈ (signerRun sampleService .empty sampleEvents).calls, c.Finished ∧
      Claims c.history "a1" ∧ HeightsValid c.history ∧ StoreAnswered c.history := by
  have hentry : ((signerRun sampleService .empty sampleEvents).calls[0]?.bind fun c =>
      c.history[3]?) = some ⟨.consume "a1" 50, (.ok true : Except String Bool)⟩ := rfl
  have hend : ((signerRun sampleService .empty sampleEvents).calls[0]?.bind Call.result?).isSome := by
    decide
  obtain ⟨c, hc, hthird⟩ := Option.bind_eq_some_iff.mp hentry
  have hmem := List.mem_of_getElem? hc
  have hclaims : Claims c.history "a1" := ⟨50, List.mem_of_getElem? hthird⟩
  have hfinished : c.Finished := by
    rw [hc] at hend
    obtain ⟨a, ha⟩ := Option.isSome_iff_exists.mp hend
    exact ⟨a, Call.result?_eq_some.mp ha⟩
  refine ⟨c, hmem, hfinished, hclaims, ?_⟩
  exact (consumption_resolved_iff sampleService .empty sampleEvents c hmem hfinished "a1"
    hclaims).mp ⟨.signed, by decide, .inl rfl⟩

/-! ### A block height that cannot be read -/

/-- As `sampleAnswers`, except that the block height cannot be read. -/
def heightlessAnswers : ∀ o, interface.Ans o
  | .blockHeight => (.error "fetch failed" : Except String JsNumber)
  | o => sampleAnswers o

def heightlessEvents : List (Event interface SignRequest) :=
  .spawn sampleRequest :: List.replicate 5 (.step 0 heightlessAnswers)

/-- The request throws after it claimed its authorization, and leaves it claimed. -/
theorem unread_height_leaves_claimed :
    (signerRun sampleService .empty heightlessEvents).calls.map Call.result? =
      [some (.error "fetch failed")] ∧
    ((signerRun sampleService .empty heightlessEvents).calls[0]?.bind fun c => c.history[3]?) =
      some ⟨.consume "a1" 50, (.ok true : Except String Bool)⟩ ∧
    (signerRun sampleService .empty heightlessEvents).shared.stateOf "a1" = some .claimed ∧
    ¬ ExecutionState.Settled .claimed := by
  refine ⟨by decide, rfl, by decide, ?_⟩
  simp [ExecutionState.Settled]

end AriOs.Signer
