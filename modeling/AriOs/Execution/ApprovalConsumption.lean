import AriOs.Execution.Approvals
import Mathlib.Data.List.Induction

/-!
# Consuming an approval

What holds when `consume` succeeds was established by other operations, at other times: a
request registered the binding, operators recorded their decisions, and since then nobody
denied, revoked or consumed. The database keeps just enough of that history for `consume`
to check; the invariant below says that what it keeps is true to the log of everything
that was performed.
-/

namespace AriOs.Execution.Approvals

open AriOs.Js AriOs.Storage

/-! ### Reading the log -/

/-- The approval `id` was consumed. -/
def consumes (id : String) : Performed → Bool
  | ⟨.consume id' _ _, .ok _⟩ => id' = id
  | _ => false

/-- The request `id` was revoked. -/
def revokes (id : String) : Performed → Bool
  | ⟨.revoke id' _ _, .ok _⟩ => id' = id
  | _ => false

/-- An operator recorded a denial of `id`. -/
def denies (id : String) : Performed → Bool
  | ⟨.decide id' input _, .ok _⟩ => id' = id ∧ input.decision = .deny
  | _ => false

/-- The operator is not the proposer, holds the approver role and the scope, and recorded an
approval with a verified proof. -/
structure ApprovedBy (E : Engine) (log : List Performed) (reg : ApprovalRequestInput)
    (operatorId : String) : Prop where
  notProposer : operatorId ≠ reg.proposerId
  eligible : ∃ o, E.operators.find? operatorId = some o ∧ o.mayDecide reg.type = true
  recorded : ∃ input clock result, (⟨.decide reg.id input clock, .ok result⟩ : Performed) ∈ log ∧
    input.operatorId = operatorId ∧ input.decision = .approve ∧
    E.proofVerifies reg.id E.configVersion E.configHash input clock = true

/-- What must have been performed before the approval `id` may be used for `input` at `now`:
it was registered with the same binding and a later deadline, a quorum of operators approved
it, and nobody denied or revoked it. -/
def Justified (E : Engine) (log : List Performed) (id : String) (input : BoundTransaction)
    (now : Int) : Prop :=
  ∃ (reg : ApprovalRequestInput) (options : RequestOptions) (challenge : String)
    (clock : Nat → Int) (result : Option RequestRow) (quorum expiresAt : Int),
    (⟨.request reg options challenge clock, .ok result⟩ : Performed) ∈ log ∧
    reg.id = id ∧ options.quorum.toBigInt? = some quorum ∧
    (∃ operators : List String, operators.Nodup ∧ quorum ≤ operators.length ∧
      ∀ o ∈ operators, ApprovedBy E log reg o) ∧
    (∀ p ∈ log, denies id p = false) ∧
    (reg.expiresAt.toBigInt? = some expiresAt ∧ now < expiresAt) ∧
    (∀ p ∈ log, revokes id p = false) ∧
    ∃ binding, E.binding input = .ok binding ∧ E.binding reg.toBoundTransaction = .ok binding

/-! ### The database is true to the log -/

/-- A row holds what the request `reg` registered. -/
structure RegisteredAs (E : Engine) (reg : ApprovalRequestInput) (options : RequestOptions)
    (r : RequestRow) : Prop where
  id : reg.id = r.id
  type : reg.type = r.type
  proposerId : reg.proposerId = r.proposerId
  binding : E.binding reg.toBoundTransaction = .ok r.binding
  expiresAt : reg.expiresAt.toBigInt? = some r.expiresAt
  quorum : options.quorum.toBigInt? = some r.quorum
  configVersion : r.configVersion = E.configVersion
  configHash : r.configHash = E.configHash

/-- A recorded decision was taken by someone who may, with a verified proof. -/
structure DecidedBy (E : Engine) (log : List Performed) (r : RequestRow) (d : DecisionRow) :
    Prop where
  notProposer : d.operatorId ≠ r.proposerId
  eligible : ∃ o, E.operators.find? d.operatorId = some o ∧ o.mayDecide r.type = true
  recorded : ∃ input clock result,
    (⟨.decide d.requestId input clock, .ok result⟩ : Performed) ∈ log ∧
    input.operatorId = d.operatorId ∧ input.decision = d.decision ∧
    E.proofVerifies d.requestId E.configVersion E.configHash input clock = true

/-- The database is true to the log. -/
structure Faithful (E : Engine) (db : ApprovalDb) (log : List Performed) : Prop where
  registered : ∀ id r, db.raw id = some r → ∃ reg options challenge clock result,
    (⟨.request reg options challenge clock, result⟩ : Performed) ∈ log ∧
    RegisteredAs E reg options r ∧ (db.inTransaction = false → ∃ x, result = .ok x)
  approved : ∀ id r, db.raw id = some r → r.status = .approved → r.quorum ≤ db.approvals id
  undenied : ∀ id r, db.raw id = some r → r.status.IsOpen → ∀ d ∈ db.decisions.rows,
    d.requestId = id → d.decision ≠ .deny
  decided : ∀ d ∈ db.decisions.rows, ∃ r, db.raw d.requestId = some r ∧ DecidedBy E log r d
  denied : ∀ id, ∀ p ∈ log, denies id p = true → ∃ d ∈ db.decisions.rows,
    d.requestId = id ∧ d.decision = .deny
  revoked : ∀ id, ∀ p ∈ log, revokes id p = true → (db.raw id).map RequestRow.status = some .revoked
  consumed : ∀ id, log.countP (consumes id) =
    if (db.raw id).map RequestRow.status = some .consumed then 1 else 0

/-! ### What each statement keeps -/

section Statements

variable {E : Engine} {db db' : ApprovalDb} {log log' : List Performed} {id : String}
  {p : Performed}

theorem raw_id {r : RequestRow} (h : db.raw id = some r) : r.id = id :=
  (Table.find?_eq_some_iff.mp h).2

theorem raw_advance (status : ApprovalStatus) (k : String) : (db.advance id status).raw k =
    (db.raw k).map fun r =>
      if r.id = id then { r with status, revision := r.revision + 1 } else r := by
  simp [ApprovalDb.advance, ApprovalDb.setRequest, ApprovalDb.raw, Table.find?_update]

theorem raw_expire (r₀ : RequestRow) (k : String) : (db.expire r₀).raw k =
    (db.raw k).map fun r => if r.id = r₀.id ∧ r.revision = r₀.revision ∧ r.status.IsOpen
      then { r with status := .expired, revision := r.revision + 1 } else r := by
  simp [ApprovalDb.expire, ApprovalDb.raw, Table.find?_update]

/-- `advance` sets the status of one request. -/
theorem status_advance {r : RequestRow} (hr : db.raw id = some r) (status : ApprovalStatus)
    (k : String) : ((db.advance id status).raw k).map RequestRow.status =
      if id = k then some status else (db.raw k).map RequestRow.status := by
  rw [raw_advance]
  by_cases hk : id = k
  · subst hk
    simp [hr, raw_id hr]
  · cases hraw : db.raw k with
    | none => simp [hk]
    | some r' => simp [hk, raw_id hraw, Ne.symm hk]

/-- Two rows of the same request, perhaps at different revisions. -/
structure SameRequest (r r' : RequestRow) : Prop where
  id : r'.id = r.id
  type : r'.type = r.type
  proposerId : r'.proposerId = r.proposerId
  binding : r'.binding = r.binding
  expiresAt : r'.expiresAt = r.expiresAt
  quorum : r'.quorum = r.quorum
  configVersion : r'.configVersion = r.configVersion
  configHash : r'.configHash = r.configHash

theorem RegisteredAs.same {reg : ApprovalRequestInput} {options : RequestOptions}
    {r r' : RequestRow} (h : RegisteredAs E reg options r) (hsame : SameRequest r r') :
    RegisteredAs E reg options r' where
  id := h.id.trans hsame.id.symm
  type := h.type.trans hsame.type.symm
  proposerId := h.proposerId.trans hsame.proposerId.symm
  binding := by rw [hsame.binding]; exact h.binding
  expiresAt := by rw [hsame.expiresAt]; exact h.expiresAt
  quorum := by rw [hsame.quorum]; exact h.quorum
  configVersion := hsame.configVersion.trans h.configVersion
  configHash := hsame.configHash.trans h.configHash

theorem DecidedBy.mono {r r' : RequestRow} {d : DecisionRow} (h : DecidedBy E log r d)
    (hsame : SameRequest r r') (hlog : ∀ p ∈ log, p ∈ log') : DecidedBy E log' r' d where
  notProposer := by rw [hsame.proposerId]; exact h.notProposer
  eligible := by rw [hsame.type]; exact h.eligible
  recorded := by
    obtain ⟨input, clock, result, hmem, hrest⟩ := h.recorded
    exact ⟨input, clock, result, hlog _ hmem, hrest⟩

/-- Requests change in place, and an open status is never entered: what is left to check is
what the log says about revocation and consumption. -/
theorem Faithful.map (h : Faithful E db log) {g : RequestRow → RequestRow}
    (hraw : ∀ k, db'.raw k = (db.raw k).map g) (hdecisions : db'.decisions = db.decisions)
    (htx : db'.inTransaction = db.inTransaction) (hg : ∀ r, SameRequest r (g r))
    (hopen : ∀ r, (g r).status.IsOpen → (g r).status = r.status) (hlog : ∀ p ∈ log, p ∈ log')
    (hdenied : ∀ id, ∀ p ∈ log', denies id p = true → p ∈ log)
    (hrevoked : ∀ id, ∀ p ∈ log', revokes id p = true →
      (db'.raw id).map RequestRow.status = some .revoked)
    (hconsumed : ∀ id, log'.countP (consumes id) =
      if (db'.raw id).map RequestRow.status = some .consumed then 1 else 0) :
    Faithful E db' log' where
  -- every part is carried over from the row that was mapped
  registered id r' hr' := by
    rw [hraw, Option.map_eq_some_iff] at hr'
    obtain ⟨r, hr, rfl⟩ := hr'
    obtain ⟨reg, options, challenge, clock, result, hmem, hreg, hok⟩ := h.registered id r hr
    exact ⟨reg, options, challenge, clock, result, hlog _ hmem, hreg.same (hg r), htx ▸ hok⟩
  approved id r' hr' hstatus := by
    rw [hraw, Option.map_eq_some_iff] at hr'
    obtain ⟨r, hr, rfl⟩ := hr'
    have hsame := hopen r (.inr hstatus)
    rw [ApprovalDb.approvals, hdecisions, (hg r).quorum]
    exact h.approved id r hr (hsame.symm.trans hstatus)
  undenied id r' hr' hstatus d hd := by
    rw [hraw, Option.map_eq_some_iff] at hr'
    obtain ⟨r, hr, rfl⟩ := hr'
    exact h.undenied id r hr (hopen r hstatus ▸ hstatus) d (hdecisions ▸ hd)
  decided d hd := by
    obtain ⟨r, hr, hdecided⟩ := h.decided d (hdecisions ▸ hd)
    exact ⟨g r, by rw [hraw, hr, Option.map_some], hdecided.mono (hg r) hlog⟩
  denied id p hp hdeny := by
    rw [hdecisions]
    exact h.denied id p (hdenied id p hp hdeny) hdeny
  revoked := hrevoked
  consumed := hconsumed

/-- Something was performed that changed nothing of note. -/
theorem Faithful.append (h : Faithful E db log) (hconsumes : ∀ id, consumes id p = false)
    (hrevokes : ∀ id, revokes id p = false) (hdenies : ∀ id, denies id p = false) :
    Faithful E db (log ++ [p]) := by
  have hmem : ∀ {f : Performed → Bool}, f p = false → ∀ q ∈ log ++ [p], f q = true → q ∈ log := by
    intro f hf q hq hq'
    rcases List.mem_append.mp hq with hq | hq
    · exact hq
    · rw [List.mem_singleton.mp hq, hf] at hq'
      simp at hq'
  refine h.map (g := id) (fun k => by simp) rfl rfl (fun r => ⟨rfl, rfl, rfl, rfl, rfl, rfl, rfl, rfl⟩)
    (fun r _ => rfl) (fun q hq => List.mem_append_left _ hq) (fun id => hmem (hdenies id))
    (fun id q hq hq' => h.revoked id q (hmem (hrevokes id) q hq hq') hq') fun id => ?_
  rw [List.countP_append, h.consumed id]
  simp [hconsumes id]

/-- Expiry touches open requests only. -/
theorem status_expire (r₀ : RequestRow) (k : String) {status : ApprovalStatus}
    (hclosed : ¬ status.IsOpen) (hne : status ≠ .expired) :
    ((db.expire r₀).raw k).map RequestRow.status = some status ↔
      (db.raw k).map RequestRow.status = some status := by
  rw [raw_expire]
  cases db.raw k with
  | none => simp
  | some r =>
    simp only [Option.map_some, Option.some_inj]
    split
    · rename_i h
      refine ⟨fun heq => absurd heq.symm hne, ?_⟩
      rintro rfl
      exact absurd h.2.2 hclosed
    · rfl

/-- A request past its deadline is expired: an open status is left, no other is touched. -/
theorem Faithful.expire (h : Faithful E db log) (r₀ : RequestRow) :
    Faithful E (db.expire r₀) log := by
  refine h.map (raw_expire r₀) rfl rfl (fun r => ?_) (fun r hr => ?_) (fun _ hp => hp)
    (fun _ _ hp _ => hp) (fun id p hp hrev => ?_) fun id => ?_
  · split <;> exact ⟨rfl, rfl, rfl, rfl, rfl, rfl, rfl, rfl⟩
  · split at hr
    · simp [ApprovalStatus.IsOpen] at hr
    · rename_i hnot
      rw [if_neg hnot]
  · rw [status_expire r₀ id (by simp [ApprovalStatus.IsOpen]) (by simp)]
    exact h.revoked id p hp hrev
  · rw [h.consumed id]
    simp only [status_expire r₀ id (show ¬ ApprovalStatus.consumed.IsOpen by
      simp [ApprovalStatus.IsOpen]) (by simp)]

theorem Faithful.get (h : Faithful E db log) (id : String) (clock : Int) :
    Faithful E (get id clock db).2 log := by
  unfold Approvals.get
  split
  · exact h
  · split
    · split
      · exact h
      · exact h.expire _
    · exact h

/-- An open request is closed for good, and the log says how. -/
theorem Faithful.close (h : Faithful E db log) {r : RequestRow} (hr : db.raw id = some r)
    (hopen : r.status.IsOpen) {status : ApprovalStatus} (hclosed : ¬ status.IsOpen)
    (hconsumes : ∀ k, consumes k p = (decide (id = k) && decide (status = .consumed)))
    (hrevokes : ∀ k, revokes k p = (decide (id = k) && decide (status = .revoked)))
    (hdenies : ∀ k, denies k p = false) : Faithful E (db.advance id status) (log ++ [p]) := by
  have hstatus := fun k => status_advance hr status k
  refine h.map (raw_advance status) rfl rfl (fun r => ?_) (fun r hr => ?_)
    (fun q hq => List.mem_append_left _ hq) (fun k q hq hq' => ?_) (fun k q hq hq' => ?_) fun k => ?_
  · split <;> exact ⟨rfl, rfl, rfl, rfl, rfl, rfl, rfl, rfl⟩
  · split at hr
    · exact absurd hr hclosed
    · rename_i hnot
      rw [if_neg hnot]
  · rcases List.mem_append.mp hq with hq | hq
    · exact hq
    · rw [List.mem_singleton.mp hq, hdenies k] at hq'
      simp at hq'
  · rw [hstatus]
    rcases List.mem_append.mp hq with hq | hq
    · -- the row was open, so it is not one that had been revoked
      have hrev := h.revoked k q hq hq'
      rw [if_neg]
      · exact hrev
      · rintro rfl
        rw [hr, Option.map_some, Option.some_inj] at hrev
        simp [hrev, ApprovalStatus.IsOpen] at hopen
    · rw [List.mem_singleton.mp hq, hrevokes k] at hq'
      simp only [Bool.and_eq_true, decide_eq_true_eq] at hq'
      rw [if_pos hq'.1, hq'.2]
  · rw [List.countP_append, List.countP_singleton, h.consumed k, hstatus, hconsumes k]
    -- the row was open, so it had not been counted as consumed
    by_cases hk : id = k
    · subst hk
      have hnot : (db.raw id).map RequestRow.status ≠ some .consumed := by
        rw [hr, Option.map_some, ne_eq, Option.some_inj]
        rintro hcons
        simp [hcons, ApprovalStatus.IsOpen] at hopen
      by_cases hst : status = .consumed <;> simp [hnot, hst]
    · simp [hk]

/-! ### Decisions -/

theorem operator_eq_ok {operatorId : String} {type : ApprovalType} {u : Unit}
    (h : E.operator operatorId type = .ok u) :
    ∃ o, E.operators.find? operatorId = some o ∧ o.mayDecide type = true := by
  unfold Engine.operator at h
  split at h
  · rename_i o ho
    exact ⟨o, ho, by simpa using h⟩
  · simp at h

theorem insertDecision_eq_ok {row : DecisionRow} (h : Engine.insertDecision row db = .ok db') :
    ∃ decisions, db.decisions.insert? row = some decisions ∧ db' = { db with decisions } := by
  unfold Engine.insertDecision at h
  split at h
  · simp at h
  · split at h
    · rename_i decisions hins
      exact ⟨decisions, hins, (Except.ok.inj h).symm⟩
    · simp at h

/-- What a recorded decision was checked for. -/
theorem decideIn_cases {input : DecisionInput} {clock : Nat → Int}
    (h : E.decideIn id input clock db = .ok db') :
    ∃ r row db₁, db.raw id = some r ∧ r.status = .pending ∧ input.operatorId ≠ r.proposerId ∧
      (∃ o, E.operators.find? input.operatorId = some o ∧ o.mayDecide r.type = true) ∧
      E.proofVerifies r.id r.configVersion r.configHash input clock = true ∧
      row.requestId = id ∧ row.operatorId = input.operatorId ∧ row.decision = input.decision ∧
      Engine.insertDecision row db = .ok db₁ ∧
      db' = db₁.advance id (Engine.statusAfter input.decision (db₁.approvals id) r.quorum) := by
  unfold Engine.decideIn at h
  split at h
  · simp at h
  · rename_i r hr
    simp only [Engine.checkDecision, bind_eq_ok, throwIf_eq_ok] at h
    obtain ⟨-, ⟨-, -, -, hpending, -, -, -, hself, _, hop, -, -, -, -, -, hproof, -⟩, db₁, hins,
      heq⟩ := h
    refine ⟨r, _, db₁, hr, by simpa using hpending, hself, operator_eq_ok hop,
      by simpa using hproof,
      rfl, rfl, rfl, hins, (Except.ok.inj heq).symm⟩

/-- A row after `advance` is the advanced one, or was there before. -/
theorem raw_advance_cases {status : ApprovalStatus} {k : String} {r' : RequestRow}
    (h : (db.advance id status).raw k = some r') :
    (k = id ∧ ∃ r, db.raw id = some r ∧
      r' = { r with status, revision := r.revision + 1 }) ∨ (k ≠ id ∧ db.raw k = some r') := by
  rw [raw_advance, Option.map_eq_some_iff] at h
  obtain ⟨r, hr, rfl⟩ := h
  obtain rfl := raw_id hr
  by_cases hk : r.id = id
  · left
    subst hk
    exact ⟨rfl, r, hr, by simp⟩
  · right
    exact ⟨hk, by simpa [hk] using hr⟩

theorem exists_raw_advance (id : String) (status : ApprovalStatus) {k : String} {r : RequestRow}
    (h : db.raw k = some r) : ∃ r', (db.advance id status).raw k = some r' ∧ SameRequest r r' := by
  rw [raw_advance, h, Option.map_some]
  refine ⟨_, rfl, ?_⟩
  split <;> exact ⟨rfl, rfl, rfl, rfl, rfl, rfl, rfl, rfl⟩

theorem statusAfter_ne_closed (decision : Decision) (n : Nat) (quorum : Int) :
    Engine.statusAfter decision n quorum ≠ .consumed ∧
      Engine.statusAfter decision n quorum ≠ .revoked := by
  unfold Engine.statusAfter
  split
  · simp
  · split <;> simp

/-- A recorded decision. -/
theorem Faithful.decideIn (h : Faithful E db log) {input : DecisionInput} {clock : Nat → Int}
    (hin : E.decideIn id input clock db = .ok db') (x : Option RequestRow) :
    Faithful E db' (log ++ [⟨.decide id input clock, .ok x⟩]) := by
  obtain ⟨r, row, db₁, hr, hpending, hself, hop, hproof, hrid, hrop, hrdec, hins, rfl⟩ :=
    decideIn_cases hin
  obtain ⟨decisions, hinsert, rfl⟩ := insertDecision_eq_ok hins
  have hrows : decisions.rows = db.decisions.rows ++ [row] := Table.rows_of_insert? hinsert
  obtain rfl := raw_id hr
  have hlog : ∀ p ∈ log, p ∈ log ++ [(⟨.decide r.id input clock, .ok x⟩ : Performed)] :=
    fun p hp => List.mem_append_left _ hp
  generalize hst : Engine.statusAfter input.decision
    (({ db with decisions } : ApprovalDb).approvals r.id) r.quorum = status
  -- a decision never consumes or revokes
  have hclosed : status ≠ .consumed ∧ status ≠ .revoked := hst ▸ statusAfter_ne_closed _ _ _
  have hstatus : ∀ k, ((({ db with decisions } : ApprovalDb).advance r.id status).raw k).map
      RequestRow.status = if r.id = k then some status else (db.raw k).map RequestRow.status :=
    fun k => status_advance (r := r) hr status k
  constructor
  case registered =>
    intro k r' hr'
    rcases raw_advance_cases hr' with ⟨rfl, r₀, hr₀, rfl⟩ | ⟨-, hr'⟩
    · obtain ⟨reg, options, challenge, clk, result, hmem, hreg, hok⟩ := h.registered _ r₀ hr₀
      exact ⟨reg, options, challenge, clk, result, hlog _ hmem, { hreg with }, hok⟩
    · obtain ⟨reg, options, challenge, clk, result, hmem, hreg, hok⟩ := h.registered k r' hr'
      exact ⟨reg, options, challenge, clk, result, hlog _ hmem, hreg, hok⟩
  case approved =>
    -- approvals are only ever added
    intro k r' hr' happroved
    rcases raw_advance_cases hr' with ⟨rfl, r₀, hr₀, rfl⟩ | ⟨-, hr'⟩
    · obtain rfl : r = r₀ := Option.some_inj.mp (hr.symm.trans hr₀)
      simp only at happroved
      rw [← hst] at happroved
      unfold Engine.statusAfter at happroved
      split at happroved
      · simp at happroved
      · split at happroved
        · assumption
        · simp at happroved
    · have hle : db.approvals k ≤
          (({ db with decisions } : ApprovalDb).advance r.id status).approvals k := by
        change db.decisions.rows.countP _ ≤ decisions.rows.countP _
        rw [hrows, List.countP_append]
        omega
      have := h.approved k r' hr' happroved
      omega
  -- a denial closes the request, so one that is open has none
  case undenied =>
    intro k r' hr' hopen d hd hdk
    change d ∈ decisions.rows at hd
    rw [hrows, List.mem_append, List.mem_singleton] at hd
    rcases raw_advance_cases hr' with ⟨rfl, r₀, hr₀, rfl⟩ | ⟨hk, hr'⟩
    · rcases hd with hd | rfl
      · exact h.undenied r.id r hr (.inl hpending) d hd hdk
      · rw [hrdec]
        intro hdeny
        rw [← hst, Engine.statusAfter, if_pos hdeny] at hopen
        simp [ApprovalStatus.IsOpen] at hopen
    · rcases hd with hd | rfl
      · exact h.undenied k r' hr' hopen d hd hdk
      · exact absurd (hdk.symm.trans hrid) hk
  -- the new decision is checked against the request as it was registered
  case decided =>
    intro d hd
    change d ∈ decisions.rows at hd
    rw [hrows, List.mem_append, List.mem_singleton] at hd
    rcases hd with hd | rfl
    · obtain ⟨r₀, hr₀, hdec⟩ := h.decided d hd
      obtain ⟨r', hr', hsame⟩ := exists_raw_advance r.id status hr₀
      exact ⟨r', hr', hdec.mono hsame hlog⟩
    · obtain ⟨r', hr', hsame⟩ := exists_raw_advance r.id status hr
      obtain ⟨reg, options, challenge, clk, result, hmem, hreg, hok⟩ := h.registered _ r hr
      refine ⟨r', by rw [hrid]; exact hr', ?_, ?_, ?_⟩
      · rw [hrop, hsame.proposerId]; exact hself
      · rw [hrop, hsame.type]; exact hop
      · refine ⟨input, clock, x, by simp [hrid], hrop.symm, hrdec.symm, ?_⟩
        rw [hrid, ← hreg.configVersion, ← hreg.configHash]
        exact hproof
  case denied =>
    intro k p hp hdeny
    change ∃ d ∈ decisions.rows, _
    rw [hrows]
    rcases List.mem_append.mp hp with hp | hp
    · obtain ⟨d, hd, hdk⟩ := h.denied k p hp hdeny
      exact ⟨d, List.mem_append_left _ hd, hdk⟩
    · rw [List.mem_singleton.mp hp] at hdeny
      simp only [denies, decide_eq_true_eq] at hdeny
      exact ⟨row, by simp, hrid.trans hdeny.1, hrdec.trans hdeny.2⟩
  case revoked =>
    intro k p hp hrev
    rw [hstatus]
    rcases List.mem_append.mp hp with hp | hp
    · have hrevoked := h.revoked k p hp hrev
      rw [if_neg]
      · exact hrevoked
      · rintro rfl
        simp [hr, hpending] at hrevoked
    · rw [List.mem_singleton.mp hp] at hrev
      simp [revokes] at hrev
  case consumed =>
    intro k
    rw [List.countP_append, hstatus, h.consumed k]
    by_cases hk : r.id = k
    · subst hk
      simp [hr, hpending, hclosed.1, consumes]
    · simp only [hk, ↓reduceIte, List.countP_singleton, consumes]
      rfl

/-! ### Requests -/

theorem toBigInt?_of_isSafeInteger {n : JsNumber} (h : n.isSafeInteger = true) :
    n.toBigInt? = some (n.toBigInt?.getD 0) := by
  unfold JsNumber.isSafeInteger at h
  split at h
  · rename_i i hi
    simp [hi]
  · simp at h

/-- What a new request holds. -/
theorem newRequest_cases {input : ApprovalRequestInput} {options : RequestOptions}
    {challenge : String} {clock : Nat → Int} {row : RequestRow}
    (h : E.newRequest input options challenge clock = .ok row) :
    RegisteredAs E input options row ∧ row.status = .pending := by
  simp only [Engine.newRequest, validate, bind_eq_ok, throwIf_eq_ok] at h
  obtain ⟨-, ⟨-, -, -, hsafe, -⟩, -, -, -, -, quorum, hquorum, -, -, tx, -, binding, hbinding,
    heq⟩ := h
  obtain rfl := Except.ok.inj heq
  have hsafe : input.expiresAt.isSafeInteger = true := by simpa using hsafe
  have hq : options.quorum.toBigInt? = some quorum := by
    unfold Engine.feasibleQuorum at hquorum
    dsimp only at hquorum
    split at hquorum
    · rename_i q hq
      split at hquorum
      · simp at hquorum
      · rw [hq, Except.ok.inj hquorum]
    · simp at hquorum
  exact ⟨⟨rfl, rfl, rfl, hbinding, toBigInt?_of_isSafeInteger hsafe, hq, rfl, rfl⟩, rfl⟩

theorem insertRequest_eq_ok {row : RequestRow} (h : Engine.insertRequest row db = .ok db') :
    ∃ requests, db.requests.insert? row = some requests ∧ db' = { db with requests } := by
  unfold Engine.insertRequest at h
  split at h
  · simp at h
  · split at h
    · rename_i requests hins
      exact ⟨requests, hins, (Except.ok.inj h).symm⟩
    · simp at h

/-- A registered request: nothing was ever said about its id before. -/
theorem Faithful.insertRequest (h : Faithful E db log) {input : ApprovalRequestInput}
    {options : RequestOptions} {challenge : String} {clock : Nat → Int} {row : RequestRow}
    (hnew : E.newRequest input options challenge clock = .ok row)
    (hins : Engine.insertRequest row db = .ok db') {result : Except String (Option RequestRow)}
    (hok : db.inTransaction = false → ∃ x, result = .ok x) :
    Faithful E db' (log ++ [⟨.request input options challenge clock, result⟩]) := by
  obtain ⟨hreg, hpending⟩ := newRequest_cases hnew
  obtain ⟨requests, hinsert, rfl⟩ := insertRequest_eq_ok hins
  have hraw : ∀ k, ({ db with requests } : ApprovalDb).raw k =
      if row.id = k then some row else db.raw k := fun k => Table.find?_insert? hinsert
  have hfree : db.raw row.id = none := Table.find?_of_insert? hinsert
  have hlog : ∀ p ∈ log,
      p ∈ log ++ [(⟨.request input options challenge clock, result⟩ : Performed)] :=
    fun p hp => List.mem_append_left _ hp
  -- what is counted of the log are calls of other kinds, which were there before
  have hold : ∀ {f : Performed → Bool}, f ⟨.request input options challenge clock, result⟩ = false →
      ∀ p ∈ log ++ [(⟨.request input options challenge clock, result⟩ : Performed)],
        f p = true → p ∈ log := by
    intro f hf p hp hfp
    rcases List.mem_append.mp hp with hp | hp
    · exact hp
    · rw [List.mem_singleton.mp hp, hf] at hfp
      simp at hfp
  constructor
  case registered =>
    intro k r hr
    rw [hraw] at hr
    split at hr
    · obtain rfl := Option.some_inj.mp hr
      exact ⟨input, options, challenge, clock, result, by simp, hreg, hok⟩
    · obtain ⟨reg, opts, chal, clk, res, hmem, hrest⟩ := h.registered k r hr
      exact ⟨reg, opts, chal, clk, res, hlog _ hmem, hrest⟩
  case approved =>
    intro k r hr happroved
    rw [hraw] at hr
    split at hr
    · obtain rfl := Option.some_inj.mp hr
      simp [hpending] at happroved
    · exact h.approved k r hr happroved
  -- the id was free, so no decision is about it yet
  case undenied =>
    intro k r hr hopen d hd hdk
    rw [hraw] at hr
    split at hr
    · rename_i hk
      obtain ⟨r₀, hr₀, -⟩ := h.decided d hd
      rw [hdk, ← hk, hfree] at hr₀
      simp at hr₀
    · exact h.undenied k r hr hopen d hd hdk
  case decided =>
    intro d hd
    obtain ⟨r, hr, hdecided⟩ := h.decided d hd
    refine ⟨r, ?_, hdecided.mono ⟨rfl, rfl, rfl, rfl, rfl, rfl, rfl, rfl⟩ hlog⟩
    rw [hraw, if_neg]
    · exact hr
    · intro hk
      rw [← hk, hfree] at hr
      simp at hr
  case denied =>
    intro k p hp hdeny
    exact h.denied k p (hold rfl p hp hdeny) hdeny
  case revoked =>
    intro k p hp hrev
    have hrevoked := h.revoked k p (hold rfl p hp hrev) hrev
    rw [hraw, if_neg]
    · exact hrevoked
    · rintro rfl
      simp [hfree] at hrevoked
  case consumed =>
    intro k
    rw [List.countP_append, h.consumed k, hraw]
    by_cases hk : row.id = k
    · subst hk
      simp [hfree, hpending, consumes]
    · simp [hk, consumes]

/-! ### One operation -/

theorem get_ok (hclosed : db.inTransaction = false) (id : String) (clock : Int) :
    ∃ x, (get id clock db).1 = .ok x := by
  unfold Approvals.get
  split
  · exact ⟨_, rfl⟩
  · split
    · rw [if_neg (by simp [hclosed])]
      exact ⟨_, rfl⟩
    · exact ⟨_, rfl⟩

theorem inTransaction_decideIn {input : DecisionInput} {clock : Nat → Int}
    (h : E.decideIn id input clock db = .ok db') : db'.inTransaction = db.inTransaction := by
  obtain ⟨r, row, db₁, -, -, -, -, -, -, -, -, hins, rfl⟩ := decideIn_cases h
  obtain ⟨decisions, -, rfl⟩ := insertDecision_eq_ok hins
  rfl

theorem revokeIn_cases {input : RevokeInput} (h : E.revokeIn id input db = .ok db') :
    ∃ r, db.raw id = some r ∧ r.status.IsOpen ∧ db' = db.advance id .revoked := by
  unfold Engine.revokeIn at h
  split at h
  · simp at h
  · rename_i r hr
    simp only [bind_eq_ok, throwIf_eq_ok, not_not] at h
    obtain ⟨_, -, -, -, -, hopen, heq⟩ := h
    exact ⟨r, hr, hopen, (Except.ok.inj heq).symm⟩

theorem checkConsumption_cases {r : RequestRow} {input : BoundTransaction} {u : Unit}
    (h : E.checkConsumption r input = .ok u) :
    r.status = .approved ∧ E.binding input = .ok r.binding := by
  simp only [Engine.checkConsumption, bind_eq_ok, throwIf_eq_ok, not_not] at h
  obtain ⟨-, happroved, binding, hbinding, rfl⟩ := h
  exact ⟨happroved, hbinding⟩

/-- The four ways out of `consume`. -/
theorem consume_cases (E : Engine) (db : ApprovalDb) (id : String) (input : BoundTransaction)
    (clock : Nat → Int) :
    (∃ e, E.consume id input clock db = (.error e, db)) ∨
    db.inTransaction = false ∧ ∃ r, db.raw id = some r ∧
      ((∃ e, E.consume id input clock db = (.error e, db.expire r)) ∨
      (∃ e b, E.consume id input clock db = (.error e, { db with inTransaction := b })) ∨
      (clock 0 < r.expiresAt ∧ r.status = .approved ∧ E.binding input = .ok r.binding ∧
        E.consume id input clock db = get id (clock 1) (db.advance id .consumed))) := by
  unfold Engine.consume
  cases htx : db.inTransaction with
  | true => exact .inl ⟨_, rfl⟩
  | false =>
    cases hr : db.raw id with
    | none => exact .inl ⟨_, rfl⟩
    | some r =>
      refine .inr ⟨rfl, r, rfl, ?_⟩
      -- a request that is past its end is expired first
      by_cases hlate : r.expiresAt ≤ clock 0
      · exact .inl ⟨"Approval expired", by simp [hlate]⟩
      · cases hcheck : E.checkConsumption r input with
        | error e => exact .inr (.inl ⟨e, decide (r.status = .expired), by simp [hlate, hcheck]⟩)
        | ok u =>
          obtain ⟨happroved, hbinding⟩ := checkConsumption_cases hcheck
          exact .inr (.inr ⟨by omega, happroved, hbinding, by simp [hlate, hcheck]⟩)

/-- A successful `consume` found an approved request within its deadline. -/
theorem consume_eq_ok {input : BoundTransaction} {clock : Nat → Int} {x : Option RequestRow}
    (h : (E.consume id input clock db).1 = .ok x) :
    db.inTransaction = false ∧ ∃ r, db.raw id = some r ∧ clock 0 < r.expiresAt ∧
      r.status = .approved ∧ E.binding input = .ok r.binding := by
  rcases consume_cases E db id input clock with ⟨e, heq⟩ | ⟨hclosed, r, hr, ⟨e, heq⟩ |
    ⟨e, b, heq⟩ | ⟨hlive, happroved, hbinding, -⟩⟩
  · simp [heq] at h
  · simp [heq] at h
  · simp [heq] at h
  · exact ⟨hclosed, r, hr, hlive, happroved, hbinding⟩

theorem Faithful.setTransaction (h : Faithful E db log) (hclosed : db.inTransaction = false)
    (b : Bool) : Faithful E { db with inTransaction := b } log :=
  { h with
    registered := fun id r hr => by
      obtain ⟨reg, options, challenge, clock, result, hmem, hreg, hok⟩ := h.registered id r hr
      exact ⟨reg, options, challenge, clock, result, hmem, hreg, fun _ => hok hclosed⟩ }

/-- An operation that threw and left the database as it was. -/
theorem Faithful.failed (h : Faithful E db log) (c : Command) (e : String) :
    Faithful E db (log ++ [⟨c, .error e⟩]) :=
  h.append (fun _ => by cases c <;> rfl) (fun _ => by cases c <;> rfl) fun _ => by
    cases c <;> rfl

theorem Faithful.consume (h : Faithful E db log) (input : BoundTransaction) (clock : Nat → Int) :
    Faithful E (E.consume id input clock db).2
      (log ++ [⟨.consume id input clock, (E.consume id input clock db).1⟩]) := by
  rcases consume_cases E db id input clock with ⟨e, heq⟩ | ⟨hclosed, r, hr, ⟨e, heq⟩ |
    ⟨e, b, heq⟩ | ⟨-, happroved, -, heq⟩⟩
  · rw [heq]
    exact h.failed _ e
  · rw [heq]
    exact (h.expire r).failed _ e
  · rw [heq]
    exact (h.setTransaction hclosed b).failed _ e
  · obtain ⟨x, hx⟩ := get_ok (show (db.advance id .consumed).inTransaction = false from hclosed)
      id (clock 1)
    rw [heq, hx]
    refine (h.close hr (.inr happroved) (by simp [ApprovalStatus.IsOpen]) ?_ ?_ ?_).get _ _
    · intro k; simp [consumes]
    · intro k; simp [revokes]
    · intro k; simp [denies]

theorem Faithful.request (h : Faithful E db log) (input : ApprovalRequestInput)
    (options : RequestOptions) (challenge : String) (clock : Nat → Int) :
    Faithful E (E.request input options challenge clock db).2
      (log ++ [⟨.request input options challenge clock,
        (E.request input options challenge clock db).1⟩]) := by
  unfold Engine.request
  split
  · exact h.failed _ _
  · rename_i row hnew
    split
    · exact h.failed _ _
    · rename_i db' hins
      refine (h.insertRequest hnew hins fun hclosed => ?_).get _ _
      obtain ⟨requests, -, rfl⟩ := insertRequest_eq_ok hins
      exact get_ok (show ({ db with requests } : ApprovalDb).inTransaction = false from hclosed) _ _

theorem Faithful.decide (h : Faithful E db log) (input : DecisionInput) (clock : Nat → Int) :
    Faithful E (E.decide id input clock db).2
      (log ++ [⟨.decide id input clock, (E.decide id input clock db).1⟩]) := by
  unfold Engine.decide
  split
  · exact h.failed _ _
  · split
    · exact h.failed _ _
    · split
      · exact h.failed _ _
      · rename_i htx
        split
        · rename_i db' hdecide
          obtain ⟨x, hx⟩ := get_ok ((inTransaction_decideIn hdecide).trans (by simpa using htx))
            id (clock 4)
          rw [hx]
          exact (h.decideIn hdecide x).get _ _
        · exact h.failed _ _

theorem Faithful.revoke (h : Faithful E db log) (input : RevokeInput) (clock : Nat → Int) :
    Faithful E (E.revoke id input clock db).2
      (log ++ [⟨.revoke id input clock, (E.revoke id input clock db).1⟩]) := by
  unfold Engine.revoke
  split
  · exact h.failed _ _
  · split
    · exact h.failed _ _
    · rename_i htx
      split
      · rename_i db' hrevoke
        obtain ⟨r, hr, hopen, rfl⟩ := revokeIn_cases hrevoke
        have hclosed : db.inTransaction = false := by simpa using htx
        obtain ⟨x, hx⟩ := get_ok
          (show (db.advance id .revoked).inTransaction = false from hclosed) id (clock 0)
        rw [hx]
        refine (h.close hr hopen (by simp [ApprovalStatus.IsOpen]) ?_ ?_ ?_).get _ _
        · intro k; simp [consumes]
        · intro k; simp [revokes]
        · intro k; simp [denies]
      · exact h.failed _ _

end Statements

/-! ### Runs -/

section Runs

variable {E : Engine}

theorem Faithful.start : Faithful E .empty [] where
  registered := by simp [ApprovalDb.raw, ApprovalDb.empty, Table.find?_empty]
  approved := by simp [ApprovalDb.raw, ApprovalDb.empty, Table.find?_empty]
  undenied := by simp [ApprovalDb.raw, ApprovalDb.empty, Table.find?_empty]
  decided := by simp [ApprovalDb.empty, Table.empty]
  denied := by simp
  revoked := by simp
  consumed := by simp [ApprovalDb.raw, ApprovalDb.empty, Table.find?_empty]

theorem Faithful.step {s : Session} (h : Faithful E s.db s.log) (c : Command) :
    Faithful E (E.step s c).db (E.step s c).log := by
  cases c with
  | request input options challenge clock => exact h.request input options challenge clock
  | decide id input clock => exact h.decide input clock
  | revoke id input clock => exact h.revoke input clock
  | consume id input clock => exact h.consume input clock
  | get id clock =>
    exact Faithful.get (h.append (fun _ => rfl) (fun _ => rfl) fun _ => rfl) id (clock 0)

theorem run_append (cs : List Command) (c : Command) :
    E.run (cs ++ [c]) = E.step (E.run cs) c := by
  simp [Engine.run]

theorem run_faithful (cs : List Command) : Faithful E (E.run cs).db (E.run cs).log := by
  induction cs using List.reverseRecOn with
  | nil => exact Faithful.start
  | append_singleton cs c ih =>
    rw [run_append]
    exact ih.step c

/-- The operators who approved `id`, as the decisions table has them. -/
def approvers (db : ApprovalDb) (id : String) : List String :=
  (db.decisions.rows.filter fun d => d.requestId = id ∧ d.decision = .approve).map
    DecisionRow.operatorId

theorem length_approvers (db : ApprovalDb) (id : String) :
    (approvers db id).length = db.approvals id := by
  rw [approvers, List.length_map, ApprovalDb.approvals, Table.count, List.countP_eq_length_filter]

/-- An operator decides once. -/
theorem nodup_approvers (db : ApprovalDb) (id : String) : (approvers db id).Nodup := by
  refine List.Nodup.map_on ?_ (List.Nodup.filter _ db.decisions.nodup.of_map)
  intro d hd d' hd' hop
  simp only [List.mem_filter, decide_eq_true_eq] at hd hd'
  refine Table.eq_of_key hd.1 hd'.1 ?_
  exact Prod.ext (hd.2.1.trans hd'.2.1.symm) hop

/-- What `consume` checks is what justifies it. -/
theorem Faithful.justified {db : ApprovalDb} {log : List Performed} (h : Faithful E db log)
    {id : String} {input : BoundTransaction} {now : Int} {r : RequestRow}
    (hclosed : db.inTransaction = false) (hr : db.raw id = some r) (hlive : now < r.expiresAt)
    (happroved : r.status = .approved) (hbinding : E.binding input = .ok r.binding) :
    Justified E log id input now := by
  obtain ⟨reg, options, challenge, clock, result, hmem, hreg, hok⟩ := h.registered id r hr
  obtain ⟨x, rfl⟩ := hok hclosed
  obtain rfl := raw_id hr
  have hundenied := h.undenied r.id r hr (.inr happroved)
  refine ⟨reg, options, challenge, clock, x, r.quorum, r.expiresAt, hmem, hreg.id, hreg.quorum,
    ⟨approvers db r.id, nodup_approvers db r.id, ?_, ?_⟩, ?_, ⟨hreg.expiresAt, hlive⟩, ?_,
    r.binding, hbinding, hreg.binding⟩
  · -- as many approved as the quorum asks for
    rw [length_approvers]
    exact h.approved r.id r hr happroved
  · intro o ho
    simp only [approvers, List.mem_map, List.mem_filter, decide_eq_true_eq] at ho
    -- each with a decision of his own that passed its checks
    obtain ⟨d, ⟨hd, hid, hdecision⟩, rfl⟩ := ho
    obtain ⟨r', hr', hdec⟩ := h.decided d hd
    obtain rfl : r = r' := Option.some_inj.mp (hr.symm.trans (hid ▸ hr'))
    obtain ⟨input', clock', result', hperf, hop, hdec', hproof⟩ := hdec.recorded
    rw [hid] at hperf hproof
    refine ⟨?_, ?_, input', clock', result', ?_, hop, hdec'.trans hdecision, ?_⟩
    · rw [hreg.proposerId]; exact hdec.notProposer
    · rw [hreg.type]; exact hdec.eligible
    · rw [hreg.id]; exact hperf
    · rw [hreg.id]; exact hproof
  · -- nobody denied, and nobody revoked
    intro p hp
    by_contra hdeny
    obtain ⟨d, hd, hid, hdecision⟩ := h.denied r.id p hp (by simpa using hdeny)
    exact hundenied d hd hid hdecision
  · intro p hp
    by_contra hrev
    have hrevoked := h.revoked r.id p hp (by simpa using hrev)
    simp [hr, happroved] at hrevoked

/-- A successful consumption was justified by what had been performed when it happened. -/
theorem justified_of_consumed (cs : List Command) {before after : List Performed} {id : String}
    {input : BoundTransaction} {clock : Nat → Int} {x : Option RequestRow}
    (hlog : (E.run cs).log = before ++ ⟨.consume id input clock, .ok x⟩ :: after) :
    Justified E before id input (clock 0) := by
  induction cs using List.reverseRecOn generalizing after with
  | nil => simp [Engine.run, Session.start] at hlog
  | append_singleton cs c ih =>
    rw [run_append] at hlog
    rcases List.eq_nil_or_concat after with rfl | ⟨after, p, rfl⟩
    · -- the consumption is the last operation
      obtain ⟨rfl, hlast⟩ := List.append_inj' hlog rfl
      simp only [List.cons.injEq, and_true] at hlast
      obtain ⟨rfl, hres⟩ := Performed.mk.inj hlast
      obtain ⟨hclosed, r, hr, hlive, happroved, hbinding⟩ := consume_eq_ok hres
      exact (run_faithful cs).justified hclosed hr hlive happroved hbinding
    · rw [List.concat_eq_append, ← List.cons_append, ← List.append_assoc] at hlog
      exact ih (List.append_inj' hlog rfl).1

/-- In every run an approval is consumed at most once, and only when that is justified. -/
theorem consume_once_and_justified (E : Engine) (cs : List Command) :
    (∀ id, (E.run cs).log.countP (consumes id) ≤ 1) ∧
    ∀ before after id input clock x,
      (E.run cs).log = before ++ ⟨.consume id input clock, .ok x⟩ :: after →
        Justified E before id input (clock 0) := by
  refine ⟨fun id => ?_, fun before after id input clock x hlog => justified_of_consumed cs hlog⟩
  rw [(run_faithful cs).consumed id]
  split <;> omega

/-! ### A request that is approved and used -/

/-- Three operators, two of whom approve. -/
def sampleEngine : Engine where
  operators := ⟨[⟨"ana", ["approver"], ["*"]⟩, ⟨"ben", ["approver"], ["sign"]⟩,
    ⟨"eve", ["viewer"], ["*"]⟩], by simp⟩
  configVersion := "v1"
  configHash := "c0"
  verifyDecisionProof p := p.proof = some "signed"
  stringify := ⟨fun s => "\"" ++ s ++ "\"", fun q => toString q.num⟩
  sha256Hex s := s

def sampleTransaction : BoundTransaction where
  chain := "solana"
  serializedTransaction := .object [("to", .string "9x"), ("data", .string "0x"),
    ("value", .string "1"), ("nonce", .string "7")]
  intentHash := "i1"
  policyHash := "p1"
  policyVersion := "1"
  simulationHash := "s1"
  simulationBlock := "100"
  simulationState := "ok"
  account := "acc"
  nonce := "7"
  value := "1"
  calldata := "0x"
  router := "r1"

/-- A decision of `operatorId` at `revision`. -/
def sampleDecision (operatorId nonce : String) (revision : Int) : DecisionInput where
  operatorId := operatorId
  decision := .approve
  challenge := "ch"
  nonce := nonce
  expectedRevision := .ofInt revision
  timestamp := none
  proof := some "signed"
  reason := none

/-- Registered by "bob", approved by both operators who may. -/
def sampleApproved : List Command :=
  [.request { sampleTransaction with
      id := "a1", type := .sign, proposerId := "bob", expiresAt := .ofInt 1000
      displayImpact := none } ⟨.ofInt 2, false⟩ "ch" fun _ => 10,
    .decide "a1" (sampleDecision "ana" "n1" 0) fun _ => 20,
    .decide "a1" (sampleDecision "ben" "n2" 1) fun _ => 30]

/-- Used within the deadline. -/
def sampleConsumption : Command := .consume "a1" sampleTransaction fun _ => 40

theorem sampleConsumption_ok : ((sampleEngine.perform (sampleEngine.run sampleApproved).db
    sampleConsumption).1.toOption.join.map RequestRow.status) = some .consumed := by
  decide +kernel

theorem consume_once_and_justified_sample :
    (sampleEngine.run (sampleApproved ++ [sampleConsumption])).log.countP (consumes "a1") ≤ 1 ∧
    Justified sampleEngine (sampleEngine.run sampleApproved).log "a1" sampleTransaction 40 := by
  have h := consume_once_and_justified sampleEngine (sampleApproved ++ [sampleConsumption])
  refine ⟨h.1 "a1", ?_⟩
  cases hres : (sampleEngine.perform (sampleEngine.run sampleApproved).db sampleConsumption).1 with
  | ok x =>
    refine h.2 _ [] "a1" sampleTransaction (fun _ => 40) x ?_
    rw [run_append, ← hres]
    rfl
  | error e =>
    have hok := sampleConsumption_ok
    rw [hres] at hok
    simp [Except.toOption] at hok

end Runs

end AriOs.Execution.Approvals
