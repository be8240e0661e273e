import AriOs.Kernel.Interleaving

/-!
# Signing, broadcasting and giving a reservation back

Two properties of the live path under every interleaving: one idempotency key never leads
to two signatures or two broadcasts, and what happens to the reservation of a transaction
the broadcaster has accepted.
-/

namespace AriOs.Kernel

open AriOs.Async AriOs.Storage

/-! ### At most once -/

/-- The wallet is asked to sign. -/
def isSign : Entry interface → Bool
  | ⟨.sign _, _⟩ => true
  | _ => false

/-- The broadcaster is handed a transaction. -/
def isBroadcast : Entry interface → Bool
  | ⟨.broadcast _ _ _, _⟩ => true
  | _ => false

/-- The counts a call keeps are counts of its own calls. -/
theorem upd_counts (v : Known) (e : Entry interface) :
    (v.upd e).key = v.key ∧ (v.upd e).signs = v.signs + (if isSign e then 1 else 0) ∧
      (v.upd e).broadcasts = v.broadcasts + (if isBroadcast e then 1 else 0) := by
  obtain ⟨o, r⟩ := e
  cases o with
  | reserve args =>
    obtain ⟨spend, h⟩ := v.onReserve_eq args r
    exact ⟨by rw [Known.upd, h], by rw [Known.upd, h]; rfl, by rw [Known.upd, h]; rfl⟩
  | insertTrade row id =>
    obtain ⟨trade, h⟩ := v.onInsertTrade_eq row id r
    exact ⟨by rw [Known.upd, h], by rw [Known.upd, h]; rfl, by rw [Known.upd, h]; rfl⟩
  | broadcast mode signed handle => cases r <;> exact ⟨rfl, rfl, rfl⟩
  | readPair owner input output => cases r <;> exact ⟨rfl, rfl, rfl⟩
  | _ => exact ⟨rfl, rfl, rfl⟩

theorem foldl_upd_counts (h : List (Entry interface)) (v : Known) :
    (h.foldl Known.upd v).key = v.key ∧
      (h.foldl Known.upd v).signs = v.signs + h.countP isSign ∧
      (h.foldl Known.upd v).broadcasts = v.broadcasts + h.countP isBroadcast := by
  induction h generalizing v with
  | nil => simp
  | cons e h ih =>
    obtain ⟨hkey, hsigns, hbroadcasts⟩ := ih (v.upd e)
    obtain ⟨ekey, esigns, ebroadcasts⟩ := upd_counts v e
    rw [List.foldl_cons, hkey, hsigns, hbroadcasts, ekey, esigns, ebroadcasts,
      List.countP_cons, List.countP_cons]
    exact ⟨rfl, by omega, by omega⟩

section AtMostOnce

variable {c : Call interface Request (Except KernelError ExecuteResult)}

theorem known_key : (known c).key = c.request.opts.idempotencyKey :=
  (foldl_upd_counts c.history (Known.start c.request)).1

theorem known_signs : (known c).signs = c.history.countP isSign := by
  exact (foldl_upd_counts c.history (Known.start c.request)).2.1.trans (Nat.zero_add _)

theorem known_broadcasts : (known c).broadcasts = c.history.countP isBroadcast := by
  exact (foldl_upd_counts c.history (Known.start c.request)).2.2.trans (Nat.zero_add _)

/-- Of two calls for one key, one has not claimed it. -/
theorem unclaimed_of_same_key {c c' : Call interface Request (Except KernelError ExecuteResult)}
    (hkey : c.request.opts.idempotencyKey = c'.request.opts.idempotencyKey)
    (hapart : Apart (known c) (known c')) :
    (known c).claimed = false ∨ (known c').claimed = false := by
  by_contra h
  simp only [not_or, Bool.not_eq_false] at h
  exact hapart.key h.1 h.2 (by rw [known_key, known_key, hkey])

end AtMostOnce

/-- **At most once.** Whatever the interleaving, the failures and the crashes, the calls
carrying one idempotency key together ask the wallet for at most one signature and hand
the broadcaster at most one transaction. -/
theorem signed_and_broadcast_at_most_once (d : Deps) (es : List (Event interface Request))
    (key : String) :
    (gatewayRun d es).occurrences (fun r => r.opts.idempotencyKey = key) isSign ≤ 1 ∧
      (gatewayRun d es).occurrences (fun r => r.opts.idempotencyKey = key) isBroadcast ≤ 1 := by
  have hco := gateways_coherent d es
  have hzero : ∀ c ∈ (gatewayRun d es).calls, (known c).claimed = false →
      c.history.countP isSign = 0 ∧ c.history.countP isBroadcast = 0 := fun c hc h => by
    rw [← known_signs, ← known_broadcasts]
    exact (hco.known_mem hc).unclaimed h
  constructor
  · refine hco.occurrences_le_one (fun c _ hv => known_signs (c := c) ▸ hv.signs) ?_
    intro c hc c' hc' hk hk' hapart
    refine (unclaimed_of_same_key (by simp_all) hapart).imp (fun h => ?_) fun h => ?_
    · exact (hzero c hc h).1
    · exact (hzero c' hc' h).1
  · refine hco.occurrences_le_one (fun c _ hv => known_broadcasts (c := c) ▸ hv.broadcasts) ?_
    intro c hc c' hc' hk hk' hapart
    refine (unclaimed_of_same_key (by simp_all) hapart).imp (fun h => ?_) fun h => ?_
    · exact (hzero c hc h).2
    · exact (hzero c' hc' h).2

/-! ### After the broadcaster has accepted -/

/-- Once the broadcaster has accepted the transaction of `v`, its reservation is released
in the store only if the confirmer said that the transaction expired or failed. -/
def ReleasedOnlyOnVerdict (s : KernelStore) (v : Known) : Prop :=
  v.accepted = true → ∀ r ∈ v.spend,
    (s.spends.find? r.id).map SpendRow.state = some .released → v.Dead

instance (s : KernelStore) (v : Known) : Decidable (ReleasedOnlyOnVerdict s v) := by
  unfold ReleasedOnlyOnVerdict; infer_instance

/-- The broadcaster accepted a transaction with a reservation, and then the confirmer threw
or a balance read after its verdict did. -/
def OutcomeLost (v : Known) : Prop := v.accepted = true ∧ v.spend.isSome ∧ v.Lost

instance (v : Known) : Decidable (OutcomeLost v) := by unfold OutcomeLost; infer_instance

theorem not_dead_of_lost {s : KernelStore} {v : Known} (hv : Owns s v) (hlost : v.Lost) :
    ¬ v.Dead := by
  rintro ⟨status, hstatus, hdead⟩
  rcases hlost with ⟨e, he⟩ | hread
  · simp [hstatus] at he
  · have := hv.read hread
    simp_all

/-- **The reservation of an accepted transaction.** As long as the outcome is not lost, the
reservation is released only on a verdict against the transaction. A call that loses the
outcome of an accepted transaction and runs to its end has released it without one. -/
theorem released_iff_outcome_lost (d : Deps) (es : List (Event interface Request))
    (c : Call interface Request (Except KernelError ExecuteResult))
    (hc : c ∈ (gatewayRun d es).calls) :
    (¬ OutcomeLost (known c) → ReleasedOnlyOnVerdict (gatewayRun d es).shared (known c)) ∧
      (c.Finished →
        (ReleasedOnlyOnVerdict (gatewayRun d es).shared (known c) ↔ ¬ OutcomeLost (known c))) := by
  have hco := gateways_coherent d es
  have hv : Owns (gatewayRun d es).shared (known c) := hco.known_mem hc
  have hsound : ¬ OutcomeLost (known c) →
      ReleasedOnlyOnVerdict (gatewayRun d es).shared (known c) := by
    intro hnot hacc r hr hreleased
    rw [hv.spend r hr, Option.map_some, Option.some_inj] at hreleased
    rcases hv.entitled hacc r hr hreleased with hdead | hlost
    · exact hdead
    · exact absurd ⟨hacc, by simp [Option.mem_def.mp hr], hlost⟩ hnot
  refine ⟨hsound, fun hfin => ⟨fun hrel hlost => ?_, hsound⟩⟩
  obtain ⟨hacc, hsome, hlost⟩ := hlost
  obtain ⟨r, hr⟩ := Option.isSome_iff_exists.mp hsome
  -- the catch block has run: the spend is released, and nothing else could have done it
  obtain ⟨-, hdone⟩ := (hco.safe_mem hc).finished hfin
  have hreleased := hdone hlost r hr
  refine not_dead_of_lost hv hlost (hrel hacc r hr ?_)
  rw [hv.spend r hr, Option.map_some, hreleased]

/-- A confirmed trade, run to its end, keeps its reservation. -/
theorem released_iff_outcome_lost_confirmed :
    ∃ c ∈ (gatewayRun sampleDeps (sampleEvents (.ok .confirmed) 40)).calls,
      c.Finished ∧ (known c).accepted = true ∧ (known c).spend.isSome ∧
        ReleasedOnlyOnVerdict (gatewayRun sampleDeps (sampleEvents (.ok .confirmed) 40)).shared
          (known c) := by
  have hrun : ∃ c ∈ (gatewayRun sampleDeps (sampleEvents (.ok .confirmed) 40)).calls,
      c.Finished ∧ (known c).accepted = true ∧ (known c).spend.isSome ∧
        ¬ OutcomeLost (known c) := by decide +kernel
  obtain ⟨c, hc, hfin, hacc, hsome, hnot⟩ := hrun
  exact ⟨c, hc, hfin, hacc, hsome, ((released_iff_outcome_lost _ _ c hc).2 hfin).mpr hnot⟩

/-- The confirmer throws after the broadcaster has accepted: the reservation is released
although nobody said that the transaction is dead. -/
theorem released_without_verdict :
    ¬ ∀ (d : Deps) (es : List (Event interface Request)),
      ∀ c ∈ (gatewayRun d es).calls, ReleasedOnlyOnVerdict (gatewayRun d es).shared (known c) := by
  intro h
  have hsample := h sampleDeps (sampleEvents (.error (.other "rpc unreachable")) 40)
  revert hsample
  decide +kernel

end AriOs.Kernel
