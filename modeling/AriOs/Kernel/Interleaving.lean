import AriOs.Kernel.Custody

/-!
# Interleaved gateways

Any number of `execute` calls over one store, stepping in any order, with any answers and
any crashes. The rows a call owns hold what it knows, no two calls own the same key or
row, and every trade row agrees with the spend it reserved.
-/

namespace AriOs.Kernel

open AriOs.Async AriOs.Storage

/-- What a call knows is what the store holds. -/
structure Owns (s : KernelStore) (v : Known) : Prop where
  key : v.claimed = true → (s.idempotency.find? v.key).isSome
  spend : ∀ r, v.spend = some r → s.spends.find? r.id = some r
  trade : ∀ r, v.trade = some r → s.trades.find? r.id = some r
  link : ∀ r, v.trade = some r → r.reservationId = v.spend.map SpendRow.id
  unclaimed : v.claimed = false → v.signs = 0 ∧ v.broadcasts = 0
  signs : v.signs ≤ 1
  broadcasts : v.broadcasts ≤ 1
  read : v.readLost = true → v.verdict = some (.ok .confirmed)
  entitled : v.accepted = true → ∀ r, v.spend = some r → r.state = .released → v.Dead ∨ v.Lost

/-- Two calls own different keys and rows. -/
structure Apart (v w : Known) : Prop where
  key : v.claimed = true → w.claimed = true → v.key ≠ w.key
  spend : ∀ r r', v.spend = some r → w.spend = some r' → r.id ≠ r'.id
  trade : ∀ r r', v.trade = some r → w.trade = some r' → r.id ≠ r'.id

/-- A terminal trade has settled its spend the right way. -/
def Agree (trade : TradeState) (spend : SpendState) : Prop :=
  (trade = .confirmed → spend = .consumed) ∧ (trade = .expired ∨ trade = .errored → spend = .released)

/-- A trade row agrees with its spend row. -/
structure TradeRow.Consistent (spends : Table SpendRow.id) (t : TradeRow) : Prop where
  linked : ∀ id, t.reservationId = some id →
    ∃ r, spends.find? id = some r ∧ r.tradeId = t.id ∧ Agree t.state r.state
  signature : t.signedWire.isSome → t.signature.isSome
  state : t.state ≠ .rejected

/-- Every trade row agrees with its spend row. -/
def Consistent (s : KernelStore) : Prop :=
  ∀ id t, s.trades.find? id = some t → t.Consistent s.spends

/-! ### What each statement keeps -/

section Statements

variable {s : KernelStore} {v w : Known} {id : String}

theorem Apart.symm (h : Apart v w) : Apart w v where
  key hw hv := (h.key hv hw).symm
  spend r r' hr hr' := (h.spend r' r hr' hr).symm
  trade r r' hr hr' := (h.trade r' r hr' hr).symm

/-- A change of spends that contradicts no trade they belong to. -/
theorem consistent_setSpendState (hs : Consistent s) {p : SpendRow → Bool} {state : SpendState}
    (hp : ∀ t r, s.trades.find? t.id = some t → s.spends.find? r.id = some r →
      t.reservationId = some r.id → r.tradeId = t.id → Agree t.state r.state → p r = true →
      Agree t.state state) :
    Consistent (s.setSpendState p state) := by
  intro k t ht
  obtain ⟨hlinked, hsignature, hstate⟩ := hs k t ht
  obtain ⟨-, rfl⟩ := Table.find?_eq_some_iff.mp ht
  refine ⟨fun rid hrid => ?_, hsignature, hstate⟩
  obtain ⟨r, hr, htrade, hagree⟩ := hlinked rid hrid
  obtain ⟨-, rfl⟩ := Table.find?_eq_some_iff.mp hr
  rw [KernelStore.find?_setSpendState, hr]
  refine ⟨_, rfl, ?_⟩
  by_cases h : p r = true
  · simpa [h, htrade] using hp t r ht hr hrid htrade hagree h
  · simpa [h, htrade] using hagree

/-- A change of the trade `id` in place. -/
theorem consistent_setTrade (hs : Consistent s) {f : TradeRow → TradeRow}
    {hf : ∀ r, (f r).id = r.id}
    (hown : ∀ t, s.trades.find? id = some t → (f t).Consistent s.spends) :
    Consistent (s.setTrade id f hf) := by
  intro k t ht
  rw [KernelStore.find?_setTrade, Option.map_eq_some_iff] at ht
  obtain ⟨t₀, ht₀, rfl⟩ := ht
  rw [KernelStore.setTrade_spends]
  split
  · rename_i h
    obtain ⟨-, rfl⟩ := Table.find?_eq_some_iff.mp ht₀
    exact hown t₀ (h ▸ ht₀)
  · exact hs k t₀ ht₀

theorem consistent_claim (hs : Consistent s) {key tradeId : String} {now : Int} :
    Consistent (s.claimIdempotency key tradeId now).2 := by
  intro k t ht
  rw [KernelStore.claimIdempotency_trades] at ht
  rw [KernelStore.claimIdempotency_spends]
  exact hs k t ht

theorem consistent_reserve (hs : Consistent s) {args : ReserveArgs} :
    Consistent (s.reserve args id).2 := by
  obtain ⟨spends, _, _, -, -, -, hspends, heq⟩ | ⟨heq, -⟩ := s.reserve_cases args id
  · rw [heq]
    intro k t ht
    obtain ⟨hlinked, hsignature, hstate⟩ := hs k t ht
    refine ⟨fun rid hrid => ?_, hsignature, hstate⟩
    obtain ⟨r, hr, hrest⟩ := hlinked rid hrid
    exact ⟨r, Table.find?_insert?_of_some hspends hr, hrest⟩
  · rw [heq]; exact hs

theorem consistent_insertTrade (hs : Consistent s) (hv : Owns s v) {row : NewTradeRow}
    {reservationId : Option String} (hpre : v.Allows (.insertTrade row reservationId)) :
    Consistent (s.insertTrade row reservationId).2 := by
  obtain ⟨-, hspend, htradeId⟩ := hpre
  obtain ⟨trades, htrades, heq⟩ | ⟨e, heq⟩ := s.insertTrade_cases row reservationId
  · rw [heq]
    intro k t ht
    rw [Table.find?_insert? htrades] at ht
    split at ht
    · obtain rfl := Option.some_inj.mp ht
      refine ⟨fun rid hrid => ?_, by simp [KernelStore.newTrade], by simp [KernelStore.newTrade]⟩
      obtain rfl : reservationId = some rid := hrid
      obtain ⟨r, hr, rfl⟩ := Option.map_eq_some_iff.mp hspend
      exact ⟨r, hv.spend r hr, htradeId r hr, by simp [KernelStore.newTrade, Agree]⟩
    · exact hs k t ht
  · rw [heq]; exact hs

/-- The spend of the own trade row is the own spend. -/
theorem Owns.consistent_of_spendIs (hs : Consistent s) (hv : Owns s v) {t t' : TradeRow}
    {state : SpendState} (ht : v.trade = some t) (hspend : v.SpendIs state)
    (hid : t'.id = t.id) (hres : t'.reservationId = t.reservationId)
    (hsig : t'.signedWire.isSome → t'.signature.isSome) (hlive : t'.state ≠ .rejected)
    (hagree : Agree t'.state state) : t'.Consistent s.spends := by
  refine ⟨fun rid hrid => ?_, hsig, hlive⟩
  rw [hres] at hrid
  obtain ⟨r, hr, htrade, -⟩ := (hs _ t (hv.trade t ht)).linked rid hrid
  have hown := hv.link t ht
  rw [hrid] at hown
  obtain ⟨r', hr', rfl⟩ := Option.map_eq_some_iff.mp hown.symm
  have hsame := hv.spend r' hr'
  rw [hr] at hsame
  obtain rfl := Option.some_inj.mp hsame
  exact ⟨r, hr, by rw [htrade, hid], hspend r hr' ▸ hagree⟩

/-- What the gateway promises keeps trades and spends consistent. -/
theorem consistent_handle (hs : Consistent s) (hv : Owns s v) {o : Op} (hpre : v.Allows o)
    (a : o.Ans) : Consistent (machine.handle o s a).2 := by
  cases o with
  | claimIdempotency key tradeId now => exact consistent_claim hs
  | reserve args => exact consistent_reserve hs
  | insertTrade row reservationId => exact consistent_insertTrade hs hv hpre
  | releaseReservation id =>
    refine consistent_setSpendState hs fun t r _ _ _ _ hagree hp => ?_
    -- only a reserved spend is released, so its trade is not confirmed
    have hreserved : r.state = .reserved := by simpa using (by simpa using hp : r.id = id ∧ _).2
    refine ⟨fun hconf => ?_, fun _ => rfl⟩
    have := hagree.1 hconf
    simp [hreserved] at this
  | consumeReservation id =>
    obtain ⟨hspend, -, t, ht, hsent⟩ := hpre
    refine consistent_setSpendState hs fun t' r ht' hr hrid htrade _ hp => ?_
    -- the trade this spend belongs to is the own one, which is `sent`
    have hlink := hv.link t ht
    rw [hspend] at hlink
    obtain ⟨r', hr', htrade', -⟩ := (hs _ t (hv.trade t ht)).linked id hlink
    obtain rfl : r.id = id := by simpa using hp
    rw [hr] at hr'
    obtain rfl := Option.some_inj.mp hr'
    rw [← htrade, htrade', hv.trade t ht] at ht'
    obtain rfl := Option.some_inj.mp ht'
    simp [Agree, hsent]
  | persistSigned id wire signature now =>
    refine consistent_setTrade hs fun t ht => ?_
    obtain ⟨hlinked, -, hstate⟩ := hs id t ht
    exact ⟨hlinked, fun _ => rfl, hstate⟩
  | setSignature id signature now =>
    refine consistent_setTrade hs fun t ht => ?_
    obtain ⟨hlinked, -, hstate⟩ := hs id t ht
    exact ⟨hlinked, fun _ => rfl, hstate⟩
  | setState id state now =>
    obtain ⟨⟨r, hr, rfl⟩, hstate⟩ := hpre
    refine consistent_setTrade hs fun t ht => ?_
    rw [hv.trade r hr] at ht
    obtain rfl := Option.some_inj.mp ht
    obtain ⟨hlinked, hsignature, -⟩ := hs r.id r (hv.trade r hr)
    -- a trade is sent, or confirmed once its spend is consumed
    rcases hstate with rfl | ⟨rfl, hconsumed⟩
    · refine ⟨fun rid hrid => ?_, hsignature, by simp⟩
      obtain ⟨row, hrow, htrade, -⟩ := hlinked rid hrid
      exact ⟨row, hrow, htrade, by simp [Agree]⟩
    · exact hv.consistent_of_spendIs hs hr hconsumed rfl rfl hsignature (by simp) (by simp [Agree])
  | fail id state error now =>
    obtain ⟨⟨r, hr, rfl⟩, hstate, hreleased⟩ := hpre
    refine consistent_setTrade hs fun t ht => ?_
    rw [hv.trade r hr] at ht
    obtain rfl := Option.some_inj.mp ht
    refine hv.consistent_of_spendIs hs hr hreleased rfl rfl
      (hs r.id r (hv.trade r hr)).signature ?_ ?_
    · rcases hstate with rfl | rfl <;> simp
    · rcases hstate with rfl | rfl <;> simp [Agree]
  | pendingSent => exact hpre.elim
  | _ => exact hs

/-! ### What each call keeps of what is known -/

/-- A statement on spends, seen by the call that owns the spend it is about. -/
theorem owns_setSpend (hv : Owns s v) {p : SpendRow → Bool} {state : SpendState}
    (hentitled : v.accepted = true → state = .released → v.Dead ∨ v.Lost) :
    Owns (s.setSpendState p state) (v.setSpend p state) where
  key := hv.key
  spend r hr := by
    obtain ⟨r₀, hr₀, rfl⟩ := Option.map_eq_some_iff.mp hr
    -- the row keeps its id
    have hid : (if p r₀ = true then { r₀ with state } else r₀).id = r₀.id := by split <;> rfl
    rw [hid, KernelStore.find?_setSpendState, hv.spend r₀ hr₀, Option.map_some]
  trade := hv.trade
  link t ht := by
    rw [hv.link t ht, Known.setSpend, Option.map_map]
    congr 1
    funext r
    simp only [Function.comp_apply]
    split <;> rfl
  unclaimed := hv.unclaimed
  signs := hv.signs
  broadcasts := hv.broadcasts
  read := hv.read
  entitled hacc r hr hreleased := by
    obtain ⟨r₀, hr₀, rfl⟩ := Option.map_eq_some_iff.mp hr
    by_cases h : p r₀ = true
    · simp only [h, ↓reduceIte] at hreleased
      exact hentitled hacc hreleased
    · simp only [h] at hreleased
      exact hv.entitled hacc r₀ hr₀ hreleased

/-- A statement on a trade, seen by the call that owns it. -/
theorem owns_setTrade (hv : Owns s v) {f : TradeRow → TradeRow} {hf : ∀ r, (f r).id = r.id}
    (hres : ∀ r, (f r).reservationId = r.reservationId) :
    Owns (s.setTrade id f hf) (v.setTrade id f) where
  key := hv.key
  spend := hv.spend
  trade t ht := by
    obtain ⟨t₀, ht₀, rfl⟩ := Option.map_eq_some_iff.mp ht
    have hid : (if t₀.id = id then f t₀ else t₀).id = t₀.id := by split <;> simp [hf]
    rw [hid, KernelStore.find?_setTrade, hv.trade t₀ ht₀, Option.map_some]
  link t ht := by
    obtain ⟨t₀, ht₀, rfl⟩ := Option.map_eq_some_iff.mp ht
    have hsame : (if t₀.id = id then f t₀ else t₀).reservationId = t₀.reservationId := by
      split <;> simp [hres]
    rw [hsame]
    exact hv.link t₀ ht₀
  unclaimed := hv.unclaimed
  signs := hv.signs
  broadcasts := hv.broadcasts
  read := hv.read
  entitled := hv.entitled

theorem owns_claim (hv : Owns s v) {tradeId : String} {now : Int}
    (hnone : v.signs = 0 ∧ v.broadcasts = 0) :
    Owns (s.claimIdempotency v.key tradeId now).2
      { v with claimed := v.claimed || (s.claimIdempotency v.key tradeId now).1 } := by
  unfold KernelStore.claimIdempotency
  split
  · rename_i idempotency hins
    refine { hv with key := fun _ => ?_, unclaimed := fun _ => hnone }
    rw [Table.find?_insert? hins]
    simp
  · simpa using hv

theorem owns_reserve (hv : Owns s v) {args : ReserveArgs} (hpre : v.Allows (.reserve args)) :
    Owns (s.reserve args id).2 (v.onReserve args (s.reserve args id).1) := by
  obtain ⟨hspend, htrade, haccepted, -⟩ := hpre
  obtain ⟨spends, _, _, -, -, -, hspends, heq⟩ | ⟨heq, hne⟩ := s.reserve_cases args id
  · rw [heq]
    refine { hv with spend := ?_, trade := ?_, link := ?_, entitled := ?_ }
    · rintro r ⟨rfl⟩
      simp [Table.find?_insert? hspends]
    · exact hv.trade
    · simp [Known.onReserve, htrade]
    · simp [Known.onReserve, haccepted]
  · rw [heq]
    have hsame : v.onReserve args (s.reserve args id).1 = v := by
      unfold Known.onReserve
      split
      · rename_i rid usedHour usedDay h
        exact absurd h (hne rid usedHour usedDay)
      · rfl
    rw [hsame]
    exact hv

theorem owns_insertTrade (hv : Owns s v) {row : NewTradeRow} {reservationId : Option String}
    (hpre : v.Allows (.insertTrade row reservationId)) :
    Owns (s.insertTrade row reservationId).2
      (v.onInsertTrade row reservationId (s.insertTrade row reservationId).1) := by
  obtain ⟨-, hspend, -⟩ := hpre
  obtain ⟨trades, htrades, heq⟩ | ⟨e, heq⟩ := s.insertTrade_cases row reservationId
  · rw [heq]
    refine { hv with spend := hv.spend, trade := ?_, link := ?_ }
    · rintro r ⟨rfl⟩
      simp [Table.find?_insert? htrades]
    · rintro r ⟨rfl⟩
      exact hspend.symm
  · rw [heq]
    exact hv

/-- A call re-establishes what it knows. -/
theorem owns_handle (hv : Owns s v) {o : Op} (hpre : v.Allows o) (a : o.Ans) :
    Owns (machine.handle o s a).2 (v.upd ⟨o, (machine.handle o s a).1⟩) := by
  cases o with
  | claimIdempotency key tradeId now =>
    obtain ⟨rfl, -, hnone⟩ := hpre
    exact owns_claim hv hnone
  | policy => exact { hv with }
  | reserve args => exact owns_reserve hv hpre
  | insertTrade row reservationId => exact owns_insertTrade hv hpre
  | releaseReservation id => exact owns_setSpend hv fun hacc _ => hpre.2 hacc
  | consumeReservation id => exact owns_setSpend hv fun _ h => by simp at h
  | persistSigned id wire signature now => exact owns_setTrade hv fun _ => rfl
  | setSignature id signature now => exact owns_setTrade hv fun _ => rfl
  | setState id state now => exact owns_setTrade hv fun _ => rfl
  | fail id state error now => exact owns_setTrade hv fun _ => rfl
  | sign tx =>
    obtain ⟨hclaimed, hsigns⟩ := hpre
    refine { hv with unclaimed := ?_, signs := ?_ }
    · simp [Known.upd, hclaimed]
    · simp [Known.upd, hsigns]
  -- the trade goes to the cluster only while its spend is reserved
  | broadcast mode signed handle =>
    obtain ⟨hclaimed, hbroadcasts, hreserved⟩ := hpre
    cases a with
    | ok signature =>
      refine { hv with unclaimed := ?_, broadcasts := ?_, entitled := ?_ }
      · simp [Known.upd, machine, Known.onBroadcast, hclaimed]
      · simp [Known.upd, machine, Known.onBroadcast, hbroadcasts]
      · intro _ r hr hreleased
        rw [hreserved r hr] at hreleased
        simp at hreleased
    | error e =>
      refine { hv with unclaimed := ?_, broadcasts := ?_, entitled := hv.entitled }
      · simp [Known.upd, machine, Known.onBroadcast, hclaimed]
      · simp [Known.upd, machine, Known.onBroadcast, hbroadcasts]
  | confirm signature height =>
    obtain ⟨hverdict, hread⟩ := hpre
    refine { hv with read := fun h => ?_, entitled := fun hacc r hr hreleased => ?_ }
    · rw [show v.readLost = true from h] at hread
      simp at hread
    · have := hv.entitled hacc r hr hreleased
      simp [Known.Dead, Known.Lost, hverdict, hread] at this
  -- a pair that is not read is lost, which the reads before rule out
  | readPair owner input output =>
    cases a with
    | ok pair => exact hv
    | error e =>
      refine { hv with read := fun h => ?_, entitled := fun hacc r hr hreleased => ?_ }
      · refine hpre.resolve_left fun hnone => ?_
        have := hv.read (by simpa [Known.upd, machine, Known.onReadPair, hnone] using h)
        simp [hnone] at this
      · refine (hv.entitled hacc r hr hreleased).imp id fun hlost => ?_
        exact hlost.imp id fun h => by simp [Known.upd, machine, Known.onReadPair, h]
  | appendJournal event => exact { hv with }
  | _ => exact hv

theorem Owns.of_tables {s' : KernelStore} (hw : Owns s w)
    (hkey : w.claimed = true → (s.idempotency.find? w.key).isSome →
      (s'.idempotency.find? w.key).isSome)
    (hspend : ∀ r, w.spend = some r → s.spends.find? r.id = some r → s'.spends.find? r.id = some r)
    (htrade : ∀ r, w.trade = some r → s.trades.find? r.id = some r →
      s'.trades.find? r.id = some r) : Owns s' w :=
  { hw with
    key := fun h => hkey h (hw.key h)
    spend := fun r h => hspend r h (hw.spend r h)
    trade := fun r h => htrade r h (hw.trade r h) }

/-- A statement on the own spend leaves other calls' spends alone. -/
theorem owns_setSpend_frame (hw : Owns s w) {p : SpendRow → Bool} {state : SpendState}
    (hp : ∀ r, w.spend = some r → p r = false) : Owns (s.setSpendState p state) w :=
  hw.of_tables (fun _ h => h) (fun r hr h => by
    simp [KernelStore.find?_setSpendState, h, hp r hr]) fun _ _ h => h

/-- A statement on the own trade leaves other calls' trades alone. -/
theorem owns_setTrade_frame (hw : Owns s w) {f : TradeRow → TradeRow} {hf : ∀ r, (f r).id = r.id}
    (howns : v.OwnsTrade id) (hp : Apart v w) : Owns (s.setTrade id f hf) w := by
  obtain ⟨t, ht, rfl⟩ := howns
  refine hw.of_tables (fun _ h => h) (fun _ _ h => h) fun r hr h => ?_
  rw [KernelStore.find?_setTrade, h, Option.map_some, if_neg (hp.trade t r ht hr).symm]

/-- A call leaves what another one knows alone. -/
theorem owns_frame {o : Op} (hpre : v.Allows o) (hw : Owns s w) (hp : Apart v w)
    (a : o.Ans) : Owns (machine.handle o s a).2 w := by
  -- the spend of the other trade has another id
  have hother : ∀ id, v.spend.map SpendRow.id = some id → ∀ r, w.spend = some r → r.id ≠ id := by
    intro id hid r hr
    obtain ⟨r', hr', rfl⟩ := Option.map_eq_some_iff.mp hid
    exact (hp.spend r' r hr' hr).symm
  cases o with
  | claimIdempotency key tradeId now =>
    refine hw.of_tables (fun _ hsome => ?_) (fun _ _ h => ?_) fun _ _ h => ?_
    · change ((s.claimIdempotency key tradeId now).2.idempotency.find? w.key).isSome
      unfold KernelStore.claimIdempotency
      split
      · rename_i idempotency hins
        rw [Table.find?_insert? hins]
        split <;> simp [hsome]
      · exact hsome
    · exact KernelStore.claimIdempotency_spends (s := s) ▸ h
    · exact KernelStore.claimIdempotency_trades (s := s) ▸ h
  -- rows are only added, under new keys
  | reserve args =>
    change Owns (s.reserve args (newId "rsv" a)).2 w
    obtain ⟨spends, _, _, -, -, -, hspends, heq⟩ | ⟨heq, -⟩ := s.reserve_cases args (newId "rsv" a)
    · rw [heq]
      exact hw.of_tables (fun _ h => h) (fun _ _ h => Table.find?_insert?_of_some hspends h)
        fun _ _ h => h
    · rw [heq]; exact hw
  | insertTrade row reservationId =>
    change Owns (s.insertTrade row reservationId).2 w
    obtain ⟨trades, htrades, heq⟩ | ⟨e, heq⟩ := s.insertTrade_cases row reservationId
    · rw [heq]
      exact hw.of_tables (fun _ h => h) (fun _ _ h => h)
        fun _ _ h => Table.find?_insert?_of_some htrades h
    · rw [heq]; exact hw
  | releaseReservation id =>
    exact owns_setSpend_frame hw fun r hr => by simp [hother id hpre.1 r hr]
  | consumeReservation id =>
    exact owns_setSpend_frame hw fun r hr => by simp [hother id hpre.1 r hr]
  | persistSigned id wire signature now => exact owns_setTrade_frame hw hpre hp
  | setSignature id signature now => exact owns_setTrade_frame hw hpre hp
  | setState id state now => exact owns_setTrade_frame hw hpre.1 hp
  | fail id state error now => exact owns_setTrade_frame hw hpre.1 hp
  | appendJournal event => exact { hw with }
  | pendingSent => exact hpre.elim
  | _ => exact hw

theorem apart_setSpend (hp : Apart v w) {p : SpendRow → Bool} {state : SpendState} :
    Apart (v.setSpend p state) w := by
  refine { hp with spend := fun r r' hr hr' => ?_ }
  obtain ⟨r₀, hr₀, rfl⟩ := Option.map_eq_some_iff.mp hr
  have hid : (if p r₀ = true then { r₀ with state } else r₀).id = r₀.id := by split <;> rfl
  rw [hid]
  exact hp.spend r₀ r' hr₀ hr'

theorem apart_setTrade (hp : Apart v w) {f : TradeRow → TradeRow} (hf : ∀ r, (f r).id = r.id) :
    Apart (v.setTrade id f) w := by
  refine { hp with trade := fun r r' hr hr' => ?_ }
  obtain ⟨r₀, hr₀, rfl⟩ := Option.map_eq_some_iff.mp hr
  have hid : (if r₀.id = id then f r₀ else r₀).id = r₀.id := by split <;> simp [hf]
  rw [hid]
  exact hp.trade r₀ r' hr₀ hr'

/-- What a call comes to own is nobody else's. -/
theorem apart_upd {o : Op} (hpre : v.Allows o) (hw : Owns s w) (hp : Apart v w) (a : o.Ans) :
    Apart (v.upd ⟨o, (machine.handle o s a).1⟩) w := by
  cases o with
  | claimIdempotency key tradeId now =>
    obtain ⟨rfl, hclaimed, -⟩ := hpre
    refine { hp with key := fun hv hwc heq => ?_ }
    -- a key that is claimed now was free, and that of the other trade is not
    have hok : (s.claimIdempotency v.key tradeId now).1 = true := by
      simpa [Known.upd, machine, hclaimed] using hv
    unfold KernelStore.claimIdempotency at hok
    split at hok
    · rename_i idempotency hins
      have hfree := Table.find?_of_insert? hins
      have htaken := hw.key hwc
      have hkey : w.key = v.key := heq.symm
      rw [hkey, hfree] at htaken
      simp at htaken
    · simp at hok
  | policy => exact { hp with }
  | reserve args =>
    change Apart (v.onReserve args (s.reserve args (newId "rsv" a)).1) w
    -- the new id is that of no other row
    obtain ⟨spends, _, _, -, -, -, hspends, heq⟩ | ⟨-, hne⟩ := s.reserve_cases args (newId "rsv" a)
    · rw [heq]
      refine { hp with spend := ?_ }
      rintro r r' ⟨rfl⟩ hr'
      exact Table.key_ne_of_insert? hspends (hw.spend r' hr')
    · unfold Known.onReserve
      split
      · rename_i rid usedHour usedDay h
        exact absurd h (hne rid usedHour usedDay)
      · exact hp
  | insertTrade row reservationId =>
    change Apart (v.onInsertTrade row reservationId (s.insertTrade row reservationId).1) w
    obtain ⟨trades, htrades, heq⟩ | ⟨e, heq⟩ := s.insertTrade_cases row reservationId
    · rw [heq]
      refine { hp with trade := ?_ }
      rintro r r' ⟨rfl⟩ hr'
      exact Table.key_ne_of_insert? htrades (hw.trade r' hr')
    · rw [heq]; exact hp
  | releaseReservation id => exact apart_setSpend hp
  | consumeReservation id => exact apart_setSpend hp
  | persistSigned id wire signature now => exact apart_setTrade hp fun _ => rfl
  | setSignature id signature now => exact apart_setTrade hp fun _ => rfl
  | setState id state now => exact apart_setTrade hp fun _ => rfl
  | fail id state error now => exact apart_setTrade hp fun _ => rfl
  | sign tx => exact { hp with }
  | broadcast mode signed handle => cases a <;> exact { hp with }
  | confirm signature height => exact { hp with }
  | readPair owner input output => cases a <;> exact { hp with }
  | _ => exact hp

end Statements

/-! ### Every run -/

/-- A fresh database and no call. -/
def gatewayStart : Pool interface KernelStore Request (Except KernelError ExecuteResult) :=
  Pool.start .empty

/-- Any interleaving of `execute` calls, with any answers and any crashes. -/
def gatewayRun (d : Deps) (es : List (Event interface Request)) :
    Pool interface KernelStore Request (Except KernelError ExecuteResult) :=
  gatewayStart.run machine (execute d) es

/-- What a call of the pool knows. -/
def known (c : Call interface Request (Except KernelError ExecuteResult)) : Known :=
  c.view Known.discipline Known.start

/-- Gateway calls can be checked one by one. -/
theorem gateway_modular (d : Deps) :
    Modular machine (execute d) Known.discipline Known.start (fun w _ => w.Done)
      Consistent Owns Apart fun _ _ => True where
  body_safe := execute_safe d
  symm _ _ h := h.symm
  spawn p r _ _ :=
    ⟨⟨by simp [Known.start], by simp [Known.start], by simp [Known.start], by simp [Known.start],
      by simp [Known.start], by simp [Known.start], by simp [Known.start], by simp [Known.start],
      by simp [Known.start]⟩,
      fun w _ => ⟨by simp [Known.start], by simp [Known.start], by simp [Known.start]⟩⟩
  call _ t _ c _ _ _ hct _ hs hv hpre :=
    ⟨trivial, consistent_handle hs (hv t c hct) hpre _, owns_handle (hv t c hct) hpre _⟩
  frame _ _ _ a _ _ _ hpre hw hp := ⟨owns_frame hpre hw hp a, apart_upd hpre hw hp a⟩

/-- After every run, what each call knows is what the store holds, no two calls own the
same key or row, and every trade agrees with its spend. -/
theorem gateways_coherent (d : Deps) (es : List (Event interface Request)) :
    Coherent Known.discipline Known.start (fun w _ => w.Done) Consistent Owns Apart
      (gatewayRun d es) := by
  refine (gateway_modular d).run (Pool.meets_true _ _) (Modular.coherent_start ?_)
  intro id t ht
  simp [KernelStore.empty] at ht

/-! ### A call to run

A small SOL swap under a roomy policy, and ports that answer every call the same way. -/

def sampleCaps : SpendCaps := ⟨1000000, 2000000, 3000000⟩

def samplePolicy : PolicyConfig where
  executionEnabled := true
  killSwitch := false
  maxSlippageBps := .ofInt 100
  capsSol := sampleCaps
  capsUsdc := sampleCaps
  mintAllowlist := none
  mintDenylist := []
  allowToken2022 := false
  priorityFeeMaxLamports := 100
  priorityFeeMaxBps := .ofInt 100

def sampleIntent : TradeIntent where
  kind := .swap
  source := "user"
  input := ⟨WSOL_MINT, 1000⟩
  outputMint := USDC_MINT
  inputProvenance := .user
  outputProvenance := .user
  unsignedTxBase64 := "AQ=="
  lastValidBlockHeight := 5
  landMode := .selfRpc
  landHandle := none
  priorityFeeLamports := .ofInt 0
  quote := ⟨100, 100, .ofInt 0⟩
  perp := none
  summary := "swap"

def sampleRequest (key : String) : Request := ⟨sampleIntent, ⟨key, false, true⟩⟩

def sampleDeps : Deps := ⟨"wallet", fun _ => true, false⟩

/-- Every port answers, the clock stands at `at_`, the random parts of ids are `uuid`, and
the confirmer says `verdict`. -/
def sampleAnswers (uuid : String) (at_ : Int) (verdict : Except KernelError ConfirmStatus) :
    ∀ o : Op, o.Ans
  | .now => at_
  | .newTradeId => uuid
  | .policy => samplePolicy
  | .inspectMints _ _ => .ok (false, false)
  | .reserve _ => uuid
  | .readPair _ _ _ => .ok (10000000, 0)
  | .readPosition _ => .ok 0
  | .simulate _ => .ok ⟨true, ""⟩
  | .sign _ => .ok ⟨"d2lyZQ==", "sig"⟩
  | .broadcast _ _ _ => .ok "sig"
  | .confirm _ _ => verdict
  | .claimIdempotency _ _ _ | .getTradeByIdempotency _ | .usage _ _ | .insertTrade _ _
  | .appendJournal _ | .persistSigned _ _ _ _ | .setSignature _ _ _ | .setState _ _ _
  | .releaseReservation _ | .consumeReservation _ | .fail _ _ _ _ | .pendingSent => ()

/-- One call, stepped `n` times. -/
def sampleEvents (verdict : Except KernelError ConfirmStatus) (n : Nat) :
    List (Event interface Request) :=
  .spawn (sampleRequest "k") :: List.replicate n (.step 0 (sampleAnswers "a" 0 verdict))

end AriOs.Kernel
