import AriOs.Execution.RpcSimulator
import Mathlib.Algebra.Order.BigOperators.Group.List

/-!
# The asset deltas of a simulation

The deltas of a successful simulation should be what the watched accounts hold afterwards less
what they held before, asset by asset and owner by owner. The loop skips an account that is no
token account afterwards, before it looks at what it held: of an account that was closed or
re-owned, the tokens it held are missing from the deltas. They are exact if and only if no such
account held tokens.
-/

namespace AriOs.Execution

open AriOs.Js AriOs.Signer

/-! ### Reported and exact -/

/-- What a delta counts towards an asset and an owner. -/
def AssetDelta.towards (d : AssetDelta) (asset owner : String) : Int :=
  if d.asset = asset ∧ d.owner = owner then d.amount else 0

/-- What is reported for an asset and an owner. -/
def reported (deltas : List AssetDelta) (asset owner : String) : Int :=
  (deltas.map fun d => d.towards asset owner).sum

/-- The lamports of an account; one that does not exist has none. -/
def lamportsHeld (a : Option RpcAccount) : Int := (a.bind fun a => a.lamports.toBigInt?).getD 0

/-- What a token account holds for an asset and an owner. -/
def TokenAccount.holds (t : TokenAccount) (asset owner : String) : Int :=
  if t.mint = asset ∧ t.owner = owner then t.amount else 0

section Exact

variable (enc : Encodings)

/-- What an account holds of tokens. -/
def tokensHeld (a : Option RpcAccount) (asset owner : String) : Int :=
  ((tokenAccount enc a).map fun t => t.holds asset owner).getD 0

/-- Post balance minus pre balance at one account. -/
def Watched.change (w : Watched) (asset owner : String) : Int :=
  (if NATIVE_ASSET = asset ∧ w.address = owner then lamportsHeld w.after - lamportsHeld w.before
    else 0) + (tokensHeld enc w.after asset owner - tokensHeld enc w.before asset owner)

/-- Post balance minus pre balance, over the watched accounts. -/
def exactDelta (watched : List Watched) (asset owner : String) : Int :=
  (watched.map fun w => w.change enc asset owner).sum

/-- What the loop leaves out at one account: the tokens of an account that is no token account
afterwards. -/
def Watched.dropped (w : Watched) (asset owner : String) : Int :=
  if (tokenAccount enc w.after).isNone then tokensHeld enc w.before asset owner else 0

/-- No account that held tokens stops being a token account. -/
def Kept (watched : List Watched) : Prop :=
  ∀ w ∈ watched, ∀ t, tokenAccount enc w.before = some t → t.amount ≠ 0 →
    (tokenAccount enc w.after).isSome

end Exact

/-! ### Adding up -/

section Adding

variable {totals : List AssetDelta} {d : AssetDelta} {asset owner : String}

/-- The assets of the entries have no separator in them, so that keys can be told apart. -/
def Separable (deltas : List AssetDelta) : Prop := ∀ e ∈ deltas, ':' ∉ e.asset.toList

theorem about_of_key_eq {d e : AssetDelta} (hd : ':' ∉ d.asset.toList) (he : ':' ∉ e.asset.toList)
    (h : e.key = d.key) : e.asset = d.asset ∧ e.owner = d.owner := by
  rcases joined_eq_joined_iff.mp h with heq | hshift | hshift
  · exact heq
  · exact absurd hshift.colon_mem hd
  · exact absurd hshift.colon_mem he

theorem reported_mergeDelta (htotals : Separable totals) (hd : ':' ∉ d.asset.toList) :
    reported (mergeDelta totals d) asset owner =
      reported totals asset owner + d.towards asset owner := by
  induction totals with
  | nil => simp [mergeDelta, reported]
  | cons e es ih =>
    by_cases hkey : e.key = d.key
    · -- the two are about the same asset and owner
      obtain ⟨hasset, howner⟩ := about_of_key_eq hd (htotals e List.mem_cons_self) hkey
      simp only [mergeDelta, if_pos hkey, reported, List.map_cons, List.sum_cons,
        AssetDelta.towards, hasset, howner]
      by_cases habout : d.asset = asset ∧ d.owner = owner
      · simp only [if_pos habout]
        omega
      · simp only [if_neg habout]
        omega
    · have hrest := ih fun e' he' => htotals e' (List.mem_cons_of_mem e he')
      simp only [reported] at hrest
      simp only [mergeDelta, if_neg hkey, reported, List.map_cons, List.sum_cons, hrest]
      omega

theorem separable_mergeDelta (htotals : Separable totals) (hd : ':' ∉ d.asset.toList) :
    Separable (mergeDelta totals d) := by
  induction totals with
  | nil => simpa [mergeDelta, Separable] using hd
  | cons e es ih =>
    have hhead := htotals e List.mem_cons_self
    have htail : Separable es := fun e' he' => htotals e' (List.mem_cons_of_mem e he')
    by_cases hkey : e.key = d.key
    · rw [mergeDelta, if_pos hkey]
      intro e' he'
      rcases List.mem_cons.mp he' with rfl | he'
      · exact hhead
      · exact htail e' he'
    · rw [mergeDelta, if_neg hkey]
      intro e' he'
      rcases List.mem_cons.mp he' with rfl | he'
      · exact hhead
      · exact ih htail e' he'

variable (asset owner) in
theorem reported_addDelta (htotals : Separable totals) (hd : ':' ∉ d.asset.toList) :
    reported (addDelta totals d) asset owner =
      reported totals asset owner + d.towards asset owner := by
  by_cases hzero : d.amount = 0
  · simp [addDelta, hzero, AssetDelta.towards]
  · rw [addDelta, if_neg hzero, reported_mergeDelta htotals hd]

theorem separable_addDelta (htotals : Separable totals) (hd : ':' ∉ d.asset.toList) :
    Separable (addDelta totals d) := by
  unfold addDelta
  split
  · exact htotals
  · exact separable_mergeDelta htotals hd

end Adding

/-! ### The loop -/

section Loop

variable {enc : Encodings} {o o' : Observed} {w : Watched} {asset owner : String}

theorem lamportsOf_eq_ok {a : Option RpcAccount} {n : Int} (h : lamportsOf a = .ok n) :
    lamportsHeld a = n := by
  cases a with
  | none => simpa [lamportsHeld, lamportsOf] using h
  | some a =>
    simp only [lamportsOf, JsNumber.bigInt_eq_ok] at h
    simp [lamportsHeld, h]

variable (asset owner) in
/-- A token account that is one afterwards: its movement is added. -/
theorem observeToken_spec {totals totals' : List AssetDelta} {prior : Option TokenAccount}
    {post : TokenAccount} (htotals : Separable totals) (hmint : ':' ∉ post.mint.toList)
    (h : observeToken totals prior post = .ok totals') : Separable totals' ∧
      reported totals' asset owner = reported totals asset owner +
        (post.holds asset owner - ((prior.map fun t => t.holds asset owner).getD 0)) := by
  simp only [observeToken, bind_eq_ok, throwIf_eq_ok] at h
  obtain ⟨-, hsame, h⟩ := h
  obtain rfl := Except.ok.inj h
  refine ⟨separable_addDelta htotals hmint, ?_⟩
  rw [reported_addDelta asset owner htotals hmint]
  cases prior with
  | none => simp [AssetDelta.towards, TokenAccount.holds]
  | some p =>
    have hp : p.mint = post.mint ∧ p.owner = post.owner := by simpa using hsame
    simp only [AssetDelta.towards, TokenAccount.holds, hp.1, hp.2,
      Option.map_some, Option.getD_some]
    by_cases habout : post.mint = asset ∧ post.owner = owner
    · simp only [if_pos habout]
    · simp only [if_neg habout]
      omega

theorem mint_of_tokenAccount (hbase58 : ∀ b, ':' ∉ (enc.base58 b).toList) {a : Option RpcAccount}
    {t : TokenAccount} (h : tokenAccount enc a = some t) : ':' ∉ t.mint.toList := by
  unfold tokenAccount at h
  split at h
  · simp at h
  · split at h
    · simp at h
    · split at h
      · simp at h
      · obtain rfl := Option.some.inj h
        exact hbase58 _

variable (asset owner) in
/-- One account: what is reported grows by the change of its balances, and by what is left out. -/
theorem observe_spec (hbase58 : ∀ b, ':' ∉ (enc.base58 b).toList) (ho : Separable o.totals)
    (h : observe enc o w = .ok o') : Separable o'.totals ∧
      reported o'.totals asset owner =
        reported o.totals asset owner + w.change enc asset owner + w.dropped enc asset owner := by
  simp only [observe, bind_eq_ok] at h
  obtain ⟨state, -, after, hafter, before, hbefore, h⟩ := h
  have hnative : ':' ∉ NATIVE_ASSET.toList := by decide
  have hsep := separable_addDelta (d := ⟨NATIVE_ASSET, w.address, after - before⟩) ho hnative
  have hlamports := reported_addDelta (d := ⟨NATIVE_ASSET, w.address, after - before⟩) asset owner
    ho hnative
  rw [Watched.change, Watched.dropped, lamportsOf_eq_ok hafter, lamportsOf_eq_ok hbefore]
  simp only [AssetDelta.towards] at hlamports
  generalize hmoved : (if NATIVE_ASSET = asset ∧ w.address = owner then after - before else 0) =
    moved at hlamports ⊢
  split at h
  · -- no token account afterwards: the lamports alone are reported
    rename_i hpost
    obtain rfl := Except.ok.inj h
    refine ⟨hsep, ?_⟩
    simp only [hlamports, tokensHeld, hpost, Option.isNone_none, if_true, Option.map_none,
      Option.getD_none]
    omega
  · -- otherwise the tokens are reported next to them
    rename_i post hpost
    simp only [bind_eq_ok] at h
    obtain ⟨totals, htoken, h⟩ := h
    obtain rfl := Except.ok.inj h
    obtain ⟨hsep', hreported⟩ := observeToken_spec asset owner hsep
      (mint_of_tokenAccount hbase58 hpost) htoken
    refine ⟨hsep', ?_⟩
    simp only [hreported, hlamports, tokensHeld, hpost, Option.isNone_some, Option.map_some,
      Option.getD_some]
    simp only [Bool.false_eq_true, if_false]
    omega

variable (asset owner) in
/-- All accounts: reported is exact plus what was left out. -/
theorem reported_foldlM_observe (hbase58 : ∀ b, ':' ∉ (enc.base58 b).toList)
    {watched : List Watched} (ho : Separable o.totals)
    (h : watched.foldlM (observe enc) o = .ok o') :
    reported o'.totals asset owner = reported o.totals asset owner +
      exactDelta enc watched asset owner +
        (watched.map fun w => w.dropped enc asset owner).sum := by
  induction watched generalizing o with
  | nil =>
    obtain rfl := Except.ok.inj h
    simp [exactDelta]
  | cons w ws ih =>
    simp only [List.foldlM_cons, bind_eq_ok] at h
    obtain ⟨o₁, hone, hrest⟩ := h
    obtain ⟨hsep, hstep⟩ := observe_spec asset owner hbase58 ho hone
    rw [ih hsep hrest, hstep]
    simp only [exactDelta, List.map_cons, List.sum_cons]
    omega

/-! ### What is left out -/

theorem dropped_nonneg (w : Watched) : 0 ≤ w.dropped enc asset owner := by
  unfold Watched.dropped
  split
  · unfold tokensHeld TokenAccount.holds
    cases tokenAccount enc w.before with
    | none => simp
    | some t =>
      simp only [Option.map_some, Option.getD_some]
      split <;> omega
  · exact le_rfl

/-- Nothing is left out exactly if no account that held tokens stops being a token account. -/
theorem dropped_eq_zero_iff {watched : List Watched} :
    (∀ asset owner, (watched.map fun w => w.dropped enc asset owner).sum = 0) ↔
      Kept enc watched := by
  constructor
  · intro h w hw t ht hamount
    by_contra hnone
    have hgone : (tokenAccount enc w.after).isNone = true := by
      simpa [Option.isNone_iff_eq_none] using hnone
    -- the tokens of this account alone make the sum positive
    have hle : w.dropped enc t.mint t.owner ≤
        (watched.map fun w => w.dropped enc t.mint t.owner).sum := by
      refine List.single_le_sum ?_ _ (List.mem_map_of_mem hw)
      intro x hx
      obtain ⟨w', -, rfl⟩ := List.mem_map.mp hx
      exact dropped_nonneg w'
    rw [h t.mint t.owner, Watched.dropped, if_pos hgone, tokensHeld, ht] at hle
    simp only [Option.map_some, Option.getD_some, TokenAccount.holds, and_self, if_true] at hle
    omega
  · intro h asset owner
    refine List.sum_eq_zero fun x hx => ?_
    obtain ⟨w, hw, rfl⟩ := List.mem_map.mp hx
    unfold Watched.dropped
    split
    · rename_i hgone
      unfold tokensHeld
      cases ht : tokenAccount enc w.before with
      | none => rfl
      | some t =>
        have hzero : t.amount = 0 := by
          by_contra hamount
          have hkept := h w hw t ht hamount
          rw [Option.isNone_iff_eq_none] at hgone
          simp [hgone] at hkept
        simp [TokenAccount.holds, hzero]
    · rfl

end Loop

/-! ### The simulation -/

/-- The accounts a simulation watches, with the readings the node returns for them. -/
def watchedBy (enc : Encodings) (R : MessageReader) (W : Web3) (o : RpcSimulatorOptions)
    (q : SimulationRequest) (node : NodeAnswers) : List Watched :=
  match observedAddresses enc R W o q node, node.pre, node.simulation with
  | .ok addresses, .ok pre, .ok sim => watchedAccounts addresses pre.value (sim.accounts.getD [])
  | _, _, _ => []

/-- A simulation that succeeds has run the loop over the watched accounts. -/
theorem foldlM_of_simulate {enc : Encodings} {R : MessageReader} {W : Web3}
    {o : RpcSimulatorOptions} {q : SimulationRequest} {node : NodeAnswers} {r : SimulationResult}
    (h : simulate enc R W o q node = .ok r) (hsuccess : r.success = true) :
    ∃ observed, (watchedBy enc R W o q node).foldlM (observe enc) {} = .ok observed ∧
      r.assetDeltas = observed.totals := by
  simp only [simulate, bind_eq_ok] at h
  obtain ⟨-, -, addresses, haddresses, pre, hpre, preSlot, -, sim, hsim, slot, -, -, -, units, -,
    h⟩ := h
  split at h
  · obtain rfl := Except.ok.inj h
    simp [failedResult] at hsuccess
  · simp only [succeededResult, bind_eq_ok, orThrow_eq_ok] at h
    obtain ⟨post, hpost, -, -, logs, -, fee, -, fee', -, observed, hobserved, lamports, -, h⟩ := h
    obtain rfl := Except.ok.inj h
    refine ⟨observed, ?_, rfl⟩
    simpa only [watchedBy, haddresses, hpre, hsim, hpost, Option.getD_some] using hobserved

/-- **Asset deltas.** For whatever accounts the node returns, the deltas of a simulation that
succeeds are post balance minus pre balance for every asset and owner exactly if no watched
account that held tokens before stops being a token account. -/
theorem deltas_exact_iff (enc : Encodings) (hbase58 : ∀ b, ':' ∉ (enc.base58 b).toList)
    (R : MessageReader) (W : Web3) (o : RpcSimulatorOptions) (q : SimulationRequest)
    (node : NodeAnswers) (r : SimulationResult) (h : simulate enc R W o q node = .ok r)
    (hsuccess : r.success = true) :
    (∀ asset owner, reported r.assetDeltas asset owner =
      exactDelta enc (watchedBy enc R W o q node) asset owner) ↔
      Kept enc (watchedBy enc R W o q node) := by
  obtain ⟨observed, hfold, hdeltas⟩ := foldlM_of_simulate h hsuccess
  rw [hdeltas, ← dropped_eq_zero_iff]
  refine forall_congr' fun asset => forall_congr' fun owner => ?_
  have hreported := reported_foldlM_observe asset owner hbase58 (o := {}) (by simp [Separable])
    hfold
  rw [hreported]
  simp [reported]

/-! ### A token account that is emptied, and one that is closed -/

/-- A transaction of the payer with one instruction. -/
def drainTransaction : VersionedTransaction where
  message :=
    { version := .legacy, numRequiredSignatures := 1, staticAccountKeys := ["payer", "token"]
      recentBlockhash := "hash", compiledInstructions := [⟨1, [], [9]⟩], addressTableLookups := [] }
  signatures := [List.replicate 64 0]

def drainWeb3 : Web3 where
  deserialize raw := if raw = [1] then .ok drainTransaction else .error "no transaction"
  serialize tx := if tx = drainTransaction then .ok [1] else .error "no transaction"
  serializeMessage _ := .ok [7]

/-- A token account of zeros but for its amount. -/
def drainBytes (amount : UInt8) : Bytes :=
  List.replicate 64 0 ++ amount :: List.replicate 100 0

def emptyContent : String := String.ofList (List.replicate 220 'A')
def fiveContent : String :=
  String.ofList (List.replicate 86 'A' ++ 'U' :: List.replicate 133 'A')

def drainEncodings : Encodings where
  fromBase64 text :=
    if text = emptyContent then drainBytes 0
    else if text = fiveContent then drainBytes 5
    else [1]
  toBase64 bytes :=
    if bytes = drainBytes 0 then emptyContent
    else if bytes = drainBytes 5 then fiveContent
    else "AQ=="
  base58 bytes := String.ofList (bytes.map fun _ => '1')
  sha256 _ := "ab"

def drainReader : MessageReader where
  deserializeTable _ := .error "no table"
  writableKeys message _ := .ok message.staticAccountKeys

def drainOptions : RpcSimulatorOptions := ⟨"devnet", none, none, none, none⟩

def drainRequest : SimulationRequest where
  cluster := "devnet"
  transaction := "AQ=="
  message := "Bw=="
  messageHash := "0xab"
  feePayer := "payer"
  recentBlockhash := "hash"
  lastValidBlockHeight := 100
  programIds := ["token"]
  accountKeys := ["payer", "token"]
  instructions := []
  addressTableLookups := []
  policyHash := "0xcd"

def drainPayer : RpcAccount := ⟨.ofInt 10000, "11111111111111111111111111111111", ""⟩

def drainAccount (content : String) : RpcAccount := ⟨.ofInt 2039280, TOKEN_PROGRAM_ID, content⟩

/-- A node on which the token account holds five, and is something else afterwards. -/
def drainNode (after : Option RpcAccount) : NodeAnswers where
  genesisHash := .ok "EtWTRABZaYq6iMfeYKouRu166VU2xqa1wcaWoxPkrZBG"
  tables := .ok []
  pre := .ok ⟨.ofInt 1, [some drainPayer, some (drainAccount fiveContent)]⟩
  simulation := .ok ⟨.ofInt 1, false, some [], some [some drainPayer, after], .ofInt 450⟩
  fee := .ok (some (.ofInt 5000))

theorem drainEncodings_base58 (b : Bytes) : ':' ∉ (drainEncodings.base58 b).toList := by
  simp [drainEncodings]

/-- What the simulation finds. -/
def drainResult (after : Option RpcAccount) : Except String SimulationResult :=
  simulate drainEncodings drainReader drainWeb3 drainOptions drainRequest (drainNode after)

def drainOwner : String := "11111111111111111111111111111111"

/-- The tokens of an account that is emptied are in the deltas. -/
theorem deltas_exact_emptied : ∃ r, drainResult (some (drainAccount emptyContent)) = .ok r ∧
    r.assetDeltas = [⟨drainOwner, drainOwner, -5⟩] ∧
    ∀ asset owner, reported r.assetDeltas asset owner =
      exactDelta drainEncodings (watchedBy drainEncodings drainReader drainWeb3 drainOptions
        drainRequest (drainNode (some (drainAccount emptyContent)))) asset owner := by
  have hrun : ((drainResult (some (drainAccount emptyContent))).toOption.map fun r =>
      (r.success, r.assetDeltas)) = some (true, [⟨drainOwner, drainOwner, -5⟩]) := by
    decide +kernel
  cases hr : drainResult (some (drainAccount emptyContent)) with
  | error e => simp [hr, Except.toOption] at hrun
  | ok r =>
    simp only [hr, Except.toOption, Option.map_some, Option.some.injEq, Prod.mk.injEq] at hrun
    refine ⟨r, rfl, hrun.2, ?_⟩
    rw [deltas_exact_iff _ drainEncodings_base58 _ _ _ _ _ r hr hrun.1]
    -- the only token account is one before and after
    intro w hw t ht _
    have hall : ∀ w ∈ watchedBy drainEncodings drainReader drainWeb3 drainOptions drainRequest
        (drainNode (some (drainAccount emptyContent))),
        (tokenAccount drainEncodings w.before).isSome →
          (tokenAccount drainEncodings w.after).isSome := by decide +kernel
    exact hall w hw (by simp [ht])

/-- The tokens of an account that is closed are not. -/
theorem closed_account_left_out : ∃ r, drainResult none = .ok r ∧ r.success = true ∧
    reported r.assetDeltas drainOwner drainOwner = 0 ∧
    exactDelta drainEncodings (watchedBy drainEncodings drainReader drainWeb3 drainOptions
      drainRequest (drainNode none)) drainOwner drainOwner = -5 := by
  have hrun : ((drainResult none).toOption.map fun r =>
      (r.success, reported r.assetDeltas drainOwner drainOwner)) = some (true, 0) := by
    decide +kernel
  cases hr : drainResult none with
  | error e => simp [hr, Except.toOption] at hrun
  | ok r =>
    simp only [hr, Except.toOption, Option.map_some, Option.some.injEq, Prod.mk.injEq] at hrun
    refine ⟨r, rfl, hrun.1, hrun.2, ?_⟩
    decide +kernel

end AriOs.Execution
