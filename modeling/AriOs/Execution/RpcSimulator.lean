import AriOs.Execution.Simulation
import AriOs.Js.Joined
import AriOs.Pools.PriorityFee

/-!
# Simulation over JSON-RPC

The simulator reads the accounts a transaction can write before and after the node has simulated
it, and derives from the two readings what moved: lamports account by account, and token
balances by mint and owner. Where the node cannot answer, the simulation throws.

The transaction library and the node are parameters; a failing call of the node throws.
-/

namespace AriOs.Execution

open AriOs.Arith AriOs.Js AriOs.Signer

/-! ### The node -/

/-- An account as the node returns it; `content` is its data in base64. -/
structure RpcAccount where
  lamports : JsNumber
  owner : String
  content : String
  deriving DecidableEq

/-- What `getMultipleAccounts` answers. -/
structure AccountsAnswer where
  slot : JsNumber
  value : List (Option RpcAccount)

/-- What `simulateTransaction` answers. -/
structure SimulationAnswer where
  slot : JsNumber
  failed : Bool
  logs : Option (List String)
  accounts : Option (List (Option RpcAccount))
  unitsConsumed : JsNumber

/-- The answers of the node to the calls of one simulation. -/
structure NodeAnswers where
  genesisHash : Except String String
  tables : Except String (List (Option RpcAccount))
  pre : Except String AccountsAnswer
  simulation : Except String SimulationAnswer
  fee : Except String (Option JsNumber)

/-- What the transaction library says of a message and of a lookup table's data. -/
structure MessageReader where
  deserializeTable : Bytes → Except String (List String)
  writableKeys : VersionedMessage → List (List String) → Except String (List String)

structure RpcSimulatorOptions where
  cluster : String
  genesisHash : Option String
  maxSlotDrift : Option Int
  maxObservedAccounts : Option Nat
  addressLookupTables : Option (List String)

/-- Genesis hashes are the only self-describing cluster identity there is. -/
def CLUSTER_GENESIS_HASHES : List (String × String) := [
  ("mainnet-beta", "5eykt4UsFv8P8NJdTREpY1vzqKqZKvdpKuc147dw2N9d"),
  ("devnet", "EtWTRABZaYq6iMfeYKouRu166VU2xqa1wcaWoxPkrZBG"),
  ("testnet", "4uhcVJyU9pJkvQyS88uRDiswHXSCkY3zQawwpjk2NsNY")]

def TOKEN_PROGRAM_ID : String := "TokenkegQfeZyiNwAJbNbGKPFXCWuBvf9Ss623VQ5DA"
def TOKEN_2022_PROGRAM_ID : String := "TokenzQdBNbLqP5VEhdkAS6EPFLC1PHnBqCXEpPxuEb"
def TOKEN_PROGRAMS : List String := [TOKEN_PROGRAM_ID, TOKEN_2022_PROGRAM_ID]

/-- Mint, owner and amount are at fixed places of an account of at least this size. -/
def SPL_ACCOUNT_BYTES : Nat := 165

/-! ### Accounts -/

/-- An account that does not exist holds nothing. -/
def lamportsOf : Option RpcAccount → Except String Int
  | some a => a.lamports.bigInt id
  | none => .ok 0

/-- A token account: whose balance of what. -/
structure TokenAccount where
  mint : String
  owner : String
  amount : Nat
  deriving DecidableEq, Repr

variable (enc : Encodings)

def accountData (a : RpcAccount) : Bytes := enc.fromBase64 a.content

def stateOf (address : String) (a : Option RpcAccount) : Except String AccountState := do
  let lamports ← lamportsOf a
  .ok { address, lamports, owner := (a.map RpcAccount.owner).getD ""
        data := a.map fun a => enc.toBase64 (accountData enc a) }

/-- Decode a token account, if it is one. -/
def tokenAccount : Option RpcAccount → Option TokenAccount
  | none => none
  | some a =>
    if a.owner ∉ TOKEN_PROGRAMS then none
    else if (accountData enc a).length < SPL_ACCOUNT_BYTES then none
    else some {
      mint := enc.base58 ((accountData enc a).take 32)
      owner := enc.base58 (((accountData enc a).drop 32).take 32)
      amount := ofBytes (((accountData enc a).drop 64).take 8) }

/-! ### What moved -/

/-- The key under which movements are added up. -/
def AssetDelta.key (d : AssetDelta) : String := joined d.asset d.owner

/-- Add to the movement with the same key, or start a new one. -/
def mergeDelta : List AssetDelta → AssetDelta → List AssetDelta
  | [], d => [d]
  | e :: es, d =>
    if e.key = d.key then { e with amount := e.amount + d.amount } :: es
    else e :: mergeDelta es d

/-- `add`: nothing is recorded of what did not move. -/
def addDelta (totals : List AssetDelta) (d : AssetDelta) : List AssetDelta :=
  if d.amount = 0 then totals else mergeDelta totals d

/-- An account that is watched, before and after. -/
structure Watched where
  address : String
  before : Option RpcAccount
  after : Option RpcAccount

/-- What the loop has found so far. -/
structure Observed where
  accountStates : List AccountState := []
  totals : List AssetDelta := []

/-- The movement of a token account that is one afterwards. -/
def observeToken (totals : List AssetDelta) (prior : Option TokenAccount) (post : TokenAccount) :
    Except String (List AssetDelta) := do
  throwIf (∃ p ∈ prior, p.mint ≠ post.mint ∨ p.owner ≠ post.owner) "token_account_identity_changed"
  .ok (addDelta totals
    ⟨post.mint, post.owner, post.amount - ((prior.map TokenAccount.amount).getD 0 : Nat)⟩)

/-- One watched account. -/
def observe (o : Observed) (w : Watched) : Except String Observed := do
  let state ← stateOf enc w.address w.after
  let after ← lamportsOf w.after
  let before ← lamportsOf w.before
  let totals := addDelta o.totals ⟨NATIVE_ASSET, w.address, after - before⟩
  match tokenAccount enc w.after with
  | none => .ok ⟨o.accountStates ++ [state], totals⟩
  | some post => do
    let totals ← observeToken totals (tokenAccount enc w.before) post
    .ok ⟨o.accountStates ++ [state], totals⟩

/-! ### The simulation -/

structure SimulationResult where
  success : Bool
  slot : Int
  blockhash : String
  messageHash : String
  unitsConsumed : Int
  feeLamports : Int
  logs : List String
  accountStates : List AccountState
  assetDeltas : List AssetDelta
  capabilities : SimulationCapabilities
  deriving DecidableEq, Repr

def expectedGenesis (o : RpcSimulatorOptions) : Option String :=
  (o.genesisHash.or (CLUSTER_GENESIS_HASHES.lookup o.cluster)).filter (· ≠ "")

/-- The node is on the cluster it should be on. -/
def checkCluster (o : RpcSimulatorOptions) (q : SimulationRequest) (node : NodeAnswers) :
    Except String Unit := do
  let expected ← orThrow (expectedGenesis o) "cluster_unknown"
  throwIf (q.cluster ≠ o.cluster) "cluster_mismatch"
  let genesisHash ← node.genesisHash
  throwIf (genesisHash ≠ expected) "cluster_mismatch"

variable (R : MessageReader)

/-- One lookup table. -/
def lookupTable (account : Option RpcAccount) : Except String (List String) := do
  let a ← orThrow account "address_table_lookup_missing"
  (R.deserializeTable (accountData enc a)).mapError fun _ => "address_table_lookup_invalid"

/-- The lookup tables of a message; only those the operator has pinned are resolved. -/
def lookupTables (o : RpcSimulatorOptions) (q : SimulationRequest) (node : NodeAnswers) :
    Except String (List (List String)) :=
  if q.addressTableLookups = [] then .ok []
  else do
    throwIf (¬∀ key ∈ q.addressTableLookups, key ∈ o.addressLookupTables.getD [])
      "address_table_lookup_unpinned"
    let values ← node.tables
    q.addressTableLookups.zipIdx.mapM fun key => lookupTable enc R (values[key.2]?).join

/-- Every account the message can write, once. -/
def writableAccounts (o : RpcSimulatorOptions) (message : VersionedMessage)
    (tables : List (List String)) : Except String (List String) := do
  let keys ← R.writableKeys message tables
  let unique := keys.reverse.dedup.reverse
  throwIf (unique.length > o.maxObservedAccounts.getD 64) "observed_accounts_exceeded"
  .ok unique

def slotOf (n : JsNumber) : Except String Int :=
  orThrow (JsValue.number n).safeInteger? "context_slot_invalid"

/-- The simulation ran neither behind the first reading nor too far ahead of it. -/
def checkSlots (o : RpcSimulatorOptions) (preSlot slot : Int) : Except String Unit := do
  throwIf (slot < preSlot) "slot_regressed"
  throwIf (slot - preSlot > o.maxSlotDrift.getD 150) "slot_drift_exceeded"

/-- The accounts that are watched, with both readings. -/
def watchedAccounts (addresses : List String) (pre post : List (Option RpcAccount)) :
    List Watched :=
  addresses.zipIdx.map fun a => ⟨a.1, pre[a.2]?.join, post[a.2]?.join⟩

/-- A failing simulation is a complete answer on its own. -/
def failedResult (q : SimulationRequest) (slot unitsConsumed : Int) (logs : Option (List String)) :
    SimulationResult where
  success := false
  slot := slot
  blockhash := q.recentBlockhash
  messageHash := q.messageHash
  unitsConsumed := unitsConsumed
  feeLamports := 0
  logs := logs.getD []
  accountStates := []
  assetDeltas := []
  capabilities := ⟨false, logs.isSome, false, true⟩

/-- The evidence of a simulation that is claimed to succeed. -/
def succeededResult (q : SimulationRequest) (slot unitsConsumed : Int) (addresses : List String)
    (pre : List (Option RpcAccount)) (sim : SimulationAnswer) (node : NodeAnswers) :
    Except String SimulationResult := do
  let post ← orThrow sim.accounts "account_states_unavailable"
  throwIf (post.length ≠ addresses.length) "account_states_incomplete"
  let logs ← orThrow sim.logs "logs_unavailable"
  let fee ← node.fee
  let fee ← orThrow fee "fee_unavailable"
  let observed ← (watchedAccounts addresses pre post).foldlM (observe enc) {}
  let feeLamports ← fee.bigInt id
  .ok {
    success := true, slot, blockhash := q.recentBlockhash, messageHash := q.messageHash
    unitsConsumed, feeLamports, logs, accountStates := observed.accountStates
    assetDeltas := observed.totals, capabilities := ⟨true, true, true, true⟩ }

/-- What the transaction in the request writes, by the simulator's own decoding. -/
def observedAddresses (W : Web3) (o : RpcSimulatorOptions) (q : SimulationRequest)
    (node : NodeAnswers) : Except String (List String) := do
  let decoded ← decodeTransaction W enc q.transaction
  throwIf (decoded.messageHash ≠ q.messageHash) "transaction_mismatch"
  let tables ← lookupTables enc R o q node
  writableAccounts R o decoded.transaction.message tables

/-- `simulate`. -/
def simulate (W : Web3) (o : RpcSimulatorOptions) (q : SimulationRequest) (node : NodeAnswers) :
    Except String SimulationResult := do
  checkCluster o q node
  let addresses ← observedAddresses enc R W o q node
  let pre ← node.pre
  let preSlot ← slotOf pre.slot
  let sim ← node.simulation
  let slot ← slotOf sim.slot
  checkSlots o preSlot slot
  let unitsConsumed ← ((JsNumber.ofInt 0).max sim.unitsConsumed).bigInt id
  if sim.failed then .ok (failedResult q slot unitsConsumed sim.logs)
  else succeededResult enc q slot unitsConsumed addresses pre.value sim node

end AriOs.Execution
