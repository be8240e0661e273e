import AriOs.Signer.Authorization

/-!
# Simulation requests and evidence

A simulation request describes one exact transaction. Every field of it is read out of the wire
bytes by the decoder the signer runs on its own side, so that an authorization built from the
request describes what the signer will decode.
-/

namespace AriOs.Execution

open AriOs.Js AriOs.Signer

/-! ### Data -/

/-- An unsigned transaction that was built already. -/
structure PreparedTransaction where
  cluster : String
  /-- base64 wire bytes -/
  transaction : String
  lastValidBlockHeight : JsNumber

structure InstructionSummary where
  programId : String
  /-- `none` where an address lookup table is involved -/
  accounts : List (Option String)
  data : String
  deriving DecidableEq, Repr

structure SimulationRequest where
  cluster : String
  transaction : String
  message : String
  messageHash : String
  feePayer : String
  recentBlockhash : String
  lastValidBlockHeight : Int
  /-- sorted, without repetition -/
  programIds : List String
  accountKeys : List String
  instructions : List InstructionSummary
  addressTableLookups : List String
  policyHash : String
  deriving DecidableEq, Repr

structure AccountState where
  address : String
  lamports : Int
  owner : String
  data : Option String
  deriving DecidableEq, Repr

structure AssetDelta where
  asset : String
  owner : String
  amount : Int
  deriving DecidableEq, Repr

/-- What the node was able to tell. -/
structure SimulationCapabilities where
  balances : Bool
  logs : Bool
  fee : Bool
  addressTableLookups : Bool
  deriving DecidableEq, Repr

/-- What a simulation observed; `hash` is the hash of all the rest. -/
structure SimulationEvidence where
  hash : String
  messageHash : String
  slot : Int
  blockhash : String
  unitsConsumed : Int
  feeLamports : Int
  logs : List String
  accountStates : List AccountState
  assetDeltas : List AssetDelta
  capabilities : SimulationCapabilities
  deriving DecidableEq, Repr

/-! ### From a transaction to a request -/

/-- One instruction, as a request describes it. -/
def InstructionSummary.ofDecoded (i : DecodedInstruction) : InstructionSummary where
  programId := i.programId
  accounts := i.accounts
  data := i.dataHex

def simulationRequestOf (d : DecodedTransaction) (cluster : String) (lastValidBlockHeight : Int)
    (policyHash : String) : SimulationRequest where
  cluster := cluster
  transaction := d.wireBase64
  message := d.messageBase64
  messageHash := d.messageHash
  feePayer := d.feePayer
  recentBlockhash := d.recentBlockhash
  lastValidBlockHeight := lastValidBlockHeight
  programIds := sortedUnique (d.instructions.map DecodedInstruction.programId)
  accountKeys := d.staticAccountKeys
  instructions := d.instructions.map .ofDecoded
  addressTableLookups := d.addressTableLookups.map AddressTableLookup.accountKey
  policyHash := policyHash

/-- Decode an exact unsigned transaction into a simulation request. -/
def buildSimulationRequest (W : Web3) (enc : Encodings) (t : PreparedTransaction)
    (policyHash : String) : Except String SimulationRequest := do
  let last ← orThrow ((JsValue.number t.lastValidBlockHeight).safeInteger?.filter fun h => 0 ≤ h)
    "prepared_last_valid_block_height_invalid"
  throwIf (t.cluster = "") "prepared_cluster_invalid"
  let decoded ← decodeTransaction W enc t.transaction
  return simulationRequestOf decoded t.cluster last policyHash

/-- A request is the projection of the transaction it carries. -/
theorem buildSimulationRequest_eq_ok {W : Web3} {enc : Encodings} {t : PreparedTransaction}
    {policyHash : String} {r : SimulationRequest}
    (h : buildSimulationRequest W enc t policyHash = .ok r) :
    ∃ decoded last, decodeTransaction W enc t.transaction = .ok decoded ∧
      (JsNumber.ofInt last).isSafeInteger = true ∧ 0 ≤ last ∧
      r = simulationRequestOf decoded t.cluster last policyHash := by
  simp only [buildSimulationRequest, bind_eq_ok, orThrow_eq_ok, Option.filter_eq_some_iff,
    decide_eq_true_eq] at h
  obtain ⟨last, ⟨hlast, hpos⟩, -, -, decoded, hdecode, hr⟩ := h
  obtain ⟨-, hsafe⟩ := JsValue.safeInteger?_eq_some.mp hlast
  exact ⟨decoded, last, hdecode, hsafe, hpos, (Except.ok.inj hr).symm⟩

/-! ### The hash of the evidence -/

def SIMULATION_EVIDENCE_DOMAIN : String := "ari-solana-simulation-evidence/v1"

/-- What the hash of the evidence is over: all of it but the hash itself. -/
def evidenceBody (e : SimulationEvidence) : JsValue :=
  .object [
    ("domain", .string SIMULATION_EVIDENCE_DOMAIN),
    ("messageHash", .string e.messageHash),
    ("slot", .bigint e.slot),
    ("blockhash", .string e.blockhash),
    ("unitsConsumed", .bigint e.unitsConsumed),
    ("feeLamports", .bigint e.feeLamports),
    ("logs", texts e.logs),
    ("accountStates", .array (e.accountStates.map fun a => .object [
      ("address", .string a.address), ("lamports", .bigint a.lamports),
      ("owner", .string a.owner), ("data", (a.data.map JsValue.string).getD .null)])),
    ("assetDeltas", .array (e.assetDeltas.map fun d => .object [
      ("asset", .string d.asset), ("owner", .string d.owner), ("amount", .bigint d.amount)])),
    ("capabilities", .object [
      ("balances", .bool e.capabilities.balances), ("logs", .bool e.capabilities.logs),
      ("fee", .bool e.capabilities.fee),
      ("addressTableLookups", .bool e.capabilities.addressTableLookups)])]

/-- The `canonical` of the hash is, line for line, the `normalize` of the envelopes. -/
def simulationEvidenceHash (J : JsonHost) (sha256 : String → String) (e : SimulationEvidence) :
    String :=
  "0x" ++ sha256 ((normalizedText J (evidenceBody e)).getD "")

end AriOs.Execution
