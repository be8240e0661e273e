import AriOs.Arith.LittleEndian
import AriOs.Signer.Transaction

/-!
# The signer's policy

Every decoded transaction is checked against the operator's own policy before anything is
signed: who pays, which programs and instructions are allowed, how much of each asset may
leave the wallet, and how high the priority fee may be.
-/

namespace AriOs.Signer

open AriOs.Arith AriOs.Js

def DEFAULT_UNITS_PER_INSTRUCTION : Nat := 200000
def MAX_UNITS_PER_TRANSACTION : Nat := 1400000
def SET_UNIT_LIMIT : String := "02"
def SET_UNIT_PRICE : String := "03"
def NATIVE_ASSET : String := "native"

inductive AmountEncoding where
  | u64le | u32le
  deriving DecidableEq, Repr

/-- How the input leg of an instruction is read. -/
structure SignerSpendRule where
  asset : String
  amountOffset : Nat
  amountEncoding : AmountEncoding
  mintAccountIndex : Option Nat
  deriving DecidableEq, Repr

/-- What an allowed instruction can do. -/
inductive Effect where
  | none
  | fee
  | spend (rule : SignerSpendRule)
  deriving DecidableEq, Repr

/-- One allowed pair of a program and an instruction. -/
structure SignerProgramRule where
  programId : String
  discriminator : String
  effect : Effect
  deriving DecidableEq, Repr

/-- A policy as it is loaded: counts and amounts are whole and not negative. -/
structure SignPolicy where
  feePayers : List String
  programs : List SignerProgramRule
  caps : List (String × Nat)
  maxInstructions : Nat
  maxAccountKeys : Nat
  maxRequiredSignatures : Nat
  maxComputeUnitLimit : Nat
  maxComputeUnitPriceMicroLamports : Nat
  maxPriorityFeeLamports : Nat
  maxPriorityFeeBps : Option Nat
  addressLookupTables : List String
  deriving DecidableEq, Repr

structure PolicyEvaluation where
  spend : List (String × Nat)
  computeUnitLimit : Nat
  computeUnitPriceMicroLamports : Nat
  priorityFeeLamports : Nat
  deriving DecidableEq, Repr

def AmountEncoding.width : AmountEncoding → Nat
  | u64le => 8
  | u32le => 4

def readAmount (data : Bytes) (offset : Nat) (encoding : AmountEncoding) : Except String Nat := do
  throwIf (offset + encoding.width > data.length) "policy_spend_unreadable"
  .ok (ofBytes ((data.drop offset).take encoding.width))

/-- `s.startsWith(t)`. -/
def startsWith (s t : String) : Bool := t.toList.isPrefixOf s.toList

/-- One rule of the scan: the best match so far, and whether the program was seen at all. -/
def matchStep (programId dataHex : String) (acc : Option SignerProgramRule × Bool)
    (rule : SignerProgramRule) : Option SignerProgramRule × Bool :=
  if rule.programId ≠ programId then acc
  else if ¬ startsWith dataHex rule.discriminator then (acc.1, true)
  else match acc.1 with
    | some best =>
      (if textLength rule.discriminator > textLength best.discriminator then some rule
        else some best, true)
    | none => (some rule, true)

/-- The most specific matching discriminator wins. -/
def matchRule (policy : SignPolicy) (programId dataHex : String) :
    Option SignerProgramRule × Bool :=
  policy.programs.foldl (matchStep programId dataHex) (none, false)

/-- `spend.set(asset, (spend.get(asset) ?? 0n) + amount)`. -/
def addSpend (spend : List (String × Nat)) (asset : String) (amount : Nat) :
    List (String × Nat) :=
  match spend with
  | [] => [(asset, amount)]
  | (a, n) :: rest => if a = asset then (a, n + amount) :: rest else (a, n) :: addSpend rest asset amount

/-- What the instructions have added up to. -/
structure Tally where
  spend : List (String × Nat) := []
  explicitLimit : Option Nat := none
  unitPrice : Option Nat := none
  deriving DecidableEq, Repr

/-- A compute-budget instruction. Duplicates are refused, not resolved. -/
def tallyFee (rule : SignerProgramRule) (ix : DecodedInstruction) (t : Tally) :
    Except String Tally :=
  if rule.discriminator = SET_UNIT_LIMIT then do
    throwIf t.explicitLimit.isSome "policy_compute_units"
    let limit ← readAmount ix.data 1 .u32le
    .ok { t with explicitLimit := some limit }
  else if rule.discriminator = SET_UNIT_PRICE then do
    throwIf t.unitPrice.isSome "policy_compute_unit_price"
    let price ← readAmount ix.data 1 .u64le
    .ok { t with unitPrice := some price }
  else .ok t

/-- The pinned mint is the instruction's own, where the rule says which account holds it. -/
def checkMint (rule : SignerSpendRule) (ix : DecodedInstruction) : Except String Unit :=
  match rule.mintAccountIndex with
  | none => .ok ()
  | some i => do
    let account ← orThrow ix.accounts[i]? "policy_spend_mint_missing"
    throwIf (account ≠ some rule.asset) "policy_spend_mint_mismatch"

def tallySpend (rule : SignerSpendRule) (ix : DecodedInstruction) (t : Tally) :
    Except String Tally := do
  checkMint rule ix
  let amount ← readAmount ix.data rule.amountOffset rule.amountEncoding
  .ok { t with spend := addSpend t.spend rule.asset amount }

/-- One instruction of the loop. -/
def tallyInstruction (policy : SignPolicy) (t : Tally) (ix : DecodedInstruction) :
    Except String Tally := do
  let found := matchRule policy ix.programId ix.dataHex
  throwIf (found.2 = false) "policy_program"
  let rule ← orThrow found.1 "policy_instruction"
  match rule.effect with
  | .none => .ok t
  | .fee => tallyFee rule ix t
  | .spend spend => tallySpend spend ix t

/-- The checks before the instructions are looked at. -/
def checkShape (decoded : DecodedTransaction) (policy : SignPolicy) (expectedFeePayer : String) :
    Except String Unit := do
  throwIf (decoded.feePayer ≠ expectedFeePayer ∨ decoded.feePayer ∉ policy.feePayers)
    "policy_fee_payer"
  throwIf (decoded.numRequiredSignatures > policy.maxRequiredSignatures) "policy_signers"
  throwIf (decoded.staticAccountKeys.length > policy.maxAccountKeys) "policy_account_keys"
  throwIf (decoded.instructions.length > policy.maxInstructions) "policy_instruction_count"
  throwIf (¬ ∀ l ∈ decoded.addressTableLookups, l.accountKey ∈ policy.addressLookupTables)
    "policy_address_table_lookup"

/-- A second fee ceiling, in basis points of the native leg, if there is one. -/
def checkFeeBps (policy : SignPolicy) (spend : List (String × Nat)) (fee : Nat) :
    Except String Unit :=
  match policy.maxPriorityFeeBps, spend.lookup NATIVE_ASSET with
  | some bps, some leg => throwIf (leg > 0 ∧ fee > leg * bps / 10000) "policy_priority_fee"
  | _, _ => .ok ()

/-- Every asset that leaves has a cap, and stays within it. -/
def checkCaps (policy : SignPolicy) : List (String × Nat) → Except String Unit
  | [] => .ok ()
  | (asset, total) :: rest => do
    let cap ← orThrow (policy.caps.lookup asset) "policy_cap_missing"
    throwIf (total > cap) "policy_spend_cap"
    checkCaps policy rest

/-- The compute limit the transaction sets, or what the network gives it. -/
def computeUnitLimitOf (t : Tally) (instructions : Nat) : Nat :=
  t.explicitLimit.getD
    (min (DEFAULT_UNITS_PER_INSTRUCTION * instructions) MAX_UNITS_PER_TRANSACTION)

/-- Re-check a decoded transaction against the signer's own policy. -/
def evaluatePolicy (decoded : DecodedTransaction) (policy : SignPolicy)
    (expectedFeePayer : String) : Except String PolicyEvaluation := do
  checkShape decoded policy expectedFeePayer
  let t ← decoded.instructions.foldlM (tallyInstruction policy) {}
  let computeUnitLimit := computeUnitLimitOf t decoded.instructions.length
  throwIf (computeUnitLimit > policy.maxComputeUnitLimit) "policy_compute_units"
  let microLamports := t.unitPrice.getD 0
  throwIf (microLamports > policy.maxComputeUnitPriceMicroLamports) "policy_compute_unit_price"
  let priorityFeeLamports := (computeUnitLimit * microLamports + 999999) / 1000000
  throwIf (priorityFeeLamports > policy.maxPriorityFeeLamports) "policy_priority_fee"
  checkFeeBps policy t.spend priorityFeeLamports
  checkCaps policy t.spend
  .ok ⟨t.spend, computeUnitLimit, microLamports, priorityFeeLamports⟩

end AriOs.Signer
