import AriOs.Js.Throw
import AriOs.Js.Value

/-!
# Decoding a transaction

The signer trusts nothing the host says about a transaction: what the policy and the
envelope are checked against is read out of the wire bytes here. The wire format itself,
the encodings and the hash belong to the host and its libraries, and are parameters.
-/

namespace AriOs.Signer

open AriOs.Js

abbrev Bytes := List UInt8

/-! ### The transaction library -/

inductive MessageVersion where
  | legacy
  | version (n : Nat)
  deriving DecidableEq, Repr

structure CompiledInstruction where
  programIdIndex : Nat
  accountKeyIndexes : List Nat
  data : Bytes
  deriving DecidableEq, Repr

structure AddressTableLookup where
  accountKey : String
  writableIndexes : List Nat
  readonlyIndexes : List Nat
  deriving DecidableEq, Repr

/-- A message; keys are in their base58 form. -/
structure VersionedMessage where
  version : MessageVersion
  numRequiredSignatures : Nat
  staticAccountKeys : List String
  recentBlockhash : String
  compiledInstructions : List CompiledInstruction
  addressTableLookups : List AddressTableLookup
  deriving DecidableEq, Repr

structure VersionedTransaction where
  message : VersionedMessage
  signatures : List Bytes
  deriving DecidableEq, Repr

/-- The wire format of the transaction library. -/
structure Web3 where
  deserialize : Bytes → Except String VersionedTransaction
  serialize : VersionedTransaction → Except String Bytes
  serializeMessage : VersionedMessage → Except String Bytes

/-- The host's encodings and hash. -/
structure Encodings where
  fromBase64 : String → Bytes
  toBase64 : Bytes → String
  base58 : Bytes → String
  sha256 : Bytes → String

/-! ### Decoded transactions -/

structure DecodedInstruction where
  programId : String
  programIdIndex : Nat
  accountIndexes : List Nat
  /-- `none` where an address lookup table is involved -/
  accounts : List (Option String)
  data : Bytes
  dataHex : String
  deriving DecidableEq, Repr

structure DecodedTransaction where
  version : MessageVersion
  feePayer : String
  recentBlockhash : String
  numRequiredSignatures : Nat
  staticAccountKeys : List String
  /-- `none` for empty slots -/
  signatures : List (Option String)
  addressTableLookups : List AddressTableLookup
  instructions : List DecodedInstruction
  /-- the exact bytes a signature commits to -/
  messageBytes : Bytes
  messageBase64 : String
  messageHash : String
  wireBase64 : String
  transaction : VersionedTransaction
  deriving DecidableEq, Repr

def hexDigit (n : Nat) : Char := ("0123456789abcdef".toList[n]?).getD '0'

/-- `Buffer.from(bytes).toString("hex")`. -/
def toHex (bytes : Bytes) : String :=
  String.ofList (bytes.flatMap fun b => [hexDigit (b.toNat / 16), hexDigit (b.toNat % 16)])

/-- `sha256Hex`. -/
def sha256Hex (enc : Encodings) (bytes : Bytes) : String := "0x" ++ enc.sha256 bytes

/-- One instruction. A program behind a lookup table cannot be checked, so it is refused. -/
def decodeInstruction (staticKeys : List String) (totalKeys : Nat) (ix : CompiledInstruction) :
    Except String DecodedInstruction := do
  let programId ← orThrow staticKeys[ix.programIdIndex]? "transaction_program_unresolvable"
  let accounts ← ix.accountKeyIndexes.mapM fun i =>
    if i ≥ totalKeys then Except.error "transaction_accounts_invalid" else .ok staticKeys[i]?
  .ok ⟨programId, ix.programIdIndex, ix.accountKeyIndexes, accounts, ix.data, toHex ix.data⟩

variable (W : Web3) (enc : Encodings)

/-- Decode and check a base64 transaction. Both encodings have to be canonical: the text must
be what its bytes encode to, and the bytes what their transaction serializes to. -/
def decodeTransaction (wireBase64 : String) : Except String DecodedTransaction := do
  throwIf (wireBase64 = "") "transaction_invalid"
  let raw := enc.fromBase64 wireBase64
  throwIf (raw = [] ∨ enc.toBase64 raw ≠ wireBase64) "transaction_encoding_invalid"
  let tx ← (W.deserialize raw).mapError fun _ => "transaction_invalid"
  let canonical ← (W.serialize tx).mapError fun _ => "transaction_invalid"
  throwIf (canonical ≠ raw) "transaction_encoding_invalid"
  let message := tx.message
  let staticKeys := message.staticAccountKeys
  let feePayer ← orThrow staticKeys.head? "transaction_accounts_invalid"
  throwIf (message.numRequiredSignatures < 1 ∨ message.numRequiredSignatures > staticKeys.length)
    "transaction_signers_invalid"
  throwIf (tx.signatures.length ≠ message.numRequiredSignatures) "transaction_signers_invalid"
  throwIf (message.compiledInstructions = []) "transaction_instructions_empty"
  let lookups := message.addressTableLookups
  let lookedUp := (lookups.map fun l => l.writableIndexes.length + l.readonlyIndexes.length).sum
  let instructions ← message.compiledInstructions.mapM
    (decodeInstruction staticKeys (staticKeys.length + lookedUp))
  let messageBytes ← W.serializeMessage message
  .ok {
    version := message.version, feePayer, recentBlockhash := message.recentBlockhash
    numRequiredSignatures := message.numRequiredSignatures, staticAccountKeys := staticKeys
    signatures := tx.signatures.map fun s =>
      if s.all (· = 0) then none else some (enc.base58 s)
    addressTableLookups := lookups, instructions, messageBytes
    messageBase64 := enc.toBase64 messageBytes, messageHash := sha256Hex enc messageBytes
    wireBase64 := enc.toBase64 canonical, transaction := tx }

/-- A signed transaction and its signature. -/
structure SignResult where
  transaction : String
  signature : String
  deriving DecidableEq, Repr

/-- Write the signature into the fee payer's slot, the only one the signer owns. -/
def attachSignature (decoded : DecodedTransaction) (signature : Bytes) :
    Except String SignResult := do
  throwIf (signature.length ≠ 64) "signature_invalid"
  let wire ← W.serialize
    { decoded.transaction with signatures := decoded.transaction.signatures.set 0 signature }
  .ok ⟨enc.toBase64 wire, enc.base58 signature⟩

/-- The fee payer's signature on a signed wire transaction. -/
def signatureOf (wireBase64 : String) : Except String String := do
  let decoded ← decodeTransaction W enc wireBase64
  orThrow decoded.signatures.head?.join "signature_missing"

variable {W enc}

/-- The two forms of the message are forms of the bytes that are signed. -/
theorem decodeTransaction_message {wire : String} {d : DecodedTransaction}
    (h : decodeTransaction W enc wire = .ok d) :
    d.messageHash = sha256Hex enc d.messageBytes ∧
      d.messageBase64 = enc.toBase64 d.messageBytes := by
  simp only [decodeTransaction, bind_eq_ok] at h
  obtain ⟨-, -, -, -, tx, -, canonical, -, -, -, feePayer, -, -, -, -, -, -, -, instructions, -,
    messageBytes, -, heq⟩ := h
  obtain rfl := Except.ok.inj heq
  exact ⟨rfl, rfl⟩

end AriOs.Signer
