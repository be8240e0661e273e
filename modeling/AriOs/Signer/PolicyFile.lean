import AriOs.Js.Joined
import AriOs.Pools.PriorityFee

/-!
# Loading the signer's policy

The operator's policy file is checked field by field before it counts as a policy. What the
evaluation relies on later is what these checks leave: every rule has a hexadecimal
discriminator, no two rules of a program have the same one, and fees are only read from the
compute-budget program, under the two tags that set them.

The host parses the file and decodes public keys; both are parameters.
-/

namespace AriOs.Signer

open AriOs.Js
open AriOs.Pools (COMPUTE_BUDGET_PROGRAM_ID)

/-- The policy file: what `lstat` says of it, and its text. -/
structure PolicyFile where
  isSymbolicLink : Bool
  isFile : Bool
  permissionsAreUnsafe : Bool
  raw : String

/-- `JSON.parse`, which may throw, base58, and the hash of a text. -/
structure PolicyHost where
  parse : String → Option JsValue
  fromBase58 : String → Option Bytes
  sha256 : String → String

/-- A policy with what binds authorizations to it. -/
structure LoadedSignPolicy extends SignPolicy where
  cluster : String
  version : Nat
  hash : String
  deriving DecidableEq, Repr

/-! ### Fields -/

def isPublicKeyText (host : PolicyHost) (s : String) : Bool :=
  s ≠ "" && (host.fromBase58 s).any fun bytes => bytes.length = 32

/-- The text of a well-formed public key. -/
def publicKey? (host : PolicyHost) (v : JsValue) : Option String :=
  v.text?.filter (isPublicKeyText host)

/-- A list of public keys. -/
def publicKeys? (host : PolicyHost) : JsValue → Option (List String)
  | .array items => items.mapM (publicKey? host)
  | _ => none

def isLowerHex (c : Char) : Bool := c.isDigit || ('a' ≤ c && c ≤ 'f')

/-- `HEX_PREFIX`. -/
def isHexPrefix (s : String) : Bool :=
  s.toList ≠ [] && s.toList.length % 2 = 0 && s.toList.all isLowerHex

/-- `/^(0|[1-9][0-9]*)$/`. -/
def isDecimal (s : String) : Bool :=
  match s.toList with
  | [] => false
  | ['0'] => true
  | c :: cs => c ≠ '0' && (c :: cs).all Char.isDigit

def parseUnsigned (v : JsValue) (label : String) : Except String Nat := do
  let s ← orThrow (v.text?.filter isDecimal) ("policy_" ++ label ++ "_invalid")
  .ok (Nat.ofDigitChars 10 s.toList 0)

def parseCount (v : JsValue) (label : String) (max : Nat) : Except String Nat := do
  let n ← orThrow v.safeInteger? ("policy_" ++ label ++ "_invalid")
  throwIf (n < 0 ∨ n > max) ("policy_" ++ label ++ "_invalid")
  .ok n.toNat

/-- A count that may be left out. -/
def parseOptionalCount (v : JsValue) (label : String) (max : Nat) : Except String (Option Nat) :=
  match v with
  | .undefined => .ok none
  | v => (parseCount v label max).map some

/-- A field that is an object; arrays are objects without the fields that are looked for. -/
def hasMembers : JsValue → Bool
  | .object _ | .array _ => true
  | _ => false

/-! ### Rules -/

def parseEncoding (v : JsValue) : Except String AmountEncoding :=
  match v.text? with
  | some "u64le" => .ok .u64le
  | some "u32le" => .ok .u32le
  | _ => .error "policy_spend_invalid"

/-- The asset of a spend rule: lamports, or a mint. -/
def parseAsset (host : PolicyHost) (v : JsValue) : Except String String :=
  orThrow (v.text?.filter fun s => s = NATIVE_ASSET || isPublicKeyText host s) "policy_spend_invalid"

def parseSpendRule (host : PolicyHost) (s : JsValue) : Except String SignerSpendRule := do
  throwIf (hasMembers s = false) "policy_spend_invalid"
  let asset ← parseAsset host (s.field "asset")
  let amountEncoding ← parseEncoding (s.field "amountEncoding")
  let amountOffset ← parseCount (s.field "amountOffset") "spend" 1024
  let mintAccountIndex ← parseOptionalCount (s.field "mintAccountIndex") "spend" 255
  throwIf (mintAccountIndex.isSome ∧ asset = NATIVE_ASSET) "policy_spend_invalid"
  .ok { asset, amountOffset, amountEncoding, mintAccountIndex }

/-- A fee is only read from the compute budget, under its two tags. -/
def checkFeeRule (programId discriminator : String) : Except String Unit := do
  throwIf (programId ≠ COMPUTE_BUDGET_PROGRAM_ID) "policy_fee_effect_invalid"
  throwIf (discriminator ≠ SET_UNIT_LIMIT ∧ discriminator ≠ SET_UNIT_PRICE)
    "policy_fee_effect_invalid"

def parseEffect (host : PolicyHost) (r : JsValue) (programId discriminator : String) :
    Except String Effect :=
  match (r.field "effect").text? with
  | some "none" => .ok .none
  | some "fee" => do
    checkFeeRule programId discriminator
    .ok .fee
  | some "spend" => do
    let rule ← parseSpendRule host (r.field "spend")
    .ok (.spend rule)
  | _ => .error "policy_effect_invalid"

def parseProgramRule (host : PolicyHost) (x : JsValue) : Except String SignerProgramRule := do
  throwIf (hasMembers x = false) "policy_program_invalid"
  let programId ← orThrow (publicKey? host (x.field "programId")) "policy_program_invalid"
  let discriminator ← orThrow
    ((x.field "discriminator").text?.filter fun d => isHexPrefix d && textLength d ≤ 32)
    "policy_discriminator_invalid"
  let effect ← parseEffect host x programId discriminator
  .ok { programId, discriminator, effect }

/-- What two rules may not share. -/
def SignerProgramRule.key (rule : SignerProgramRule) : String :=
  joined rule.programId rule.discriminator

/-- One entry of `caps`. -/
def parseCap (host : PolicyHost) (entry : String × JsValue) : Except String (String × Nat) := do
  throwIf (¬(entry.1 = NATIVE_ASSET ∨ isPublicKeyText host entry.1 = true)) "policy_cap_invalid"
  let cap ← parseUnsigned entry.2 "cap"
  .ok (entry.1, cap)

/-! ### The whole file -/

/-- The members whose shape is checked before anything else. -/
structure PolicyShape where
  cluster : String
  feePayers : List String
  programs : List JsValue
  caps : List (String × JsValue)
  addressLookupTables : List String

def parseShape (host : PolicyHost) (x : JsValue) : Option PolicyShape := do
  guard ((x.field "version").number? = some (.ofInt 1))
  let cluster ← (x.field "cluster").text?
  guard (cluster ≠ "")
  let feePayers ← publicKeys? host (x.field "feePayers")
  guard (feePayers ≠ [])
  let .array programs := x.field "programs" | none
  guard (programs.isEmpty = false)
  let .object caps := x.field "caps" | none
  let addressLookupTables ← publicKeys? host (x.field "addressLookupTables")
  some { cluster, feePayers, programs, caps, addressLookupTables }

/-- The checks of a parsed file, in their order. -/
def parsePolicy (host : PolicyHost) (raw : String) (x : JsValue) :
    Except String LoadedSignPolicy := do
  let shape ← orThrow (parseShape host x) "policy_format_invalid"
  let programs ← shape.programs.mapM (parseProgramRule host)
  throwIf (¬(programs.map SignerProgramRule.key).Nodup) "policy_program_duplicate"
  let caps ← shape.caps.mapM (parseCap host)
  let maxInstructions ← parseCount (x.field "maxInstructions") "max_instructions" 64
  let maxAccountKeys ← parseCount (x.field "maxAccountKeys") "max_account_keys" 256
  let maxRequiredSignatures ←
    parseCount (x.field "maxRequiredSignatures") "max_required_signatures" 8
  let maxComputeUnitLimit ←
    parseCount (x.field "maxComputeUnitLimit") "max_compute_unit_limit" MAX_UNITS_PER_TRANSACTION
  let maxComputeUnitPriceMicroLamports ←
    parseUnsigned (x.field "maxComputeUnitPriceMicroLamports") "max_compute_unit_price"
  let maxPriorityFeeLamports ← parseUnsigned (x.field "maxPriorityFeeLamports") "max_priority_fee"
  let maxPriorityFeeBps ←
    parseOptionalCount (x.field "maxPriorityFeeBps") "max_priority_fee_bps" 10000
  .ok {
    version := 1, cluster := shape.cluster, feePayers := shape.feePayers, programs, caps
    maxInstructions, maxAccountKeys, maxRequiredSignatures, maxComputeUnitLimit
    maxComputeUnitPriceMicroLamports, maxPriorityFeeLamports, maxPriorityFeeBps
    addressLookupTables := shape.addressLookupTables, hash := "0x" ++ host.sha256 raw }

/-- Load the policy from its file. A file that holds `null` fails on its first field. -/
def loadSignPolicy (host : PolicyHost) (file : PolicyFile) : Except String LoadedSignPolicy := do
  throwIf (file.isSymbolicLink = true) "policy_symlink_forbidden"
  throwIf (file.isFile = false) "policy_format_invalid"
  throwIf (file.permissionsAreUnsafe = true) "policy_permissions_unsafe"
  let x ← orThrow (host.parse file.raw) "policy_format_invalid"
  match x with
  | .null => .error "Cannot read properties of null (reading 'version')"
  | x => parsePolicy host file.raw x

/-! ### What the checks leave -/

/-- What the evaluation can rely on. -/
structure Loadable (policy : SignPolicy) : Prop where
  keys : (policy.programs.map SignerProgramRule.key).Nodup
  hex : ∀ rule ∈ policy.programs, isHexPrefix rule.discriminator = true
  fee : ∀ rule ∈ policy.programs, rule.effect = .fee →
    rule.programId = COMPUTE_BUDGET_PROGRAM_ID ∧
      (rule.discriminator = SET_UNIT_LIMIT ∨ rule.discriminator = SET_UNIT_PRICE)

section Loadable

variable {host : PolicyHost}

theorem parseProgramRule_spec {x : JsValue} {rule : SignerProgramRule}
    (h : parseProgramRule host x = .ok rule) :
    isHexPrefix rule.discriminator = true ∧ (rule.effect = .fee →
      rule.programId = COMPUTE_BUDGET_PROGRAM_ID ∧
        (rule.discriminator = SET_UNIT_LIMIT ∨ rule.discriminator = SET_UNIT_PRICE)) := by
  simp only [parseProgramRule, bind_eq_ok, orThrow_eq_ok] at h
  obtain ⟨-, -, programId, -, discriminator, hdisc, effect, heffect, h⟩ := h
  obtain rfl := Except.ok.inj h
  have hhex := (Option.filter_eq_some_iff.mp hdisc).2
  rw [Bool.and_eq_true] at hhex
  refine ⟨hhex.1, ?_⟩
  rintro rfl
  unfold parseEffect at heffect
  split at heffect
  · simp at heffect
  · simp only [bind_eq_ok, checkFeeRule, throwIf_eq_ok] at heffect
    -- a fee rule names the budget program and one of its two tags
    obtain ⟨-, ⟨-, hprogram, htag⟩, -⟩ := heffect
    exact ⟨not_not.mp hprogram, by tauto⟩
  · simp only [bind_eq_ok] at heffect
    obtain ⟨spend, -, heffect⟩ := heffect
    simp at heffect
  · simp at heffect

/-- Every policy that is loaded is loadable. -/
theorem loadable_of_loadSignPolicy {file : PolicyFile} {policy : LoadedSignPolicy}
    (h : loadSignPolicy host file = .ok policy) : Loadable policy.toSignPolicy := by
  simp only [loadSignPolicy, bind_eq_ok] at h
  obtain ⟨-, -, -, -, -, -, x, -, h⟩ := h
  split at h
  · simp at h
  · simp only [parsePolicy, bind_eq_ok, throwIf_eq_ok, not_not] at h
    obtain ⟨shape, -, programs, hprograms, -, hkeys, caps, -, _, -, _, -, _, -, _, -, _, -, _, -,
      _, -, h⟩ := h
    obtain rfl := Except.ok.inj h
    refine ⟨hkeys, ?_, ?_⟩
    · intro rule hrule
      obtain ⟨x', -, hx'⟩ := exists_of_mem_mapM hprograms rule hrule
      exact (parseProgramRule_spec hx').1
    · intro rule hrule
      obtain ⟨x', -, hx'⟩ := exists_of_mem_mapM hprograms rule hrule
      exact (parseProgramRule_spec hx').2

end Loadable

end AriOs.Signer
