import AriOs.Signer.Policy
import Mathlib.Data.Nat.ModEq
import Mathlib.Tactic.Ring

/-!
# Priority fees, declared and paid

Whoever builds a transaction asks for a priority fee in lamports, puts a price per compute unit
into the transaction, and declares a fee for the kernel to judge. The signer decodes the
transaction and computes the fee the wallet pays, rounding up.

Two of the builders round down where the signer rounds up, so what they declare is what is paid
exactly if there is nothing to round. The third writes its lamports where the transaction has
micro-lamports per compute unit.

The transaction library and the SDK of the third builder are parameters; what is relied on is
how they write the two compute-budget instructions.
-/

namespace AriOs.Pools

open AriOs.Arith AriOs.Js AriOs.Signer

def COMPUTE_BUDGET_PROGRAM_ID : String := "ComputeBudget111111111111111111111111111111"

/-! ### The transaction library -/

/-- An instruction as far as it counts here; its accounts play no part. -/
structure Instruction where
  programId : String
  data : Bytes
  deriving DecidableEq, Repr

/-- The instruction behind a decoded one. -/
def source (i : DecodedInstruction) : Instruction := ⟨i.programId, i.data⟩

/-- The instructions that set the compute budget. -/
structure ComputeBudgetProgram where
  setComputeUnitLimit : Nat → Except String Instruction
  setComputeUnitPrice : Int → Except String Instruction

/-- A tag, and the number behind it in four or eight bytes; a number that does not fit throws. -/
structure ComputeBudgetProgram.Documented (cb : ComputeBudgetProgram) : Prop where
  limit : ∀ units ix, cb.setComputeUnitLimit units = .ok ix →
    ix = ⟨COMPUTE_BUDGET_PROGRAM_ID, 2 :: toBytes 4 units⟩ ∧ units < 2 ^ 32
  price : ∀ price ix, cb.setComputeUnitPrice price = .ok ix →
    ix = ⟨COMPUTE_BUDGET_PROGRAM_ID, 3 :: toBytes 8 price.toNat⟩ ∧ 0 ≤ price ∧ price < 2 ^ 64

/-- Compile instructions into a wire transaction, for a payer and a blockhash. -/
abbrev Compile := String → String → List Instruction → Except String String

/-- The instructions of a transaction are those it was compiled from, in their order. -/
def Carries (W : Web3) (enc : Encodings) (compile : Compile) : Prop :=
  ∀ payer blockhash ixs wire decoded, compile payer blockhash ixs = .ok wire →
    decodeTransaction W enc wire = .ok decoded →
    decoded.instructions.map source = ixs

/-! ### The builders -/

section Builders

variable (cb : ComputeBudgetProgram) (compile : Compile)

/-- `Math.floor((lamports * 1_000_000) / cuLimit)`. A division by zero has no floor. -/
def microLamportsFor (lamports : JsNumber) (cuLimit : Nat) : Int :=
  ((lamports.mul (.ofInt 1000000)).div (.ofInt cuLimit)).floor?.getD 0

/-- `Math.floor((microLamports * cuLimit) / 1_000_000)`. -/
def lamportsFor (microLamports : Int) (cuLimit : Nat) : Int := microLamports * cuLimit / 1000000

/-- The instructions behind the compute budget. A division by zero has no price. -/
def withBudget (cuLimit : Nat) (microLamports : Int) (ixs : List Instruction) :
    Except String (List Instruction) := do
  let limit ← cb.setComputeUnitLimit cuLimit
  throwIf (cuLimit = 0) "cannot be converted to a BigInt because it is not an integer"
  let price ← cb.setComputeUnitPrice microLamports
  return limit :: price :: ixs

def DEFAULT_CU_LIMIT : Nat := 250000

structure BuildArgs where
  payer : String
  instructions : List Instruction
  recentBlockhash : String
  priorityFeeLamports : JsNumber
  computeUnitLimit : Option Nat := none

structure BuiltTx where
  unsignedTxBase64 : String
  recentBlockhash : String
  priorityFeeLamports : Int
  computeUnitLimit : Nat
  deriving DecidableEq, Repr

def buildUnsignedTx (args : BuildArgs) : Except String BuiltTx := do
  let cuLimit := args.computeUnitLimit.getD DEFAULT_CU_LIMIT
  throwIf (¬ args.priorityFeeLamports.isFinite ∨ args.priorityFeeLamports.lt (.ofInt 0))
    "priorityFeeLamports must be finite and non-negative"
  let microLamports := microLamportsFor args.priorityFeeLamports cuLimit
  let ixs ← withBudget cb cuLimit microLamports args.instructions
  let wire ← compile args.payer args.recentBlockhash ixs
  return ⟨wire, args.recentBlockhash, lamportsFor microLamports cuLimit, cuLimit⟩

structure VenueTxDraft where
  unsignedTxBase64 : String
  recentBlockhash : String
  lastValidBlockHeight : Int
  priorityFeeLamports : Int
  extraSigners : List String
  description : String
  deriving DecidableEq, Repr

/-- The compute-unit limit of a liquidity action. -/
def DRAFT_CU_LIMIT : Nat := 600000

/-- `#draft`; the blockhash is what the chain answers. -/
def draft (blockhash : String × Int) (instructions : List Instruction)
    (extraSigners : List String) (description payer : String) (priorityFeeLamports : Int) :
    Except String VenueTxDraft := do
  let microLamports := microLamportsFor (.ofInt (max 0 priorityFeeLamports)) DRAFT_CU_LIMIT
  let ixs ← withBudget cb DRAFT_CU_LIMIT microLamports instructions
  let wire ← compile payer blockhash.1 ixs
  return ⟨wire, blockhash.1, blockhash.2, lamportsFor microLamports DRAFT_CU_LIMIT, extraSigners,
    description⟩

/-- The SDK's `buildTransaction`, with what is serialized of its result. -/
abbrev BuildTransaction := List Instruction → Int → String → Except String String

/-- The one instruction that sets the price of the transaction sets it to `computeUnitsPrice`, in
micro-lamports per compute unit. -/
def SetsPrice (W : Web3) (enc : Encodings) (sdk : BuildTransaction) : Prop :=
  ∀ ixs price blockhash wire decoded, sdk ixs price blockhash = .ok wire →
    decodeTransaction W enc wire = .ok decoded → 0 ≤ price ∧ price < 2 ^ 64 ∧
    (⟨COMPUTE_BUDGET_PROGRAM_ID, 3 :: toBytes 8 price.toNat⟩ ∈ decoded.instructions.map source ∧
      ∀ i ∈ decoded.instructions.map source, i.programId = COMPUTE_BUDGET_PROGRAM_ID →
        i.data.head? = some 3 → i = ⟨COMPUTE_BUDGET_PROGRAM_ID, 3 :: toBytes 8 price.toNat⟩)

def DEFAULT_PRIORITY_FEE_LAMPORTS : Int := 200000

structure VenueOrderBuild where
  unsignedTxBase64 : String
  recentBlockhash : String
  lastValidBlockHeight : Int
  priorityFeeLamports : Int
  deriving DecidableEq, Repr

/-- `#assemble`, for a fee that was asked for and one the venue was configured with. -/
def assemble (sdk : BuildTransaction) (blockhash : String × Int) (ixs : List Instruction)
    (asked configured : Option Int) : Except String VenueOrderBuild := do
  let priorityFeeLamports := (asked.or configured).getD DEFAULT_PRIORITY_FEE_LAMPORTS
  let wire ← sdk ixs priorityFeeLamports blockhash.1
  return ⟨wire, blockhash.1, blockhash.2, priorityFeeLamports⟩

end Builders

/-! ### What a policy reads -/

/-- The two things a compute-budget instruction can set. -/
inductive BudgetItem where
  | limit | price
  deriving DecidableEq, Repr

def BudgetItem.tag : BudgetItem → String
  | limit => SET_UNIT_LIMIT
  | price => SET_UNIT_PRICE

/-- The byte of the tag. -/
def BudgetItem.tagByte : BudgetItem → UInt8
  | limit => 2
  | price => 3

def BudgetItem.encoding : BudgetItem → AmountEncoding
  | limit => .u32le
  | price => .u64le

/-- The instruction that sets it. -/
def BudgetItem.set (b : BudgetItem) (n : Nat) : Instruction :=
  ⟨COMPUTE_BUDGET_PROGRAM_ID, b.tagByte :: toBytes b.encoding.width n⟩

/-- What a tally has of it. -/
def BudgetItem.seen (b : BudgetItem) (t : Tally) : Option Nat :=
  match b with
  | limit => t.explicitLimit
  | price => t.unitPrice

/-- A policy takes the instruction for the one that sets this. -/
def reads (policy : SignPolicy) (b : BudgetItem) (i : Instruction) : Bool :=
  (matchRule policy i.programId (toHex i.data)).1.any fun rule =>
    rule.effect = .fee && rule.discriminator = b.tag

/-- The number behind the tag. -/
def BudgetItem.value (b : BudgetItem) (i : Instruction) : Nat :=
  ofBytes ((i.data.drop 1).take b.encoding.width)

/-- What a policy reads out of the instructions of a transaction. -/
def readFrom (policy : SignPolicy) (b : BudgetItem) (ixs : List Instruction) : Option Nat :=
  (ixs.find? (reads policy b)).map b.value

/-- The compute-unit limit the network gives a transaction that sets none. -/
def networkUnits (instructions : Nat) : Nat :=
  min (DEFAULT_UNITS_PER_INSTRUCTION * instructions) MAX_UNITS_PER_TRANSACTION

/-- The compute-unit limit that counts. -/
def unitsOf (policy : SignPolicy) (ixs : List Instruction) : Nat :=
  (readFrom policy .limit ixs).getD (networkUnits ixs.length)

/-- The fee of a transaction, rounded up. -/
def feeOf (policy : SignPolicy) (ixs : List Instruction) : Nat :=
  (unitsOf policy ixs * (readFrom policy .price ixs).getD 0 + 999999) / 1000000

section Read

variable {policy : SignPolicy} {W : Web3} {enc : Encodings}

/-- What was written behind the tag is read back. -/
theorem value_set {b : BudgetItem} {n : Nat} (h : n < 256 ^ b.encoding.width) :
    b.value (b.set n) = n := by
  rw [BudgetItem.value, BudgetItem.set, List.drop_one, List.tail_cons,
    List.take_of_length_le length_toBytes.le, ofBytes_toBytes h]

/-- Instructions are decoded one by one, each with the hexadecimal form of its bytes. -/
theorem dataHex_of_mapM {staticKeys : List String} {totalKeys : Nat}
    {compiled : List CompiledInstruction} {ixs : List DecodedInstruction}
    (h : compiled.mapM (decodeInstruction staticKeys totalKeys) = .ok ixs) :
    ∀ i ∈ ixs, i.dataHex = toHex i.data := by
  induction compiled generalizing ixs with
  | nil =>
    obtain rfl := Except.ok.inj h
    simp
  | cons c cs ih =>
    simp only [List.mapM_cons, bind_eq_ok] at h
    obtain ⟨i, hi, rest, hrest, heq⟩ := h
    obtain rfl := Except.ok.inj heq
    simp only [decodeInstruction, bind_eq_ok] at hi
    obtain ⟨_, -, _, -, hi⟩ := hi
    obtain rfl := Except.ok.inj hi
    intro j hj
    rcases List.mem_cons.mp hj with rfl | hj
    · rfl
    · exact ih hrest j hj

theorem dataHex_of_decoded {wire : String} {decoded : DecodedTransaction}
    (h : decodeTransaction W enc wire = .ok decoded) :
    ∀ i ∈ decoded.instructions, i.dataHex = toHex i.data := by
  simp only [decodeTransaction, bind_eq_ok] at h
  obtain ⟨-, -, -, -, _, -, _, -, -, -, _, -, -, -, -, -, -, -, instructions, hixs, _, -, heq⟩ := h
  obtain rfl := Except.ok.inj heq
  exact dataHex_of_mapM hixs

/-- What one instruction does to the tally's limit or price: it sets it for the first time, or
leaves it. -/
theorem seen_tallyInstruction (b : BudgetItem) {t t' : Tally} {i : DecodedInstruction}
    (hhex : i.dataHex = toHex i.data) (h : tallyInstruction policy t i = .ok t') :
    if reads policy b (source i) then b.seen t = none ∧ b.seen t' = some (b.value (source i))
      else b.seen t' = b.seen t := by
  simp only [tallyInstruction, bind_eq_ok, orThrow_eq_ok, hhex] at h
  obtain ⟨-, -, rule, hrule, h⟩ := h
  simp only [reads, source, hrule, Option.any_some]
  cases heffect : rule.effect with
  | none =>
    rw [heffect] at h
    obtain rfl := Except.ok.inj h
    simp
  | spend spend =>
    simp only [heffect, tallySpend, bind_eq_ok] at h
    obtain ⟨-, -, amount, -, h⟩ := h
    obtain rfl := Except.ok.inj h
    cases b <;> simp [BudgetItem.seen]
  | fee =>
    simp only [heffect, tallyFee, readAmount] at h
    by_cases hlimit : rule.discriminator = SET_UNIT_LIMIT
    · simp only [if_pos hlimit, bind_eq_ok, throwIf_eq_ok] at h
      obtain ⟨-, hnone, limit, ⟨-, -, hread⟩, h⟩ := h
      obtain rfl := Except.ok.inj h
      obtain rfl := Except.ok.inj hread
      have hother : SET_UNIT_LIMIT ≠ SET_UNIT_PRICE := by decide
      cases b <;> simp_all [BudgetItem.seen, BudgetItem.tag, BudgetItem.value, BudgetItem.encoding]
    · rw [if_neg hlimit] at h
      by_cases hprice : rule.discriminator = SET_UNIT_PRICE
      · simp only [if_pos hprice, bind_eq_ok, throwIf_eq_ok] at h
        obtain ⟨-, hnone, price, ⟨-, -, hread⟩, h⟩ := h
        obtain rfl := Except.ok.inj h
        obtain rfl := Except.ok.inj hread
        cases b <;>
          simp_all [BudgetItem.seen, BudgetItem.tag, BudgetItem.value, BudgetItem.encoding]
      · rw [if_neg hprice] at h
        obtain rfl := Except.ok.inj h
        cases b <;> simp [hlimit, hprice, BudgetItem.tag]

/-- The whole scan: what the tally had before it stays, else it is read. -/
theorem seen_foldlM_tallyInstruction (b : BudgetItem) {t t' : Tally} {ixs : List DecodedInstruction}
    (hhex : ∀ i ∈ ixs, i.dataHex = toHex i.data)
    (h : ixs.foldlM (tallyInstruction policy) t = .ok t') :
    b.seen t' = (b.seen t).or (readFrom policy b (ixs.map source)) := by
  induction ixs generalizing t with
  | nil =>
    obtain rfl := Except.ok.inj h
    simp [readFrom]
  | cons i is ih =>
    simp only [List.foldlM_cons, bind_eq_ok] at h
    obtain ⟨t₁, hone, hrest⟩ := h
    have hstep := seen_tallyInstruction b (hhex i List.mem_cons_self) hone
    rw [ih (fun j hj => hhex j (List.mem_cons_of_mem _ hj)) hrest]
    by_cases hreads : reads policy b (source i) = true
    · rw [if_pos hreads] at hstep
      simp [hstep.1, hstep.2, readFrom, hreads]
    · rw [if_neg hreads] at hstep
      simp [hstep, readFrom, hreads]

/-- The fee the signer computes, from what its policy reads. -/
theorem evaluatePolicy_fee {wire feePayer : String} {decoded : DecodedTransaction}
    {ev : PolicyEvaluation} (hdecoded : decodeTransaction W enc wire = .ok decoded)
    (h : evaluatePolicy decoded policy feePayer = .ok ev) :
    ev.priorityFeeLamports = feeOf policy (decoded.instructions.map source) := by
  simp only [evaluatePolicy, bind_eq_ok] at h
  obtain ⟨-, -, t, htally, -, -, -, -, -, -, -, -, -, -, heq⟩ := h
  obtain rfl := Except.ok.inj heq
  have hseen := fun b => seen_foldlM_tallyInstruction b
    (dataHex_of_decoded hdecoded) htally
  have hlimit : t.explicitLimit = _ := hseen .limit
  have hprice : t.unitPrice = _ := hseen .price
  simp [feeOf, unitsOf, networkUnits, computeUnitLimitOf, hlimit, hprice, BudgetItem.seen]

/-- Fees are only read from the compute budget; a policy file that says otherwise is not loaded. -/
def ReadsBudgetOnly (policy : SignPolicy) : Prop :=
  ∀ rule ∈ policy.programs, rule.effect = .fee → rule.programId = COMPUTE_BUDGET_PROGRAM_ID

/-- The rule that was found is one of the policy's, for this program and these bytes. -/
theorem matchRule_spec {programId dataHex : String} {rule : SignerProgramRule}
    (h : (matchRule policy programId dataHex).1 = some rule) :
    rule ∈ policy.programs ∧ rule.programId = programId ∧
      startsWith dataHex rule.discriminator = true := by
  -- the best match so far satisfies it, whatever part of the policy was scanned
  suffices hscan : ∀ (rules : List SignerProgramRule) (acc : Option SignerProgramRule × Bool),
      (∀ r, acc.1 = some r → r ∈ policy.programs ∧ r.programId = programId ∧
        startsWith dataHex r.discriminator = true) → (∀ r ∈ rules, r ∈ policy.programs) →
      ∀ r, (rules.foldl (matchStep programId dataHex) acc).1 = some r →
        r ∈ policy.programs ∧ r.programId = programId ∧
          startsWith dataHex r.discriminator = true by
    exact hscan policy.programs (none, false) (by simp) (fun _ hr => hr) rule h
  intro rules
  induction rules with
  | nil => exact fun acc hacc _ r hr => hacc r hr
  | cons first rest ih =>
    intro acc hacc hrules r hr
    refine ih (matchStep programId dataHex acc first) ?_
      (fun r hr => hrules r (List.mem_cons_of_mem _ hr)) r hr
    intro r hr
    have hfirst := hrules first List.mem_cons_self
    unfold matchStep at hr
    split at hr
    · exact hacc r hr
    · rename_i hprogram
      split at hr
      · exact hacc r hr
      · rename_i hstarts
        rw [not_not] at hprogram hstarts
        split at hr
        · rename_i best hbest
          simp only at hr
          split at hr
          · obtain rfl := Option.some.inj hr
            exact ⟨hfirst, hprogram, hstarts⟩
          · obtain rfl := Option.some.inj hr
            exact hacc _ hbest
        · obtain rfl := Option.some.inj hr
          exact ⟨hfirst, hprogram, hstarts⟩

theorem hexDigit_injective {n m : Nat} (hn : n < 16) (hm : m < 16)
    (h : hexDigit n = hexDigit m) : n = m := by
  have hall : ∀ n m : Fin 16, hexDigit n = hexDigit m → n = m := by decide
  exact congrArg Fin.val (hall ⟨n, hn⟩ ⟨m, hm⟩ h)

/-- A tag is the two digits of its byte. -/
theorem tag_toList (b : BudgetItem) :
    b.tag.toList = [hexDigit (b.tagByte.toNat / 16), hexDigit (b.tagByte.toNat % 16)] := by
  cases b <;> decide

/-- Bytes whose hexadecimal form starts with a tag start with the tag's byte. -/
theorem head?_of_startsWith {b : BudgetItem} {data : Bytes}
    (h : startsWith (toHex data) b.tag = true) : data.head? = some b.tagByte := by
  rw [startsWith, tag_toList, toHex, String.toList_ofList] at h
  cases data with
  | nil => cases h
  | cons byte rest =>
    simp only [List.flatMap_cons, List.cons_append, List.isPrefixOf, Bool.and_eq_true,
      beq_iff_eq] at h
    obtain ⟨hhigh, hlow, -⟩ := h
    have hbyte := byte.toNat_lt
    have htag := b.tagByte.toNat_lt
    have hdiv := hexDigit_injective (by omega) (by omega) hhigh
    have hmod := hexDigit_injective (by omega) (by omega) hlow
    rw [List.head?_cons, UInt8.toNat_inj.mp (by omega : byte.toNat = b.tagByte.toNat)]

/-- What a policy takes for a compute-budget instruction is one. -/
theorem reads_spec {b : BudgetItem} {i : Instruction} (hpolicy : ReadsBudgetOnly policy)
    (h : reads policy b i = true) :
    i.programId = COMPUTE_BUDGET_PROGRAM_ID ∧ i.data.head? = some b.tagByte := by
  rw [reads, Option.any_eq_true] at h
  obtain ⟨rule, hrule, heffect⟩ := h
  simp only [Bool.and_eq_true, decide_eq_true_eq] at heffect
  obtain ⟨hmem, hprogram, hstarts⟩ := matchRule_spec hrule
  refine ⟨hprogram ▸ hpolicy rule hmem heffect.1, head?_of_startsWith ?_⟩
  rwa [heffect.2] at hstarts

/-- Of the one instruction that sets it, a policy reads what was set, or nothing. -/
theorem readFrom_eq {b : BudgetItem} {n : Nat} {ixs : List Instruction}
    (hpolicy : ReadsBudgetOnly policy) (hn : n < 256 ^ b.encoding.width) (hmem : b.set n ∈ ixs)
    (honly : ∀ i ∈ ixs, i.programId = COMPUTE_BUDGET_PROGRAM_ID →
      i.data.head? = some b.tagByte → i = b.set n) :
    readFrom policy b ixs = if reads policy b (b.set n) = true then some n else none := by
  rw [readFrom]
  split
  · rename_i hreads
    have hsome : (ixs.find? (reads policy b)).isSome = true := by
      rw [List.find?_isSome]
      exact ⟨_, hmem, hreads⟩
    obtain ⟨i, hi⟩ := Option.isSome_iff_exists.mp hsome
    obtain ⟨hprogram, htag⟩ := reads_spec hpolicy (List.find?_some hi)
    rw [hi, Option.map_some, honly i (List.mem_of_find?_eq_some hi) hprogram htag, value_set hn]
  · rename_i hreads
    rw [Option.map_eq_none_iff, List.find?_eq_none]
    intro i hi hreads'
    obtain ⟨hprogram, htag⟩ := reads_spec hpolicy hreads'
    exact hreads (honly i hi hprogram htag ▸ hreads')

end Read

/-! ### Agreement -/

/-- What is declared for a limit and a price that a policy reads is what is paid if there is
nothing to round. Of what it does not read, it takes no price, or the network's limit. -/
def Rounds (policy : SignPolicy) (cuLimit : Nat) (microLamports : Int)
    (instructions : Nat) : Prop :=
  if reads policy .price (BudgetItem.set .price microLamports.toNat) = false then
    microLamports * cuLimit < 1000000
  else if reads policy .limit (BudgetItem.set .limit cuLimit) = true then
    1000000 ∣ microLamports * cuLimit
  else
    microLamports * cuLimit / 1000000 =
      (microLamports * networkUnits instructions + 999999) / 1000000

/-- A fee that is written as a price is what is paid at a million units, or if it is so small
that rounding up makes up for the difference. -/
def PricePays (policy : SignPolicy) (ixs : List Instruction) (fee : Int) : Prop :=
  fee = 0 ∨ reads policy .price (BudgetItem.set .price fee.toNat) = true ∧
    unitsOf policy ixs ≤ 1000000 ∧ (1000000 - unitsOf policy ixs : Int) * fee < 1000000

section Agreement

variable {policy : SignPolicy} {W : Web3} {enc : Encodings} {cb : ComputeBudgetProgram}
  {compile : Compile} {sdk : BuildTransaction}

/-- Rounding down is rounding up exactly where there is nothing to round. -/
theorem floor_eq_ceil_iff {n : Int} : n / 1000000 = (n + 999999) / 1000000 ↔ 1000000 ∣ n := by
  omega

theorem natCast_ceil (units price : Nat) :
    (((units * price + 999999) / 1000000 : Nat) : Int) = (price * units + 999999) / 1000000 := by
  push_cast
  rw [mul_comm (units : Int)]

/-- A price is what is paid for that many units iff the units short of a million cost less than
one lamport. -/
theorem price_eq_ceil_iff {units price : Nat} :
    (price : Int) = ((units * price + 999999) / 1000000 : Nat) ↔
      (price : Int) = 0 ∨ units ≤ 1000000 ∧ (1000000 - units : Int) * price < 1000000 := by
  have hceil : (price : Int) = ((units * price + 999999) / 1000000 : Nat) ↔
      units * price ≤ 1000000 * price ∧ 1000000 * price < units * price + 1000000 := by
    generalize units * price = paid
    omega
  have hshort : (1000000 - units : Int) * price < 1000000 ↔
      1000000 * price < units * price + 1000000 := by
    rw [sub_mul]
    zify
    constructor <;> intro h <;> linarith
  rw [hceil, hshort]
  rcases Nat.eq_zero_or_pos price with rfl | hpos
  · simp
  · have hne : price ≠ 0 := hpos.ne'
    rw [Nat.mul_le_mul_right_iff hpos]
    simp [hne]

theorem withBudget_eq_ok (hcb : cb.Documented) {cuLimit : Nat} {microLamports : Int}
    {ixs all : List Instruction} (h : withBudget cb cuLimit microLamports ixs = .ok all) :
    all = BudgetItem.set .limit cuLimit :: BudgetItem.set .price microLamports.toNat :: ixs ∧
      cuLimit < 2 ^ 32 ∧ 0 ≤ microLamports ∧ microLamports < 2 ^ 64 := by
  simp only [withBudget, bind_eq_ok] at h
  obtain ⟨limit, hlimit, -, -, price, hprice, heq⟩ := h
  obtain rfl := Except.ok.inj heq
  obtain ⟨rfl, hbound⟩ := hcb.limit _ _ hlimit
  obtain ⟨rfl, hrange⟩ := hcb.price _ _ hprice
  exact ⟨rfl, hbound, hrange⟩

/-- Of the instructions behind a compute budget a policy reads that budget, or nothing. -/
theorem feeOf_withBudget (hpolicy : ReadsBudgetOnly policy) {cuLimit : Nat} {microLamports : Int}
    {ixs : List Instruction} (hown : ∀ i ∈ ixs, i.programId ≠ COMPUTE_BUDGET_PROGRAM_ID)
    (hlimit : cuLimit < 2 ^ 32) (hpos : 0 ≤ microLamports) (hprice : microLamports < 2 ^ 64) :
    lamportsFor microLamports cuLimit = (feeOf policy (BudgetItem.set .limit cuLimit ::
        BudgetItem.set .price microLamports.toNat :: ixs) : Int) ↔
      Rounds policy cuLimit microLamports (ixs.length + 2) := by
  obtain ⟨price, rfl⟩ := Int.eq_ofNat_of_zero_le hpos
  rw [Int.toNat_natCast]
  -- each of the two is read from its own instruction, since no other is of the budget program
  have hreadLimit : readFrom policy .limit
      (BudgetItem.set .limit cuLimit :: BudgetItem.set .price price :: ixs) =
        if reads policy .limit (BudgetItem.set .limit cuLimit) = true then some cuLimit else none := by
    refine readFrom_eq hpolicy (by simpa [BudgetItem.encoding, AmountEncoding.width] using hlimit)
      List.mem_cons_self ?_
    simp only [List.mem_cons]
    rintro i (rfl | rfl | hi) hprogram htag
    · rfl
    · cases htag
    · exact absurd hprogram (hown i hi)
  have hreadPrice : readFrom policy .price
      (BudgetItem.set .limit cuLimit :: BudgetItem.set .price price :: ixs) =
        if reads policy .price (BudgetItem.set .price price) = true then some price else none := by
    refine readFrom_eq hpolicy (by simpa [BudgetItem.encoding, AmountEncoding.width] using hprice)
      (List.mem_cons_of_mem _ List.mem_cons_self) ?_
    simp only [List.mem_cons]
    rintro i (rfl | rfl | hi) hprogram htag
    · cases htag
    · rfl
    · exact absurd hprogram (hown i hi)
  have hlength (a b : Instruction) : (a :: b :: ixs).length = ixs.length + 2 := rfl
  rw [feeOf, unitsOf, hreadLimit, hreadPrice, Rounds, lamportsFor, Int.toNat_natCast, hlength]
  -- what the policy sees of the two decides how the fee is rounded
  cases hseesPrice : reads policy .price (BudgetItem.set .price price) with
  | false =>
    simp only [Bool.false_eq_true, if_false, if_true, Option.getD_none, Nat.mul_zero]
    have hnonneg : 0 ≤ (price : Int) * cuLimit := by positivity
    omega
  | true =>
    cases hseesLimit : reads policy .limit (BudgetItem.set .limit cuLimit) with
    | false =>
      simp only [Bool.false_eq_true, if_false, if_true, reduceCtorEq]
      rw [Option.getD_none, Option.getD_some, natCast_ceil]
    | true =>
      simp only [if_true, Option.getD_some, reduceCtorEq, if_false]
      rw [natCast_ceil, floor_eq_ceil_iff]

/-- Exactly when each of the builders declares the fee that the signer finds in what it built. -/
theorem declared_iff_paid (hcb : cb.Documented) (hcompile : Carries W enc compile)
    (hsdk : SetsPrice W enc sdk) (hpolicy : ReadsBudgetOnly policy) {decoded : DecodedTransaction}
    {feePayer wire : String} {ev : PolicyEvaluation}
    (hdecoded : decodeTransaction W enc wire = .ok decoded)
    (hev : evaluatePolicy decoded policy feePayer = .ok ev) :
    (∀ args built, buildUnsignedTx cb compile args = .ok built → built.unsignedTxBase64 = wire →
      (∀ i ∈ args.instructions, i.programId ≠ COMPUTE_BUDGET_PROGRAM_ID) →
      (built.priorityFeeLamports = ev.priorityFeeLamports ↔
        Rounds policy (args.computeUnitLimit.getD DEFAULT_CU_LIMIT)
          (microLamportsFor args.priorityFeeLamports (args.computeUnitLimit.getD DEFAULT_CU_LIMIT))
          (args.instructions.length + 2))) ∧
    (∀ blockhash ixs extraSigners description payer fee drafted,
      draft cb compile blockhash ixs extraSigners description payer fee = .ok drafted →
      drafted.unsignedTxBase64 = wire →
      (∀ i ∈ ixs, i.programId ≠ COMPUTE_BUDGET_PROGRAM_ID) →
      (drafted.priorityFeeLamports = ev.priorityFeeLamports ↔
        Rounds policy DRAFT_CU_LIMIT (microLamportsFor (.ofInt (max 0 fee)) DRAFT_CU_LIMIT)
          (ixs.length + 2))) ∧
    (∀ blockhash ixs asked configured order,
      assemble sdk blockhash ixs asked configured = .ok order → order.unsignedTxBase64 = wire →
      (order.priorityFeeLamports = ev.priorityFeeLamports ↔
        PricePays policy (decoded.instructions.map source)
          ((asked.or configured).getD DEFAULT_PRIORITY_FEE_LAMPORTS))) := by
  rw [evaluatePolicy_fee hdecoded hev]
  refine ⟨?_, ?_, ?_⟩
  · -- the transactions of this package begin with a limit and a price
    rintro args built hbuilt rfl hown
    simp only [buildUnsignedTx, bind_eq_ok] at hbuilt
    obtain ⟨-, -, all, hall, wire, hwire, heq⟩ := hbuilt
    obtain rfl := Except.ok.inj heq
    obtain ⟨rfl, hlimit, hpos, hprice⟩ := withBudget_eq_ok hcb hall
    rw [hcompile _ _ _ _ _ hwire hdecoded]
    exact feeOf_withBudget hpolicy hown hlimit hpos hprice
  · rintro blockhash ixs extraSigners description payer fee drafted hdrafted rfl hown
    simp only [draft, bind_eq_ok] at hdrafted
    obtain ⟨all, hall, wire, hwire, heq⟩ := hdrafted
    obtain rfl := Except.ok.inj heq
    obtain ⟨rfl, hlimit, hpos, hprice⟩ := withBudget_eq_ok hcb hall
    rw [hcompile _ _ _ _ _ hwire hdecoded]
    exact feeOf_withBudget hpolicy hown hlimit hpos hprice
  · -- the transaction of the library holds a price and nothing else that sets one
    rintro blockhash ixs asked configured order horder rfl
    simp only [assemble, bind_eq_ok] at horder
    obtain ⟨wire, hwire, heq⟩ := horder
    obtain rfl := Except.ok.inj heq
    obtain ⟨hpos, hprice, hmem, honly⟩ := hsdk _ _ _ _ _ hwire hdecoded
    simp only
    generalize (asked.or configured).getD DEFAULT_PRIORITY_FEE_LAMPORTS = fee at *
    obtain ⟨price, rfl⟩ := Int.eq_ofNat_of_zero_le hpos
    rw [Int.toNat_natCast] at hmem honly
    rw [feeOf, readFrom_eq (b := .price) hpolicy
      (by simpa [BudgetItem.encoding, AmountEncoding.width] using hprice) hmem honly, PricePays,
      Int.toNat_natCast]
    cases reads policy .price (BudgetItem.set .price price) with
    | false =>
      simp only [Bool.false_eq_true, if_false, Option.getD_none, Nat.mul_zero, false_and, or_false]
      omega
    | true =>
      simp only [if_true, Option.getD_some, true_and]
      exact price_eq_ceil_iff

end Agreement

/-! ### A liquidity action -/

section Sample

/-- A compute budget of 600000 units at this price, and one instruction of a venue. -/
def sampleInstructions (price : Nat) : List Instruction :=
  [BudgetItem.set .limit 600000, BudgetItem.set .price price, ⟨"venue", [9]⟩]

def sampleBudget : ComputeBudgetProgram where
  setComputeUnitLimit units :=
    if units < 2 ^ 32 then .ok (BudgetItem.set .limit units) else .error "out of range"
  setComputeUnitPrice price :=
    if 0 ≤ price ∧ price < 2 ^ 64 then .ok (BudgetItem.set .price price.toNat)
    else .error "out of range"

def sampleTransaction (price : Nat) : VersionedTransaction where
  message :=
    { version := .version 0, numRequiredSignatures := 1
      staticAccountKeys := ["payer", COMPUTE_BUDGET_PROGRAM_ID, "venue"], recentBlockhash := "hash"
      compiledInstructions :=
        [⟨1, [], (BudgetItem.set .limit 600000).data⟩, ⟨1, [], (BudgetItem.set .price price).data⟩,
          ⟨2, [], [9]⟩]
      addressTableLookups := [] }
  signatures := [List.replicate 64 0]

def sampleWeb3 (price : Nat) : Web3 where
  deserialize raw := if raw = [1] then .ok (sampleTransaction price) else .error "invalid"
  serialize tx := if tx = sampleTransaction price then .ok [1] else .error "invalid"
  serializeMessage _ := .ok [1]

def sampleEncodings : Encodings where
  fromBase64 text := if text = "AQ==" then [1] else []
  toBase64 _ := "AQ=="
  base58 _ := "signature"
  sha256 _ := "ab"

/-- A transaction library that writes this one transaction. -/
def sampleCompile (price : Nat) : Compile := fun payer blockhash ixs =>
  if payer = "payer" ∧ blockhash = "hash" ∧ ixs = sampleInstructions price then .ok "AQ=="
  else .error "invalid"

/-- An SDK that writes the same transaction for a venue's order. -/
def sampleSdk (written : Nat) : BuildTransaction := fun ixs price blockhash =>
  if ixs = [⟨"venue", [9]⟩] ∧ price = written ∧ blockhash = "hash" then .ok "AQ=="
  else .error "invalid"

def samplePolicy : SignPolicy where
  feePayers := ["payer"]
  programs := [⟨COMPUTE_BUDGET_PROGRAM_ID, SET_UNIT_LIMIT, .fee⟩,
    ⟨COMPUTE_BUDGET_PROGRAM_ID, SET_UNIT_PRICE, .fee⟩, ⟨"venue", "09", .none⟩]
  caps := []
  maxInstructions := 8
  maxAccountKeys := 8
  maxRequiredSignatures := 1
  maxComputeUnitLimit := 1400000
  maxComputeUnitPriceMicroLamports := 1000000
  maxPriorityFeeLamports := 1000000
  maxPriorityFeeBps := none
  addressLookupTables := []

def sampleDecoded (price : Nat) : DecodedTransaction where
  version := .version 0
  feePayer := "payer"
  recentBlockhash := "hash"
  numRequiredSignatures := 1
  staticAccountKeys := ["payer", COMPUTE_BUDGET_PROGRAM_ID, "venue"]
  signatures := [none]
  addressTableLookups := []
  instructions := (sampleInstructions price).zipWith (fun i n =>
    ⟨i.programId, n, [], [], i.data, toHex i.data⟩) [1, 1, 2]
  messageBytes := [1]
  messageBase64 := "AQ=="
  messageHash := "0xab"
  wireBase64 := "AQ=="
  transaction := sampleTransaction price

theorem samplePolicy_readsBudgetOnly : ReadsBudgetOnly samplePolicy := by
  unfold ReadsBudgetOnly
  decide

theorem sampleBudget_documented : sampleBudget.Documented where
  limit units ix h := by
    simp only [sampleBudget] at h
    split at h
    · exact ⟨(Except.ok.inj h).symm, by assumption⟩
    · cases h
  price price ix h := by
    simp only [sampleBudget] at h
    split at h
    · exact ⟨(Except.ok.inj h).symm, by assumption⟩
    · cases h

theorem decode_sample_three :
    decodeTransaction (sampleWeb3 3) sampleEncodings "AQ==" = .ok (sampleDecoded 3) := by
  decide

theorem decode_sample_five :
    decodeTransaction (sampleWeb3 5) sampleEncodings "AQ==" = .ok (sampleDecoded 5) := by
  decide

theorem evaluate_sample_five :
    evaluatePolicy (sampleDecoded 5) samplePolicy "payer" = .ok ⟨[], 600000, 5, 3⟩ := by
  decide

theorem sampleCompile_carries : Carries (sampleWeb3 5) sampleEncodings (sampleCompile 5) := by
  intro payer blockhash ixs wire decoded hwire hdecoded
  simp only [sampleCompile] at hwire
  split at hwire
  · rename_i hcompiled
    obtain rfl := Except.ok.inj hwire
    obtain rfl := Except.ok.inj (decode_sample_five.symm.trans hdecoded)
    rw [hcompiled.2.2]
    decide
  · cases hwire

theorem sampleSdk_setsPrice : SetsPrice (sampleWeb3 5) sampleEncodings (sampleSdk 5) := by
  intro ixs price blockhash wire decoded hwire hdecoded
  simp only [sampleSdk] at hwire
  split at hwire
  · rename_i hbuilt
    obtain rfl := Except.ok.inj hwire
    obtain rfl := Except.ok.inj (decode_sample_five.symm.trans hdecoded)
    rw [hbuilt.2.1]
    refine ⟨by decide +kernel, by decide +kernel, by decide +kernel, ?_⟩
    decide +kernel
  · cases hwire

/-- Three lamports are five micro-lamports for each of the 600000 units, with nothing to round. -/
theorem declared_iff_paid_sample :
    ∃ drafted ev, draft sampleBudget (sampleCompile 5) ("hash", 100) [⟨"venue", [9]⟩] [] ""
        "payer" 3 = .ok drafted ∧
      evaluatePolicy (sampleDecoded 5) samplePolicy "payer" = .ok ev ∧
      drafted.priorityFeeLamports = ev.priorityFeeLamports := by
  refine ⟨⟨"AQ==", "hash", 100, 3, [], ""⟩, ⟨[], 600000, 5, 3⟩, by decide +kernel,
    evaluate_sample_five, ?_⟩
  refine ((declared_iff_paid sampleBudget_documented sampleCompile_carries sampleSdk_setsPrice
    samplePolicy_readsBudgetOnly decode_sample_five evaluate_sample_five).2.1 ("hash", 100)
    [⟨"venue", [9]⟩] [] "" "payer" 3 _ (by decide +kernel) rfl (by decide +kernel)).mpr ?_
  simp only [Rounds]
  decide +kernel

/-- Two lamports for 600000 units are three micro-lamports a unit: both builders that know of
units declare one lamport, and two are paid. An order for three lamports is written as three
micro-lamports a unit, and two are paid for it. -/
theorem declared_below_paid :
    decodeTransaction (sampleWeb3 3) sampleEncodings "AQ==" = .ok (sampleDecoded 3) ∧
    (evaluatePolicy (sampleDecoded 3) samplePolicy "payer").map (·.priorityFeeLamports) = .ok 2 ∧
    buildUnsignedTx sampleBudget (sampleCompile 3)
      ⟨"payer", [⟨"venue", [9]⟩], "hash", .ofInt 2, some 600000⟩ = .ok ⟨"AQ==", "hash", 1, 600000⟩ ∧
    draft sampleBudget (sampleCompile 3) ("hash", 100) [⟨"venue", [9]⟩] [] "" "payer" 2 =
      .ok ⟨"AQ==", "hash", 100, 1, [], ""⟩ ∧
    assemble (sampleSdk 3) ("hash", 100) [⟨"venue", [9]⟩] (some 3) none =
      .ok ⟨"AQ==", "hash", 100, 3⟩ := by
  refine ⟨decode_sample_three, ?_, ?_, ?_, ?_⟩ <;> decide +kernel

end Sample

end AriOs.Pools
