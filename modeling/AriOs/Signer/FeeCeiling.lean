import AriOs.Signer.PolicySoundness
import Mathlib.Data.List.Find

/-!
# The signer's fee ceilings

The evaluation reads the compute-unit limit and price where a `fee` rule matches, and holds what
it read against the policy's ceilings. Every other effect is the operator's assertion about an
instruction, and the evaluation takes it at its word: a rule that says that the instruction
which sets the price cannot move value keeps the price from being read. Where every instruction
that sets the limit or the price is matched by a `fee` rule, the ceilings hold of what the
network will charge.
-/

namespace AriOs.Signer

open AriOs.Js AriOs.Pools

/-- The instruction sets the limit or the price: the program, the tag, and a number behind it. -/
def sets (b : BudgetItem) (ix : Instruction) : Bool :=
  ix.programId = COMPUTE_BUDGET_PROGRAM_ID && ix.data.head? = some b.tagByte &&
    b.encoding.width < ix.data.length

/-- What the network takes for the limit or the price. -/
def networkReads (b : BudgetItem) (ixs : List Instruction) : Option Nat :=
  (ixs.find? (sets b)).map b.value

/-- The price per compute unit, in micro-lamports; a transaction that sets none pays none. -/
def networkPrice (ixs : List Instruction) : Nat := (networkReads .price ixs).getD 0

/-- The compute-unit limit, set or given. -/
def networkLimit (ixs : List Instruction) : Nat :=
  (networkReads .limit ixs).getD (networkUnits ixs.length)

/-- The priority fee in lamports, rounded up. -/
def networkFee (ixs : List Instruction) : Nat :=
  (networkLimit ixs * networkPrice ixs + 999999) / 1000000

/-- Every instruction that sets the limit or the price is matched by a `fee` rule. -/
def ReadAsFees (policy : SignPolicy) (decoded : DecodedTransaction) : Prop :=
  ∀ ix ∈ decoded.instructions, ∀ b, sets b (source ix) = true → ∀ rule,
    Longest policy.programs ix.programId ix.dataHex rule → rule.effect = .fee

section Reading

variable {policy : SignPolicy}

/-- An instruction that a policy reads a number out of has that number. -/
theorem width_lt_of_reads {b : BudgetItem} {t t' : Tally} {ix : DecodedInstruction}
    (hhex : ix.dataHex = toHex ix.data) (h : tallyInstruction policy t ix = .ok t')
    (hreads : reads policy b (source ix) = true) : b.encoding.width < ix.data.length := by
  simp only [tallyInstruction, bind_eq_ok, orThrow_eq_ok, hhex] at h
  obtain ⟨-, -, rule, hrule, h⟩ := h
  simp only [reads, source, hrule, Option.any_some, Bool.and_eq_true, decide_eq_true_eq] at hreads
  obtain ⟨heffect, htag⟩ := hreads
  simp only [heffect, tallyFee, htag, readAmount] at h
  cases b with
  -- both amounts are read behind the tag, from data that is long enough
  | limit =>
    rw [if_pos (show BudgetItem.tag .limit = SET_UNIT_LIMIT from rfl)] at h
    simp only [bind_eq_ok, throwIf_eq_ok] at h
    obtain ⟨-, -, _, ⟨-, hlen, -⟩, -⟩ := h
    simp only [BudgetItem.encoding]
    omega
  | price =>
    rw [if_neg (show BudgetItem.tag .price ≠ SET_UNIT_LIMIT by decide),
      if_pos (show BudgetItem.tag .price = SET_UNIT_PRICE from rfl)] at h
    simp only [bind_eq_ok, throwIf_eq_ok] at h
    obtain ⟨-, -, _, ⟨-, hlen, -⟩, -⟩ := h
    simp only [BudgetItem.encoding]
    omega

theorem width_lt_of_foldlM {b : BudgetItem} {t t' : Tally} {ixs : List DecodedInstruction}
    (hhex : ∀ ix ∈ ixs, ix.dataHex = toHex ix.data)
    (h : ixs.foldlM (tallyInstruction policy) t = .ok t') :
    ∀ ix ∈ ixs, reads policy b (source ix) = true → b.encoding.width < ix.data.length := by
  induction ixs generalizing t with
  | nil => simp
  | cons first rest ih =>
    simp only [List.foldlM_cons, bind_eq_ok] at h
    obtain ⟨t₁, hone, hrest⟩ := h
    intro ix hix hreads
    rcases List.mem_cons.mp hix with rfl | hix
    · exact width_lt_of_reads (hhex ix List.mem_cons_self) hone hreads
    · exact ih (fun i hi => hhex i (List.mem_cons_of_mem _ hi)) hrest ix hix hreads

/-- A `fee` rule that matches an instruction with the tag is the one that reads it. -/
theorem tag_of_fee (hload : Loadable policy) {b : BudgetItem} {rule : SignerProgramRule}
    {data : Bytes} (hmem : rule ∈ policy.programs) (hfee : rule.effect = .fee)
    (hstart : startsWith (toHex data) rule.discriminator = true)
    (hhead : data.head? = some b.tagByte) : rule.discriminator = b.tag := by
  rcases (hload.fee rule hmem hfee).2 with hdisc | hdisc
  · cases b with
    | limit => exact hdisc
    | price =>
      have hother := head?_of_startsWith (b := .limit) (hdisc ▸ hstart)
      rw [hhead] at hother
      exact absurd hother (by decide)
  · cases b with
    | price => exact hdisc
    | limit =>
      have hother := head?_of_startsWith (b := .price) (hdisc ▸ hstart)
      rw [hhead] at hother
      exact absurd hother (by decide)

/-- What a policy reads out of an accepted transaction is what the network reads. -/
theorem readFrom_eq_networkReads (hload : Loadable policy) {decoded : DecodedTransaction}
    {t' : Tally} (hhex : ∀ ix ∈ decoded.instructions, ix.dataHex = toHex ix.data)
    (h : decoded.instructions.foldlM (tallyInstruction policy) {} = .ok t')
    (hfees : ReadAsFees policy decoded) (b : BudgetItem) :
    readFrom policy b (decoded.instructions.map source) =
      networkReads b (decoded.instructions.map source) := by
  have hbudget : ReadsBudgetOnly policy := fun rule hmem hfee => (hload.fee rule hmem hfee).1
  -- of one instruction: it is read as a fee exactly if the network takes it as one
  have hall : ∀ ix ∈ decoded.instructions,
      reads policy b (source ix) = sets b (source ix) := by
    intro ix hix
    rw [Bool.eq_iff_iff]
    constructor
    · intro hreads
      obtain ⟨hprogram, hhead⟩ := reads_spec hbudget hreads
      have hwidth := width_lt_of_foldlM hhex h ix hix hreads
      simp only [sets, source] at hprogram hhead ⊢
      simp [hprogram, hhead, hwidth]
    · intro hsets
      obtain ⟨rule, hrule, -⟩ := (foldlM_tallyInstruction_spec h).1 ix hix
      have hlongest := (matchRule_eq_some_iff hload.keys).mp hrule
      have hfee := hfees ix hix b hsets rule hlongest
      have hhead : ix.data.head? = some b.tagByte := by
        rw [sets, Bool.and_eq_true, Bool.and_eq_true] at hsets
        exact of_decide_eq_true hsets.1.2
      have hstart := hlongest.2.1.2
      rw [hhex ix hix] at hstart hrule
      have htag := tag_of_fee hload hlongest.1 hfee hstart hhead
      simp [reads, source, hrule, hfee, htag]
  -- so both take the same instruction as the first
  have hfind : (decoded.instructions.map source).find? (reads policy b) =
      (decoded.instructions.map source).find? (sets b) := by
    refine List.find?_congr fun i hi => ?_
    obtain ⟨ix, hix, rfl⟩ := List.mem_map.mp hi
    exact hall ix hix
  rw [readFrom, networkReads, hfind]

end Reading

/-- **Fee ceilings.** Of a transaction that a loaded policy accepts, with every instruction that
sets the limit or the price down as a fee, the price the network reads and the fee it charges
are within the policy's ceilings. -/
theorem fee_ceilings_hold (host : PolicyHost) (file : PolicyFile) (policy : LoadedSignPolicy)
    (hload : loadSignPolicy host file = .ok policy) (W : Web3) (enc : Encodings) (wire : String)
    (decoded : DecodedTransaction) (hdecoded : decodeTransaction W enc wire = .ok decoded)
    (payer : String) (ev : PolicyEvaluation)
    (heval : evaluatePolicy decoded policy.toSignPolicy payer = .ok ev)
    (hfees : ReadAsFees policy.toSignPolicy decoded) :
    networkPrice (decoded.instructions.map source) ≤ policy.maxComputeUnitPriceMicroLamports ∧
      networkFee (decoded.instructions.map source) ≤ policy.maxPriorityFeeLamports := by
  have hhex := dataHex_of_decoded hdecoded
  simp only [evaluatePolicy, bind_eq_ok, throwIf_eq_ok, not_lt] at heval
  obtain ⟨-, -, t, htally, -, -, -, hprice, -, hfee, -⟩ := heval
  have hread := readFrom_eq_networkReads (loadable_of_loadSignPolicy hload) hhex htally hfees
  have hseen := fun b => seen_foldlM_tallyInstruction b hhex htally
  have hlimit : t.explicitLimit = networkReads .limit (decoded.instructions.map source) :=
    (hseen .limit).trans (hread .limit)
  have hunit : t.unitPrice = networkReads .price (decoded.instructions.map source) :=
    (hseen .price).trans (hread .price)
  rw [hunit] at hprice hfee
  refine ⟨hprice, ?_⟩
  simpa only [networkFee, networkLimit, networkPrice, networkUnits, computeUnitLimitOf, hlimit,
    List.length_map] using hfee

/-! ### Two policies -/

/-- Libraries that know one transaction of the payer, which has these instructions. -/
def sampleWeb3 (ixs : List (String × Bytes)) : Web3 where
  deserialize _ := .ok ⟨⟨.legacy, 1, "payer" :: ixs.map Prod.fst, "hash",
    ixs.zipIdx.map fun ix => ⟨ix.2 + 1, [], ix.1.2⟩, []⟩, [[]]⟩
  serialize _ := .ok [1]
  serializeMessage _ := .ok [7]

def sampleEncodings : Encodings where
  fromBase64 _ := [1]
  toBase64 _ := "AQ=="
  base58 _ := "signature"
  sha256 _ := "ab"

/-- A price of five micro-lamports. -/
def samplePriceInstruction : String × Bytes :=
  (COMPUTE_BUDGET_PROGRAM_ID, [3, 5, 0, 0, 0, 0, 0, 0, 0])

/-- The price, and an instruction of another program. -/
def samplePriced : List (String × Bytes) := [samplePriceInstruction, ("program", [1])]

/-- What the transaction is decoded to. -/
def samplePricedTransaction : DecodedTransaction :=
  ((decodeTransaction (sampleWeb3 samplePriced) sampleEncodings "AQ==").toOption).getD
    (sampleDecodedTransaction [])

/-- With the price down as a fee, the ceilings hold. -/
theorem fee_ceilings_hold_sample :
    networkPrice (samplePricedTransaction.instructions.map source) ≤ 5 ∧
      networkFee (samplePricedTransaction.instructions.map source) ≤ 7 := by
  have hload : loadSignPolicy
      (samplePolicyHost [sampleRule COMPUTE_BUDGET_PROGRAM_ID "03" "fee",
        sampleRule "program" "01" "none"]) samplePolicyFile =
      .ok (sampleLoadedPolicy [⟨COMPUTE_BUDGET_PROGRAM_ID, "03", .fee⟩,
        ⟨"program", "01", .none⟩]) := by decide
  have hdecoded : decodeTransaction (sampleWeb3 samplePriced) sampleEncodings "AQ==" =
      .ok samplePricedTransaction := by decide
  refine fee_ceilings_hold _ _ _ hload _ _ _ _ hdecoded "payer" ⟨[], 400000, 5, 2⟩
    (by decide) ?_
  -- the longest match is the one the scan finds
  intro ix hix b hsets rule hlongest
  rw [← matchRule_eq_some_iff (loadable_of_loadSignPolicy hload).keys] at hlongest
  have hall : ∀ ix ∈ samplePricedTransaction.instructions,
      (sets .limit (source ix) || sets .price (source ix)) = true →
      (matchRule (sampleLoadedPolicy [⟨COMPUTE_BUDGET_PROGRAM_ID, "03", .fee⟩,
        ⟨"program", "01", .none⟩]).toSignPolicy ix.programId ix.dataHex).1 =
        some ⟨COMPUTE_BUDGET_PROGRAM_ID, "03", .fee⟩ := by decide
  have hfound := hall ix hix (by cases b <;> simp [hsets])
  obtain rfl := Option.some.inj (hlongest.symm.trans hfound)
  rfl

/-- The operator says of the instruction that sets the price that it cannot move value: a price
above the ceiling is accepted. -/
theorem price_above_ceiling :
    ∃ (host : PolicyHost) (policy : LoadedSignPolicy) (W : Web3) (decoded : DecodedTransaction)
      (ev : PolicyEvaluation), loadSignPolicy host samplePolicyFile = .ok policy ∧
      decodeTransaction W sampleEncodings "AQ==" = .ok decoded ∧
      evaluatePolicy decoded policy.toSignPolicy "payer" = .ok ev ∧
      policy.maxComputeUnitPriceMicroLamports < networkPrice (decoded.instructions.map source) := by
  refine ⟨samplePolicyHost [sampleRule COMPUTE_BUDGET_PROGRAM_ID "03" "none"],
    sampleLoadedPolicy [⟨COMPUTE_BUDGET_PROGRAM_ID, "03", .none⟩],
    sampleWeb3 [(COMPUTE_BUDGET_PROGRAM_ID, [3, 6, 0, 0, 0, 0, 0, 0, 0])],
    ((decodeTransaction (sampleWeb3 [(COMPUTE_BUDGET_PROGRAM_ID, [3, 6, 0, 0, 0, 0, 0, 0, 0])])
      sampleEncodings "AQ==").toOption).getD (sampleDecodedTransaction []),
    ⟨[], 200000, 0, 0⟩, ?_, ?_, ?_, ?_⟩ <;> decide

end AriOs.Signer
