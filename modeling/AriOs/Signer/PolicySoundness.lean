import AriOs.Signer.PolicyFile
import Mathlib.Data.List.Induction

/-!
# What the signer's policy guarantees

The scan over the rules keeps the longest matching discriminator it has seen. In a policy that
was loaded no two rules of a program have the same one, so of all the rules that match an
instruction one is longest, in whatever order they are listed. The evaluation applies that rule
to every instruction and adds up what the spend rules extract, asset by asset.
-/

namespace AriOs.Signer

open AriOs.Arith AriOs.Js

/-- The rule is about this program, and its discriminator starts these bytes. -/
def SignerProgramRule.Matches (rule : SignerProgramRule) (programId dataHex : String) : Prop :=
  rule.programId = programId ∧ startsWith dataHex rule.discriminator = true

/-- The rule matches, and no matching rule has a longer discriminator. -/
def Longest (rules : List SignerProgramRule) (programId dataHex : String)
    (rule : SignerProgramRule) : Prop :=
  rule ∈ rules ∧ rule.Matches programId dataHex ∧ ∀ other ∈ rules,
    other.Matches programId dataHex → textLength other.discriminator ≤ textLength rule.discriminator

/-! ### Texts that start the same text -/

theorem codeUnits_ne_nil (c : Char) : codeUnits c ≠ [] := by
  unfold codeUnits
  split <;> simp

theorem textLength_append (p q : List Char) :
    textLength (String.ofList (p ++ q)) =
      textLength (String.ofList p) + (q.flatMap codeUnits).length := by
  simp [textLength, utf16]

/-- Of two texts of the same length that start the same text, one is the other. -/
theorem eq_of_startsWith {s d d' : String} (hd : startsWith s d = true)
    (hd' : startsWith s d' = true) (hlen : textLength d = textLength d') : d = d' := by
  have haux : ∀ {e e' : String}, e.toList <+: e'.toList → textLength e = textLength e' →
      e = e' := by
    rintro e e' ⟨r, hr⟩ hlen
    have hsplit := textLength_append e.toList r
    rw [hr, String.ofList_toList, String.ofList_toList, ← hlen] at hsplit
    have hzero : (r.flatMap codeUnits).length = 0 := by omega
    cases r with
    | nil => exact String.toList_inj.mp (by simpa using hr)
    | cons c r =>
      have hc := codeUnits_ne_nil c
      simp [hc] at hzero
  rw [startsWith, List.isPrefixOf_iff_prefix] at hd hd'
  rcases List.prefix_or_prefix_of_prefix hd hd' with hpre | hpre
  · exact haux hpre hlen
  · exact (haux hpre hlen.symm).symm

/-! ### The scan -/

section Scan

variable {policy : SignPolicy} {programId dataHex : String}

instance (rule : SignerProgramRule) : Decidable (rule.Matches programId dataHex) :=
  inferInstanceAs (Decidable (_ ∧ _))

/-- The longer of the best match so far and a new one; the first of two equally long ones. -/
def longer (best : Option SignerProgramRule) (rule : SignerProgramRule) : SignerProgramRule :=
  match best with
  | some best => if textLength rule.discriminator > textLength best.discriminator then rule else best
  | none => rule

theorem matchStep_fst (acc : Option SignerProgramRule × Bool) (rule : SignerProgramRule) :
    (matchStep programId dataHex acc rule).1 =
      if rule.Matches programId dataHex then some (longer acc.1 rule) else acc.1 := by
  obtain ⟨best, seen⟩ := acc
  by_cases hprogram : rule.programId = programId
  · by_cases hstart : startsWith dataHex rule.discriminator = true
    · cases best with
      | none => simp [matchStep, SignerProgramRule.Matches, hprogram, hstart, longer]
      | some b =>
        by_cases hlonger : textLength rule.discriminator > textLength b.discriminator <;>
          simp [matchStep, SignerProgramRule.Matches, hprogram, hstart, longer, hlonger]
    · simp [matchStep, SignerProgramRule.Matches, hprogram, hstart]
  · simp [matchStep, SignerProgramRule.Matches, hprogram]

theorem matchStep_snd (acc : Option SignerProgramRule × Bool) (rule : SignerProgramRule) :
    (matchStep programId dataHex acc rule).2 = (acc.2 || decide (rule.programId = programId)) := by
  obtain ⟨best, seen⟩ := acc
  by_cases hprogram : rule.programId = programId
  · by_cases hstart : startsWith dataHex rule.discriminator = true
    · cases best <;> simp [matchStep, hprogram, hstart]
    · simp [matchStep, hprogram, hstart]
  · simp [matchStep, hprogram]

/-- One more rule, which matches. -/
theorem longest_append {rules : List SignerProgramRule} {rule : SignerProgramRule}
    {best : Option SignerProgramRule} (hmatch : rule.Matches programId dataHex)
    (hbest : match best with
      | some b => Longest rules programId dataHex b
      | none => ∀ r ∈ rules, ¬r.Matches programId dataHex) :
    Longest (rules ++ [rule]) programId dataHex (longer best rule) := by
  cases best with
  | none =>
    refine ⟨by simp [longer], hmatch, fun other hmem hother => ?_⟩
    rcases List.mem_append.mp hmem with hmem | hmem
    · exact absurd hother (hbest other hmem)
    · rw [List.mem_singleton.mp hmem, longer]
  | some b =>
    obtain ⟨hmem, hmatches, hmax⟩ := hbest
    -- a later rule takes the place only of a shorter one
    by_cases hlonger : textLength rule.discriminator > textLength b.discriminator
    · rw [longer, if_pos hlonger]
      refine ⟨by simp, hmatch, fun other hother hmatch' => ?_⟩
      rcases List.mem_append.mp hother with hother | hother
      · exact (hmax other hother hmatch').trans hlonger.le
      · rw [List.mem_singleton.mp hother]
    · rw [longer, if_neg hlonger]
      refine ⟨List.mem_append_left _ hmem, hmatches, fun other hother hmatch' => ?_⟩
      rcases List.mem_append.mp hother with hother | hother
      · exact hmax other hother hmatch'
      · rw [List.mem_singleton.mp hother]
        omega

variable (programId dataHex) in
/-- After part of the rules the best match is a longest one of that part. -/
theorem foldl_matchStep_fst (rules : List SignerProgramRule) :
    match (rules.foldl (matchStep programId dataHex) (none, false)).1 with
      | some best => Longest rules programId dataHex best
      | none => ∀ rule ∈ rules, ¬rule.Matches programId dataHex := by
  induction rules using List.reverseRecOn with
  | nil => simp
  | append_singleton rules rule ih =>
    rw [List.foldl_append, List.foldl_cons, List.foldl_nil, matchStep_fst]
    generalize (rules.foldl (matchStep programId dataHex) (none, false)).1 = best at ih ⊢
    by_cases hmatch : rule.Matches programId dataHex
    · rw [if_pos hmatch]
      exact longest_append hmatch ih
    · rw [if_neg hmatch]
      -- a rule that does not match changes nothing
      have hrest : ∀ other ∈ rules ++ [rule], other.Matches programId dataHex → other ∈ rules := by
        intro other hmem hother
        refine (List.mem_append.mp hmem).resolve_right fun hlast => hmatch ?_
        rwa [← List.mem_singleton.mp hlast]
      cases best with
      | none => exact fun other hmem hother => ih other (hrest other hmem hother) hother
      | some b =>
        exact ⟨List.mem_append_left _ ih.1, ih.2.1, fun other hmem hother =>
          ih.2.2 other (hrest other hmem hother) hother⟩

theorem foldl_matchStep_snd (rules : List SignerProgramRule)
    (acc : Option SignerProgramRule × Bool) :
    (rules.foldl (matchStep programId dataHex) acc).2 =
      (acc.2 || rules.any fun rule => rule.programId = programId) := by
  induction rules generalizing acc with
  | nil => simp
  | cons rule rules ih => rw [List.foldl_cons, ih, matchStep_snd, List.any_cons, Bool.or_assoc]

/-- Two longest matches are one rule, if no two rules of a program share a discriminator. -/
theorem longest_unique {rules : List SignerProgramRule} {rule rule' : SignerProgramRule}
    (hkeys : (rules.map SignerProgramRule.key).Nodup) (h : Longest rules programId dataHex rule)
    (h' : Longest rules programId dataHex rule') : rule = rule' := by
  obtain ⟨hmem, hmatch, hmax⟩ := h
  obtain ⟨hmem', hmatch', hmax'⟩ := h'
  have hlen := le_antisymm (hmax' rule hmem hmatch) (hmax rule' hmem' hmatch')
  have hdisc := eq_of_startsWith hmatch.2 hmatch'.2 hlen
  refine List.inj_on_of_nodup_map hkeys hmem hmem' ?_
  rw [SignerProgramRule.key, SignerProgramRule.key, hmatch.1, hmatch'.1, hdisc]

/-- The scan finds the longest match. -/
theorem matchRule_eq_some_iff (hkeys : (policy.programs.map SignerProgramRule.key).Nodup)
    {rule : SignerProgramRule} : (matchRule policy programId dataHex).1 = some rule ↔
      Longest policy.programs programId dataHex rule := by
  have hscan := foldl_matchStep_fst programId dataHex policy.programs
  rw [matchRule]
  split at hscan
  · rename_i best hbest
    rw [hbest, Option.some_inj]
    constructor
    · rintro rfl
      exact hscan
    · exact longest_unique hkeys hscan
  · rename_i hnone
    rw [hnone]
    constructor
    · intro h
      cases h
    · intro h
      exact absurd h.2.1 (hscan rule h.1)

/-- The order of the rules plays no part in the scan. -/
theorem matchRule_perm {programs : List SignerProgramRule} (hperm : programs.Perm policy.programs)
    (hkeys : (policy.programs.map SignerProgramRule.key).Nodup) :
    matchRule { policy with programs } programId dataHex = matchRule policy programId dataHex := by
  have hkeys' : (programs.map SignerProgramRule.key).Nodup := (hperm.map _).nodup_iff.mpr hkeys
  refine Prod.ext (Option.ext fun rule => ?_) ?_
  · have hlongest : Longest programs programId dataHex rule ↔
        Longest policy.programs programId dataHex rule := by
      simp only [Longest, hperm.mem_iff]
    have hscan : (matchRule { policy with programs } programId dataHex).1 = some rule ↔
        Longest programs programId dataHex rule := matchRule_eq_some_iff hkeys'
    exact hscan.trans (hlongest.trans (matchRule_eq_some_iff hkeys).symm)
  · rw [matchRule, matchRule, foldl_matchStep_snd, foldl_matchStep_snd, Bool.false_or,
      Bool.false_or]
    exact Bool.eq_iff_iff.mpr (by simp only [List.any_eq_true, hperm.mem_iff])

/-- The caps are the policy's, whatever its rules. -/
theorem checkCaps_programs (programs : List SignerProgramRule) (spend : List (String × Nat)) :
    checkCaps { policy with programs } spend = checkCaps policy spend := by
  induction spend with
  | nil => rfl
  | cons entry rest ih => simp only [checkCaps, ih]

/-- The order of the rules plays no part in the evaluation. -/
theorem evaluatePolicy_perm {programs : List SignerProgramRule}
    (hperm : programs.Perm policy.programs)
    (hkeys : (policy.programs.map SignerProgramRule.key).Nodup) (decoded : DecodedTransaction)
    (payer : String) :
    evaluatePolicy decoded { policy with programs } payer = evaluatePolicy decoded policy payer := by
  have hone : tallyInstruction { policy with programs } = tallyInstruction policy := by
    funext t ix
    simp only [tallyInstruction, matchRule_perm hperm hkeys]
  simp only [evaluatePolicy, hone, checkCaps_programs]
  rfl

end Scan

/-! ### What is extracted -/

/-- What a spend rule reads out of an instruction. -/
def amountOf (rule : SignerSpendRule) (ix : DecodedInstruction) : Nat :=
  ofBytes ((ix.data.drop rule.amountOffset).take rule.amountEncoding.width)

/-- What the rule of an instruction makes leave of an asset. -/
def Effect.extracted (effect : Effect) (ix : DecodedInstruction) (asset : String) : Nat :=
  match effect with
  | .spend rule => if rule.asset = asset then amountOf rule ix else 0
  | _ => 0

/-- What an instruction makes leave of an asset, by the rule that matches it. -/
def extracted (policy : SignPolicy) (ix : DecodedInstruction) (asset : String) : Nat :=
  match (matchRule policy ix.programId ix.dataHex).1 with
  | some rule => rule.effect.extracted ix asset
  | none => 0

/-- What all instructions make leave of an asset. -/
def extractedTotal (policy : SignPolicy) (ixs : List DecodedInstruction) (asset : String) : Nat :=
  (ixs.map fun ix => extracted policy ix asset).sum

/-- Some instruction is matched by a rule that spends the asset. -/
def Spends (policy : SignPolicy) (ixs : List DecodedInstruction) (asset : String) : Prop :=
  ∃ ix ∈ ixs, ∃ rule, (matchRule policy ix.programId ix.dataHex).1 = some rule ∧
    ∃ spend, rule.effect = .spend spend ∧ spend.asset = asset

/-- The account constraint of a rule: the account it points to holds the mint it is about. -/
def Constrained (rule : SignerProgramRule) (ix : DecodedInstruction) : Prop :=
  ∀ spend, rule.effect = .spend spend → ∀ i, spend.mintAccountIndex = some i →
    ix.accounts[i]? = some (some spend.asset)

section Tally

variable {policy : SignPolicy} {t t' : Tally} {ix : DecodedInstruction}

theorem lookup_addSpend (spend : List (String × Nat)) (asset : String) (amount : Nat) (a : String) :
    (addSpend spend asset amount).lookup a =
      if a = asset then some ((spend.lookup asset).getD 0 + amount) else spend.lookup a := by
  induction spend with
  | nil =>
    by_cases ha : a = asset
    · simp [addSpend, ha]
    · have hne : (a == asset) = false := by simpa using ha
      simp [addSpend, List.lookup_cons, ha, hne]
  | cons entry rest ih =>
    obtain ⟨b, n⟩ := entry
    -- the first entry of the asset is the one that grows
    by_cases hb : b = asset
    · subst hb
      by_cases ha : a = b
      · simp [addSpend, ha]
      · have hne : (a == b) = false := by simpa using ha
        simp [addSpend, List.lookup_cons, ha, hne]
    · have hba : (asset == b) = false := by simpa using Ne.symm hb
      rw [addSpend, if_neg hb, List.lookup_cons, List.lookup_cons, List.lookup_cons, hba, ih]
      by_cases hab : a = b
      · subst hab
        simp [hb]
      · have hne : (a == b) = false := by simpa using hab
        simp [hne]

/-- What has been added up for an asset. -/
def Tally.total (t : Tally) (asset : String) : Nat := (t.spend.lookup asset).getD 0

theorem tallyFee_spend {rule : SignerProgramRule} (h : tallyFee rule ix t = .ok t') :
    t'.spend = t.spend := by
  unfold tallyFee at h
  split at h
  · simp only [bind_eq_ok] at h
    obtain ⟨-, -, _, -, h⟩ := h
    obtain rfl := Except.ok.inj h
    rfl
  · split at h
    · simp only [bind_eq_ok] at h
      obtain ⟨-, -, _, -, h⟩ := h
      obtain rfl := Except.ok.inj h
      rfl
    · obtain rfl := Except.ok.inj h
      rfl

theorem tallySpend_spec {rule : SignerSpendRule} (h : tallySpend rule ix t = .ok t') :
    t'.spend = addSpend t.spend rule.asset (amountOf rule ix) ∧
      ∀ i, rule.mintAccountIndex = some i → ix.accounts[i]? = some (some rule.asset) := by
  simp only [tallySpend, bind_eq_ok] at h
  obtain ⟨_, hmint, amount, hread, h⟩ := h
  obtain rfl := Except.ok.inj h
  simp only [readAmount, bind_eq_ok] at hread
  obtain ⟨-, -, hread⟩ := hread
  obtain rfl := Except.ok.inj hread
  refine ⟨rfl, fun i hi => ?_⟩
  simp only [checkMint, hi, bind_eq_ok, orThrow_eq_ok, throwIf_eq_ok, not_not] at hmint
  obtain ⟨account, haccount, rfl⟩ := hmint
  exact haccount

/-- One instruction: some rule matches it, its accounts are what the rule says, and what it
extracts is added. -/
theorem tallyInstruction_spec (h : tallyInstruction policy t ix = .ok t') :
    ∃ rule, (matchRule policy ix.programId ix.dataHex).1 = some rule ∧ Constrained rule ix ∧
      ∀ asset, t'.total asset = t.total asset + extracted policy ix asset ∧
        ((t.spend.lookup asset).isSome → (t'.spend.lookup asset).isSome) ∧
        ((∃ spend, rule.effect = .spend spend ∧ spend.asset = asset) →
          (t'.spend.lookup asset).isSome) := by
  simp only [tallyInstruction, bind_eq_ok, orThrow_eq_ok] at h
  obtain ⟨-, -, rule, hrule, h⟩ := h
  refine ⟨rule, hrule, ?_⟩
  cases heffect : rule.effect with
  | none =>
    rw [heffect] at h
    obtain rfl := Except.ok.inj h
    simp [Constrained, extracted, hrule, heffect, Effect.extracted]
  -- a fee is added to the fees and spends nothing
  | fee =>
    simp only [heffect] at h
    simp [Constrained, extracted, hrule, heffect, Effect.extracted, Tally.total, tallyFee_spend h]
  | spend spend =>
    simp only [heffect] at h
    obtain ⟨hspend, hmint⟩ := tallySpend_spec h
    refine ⟨?_, fun asset => ?_⟩
    · rintro spend' hspend'
      rw [heffect] at hspend'
      obtain rfl := Effect.spend.inj hspend'
      exact hmint
    · simp only [Tally.total, hspend, lookup_addSpend, extracted, hrule, heffect,
        Effect.extracted]
      -- an asset other than the one of the rule keeps its total
      by_cases hasset : asset = spend.asset
      · subst hasset
        simp
      · simp [hasset, Ne.symm hasset]

/-- All instructions. -/
theorem foldlM_tallyInstruction_spec {ixs : List DecodedInstruction}
    (h : ixs.foldlM (tallyInstruction policy) t = .ok t') :
    (∀ ix ∈ ixs, ∃ rule, (matchRule policy ix.programId ix.dataHex).1 = some rule ∧
      Constrained rule ix) ∧
    ∀ asset, t'.total asset = t.total asset + extractedTotal policy ixs asset ∧
      ((t.spend.lookup asset).isSome → (t'.spend.lookup asset).isSome) ∧
      (Spends policy ixs asset → (t'.spend.lookup asset).isSome) := by
  induction ixs generalizing t with
  | nil =>
    obtain rfl := Except.ok.inj h
    simp [extractedTotal, Spends]
  | cons ix ixs ih =>
    simp only [List.foldlM_cons, bind_eq_ok] at h
    obtain ⟨t₁, hone, hrest⟩ := h
    obtain ⟨rule, hrule, hconstrained, htotal⟩ := tallyInstruction_spec hone
    obtain ⟨hall, htotal'⟩ := ih hrest
    refine ⟨?_, fun asset => ?_⟩
    · intro ix' hix'
      rcases List.mem_cons.mp hix' with rfl | hix'
      · exact ⟨rule, hrule, hconstrained⟩
      · exact hall ix' hix'
    · -- what the first instruction adds, and what the others add to it
      obtain ⟨heq, hkeep, hset⟩ := htotal asset
      obtain ⟨heq', hkeep', hset'⟩ := htotal' asset
      refine ⟨?_, fun h => hkeep' (hkeep h), ?_⟩
      · rw [heq', heq, extractedTotal, extractedTotal, List.map_cons, List.sum_cons, add_assoc]
      · rintro ⟨ix', hix', rule', hrule', hspend⟩
        rcases List.mem_cons.mp hix' with rfl | hix'
        · obtain rfl := Option.some.inj (hrule.symm.trans hrule')
          exact hkeep' (hset hspend)
        · exact hset' ⟨ix', hix', rule', hrule', hspend⟩

/-- Every total has a cap, and stays within it. -/
theorem checkCaps_spec {spend : List (String × Nat)} (h : checkCaps policy spend = .ok ())
    {asset : String} {total : Nat} (hmem : spend.lookup asset = some total) :
    ∃ cap, policy.caps.lookup asset = some cap ∧ total ≤ cap := by
  induction spend with
  | nil => cases hmem
  | cons entry rest ih =>
    obtain ⟨a, n⟩ := entry
    simp only [checkCaps, bind_eq_ok, orThrow_eq_ok, throwIf_eq_ok, not_lt] at h
    obtain ⟨cap, hcap, -, hle, hrest⟩ := h
    rw [List.lookup_cons] at hmem
    by_cases ha : asset = a
    · subst ha
      rw [beq_self_eq_true] at hmem
      obtain rfl := Option.some.inj hmem
      exact ⟨cap, hcap, hle⟩
    · have hne : (asset == a) = false := by simpa using ha
      rw [hne] at hmem
      exact ih hrest hmem

end Tally

/-! ### The evaluation -/

/-- **Policy soundness.** An accepted transaction has every instruction matched by the one
longest rule of its program, with the accounts that rule asks for; what all instructions extract
of an asset is within the asset's cap, and an asset without one is not spent; and in whatever
order the rules are listed, the outcome is the same. -/
theorem policy_sound (host : PolicyHost) (file : PolicyFile) (policy : LoadedSignPolicy)
    (hload : loadSignPolicy host file = .ok policy) (decoded : DecodedTransaction)
    (payer : String) :
    (∀ ev, evaluatePolicy decoded policy.toSignPolicy payer = .ok ev →
      (∀ ix ∈ decoded.instructions, ∃ rule,
        Longest policy.programs ix.programId ix.dataHex rule ∧
        (∀ rule', Longest policy.programs ix.programId ix.dataHex rule' → rule' = rule) ∧
        Constrained rule ix) ∧
      (∀ asset cap, policy.caps.lookup asset = some cap →
        extractedTotal policy.toSignPolicy decoded.instructions asset ≤ cap) ∧
      (∀ asset, Spends policy.toSignPolicy decoded.instructions asset →
        (policy.caps.lookup asset).isSome)) ∧
    ∀ programs : List SignerProgramRule, programs.Perm policy.programs →
      evaluatePolicy decoded { policy.toSignPolicy with programs } payer =
        evaluatePolicy decoded policy.toSignPolicy payer := by
  have hkeys := (loadable_of_loadSignPolicy hload).keys
  refine ⟨?_, fun programs hperm => evaluatePolicy_perm hperm hkeys decoded payer⟩
  intro ev h
  simp only [evaluatePolicy, bind_eq_ok] at h
  obtain ⟨-, -, t, htally, -, -, -, -, -, -, -, -, _, hcaps, -⟩ := h
  obtain ⟨hmatched, htotal⟩ := foldlM_tallyInstruction_spec htally
  refine ⟨?_, ?_, ?_⟩
  · intro ix hix
    obtain ⟨rule, hrule, hconstrained⟩ := hmatched ix hix
    have hlongest := (matchRule_eq_some_iff hkeys).mp hrule
    exact ⟨rule, hlongest, fun rule' h => longest_unique hkeys h hlongest, hconstrained⟩
  · -- what was tallied is what the instructions spend
    intro asset cap hcap
    have heq : t.total asset = _ := (htotal asset).1
    have hzero : Tally.total {} asset = 0 := rfl
    rw [hzero, Nat.zero_add] at heq
    rw [← heq, Tally.total]
    cases hlookup : t.spend.lookup asset with
    | none => exact Nat.zero_le cap
    | some total =>
      obtain ⟨cap', hcap', hle⟩ := checkCaps_spec hcaps hlookup
      obtain rfl := Option.some.inj (hcap.symm.trans hcap')
      exact hle
  · intro asset hspends
    obtain ⟨total, hlookup⟩ := Option.isSome_iff_exists.mp ((htotal asset).2.2 hspends)
    obtain ⟨cap, hcap, -⟩ := checkCaps_spec hcaps hlookup
    exact Option.isSome_iff_exists.mpr ⟨cap, hcap⟩

/-! ### A policy file -/

/-- A host whose keys are all well formed and whose file is the one below. -/
def samplePolicyHost (programs : List JsValue) : PolicyHost where
  parse _ := some (.object [
    ("version", .number (.ofInt 1)), ("cluster", .string "devnet"),
    ("feePayers", .array [.string "payer"]), ("programs", .array programs),
    ("caps", .object [("native", .string "1000")]), ("addressLookupTables", .array []),
    ("maxInstructions", .number (.ofInt 4)), ("maxAccountKeys", .number (.ofInt 8)),
    ("maxRequiredSignatures", .number (.ofInt 1)),
    ("maxComputeUnitLimit", .number (.ofInt 1400000)),
    ("maxComputeUnitPriceMicroLamports", .string "5"), ("maxPriorityFeeLamports", .string "7")])
  fromBase58 _ := some (List.replicate 32 0)
  sha256 _ := "ab"

def samplePolicyFile : PolicyFile := ⟨false, true, false, "policy"⟩

/-- A rule of the file. -/
def sampleRule (programId discriminator effect : String) : JsValue :=
  .object [("programId", .string programId), ("discriminator", .string discriminator),
    ("effect", .string effect), ("spend", .object [("asset", .string "native"),
      ("amountOffset", .number (.ofInt 1)), ("amountEncoding", .string "u32le")])]

/-- What the file is loaded as. -/
def sampleLoadedPolicy (programs : List SignerProgramRule) : LoadedSignPolicy where
  version := 1
  cluster := "devnet"
  feePayers := ["payer"]
  programs := programs
  caps := [("native", 1000)]
  maxInstructions := 4
  maxAccountKeys := 8
  maxRequiredSignatures := 1
  maxComputeUnitLimit := 1400000
  maxComputeUnitPriceMicroLamports := 5
  maxPriorityFeeLamports := 7
  maxPriorityFeeBps := none
  addressLookupTables := []
  hash := "0xab"

/-- A transaction of the payer, with these instructions. -/
def sampleDecodedTransaction (ixs : List (String × Bytes)) : DecodedTransaction where
  version := .legacy
  feePayer := "payer"
  recentBlockhash := "hash"
  numRequiredSignatures := 1
  staticAccountKeys := "payer" :: ixs.map Prod.fst
  signatures := [none]
  addressTableLookups := []
  instructions := ixs.map fun ix => ⟨ix.1, 1, [], [], ix.2, toHex ix.2⟩
  messageBytes := []
  messageBase64 := ""
  messageHash := ""
  wireBase64 := ""
  transaction := ⟨⟨.legacy, 1, [], "hash", [], []⟩, []⟩

/-- A transfer of lamports, and another tag of the same program. -/
def sampleSpendRules : List SignerProgramRule :=
  [⟨"program", "02", .spend ⟨"native", 1, .u32le, none⟩⟩, ⟨"program", "01", .none⟩]

/-- Transfers of 400 and of 600 lamports. -/
def sampleTransfers : DecodedTransaction :=
  sampleDecodedTransaction [("program", [2, 0x90, 1, 0, 0]), ("program", [2, 0x58, 2, 0, 0])]

/-- Two transfers are counted together, and come to what the cap allows. -/
theorem policy_sound_sample :
    evaluatePolicy sampleTransfers (sampleLoadedPolicy sampleSpendRules).toSignPolicy "payer" =
        .ok ⟨[("native", 1000)], 400000, 0, 0⟩ ∧
      extractedTotal (sampleLoadedPolicy sampleSpendRules).toSignPolicy
        sampleTransfers.instructions "native" ≤ 1000 := by
  have hload : loadSignPolicy
      (samplePolicyHost [sampleRule "program" "02" "spend", sampleRule "program" "01" "none"])
      samplePolicyFile = .ok (sampleLoadedPolicy sampleSpendRules) := by decide
  have heval : evaluatePolicy sampleTransfers (sampleLoadedPolicy sampleSpendRules).toSignPolicy
      "payer" = .ok ⟨[("native", 1000)], 400000, 0, 0⟩ := by decide
  exact ⟨heval, ((policy_sound _ _ _ hload _ _).1 _ heval).2.1 "native" 1000 rfl⟩

end AriOs.Signer
