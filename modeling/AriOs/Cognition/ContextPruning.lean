import AriOs.Cognition.Context
import AriOs.Js.Numeral
import AriOs.Js.Stringify
import Mathlib.Algebra.Order.BigOperators.Group.List
import Mathlib.Data.List.Flatten

/-!
# What pruning keeps

The compiler removes units from the front of those that are not protected, until the rest fits. What
is protected are the messages at the head and at the tail, the financial ones, and results whose
evidence reference is not safe, each with its unit. When the head count is not a number no message
counts as one of the tail either: they are then removed like any other. And the tokens are counted
down as units go, but added up anew for what is returned: with large estimates the two differ.

## Main results

* `compileContext_parts` — what the compiler returns, in terms of what is removed
* `Input.mem_gone_iff` — a unit is removed exactly if the tokens do not fit before
-/

namespace AriOs.Cognition.Context

open AriOs.Js AriOs.Storage AriOs.Storage.Blocks

/-- Messages and options that are accepted, with what the checks compute. -/
structure Input (host : Host) (options : CompileOptions) (messages : List ContextMessage) where
  maxTokens : Int
  units : List (List Nat)
  estimates : List Int
  budget : checkBudget options = .ok maxTokens
  accepted : accept messages = .ok units
  estimated : messages.mapM (validatedEstimate (baseEstimate host options)) = .ok estimates

variable {host : Host} {options : CompileOptions} {messages : List ContextMessage}

/-- What a message is estimated at. -/
def tokensOf (host : Host) (options : CompileOptions) (m : ContextMessage) : Int :=
  (validatedEstimate (baseEstimate host options) m).toOption.getD 0

/-- The unit holds no protected message. -/
def removable (options : CompileOptions) (messages : List ContextMessage) (unit : List Nat) :
    Bool :=
  !protectedUnit options messages unit

namespace Input

/-- What is left of the tokens when the units are gone, as they are counted down. -/
def running (input : Input host options messages) (gone : List (List Nat)) : JsNumber :=
  gone.foldl (lessUnit input.estimates) (totalTokens input.estimates)

def fits (input : Input host options messages) (tokens : JsNumber) : Bool :=
  tokens.le (.ofInt input.maxTokens)

/-- The units that may be removed. -/
def removables (input : Input host options messages) : List (List Nat) :=
  input.units.filter (removable options messages)

/-- What is left when the units are removed. -/
def without (input : Input host options messages) (gone : List (List Nat)) : Pruned where
  removed := gone.flatten
  tokens := input.running gone
  pruned := keepAt (fun i => decide (i ∈ gone.flatten)) messages
  compiled := keepAt (fun i => decide (i ∉ gone.flatten)) messages

/-- The units that are removed. -/
def gone (input : Input host options messages) : List (List Nat) :=
  shed input.fits (lessUnit input.estimates) (totalTokens input.estimates) input.removables

end Input

section Estimates

variable {fn : ContextMessage → Option JsNumber} {m : ContextMessage} {t : Int}
  {l : List ContextMessage} {ts : List Int}

theorem validatedEstimate_nonneg (h : validatedEstimate fn m = .ok t) : 0 ≤ t := by
  simp only [validatedEstimate, bind_eq_ok, orThrow_eq_ok, throwIf_eq_ok] at h
  obtain ⟨n, -, i, -, -, hi, heq⟩ := h
  obtain rfl := Except.ok.inj heq
  exact not_lt.mp hi

theorem tokensOf_eq (h : validatedEstimate (baseEstimate host options) m = .ok t) :
    tokensOf host options m = t := by
  rw [tokensOf, h]
  rfl

theorem eq_map_of_mapM (h : l.mapM (validatedEstimate (baseEstimate host options)) = .ok ts) :
    ts = l.map (tokensOf host options) := by
  rw [mapM_eq_ok_iff] at h
  induction h with
  | nil => rfl
  | cons hm _ ih => rw [List.map_cons, ← ih, tokensOf_eq hm]

end Estimates

namespace Input

variable (input : Input host options messages)

theorem estimates_eq : input.estimates = messages.map (tokensOf host options) :=
  eq_map_of_mapM input.estimated

/-! ### The loop -/

theorem cover : input.units.flatten = List.range messages.length :=
  (buildUnits_blocks input.accepted).1

theorem isUnit {unit : List Nat} (h : unit ∈ input.units) : IsUnit messages unit :=
  (buildUnits_blocks input.accepted).2 unit h

theorem nodup_flatten : input.units.flatten.Nodup := input.cover ▸ List.nodup_range

theorem any_mem_protectedIndexes {unit : List Nat} (h : unit ∈ input.units) :
    unit.any (· ∈ protectedIndexes options messages input.units) =
      protectedUnit options messages unit := by
  have hmem : ∀ i ∈ unit, i ∈ protectedIndexes options messages input.units ↔
      protectedUnit options messages unit = true := by
    intro i hi
    rw [protectedIndexes, mem_flatten_iff_mem input.nodup_flatten (List.filter_sublist.subset) h hi,
      List.mem_filter]
    exact and_iff_right h
  rw [Bool.eq_iff_iff, List.any_eq_true]
  constructor
  · rintro ⟨i, hi, hprotected⟩
    exact (hmem i hi).mp (of_decide_eq_true hprotected)
  · intro hprotected
    obtain ⟨i, hi, -⟩ := List.any_eq_true.mp hprotected
    exact ⟨i, hi, decide_eq_true ((hmem i hi).mpr hprotected)⟩

end Input

/-- The loop drops units from the front of those that hold no protected index. -/
theorem prune_eq {maxTokens : Int} {tokens : JsNumber} {estimates : List Int}
    {protectedSet removed : List Nat} {units : List (List Nat)} :
    prune maxTokens estimates protectedSet tokens removed units =
      let gone := shed (fun tokens => tokens.le (.ofInt maxTokens)) (lessUnit estimates) tokens
        (units.filter fun unit => !unit.any (· ∈ protectedSet))
      (gone.foldl (lessUnit estimates) tokens, removed ++ gone.flatten) := by
  induction units generalizing tokens removed with
  | nil => simp [prune, shed]
  | cons unit units ih =>
    rw [prune]
    by_cases hfits : tokens.le (.ofInt maxTokens) = true
    · -- below the limit no unit is looked at any more
      have hnone : ∀ l : List (List Nat), shed (fun tokens => tokens.le (.ofInt maxTokens))
          (lessUnit estimates) tokens l = [] := by
        intro l
        cases l with
        | nil => rfl
        | cons u l => rw [shed, if_pos hfits]
      simp [hfits, hnone]
    · rw [if_neg hfits]
      by_cases hprotected : unit.any (· ∈ protectedSet) = true
      · rw [if_pos hprotected, ih, List.filter_cons_of_neg (by simp [hprotected])]
      · rw [if_neg hprotected, ih, List.filter_cons_of_pos (by simp [hprotected])]
        simp only [shed, if_neg hfits, List.foldl_cons, List.flatten_cons, List.append_assoc]

namespace Input

variable (input : Input host options messages)

/-- What the loop leaves is what is left without the units that are gone. -/
theorem pruning_eq : pruneMessages options input.maxTokens messages input.units input.estimates =
    input.without input.gone := by
  have hfilter : (input.units.filter fun unit =>
      !unit.any (· ∈ protectedIndexes options messages input.units)) = input.removables :=
    List.filter_congr fun unit h => by rw [input.any_mem_protectedIndexes h, removable]
  simp only [pruneMessages, prune_eq, hfilter, List.nil_append]
  rfl

theorem compiled_without (gone : List (List Nat)) : (input.without gone).compiled =
    keepAt (fun i => decide (i ∉ gone.flatten)) messages := rfl

theorem gone_front : input.gone <+: input.removables := shed_front

theorem gone_subset : input.gone ⊆ input.units :=
  List.Subset.trans input.gone_front.subset (List.filter_sublist.subset)

theorem removable_of_mem_gone {unit : List Nat} (h : unit ∈ input.gone) :
    removable options messages unit = true := List.of_mem_filter (input.gone_front.subset h)

/-- A unit is removed exactly if it holds no protected message and the tokens do not fit as units
before it that hold none either are gone. -/
theorem mem_gone_iff {unit : List Nat} : unit ∈ input.gone ↔
    ∃ before after, input.units = before ++ unit :: after ∧
      removable options messages unit = true ∧
      ∀ b, b <+: before.filter (removable options messages) →
        input.fits (input.running b) = false := by
  constructor
  · -- what goes is a prefix of the removable units, so the unit goes with all before it
    intro h
    obtain ⟨before, rest, hgone⟩ := List.append_of_mem h
    have hprefix : before ++ [unit] <+: input.gone := ⟨rest, by rw [hgone]; simp⟩
    have hfilter := hprefix.trans input.gone_front
    have hover := (prefix_shed_iff hfilter).mp hprefix
    obtain ⟨later, hlater⟩ := hfilter
    rw [List.append_assoc, List.singleton_append] at hlater
    obtain ⟨l₁, l₂, hunits, hbefore, hrest⟩ := List.filter_eq_append_iff.mp hlater.symm
    obtain ⟨c, d, rfl, hc, hunit, -⟩ := List.filter_eq_cons_iff.mp hrest
    refine ⟨l₁ ++ c, d, by rw [hunits, List.append_assoc], hunit, ?_⟩
    have hnone : c.filter (removable options messages) = [] := List.filter_eq_nil_iff.mpr hc
    rwa [List.filter_append, hnone, List.append_nil, hbefore]
  · rintro ⟨before, after, hunits, hunit, hover⟩
    have hfilter : before.filter (removable options messages) ++ [unit] <+: input.removables := by
      rw [removables, hunits, List.filter_append, List.filter_cons_of_pos hunit]
      exact ⟨after.filter (removable options messages), by simp⟩
    have hprefix := (prefix_shed_iff hfilter).mpr hover
    exact hprefix.subset (List.mem_append_right _ (List.mem_singleton.mpr rfl))

theorem nodup_units : input.units.Nodup := by
  refine (List.nodup_flatten.mp input.nodup_flatten).2.imp_of_mem ?_
  rintro u v hu - hdisjoint rfl
  obtain ⟨⟨first, more, rfl⟩, -⟩ := input.isUnit hu
  exact hdisjoint (a := first) (by simp) (by simp)

end Input

/-! ### What is returned -/

section Returned

variable {raw : JsValue} {out : CompiledContext}

/-- What is returned, in terms of what is removed. -/
structure Returned (input : Input host options messages) (raw : JsValue) (out : CompiledContext) :
    Prop where
  summary : placedSummary host options input.maxTokens (input.without input.gone) raw =
    .ok out.summary
  messages : out.messages = withSummary host options (input.without input.gone) out.summary
  finalTokens : out.diagnostics.finalTokens =
    totalTokens (out.messages.map (tokensOf host options))
  evidence : out.diagnostics.evidenceReferences =
    evidenceReferences (input.without input.gone)

theorem compileContext_parts (h : compileContext host messages options raw = .ok out) :
    ∃ input : Input host options messages, Returned input raw out := by
  simp only [compileContext, bind_eq_ok] at h
  obtain ⟨maxTokens, hbudget, units, hunits, estimates, hestimates, summary, hsummary, final,
    hfinal, hout⟩ := h
  obtain rfl := Except.ok.inj hout
  let input : Input host options messages :=
    ⟨maxTokens, units, estimates, hbudget, hunits, hestimates⟩
  have hpruning : pruneMessages options maxTokens messages units estimates =
      input.without input.gone := input.pruning_eq
  rw [hpruning] at hsummary hfinal
  refine ⟨input, hsummary, ?_, ?_, ?_⟩
  · rw [hpruning]
  · rw [hpruning, ← eq_map_of_mapM hfinal]
  · rw [hpruning]

theorem insertAtHead_perm (head : JsNumber) (m : ContextMessage) (compiled : List ContextMessage) :
    (insertAtHead head m compiled).Perm (m :: compiled) := by
  rw [insertAtHead]
  exact List.perm_middle.trans (by rw [List.take_append_drop])

/-- What a summary was put into can be told from the messages with it. -/
theorem insertAtHead_injective (head : JsNumber) (m : ContextMessage) :
    Function.Injective (insertAtHead head m) := by
  intro l l' h
  have hlength : l.length = l'.length := by
    have hl := (insertAtHead_perm head m l).length_eq
    have hl' := (insertAtHead_perm head m l').length_eq
    rw [h] at hl
    simpa using hl.symm.trans hl'
  simp only [insertAtHead, hlength] at h
  obtain ⟨htake, hdrop⟩ := List.append_inj h (by simp [hlength])
  rw [← List.take_append_drop _ l, htake, (List.cons_eq_cons.mp hdrop).2, List.take_append_drop]

theorem withSummary_eq (p : Pruned) (summary : Option HandoffSummary) :
    withSummary host options p summary = summary.elim p.compiled
      fun s => insertAtHead options.head (summaryMessage host s) p.compiled := by
  cases summary <;> rfl

end Returned

/-! ### What has to stay -/

/-- The message at the index is one of the head. -/
def inHead (options : CompileOptions) (i : Nat) : Bool := (JsNumber.ofInt i).lt options.head

/-- The message at the index is one of the tail. -/
def inTail (options : CompileOptions) (messages : List ContextMessage) (i : Nat) : Bool :=
  ((JsNumber.ofInt messages.length).sub options.tail).le (.ofInt i)

/-- The message at the index has to stay: it is one of the head or the tail, or financial. -/
def required (options : CompileOptions) (messages : List ContextMessage) (i : Nat) : Bool :=
  inHead options i || inTail options messages i || hasAt messages ContextMessage.financial i

/-- The unit holds no message that has to stay, and no result with unsafe evidence. -/
def unprotected (options : CompileOptions) (messages : List ContextMessage) (unit : List Nat) :
    Bool :=
  unit.all fun i => !required options messages i && !hasAt messages ContextMessage.unsafeEvidence i

/-- What the compiled context has to keep, where the messages `kept` of the input are left and the
units `gone` are removed. -/
structure KeepsWhatItMust (input : Input host options messages) (out : CompiledContext)
    (kept : List ContextMessage) (gone : List (List Nat)) : Prop where
  returned : out.messages = out.summary.elim kept
    fun s => insertAtHead options.head (summaryMessage host s) kept
  subsequence : kept.Sublist messages
  left : kept = keepAt (fun i => decide (i ∉ gone.flatten)) messages
  stays : ∀ unit ∈ input.units, (∃ i ∈ unit, required options messages i = true) → unit ∉ gone
  oldest : gone <+: input.units.filter (unprotected options messages)
  budget : input.fits out.diagnostics.finalTokens = true ∨
    gone = input.units.filter (unprotected options messages)
  evidence : ∀ unit ∈ gone, ∀ m ∈ pick messages unit, m.role = .tool →
    safeEvidenceRef m.evidenceRef = true →
    ∀ ref ∈ m.evidenceRef, ref ∈ out.diagnostics.evidenceReferences

/-- The unit holds no financial message and no result with unsafe evidence. -/
def ordinary (messages : List ContextMessage) (unit : List Nat) : Bool :=
  unit.all fun i =>
    !hasAt messages ContextMessage.financial i && !hasAt messages ContextMessage.unsafeEvidence i

/-- The head count is a number, or the tokens fit, as they are counted down, before pruning comes to
an ordinary unit with a message of the tail. -/
def TailSpared (input : Input host options messages) : Prop :=
  options.headMessages ≠ some .nan ∨
    ∀ before unit after, input.units = before ++ unit :: after →
      ordinary messages unit = true → (∃ i ∈ unit, inTail options messages i = true) →
      ∃ b, b <+: before.filter (ordinary messages) ∧ input.fits (input.running b) = true

/-- Counting down agrees with adding up: when the tokens first fit, as they are counted down, and an
unprotected unit is left, the estimates of what is then returned fit as they are added up. -/
def BudgetKept (input : Input host options messages) (raw : JsValue) : Prop :=
  ∀ gone left s, input.removables = gone ++ left →
    FirstFit input.fits (lessUnit input.estimates) (totalTokens input.estimates) input.removables
      gone →
    (∃ unit ∈ left, unprotected options messages unit = true) →
    placedSummary host options input.maxTokens (input.without gone) raw = .ok s →
    input.fits (totalTokens ((withSummary host options (input.without gone) s).map
      (tokensOf host options))) = true

section Counts

theorem max_le_ofInt {a b : JsNumber} {i : Int} (ha : a ≠ .nan)
    (hlt : (JsNumber.ofInt i).lt a = false) : (a.max b).le (.ofInt i) = b.le (.ofInt i) := by
  rcases a with _ | ⟨_ | _⟩ | a
  · exact absurd rfl ha
  · simp [JsNumber.ofInt, JsNumber.lt] at hlt
  · rcases b with _ | ⟨_ | _⟩ | b <;>
      simp [JsNumber.max, JsNumber.ofInt, JsNumber.lt, JsNumber.le]
  · have hle : a ≤ i := by simpa [JsNumber.ofInt, JsNumber.lt] using hlt
    rcases b with _ | ⟨_ | _⟩ | b
    · simp [JsNumber.max]
    · simp [JsNumber.max, JsNumber.ofInt, JsNumber.lt, JsNumber.le]
    · have hfinite : (JsNumber.finite a).le (.finite i) = true := by
        simpa [JsNumber.le_finite] using hle
      simpa [JsNumber.max, JsNumber.ofInt, JsNumber.lt, JsNumber.le] using hfinite
    · simp only [JsNumber.max, JsNumber.ofInt, JsNumber.lt_finite]
      by_cases hab : a < b
      · simp [hab]
      · have hb : b ≤ i := (not_lt.mp hab).trans hle
        simp [hab, JsNumber.le_finite, hle, hb]

theorem messageCount_ne_nan_iff {n : JsNumber} : messageCount n ≠ .nan ↔ n ≠ .nan := by
  rcases n with _ | ⟨_ | _⟩ | q <;>
    simp [messageCount, JsNumber.floor, JsNumber.max, JsNumber.ofInt, JsNumber.lt]
  split <;> simp

theorem head_ne_nan_iff : options.head ≠ .nan ↔ options.headMessages ≠ some .nan := by
  rw [CompileOptions.head, messageCount_ne_nan_iff]
  cases options.headMessages <;> simp [JsNumber.ofInt]

end Counts

section Protection

variable {unit : List Nat}

/-- With a head count that is a number, what is protected is what has to stay and unsafe
evidence. -/
theorem removable_eq_unprotected (hhead : options.headMessages ≠ some .nan) :
    removable options messages unit = unprotected options messages unit := by
  rw [removable, protectedUnit, unprotected, List.not_any_eq_all_not]
  congr 1
  funext i
  rw [required, inHead, inTail]
  cases hlt : (JsNumber.ofInt i).lt options.head with
  | true => simp
  | false => rw [max_le_ofInt (head_ne_nan_iff.mpr hhead) hlt, Bool.not_or]

/-- Without one, only financial messages and unsafe evidence are protected. -/
theorem removable_eq_ordinary (hhead : options.head = .nan) :
    removable options messages unit = ordinary messages unit := by
  rw [removable, protectedUnit, ordinary, List.not_any_eq_all_not]
  congr 1
  funext i
  have hlt : (JsNumber.ofInt i).lt .nan = false := rfl
  have hle : ∀ b : JsNumber, (JsNumber.nan.max b).le (.ofInt i) = false := fun _ => rfl
  rw [hhead, hlt, hle, Bool.false_or, Bool.false_or, Bool.not_or]

theorem unprotected_iff : unprotected options messages unit = true ↔
    ∀ i ∈ unit, required options messages i = false ∧
      hasAt messages ContextMessage.unsafeEvidence i = false := by
  simp only [unprotected, List.all_eq_true, Bool.and_eq_true, Bool.not_eq_true']

theorem head_eq_nan (hhead : options.headMessages = some .nan) : options.head = .nan := by
  by_contra hne
  exact head_ne_nan_iff.mp hne hhead

/-- What is unprotected is removable and holds no message that has to stay. -/
theorem unprotected_eq : unprotected options messages unit =
    (removable options messages unit && !unit.any (required options messages)) := by
  rw [Bool.eq_iff_iff, Bool.and_eq_true, Bool.not_eq_true', List.any_eq_false, unprotected_iff]
  by_cases hhead : options.headMessages = some .nan
  · rw [removable_eq_ordinary (head_eq_nan hhead)]
    simp only [ordinary, List.all_eq_true, Bool.and_eq_true, Bool.not_eq_true',
      Bool.not_eq_true]
    constructor
    · intro h
      refine ⟨fun i hi => ⟨?_, (h i hi).2⟩, fun i hi => (h i hi).1⟩
      exact (Bool.or_eq_false_iff.mp (h i hi).1).2
    · rintro ⟨hordinary, hrequired⟩ i hi
      exact ⟨hrequired i hi, (hordinary i hi).2⟩
  · rw [removable_eq_unprotected hhead, unprotected_iff]
    simp only [Bool.not_eq_true]
    exact ⟨fun h => ⟨h, fun i hi => (h i hi).1⟩, And.left⟩

theorem filter_unprotected (units : List (List Nat)) :
    units.filter (unprotected options messages) =
      (units.filter (removable options messages)).filter
        fun unit => !unit.any (required options messages) := by
  rw [List.filter_filter]
  exact List.filter_congr fun unit _ => by rw [unprotected_eq, Bool.and_comm]

end Protection

section Keeps

variable {raw : JsValue} {out : CompiledContext} {kept : List ContextMessage}
  {gone : List (List Nat)}

/-- A safe evidence reference of a removed result is listed. -/
theorem mem_evidenceReferences {input : Input host options messages} {unit : List Nat}
    (hunit : unit ∈ input.gone) {m : ContextMessage} (hm : m ∈ pick messages unit)
    (hrole : m.role = .tool) (hsafe : safeEvidenceRef m.evidenceRef = true) {ref : String}
    (href : m.evidenceRef = some ref) :
    ref ∈ evidenceReferences (input.without input.gone) := by
  obtain ⟨i, hi, hget⟩ := mem_pick_iff.mp hm
  have hpruned : m ∈ (input.without input.gone).pruned := by
    rw [Input.without, mem_keepAt_iff]
    exact ⟨i, decide_eq_true (List.mem_flatten.mpr ⟨unit, hunit, hi⟩), hget⟩
  rw [evidenceReferences, List.mem_eraseDups, List.mem_append]
  left
  refine List.mem_filterMap.mpr ⟨_, List.mem_map_of_mem (List.mem_filter.mpr ⟨hpruned, ?_⟩), href⟩
  rw [hsafe, hrole]
  rfl

/-- What has to be kept is kept, if no removed unit holds a message that has to stay and the budget
is kept. -/
theorem keepsWhatItMust_of {input : Input host options messages} (hout : Returned input raw out)
    (hstays : ∀ unit ∈ input.gone, unit.any (required options messages) = false)
    (hbudget : BudgetKept input raw) :
    KeepsWhatItMust input out (input.without input.gone).compiled input.gone := by
  -- since nothing required goes, all that goes is unprotected
  have hself : input.gone.filter (fun unit => !unit.any (required options messages)) =
      input.gone :=
    List.filter_eq_self.mpr fun unit hunit => by rw [hstays unit hunit, Bool.not_false]
  refine ⟨hout.messages.trans (withSummary_eq _ _), ?_, rfl, ?_, ?_, ?_, ?_⟩
  · rw [input.compiled_without]
    exact keepAt_sublist
  · rintro unit - ⟨i, hi, hrequired⟩ hunit
    have hany := List.any_eq_true.mpr ⟨i, hi, hrequired⟩
    exact absurd (hany.symm.trans (hstays unit hunit)) (by decide)
  · rw [filter_unprotected, ← hself]
    exact input.gone_front.filter _
  · obtain ⟨left, hleft⟩ := input.gone_front
    by_cases hmore : ∃ unit ∈ left, unprotected options messages unit = true
    · -- pruning has stopped early, so the tokens fit
      left
      have hstopped : input.gone ≠ input.removables := by
        intro hall
        obtain ⟨unit, hunit, -⟩ := hmore
        rw [hall, List.append_right_eq_self] at hleft
        rw [hleft] at hunit
        cases hunit
      rw [hout.finalTokens, hout.messages]
      exact hbudget _ left _ hleft.symm (shed_firstFit hstopped) hmore hout.summary
    · right
      have hnone : left.filter (fun unit => !unit.any (required options messages)) = [] := by
        refine List.filter_eq_nil_iff.mpr fun unit hunit hfree => hmore ⟨unit, hunit, ?_⟩
        have hmem : unit ∈ input.removables := hleft ▸ List.mem_append_right _ hunit
        rw [unprotected_eq, hfree, List.of_mem_filter hmem]
        rfl
      rw [filter_unprotected, ← Input.removables, ← hleft, List.filter_append, hself, hnone,
        List.append_nil]
  · intro unit hunit m hm hrole hsafe ref href
    rw [hout.evidence]
    exact mem_evidenceReferences hunit hm hrole hsafe href

/-- What is left tells which units are removed. -/
theorem KeepsWhatItMust.mem_gone_iff {input : Input host options messages}
    (h : KeepsWhatItMust input out kept gone) (hout : Returned input raw out) {unit : List Nat}
    (hunit : unit ∈ input.units) : unit ∈ gone ↔ unit ∈ input.gone := by
  -- the summary stands at the same place in both
  have hkept : kept = (input.without input.gone).compiled := by
    have heq := h.returned.symm.trans (hout.messages.trans (withSummary_eq _ _))
    cases hsummary : out.summary with
    | none => rwa [hsummary] at heq
    | some s =>
      rw [hsummary] at heq
      exact insertAtHead_injective _ _ heq
  rw [h.left, input.compiled_without] at hkept
  obtain ⟨⟨first, more, rfl⟩, -⟩ := input.isUnit hunit
  have hfirst : first ∈ List.range' first (more + 1) := by simp
  have hlt : first < messages.length := by
    have hcover : first ∈ input.units.flatten := List.mem_flatten.mpr ⟨_, hunit, hfirst⟩
    rwa [input.cover, List.mem_range] at hcover
  -- no message occurs twice, so the first one of the unit stays in both or in none
  have hnodup := (accept_iff.mp ⟨_, input.accepted⟩).unique.of_map
  have hsame := eq_of_keepAt_eq hnodup hkept hlt
  rw [decide_eq_decide] at hsame
  have hsub : gone ⊆ input.units := fun u hu => List.mem_of_mem_filter (h.oldest.subset hu)
  rw [mem_flatten_iff_mem input.nodup_flatten hsub hunit hfirst,
    mem_flatten_iff_mem input.nodup_flatten input.gone_subset hunit hfirst] at hsame
  exact not_iff_not.mp hsame

/-- Where what has to be kept is kept, counting down has agreed with adding up. -/
theorem KeepsWhatItMust.budgetKept {input : Input host options messages}
    (h : KeepsWhatItMust input out kept gone) (hout : Returned input raw out) :
    BudgetKept input raw := by
  rintro _ left s hleft hfirst ⟨unit, hunit, hfree⟩ hplaced
  obtain rfl := hfirst.shed_eq
  obtain rfl := Except.ok.inj (hplaced.symm.trans hout.summary)
  rcases h.budget with hfits | hall
  · rwa [hout.finalTokens, hout.messages] at hfits
  · -- an unprotected unit is left, so not all of them went
    have hnodup : input.removables.Nodup := input.nodup_units.filter _
    have hmem : unit ∈ input.units :=
      List.mem_of_mem_filter (hleft ▸ List.mem_append_right _ hunit : unit ∈ input.removables)
    have hgone := (h.mem_gone_iff hout hmem).mp (hall ▸ List.mem_filter.mpr ⟨hmem, hfree⟩)
    rw [hleft] at hnodup
    exact absurd hunit (List.disjoint_of_nodup_append hnodup hgone)

/-- Pruning stops before the tail exactly if no removed unit holds a message that has to stay. -/
theorem tailSpared_iff {input : Input host options messages} : TailSpared input ↔
    ∀ unit ∈ input.gone, unit.any (required options messages) = false := by
  by_cases hhead : options.headMessages = some .nan
  · -- an index compares with no NaN, so the head is empty and the tail unguarded
    have hnan := head_eq_nan hhead
    have hremovable : removable options messages = ordinary messages :=
      funext fun _ => removable_eq_ordinary hnan
    have htail : ∀ unit, ordinary messages unit = true →
        (unit.any (required options messages) = true ↔
          ∃ i ∈ unit, inTail options messages i = true) := by
      intro unit hordinary
      rw [List.any_eq_true]
      refine exists_congr fun i => and_congr_right fun hi => ?_
      have hfinancial := (Bool.and_eq_true_iff.mp (List.all_eq_true.mp hordinary i hi)).1
      have hlt : inHead options i = false := by
        rw [inHead, hnan]
        rfl
      rw [required, hlt, Bool.not_eq_true' .. |>.mp hfinancial, Bool.false_or, Bool.or_false]
    constructor
    · rintro (hne | hspared) unit hunit
      · exact absurd hhead hne
      · obtain ⟨before, after, hunits, hordinary, hover⟩ := input.mem_gone_iff.mp hunit
        rw [hremovable] at hordinary hover
        by_contra hany
        have hin := (htail unit hordinary).mp (Bool.not_eq_false _ ▸ hany)
        obtain ⟨b, hb, hfits⟩ := hspared before unit after hunits hordinary hin
        exact Bool.noConfusion (hfits.symm.trans (hover b hb))
    · intro hstays
      refine .inr fun before unit after hunits hordinary hin => ?_
      by_contra hover
      rw [← hremovable] at hordinary hover
      have hunit := input.mem_gone_iff.mpr ⟨before, after, hunits, hordinary, fun b hb =>
        Bool.eq_false_iff.mpr fun hfits => hover ⟨b, hb, hfits⟩⟩
      rw [hremovable] at hordinary
      exact absurd (((htail unit hordinary).mpr hin).symm.trans (hstays unit hunit)) (by decide)
  · -- otherwise what goes is neither in the head nor in the tail
    refine iff_of_true (.inl hhead) fun unit hunit => ?_
    have hremovable := input.removable_of_mem_gone hunit
    rw [removable_eq_unprotected hhead, unprotected_iff] at hremovable
    exact List.any_eq_false.mpr fun i hi => by simp [(hremovable i hi).1]

/-- What has to be kept is kept exactly if the tail is spared and counting down agrees with adding
up. -/
theorem compileContext_keeps_iff (h : compileContext host messages options raw = .ok out) :
    ∃ input : Input host options messages,
      (∃ kept gone, KeepsWhatItMust input out kept gone) ↔
        TailSpared input ∧ BudgetKept input raw := by
  obtain ⟨input, hout⟩ := compileContext_parts h
  refine ⟨input, ?_⟩
  rw [tailSpared_iff]
  constructor
  · rintro ⟨kept, gone, hkeeps⟩
    refine ⟨fun unit hunit => ?_, hkeeps.budgetKept hout⟩
    by_contra hany
    have hmem := input.gone_subset hunit
    have hrequired := List.any_eq_true.mp (Bool.not_eq_false _ ▸ hany)
    exact hkeeps.stays unit hmem hrequired ((hkeeps.mem_gone_iff hout hmem).mpr hunit)
  · rintro ⟨hstays, hbudget⟩
    exact ⟨_, _, keepsWhatItMust_of hout hstays hbudget⟩

end Keeps

/-! ### Estimates without rounding -/

section Safe

variable {n k : Int} {raw : JsValue}

theorem rounded_ofInt (hn : 0 ≤ n) (hlt : n < 2 ^ 53) : (JsNumber.ofInt n).rounded = .ofInt n := by
  lift n to ℕ using hn
  exact (nearest_natCast n).1 (by exact_mod_cast hlt)

/-- Rounding does not bring a number within a limit below `2 ^ 53`. -/
theorem le_of_rounded_le (hn : 0 ≤ n) (hk : k < 2 ^ 53)
    (h : (JsNumber.ofInt n).rounded.le (.ofInt k) = true) : n ≤ k := by
  lift n to ℕ using hn
  by_cases hlt : n < 2 ^ 53
  · rwa [rounded_ofInt (by omega) (by exact_mod_cast hlt), JsNumber.le_ofInt,
      decide_eq_true_eq] at h
  · have hcases := (nearest_natCast n).2 (not_lt.mp hlt)
    rw [JsNumber.ofInt, JsNumber.rounded, Int.cast_natCast] at h
    rcases hcases with hinf | ⟨m, hm, hfin⟩
    · rw [hinf] at h
      exact absurd h (by simp [JsNumber.le, JsNumber.lt, JsNumber.ofInt])
    · rw [hfin, JsNumber.le_ofInt, decide_eq_true_eq] at h
      omega

theorem addTokens_ofInt {a b : Int} (h : 0 ≤ a + b) (hlt : a + b < 2 ^ 53) :
    addTokens (.ofInt a) b = .ofInt (a + b) := by
  rw [addTokens, JsNumber.add_ofInt, rounded_ofInt h hlt]

/-- Below `2 ^ 53` tokens are added up exactly. -/
theorem totalTokens_eq {estimates : List Int} (h : ∀ e ∈ estimates, 0 ≤ e)
    (hlt : estimates.sum < 2 ^ 53) : totalTokens estimates = .ofInt estimates.sum := by
  induction estimates using List.reverseRecOn with
  | nil => rfl
  | append_singleton l e ih =>
    rw [List.sum_append, List.sum_singleton] at hlt ⊢
    have he := h e (by simp)
    have hl : 0 ≤ l.sum := List.sum_nonneg fun x hx => h x (by simp [hx])
    have hprevious := ih (fun x hx => h x (by simp [hx])) (by omega)
    rw [totalTokens] at hprevious ⊢
    rw [List.foldl_append, hprevious, List.foldl_cons, List.foldl_nil,
      addTokens_ofInt (by omega) hlt]

/-- Below `2 ^ 53` tokens are counted down exactly, as long as they last. -/
theorem lessUnit_eq {estimates : List Int} (h : ∀ e ∈ estimates, 0 ≤ e) (hlt : n < 2 ^ 53)
    {unit : List Nat} (hunit : (unit.map fun i => estimates[i]?.getD 0).sum ≤ n) :
    lessUnit estimates (.ofInt n) unit =
      .ofInt (n - (unit.map fun i => estimates[i]?.getD 0).sum) := by
  induction unit generalizing n with
  | nil => simp [lessUnit]
  | cons i unit ih =>
    rw [List.map_cons, List.sum_cons] at hunit ⊢
    have hnonneg : ∀ j : Nat, 0 ≤ estimates[j]?.getD 0 := by
      intro j
      cases hj : estimates[j]? with
      | none => exact le_rfl
      | some e => exact h e (List.mem_of_getElem? hj)
    have hi := hnonneg i
    have hrest : 0 ≤ (unit.map fun i => estimates[i]?.getD 0).sum :=
      List.sum_nonneg fun x hx => by
        obtain ⟨j, -, rfl⟩ := List.mem_map.mp hx
        exact hnonneg j
    have hfirst : ((JsNumber.ofInt n).sub (.ofInt (estimates[i]?.getD 0))).rounded =
        .ofInt (n - estimates[i]?.getD 0) := by
      rw [JsNumber.sub_ofInt, rounded_ofInt (by omega) (by omega)]
    have hnext := @ih (n - estimates[i]?.getD 0) (by omega) (by omega)
    rw [lessUnit] at hnext ⊢
    rw [List.foldl_cons, hfirst, hnext, sub_sub]

theorem tokensOf_nonneg (m : ContextMessage) : 0 ≤ tokensOf host options m := by
  rw [tokensOf]
  cases h : validatedEstimate (baseEstimate host options) m with
  | error e => exact le_rfl
  | ok t => exact validatedEstimate_nonneg h

theorem nonneg_of_mem_map {l : List ContextMessage} :
    ∀ e ∈ l.map (tokensOf host options), 0 ≤ e := by
  intro e he
  obtain ⟨m, -, rfl⟩ := List.mem_map.mp he
  exact tokensOf_nonneg m

/-- What a summary that is placed is estimated at fits on top of the rest. -/
theorem fits_of_placedSummary {p : Pruned} {s : HandoffSummary}
    (h : placedSummary host options k p raw = .ok (some s)) :
    (addTokens p.tokens (tokensOf host options (summaryMessage host s))).le (.ofInt k) = true := by
  unfold placedSummary at h
  split at h
  · simp only [bind_eq_ok] at h
    obtain ⟨made, -, hplaced⟩ := h
    cases made with
    | none => cases hplaced
    | some s' =>
      simp only [bind_eq_ok] at hplaced
      obtain ⟨t, ht, hplaced⟩ := hplaced
      have hplaced := Except.ok.inj hplaced
      split at hplaced
      · rename_i hfits
        obtain rfl := Option.some.inj hplaced
        rwa [tokensOf_eq ht]
      · cases hplaced
  · cases h

/-- Below `2 ^ 53` what is left of the tokens is what the messages that are left are estimated
at. -/
theorem Input.running_eq (input : Input host options messages)
    (htotal : input.estimates.sum < 2 ^ 53) {gone : List (List Nat)}
    (hgone : gone <+: input.removables) : input.running gone =
      .ofInt (((input.without gone).compiled.map (tokensOf host options)).sum) := by
  have hnodup : gone.flatten.Nodup :=
    input.nodup_flatten.sublist
      (List.Sublist.flatten (hgone.sublist.trans List.filter_sublist))
  have hsub : gone.flatten ⊆ List.range messages.length := by
    rw [← input.cover]
    exact (List.Sublist.flatten (hgone.sublist.trans List.filter_sublist)).subset
  have hpick : ∀ l : List Nat, (l.map fun i => input.estimates[i]?.getD 0).sum =
      ((pick messages l).map (tokensOf host options)).sum := by
    intro l
    rw [input.estimates_eq]
    induction l with
    | nil => rfl
    | cons i l ih =>
      rw [List.map_cons, List.sum_cons, ih, ← List.singleton_append, pick_append, List.map_append,
        List.sum_append]
      congr 1
      cases hi : messages[i]? <;> simp [pick, hi]
  -- what is kept and what goes add up to everything
  have hsplit := sum_eq_add_of_subset List.nodup_range hnodup hsub
    fun i => input.estimates[i]?.getD 0
  rw [hpick, pick_range, ← input.estimates_eq, hpick (List.filter _ _), ← keepAt_eq_pick,
    ← input.compiled_without] at hsplit
  have hnonneg : ∀ e ∈ input.estimates, 0 ≤ e := by
    rw [input.estimates_eq]
    exact nonneg_of_mem_map
  have hleft : 0 ≤ ((input.without gone).compiled.map (tokensOf host options)).sum :=
    List.sum_nonneg nonneg_of_mem_map
  have hdown : input.running gone = lessUnit input.estimates (totalTokens input.estimates)
      gone.flatten := by
    simp only [running, lessUnit, List.foldl_flatten]
    rfl
  rw [hdown, totalTokens_eq hnonneg htotal, lessUnit_eq hnonneg htotal (by omega)]
  congr 1
  omega

/-- Where the estimates add up to less than `2 ^ 53`, counting down agrees with adding up. -/
theorem budgetKept_of_safe {input : Input host options messages}
    (hmax : input.maxTokens < 2 ^ 53) (htotal : input.estimates.sum < 2 ^ 53) :
    BudgetKept input raw := by
  intro gone left s _ hfirst _ hplaced
  have hrunning := input.running_eq htotal hfirst.front
  have hleft : 0 ≤ ((input.without gone).compiled.map (tokensOf host options)).sum :=
    List.sum_nonneg nonneg_of_mem_map
  have hsum : ((withSummary host options (input.without gone) s).map
      (tokensOf host options)).sum ≤ input.maxTokens := by
    cases s with
    | none =>
      have hfits := hfirst.met
      rw [← Input.running, hrunning, Input.fits, JsNumber.le_ofInt, decide_eq_true_eq] at hfits
      rwa [withSummary]
    | some s =>
      -- the summary was put on top of what is left
      have hfits := fits_of_placedSummary hplaced
      have hsummary : 0 ≤ tokensOf host options (summaryMessage host s) := tokensOf_nonneg _
      rw [Input.without, hrunning, addTokens, JsNumber.add_ofInt] at hfits
      rw [withSummary, ((insertAtHead_perm _ _ _).map _).sum_eq, List.map_cons, List.sum_cons,
        add_comm]
      exact le_of_rounded_le (by omega) hmax hfits
  rw [Input.fits, totalTokens_eq nonneg_of_mem_map (by omega), JsNumber.le_ofInt]
  exact decide_eq_true hsum

end Safe

/-! ### A head count that is not a number -/

def textHost : Host := ⟨stringify, JsValue.text?⟩

/-- Every message counts one token. -/
def oneToken (maxTokens : Int) (headMessages : Option JsNumber) : CompileOptions where
  maxTokens := .ofInt maxTokens
  headMessages := headMessages
  estimateTokens := some fun _ => some (.ofInt 1)

def question : ContextMessage := { id := "question", role := .user, content := "Balance?" }

/-- A result that is looked at in some respect is one. -/
theorem exists_ok_of_toOption {α β : Type} {r : Except String α} {f : α → β} {b : β}
    (h : r.toOption.map f = some b) : ∃ a, r = .ok a ∧ f a = b := by
  cases r with
  | error e => cases h
  | ok a => exact ⟨a, rfl, Option.some.inj h⟩

/-- An old exchange, a request for a tool with its result, and the latest question. -/
def talk : List ContextMessage :=
  [{ id := "rules", role := .system, content := "Be brief." },
   { id := "old", role := .user, content := "What is a token?" },
   { id := "reply", role := .assistant, content := "A long answer." },
   { id := "call", role := .assistant, content := "",
     toolCalls := some [{ id := "tc", name := "quote", arguments := .object [] }] },
   { id := "result", role := .tool, content := "1.2", toolCallId := some "tc",
     evidenceRef := some "evidence://quote" },
   { id := "latest", role := .user, content := "Buy it." }]

/-- Everything but the old question is short, and the last message stays. -/
def summarizing : CompileOptions where
  maxTokens := .ofInt 100
  tailMessages := some (.ofInt 1)
  estimateTokens := some fun m => some (.ofInt (if m.id = "old" then 500 else 10))
  summarizer := true

/-- The summarizer names the reply. -/
def namesReply : JsValue :=
  .object [("references", .array [.object [("messageId", .string "reply")]])]

/-- What comes of it: the old exchange is replaced by a summary, and the tool's result stays. -/
theorem exists_compiled_talk : ∃ out,
    compileContext textHost talk summarizing namesReply = .ok out ∧
      out.messages.map ContextMessage.id =
        ["rules", HANDOFF_ID, "call", "result", "latest"] ∧
      out.diagnostics.prunedMessageIds = ["old", "reply"] := by
  have hrun : (compileContext textHost talk summarizing namesReply).toOption.map
      (fun out => (out.messages.map ContextMessage.id, out.diagnostics.prunedMessageIds)) =
        some (["rules", HANDOFF_ID, "call", "result", "latest"], ["old", "reply"]) := by
    decide +kernel
  obtain ⟨out, hout, heq⟩ := exists_ok_of_toOption hrun
  exact ⟨out, hout, Prod.mk.inj heq⟩

theorem compileContext_keeps_iff_talk : ∃ out,
    compileContext textHost talk summarizing namesReply = .ok out ∧
      out.messages.map ContextMessage.id =
        ["rules", HANDOFF_ID, "call", "result", "latest"] ∧
      out.diagnostics.prunedMessageIds = ["old", "reply"] ∧
      ∃ (input : Input textHost summarizing talk) (kept : _) (gone : _),
        KeepsWhatItMust input out kept gone := by
  obtain ⟨out, hout, hids, hpruned⟩ := exists_compiled_talk
  obtain ⟨input, hiff⟩ := compileContext_keeps_iff hout
  have hmax : input.maxTokens = 100 := Except.ok.inj (input.budget.symm.trans rfl)
  have hestimates : input.estimates = [10, 500, 10, 10, 10, 10] :=
    Except.ok.inj (input.estimated.symm.trans (by decide +kernel))
  have hspared : TailSpared input := .inl (by simp [summarizing])
  exact ⟨out, hout, hids, hpruned, input, hiff.mpr ⟨hspared, budgetKept_of_safe
    (by rw [hmax]; decide) (by rw [hestimates]; decide)⟩⟩

/-- The only message is one of the last four, and it is removed. -/
theorem tail_removed : ∃ out,
    compileContext textHost [question] (oneToken 0 (some .nan)) .undefined = .ok out ∧
      ∀ (input : Input textHost (oneToken 0 (some .nan)) [question]) (kept : List ContextMessage)
        (gone : List (List Nat)), ¬ KeepsWhatItMust input out kept gone := by
  have hrun : (compileContext textHost [question] (oneToken 0 (some .nan))
      .undefined).toOption.map (fun out => (out.messages.length, out.summary.isNone)) =
        some (0, true) := by
    decide +kernel
  obtain ⟨out, hout, heq⟩ := exists_ok_of_toOption hrun
  obtain ⟨hlength, hnone⟩ := Prod.mk.inj heq
  refine ⟨out, hout, fun input kept gone h => ?_⟩
  have hunits : input.units = [[0]] := Except.ok.inj (input.accepted.symm.trans rfl)
  have hgone : gone = [] := by
    have holdest := h.oldest
    have hnone : unprotected (oneToken 0 (some .nan)) [question] [0] = false := by
      decide +kernel
    rw [hunits, List.filter_cons_of_neg (by rw [hnone]; decide), List.filter_nil] at holdest
    exact List.prefix_nil.mp holdest
  have hleft := h.left
  have hreturned := h.returned
  subst hgone
  rw [List.length_eq_zero_iff.mp hlength, Option.isNone_iff_eq_none.mp hnone, hleft] at hreturned
  cases hreturned

end AriOs.Cognition.Context
