import AriOs.Cognition.ContextPruning

/-!
# Where the summary is put

What pruning leaves is well formed again. The summary is put in by the count of the messages at the
head, which may end inside a request for tools, between the request and its results. The id of the
summary is a fixed one, which a message that stays may have from an earlier compilation.

## Main results

* `wellFormed_compiled` — what pruning leaves is well formed
-/

namespace AriOs.Cognition.Context

open AriOs.Js AriOs.Storage AriOs.Storage.Blocks

variable {host : Host} {options : CompileOptions} {messages : List ContextMessage}
  {input : Input host options messages} {m : ContextMessage} {raw : JsValue}
  {out : CompiledContext}

/-- If a summary is put in, the first message behind the head is no result, and every message with
the id of the summary is removed. -/
def SummaryFits (input : Input host options messages) (raw : JsValue) : Prop :=
  ∀ s, placedSummary host options input.maxTokens (input.without input.gone) raw = .ok (some s) →
    (∀ m ∈ messages[spliceStart options.head messages.length]?, m.role ≠ .tool) ∧
      ∀ i m, messages[i]? = some m → m.id = HANDOFF_ID → ∃ unit ∈ input.gone, i ∈ unit

/-! ### What pruning leaves -/

theorem wellFormed_compiled (input : Input host options messages) :
    WellFormed (input.without input.gone).compiled := by
  have hwf := accept_iff.mp ⟨_, input.accepted⟩
  have hsub : ((input.without input.gone).compiled.map ContextMessage.id).Sublist
      (messages.map ContextMessage.id) := by
    rw [input.compiled_without]
    exact keepAt_sublist.map _
  refine ⟨fun h => hwf.ids (hsub.subset h), hwf.unique.sublist hsub, ?_⟩
  rw [input.compiled_without, keepAt_notMem_flatten input.cover input.gone_subset]
  refine Exchanges.flatten fun block hblock => ?_
  obtain ⟨unit, hunit, rfl⟩ := List.mem_map.mp hblock
  exact (input.isUnit (List.mem_of_mem_filter hunit)).exchanges

theorem length_compiled_le : (input.without input.gone).compiled.length ≤ messages.length := by
  rw [input.compiled_without]
  exact keepAt_sublist.length_le

/-! ### The end of the head -/

theorem spliceStart_le (start : JsNumber) (length : Nat) : spliceStart start length ≤ length := by
  unfold spliceStart
  split
  · exact min_le_right _ _
  · exact le_rfl
  · exact Nat.zero_le _

theorem spliceStart_ofInt (k n : Nat) : spliceStart (.ofInt k) n = min k n := by
  have hfloor : ((k : Int) : ℚ).floor = k := Rat.floor_intCast k
  rw [JsNumber.ofInt, spliceStart, hfloor, Int.toNat_natCast]

/-- What stands in front of the end of the head is protected. -/
theorem lt_head_of_lt_spliceStart {i n : Nat} (h : i < spliceStart options.head n) :
    (JsNumber.ofInt i).lt options.head = true := by
  unfold spliceStart at h
  split at h
  · rename_i q hq
    have hfloor : (i : Int) < q.floor := by omega
    rw [hq, JsNumber.ofInt, JsNumber.lt_finite, decide_eq_true_eq]
    exact lt_of_lt_of_le (by exact_mod_cast hfloor) (Rat.floor_le q)
  · rename_i hq
    rw [hq]
    rfl
  · exact absurd h (Nat.not_lt_zero i)

/-- The head ends at the same place in what is left. -/
theorem spliceStart_min {head : JsNumber} {k n : Nat} (hk : spliceStart head n ≤ k) (hkn : k ≤ n) :
    spliceStart (head.min (.ofInt k)) k = spliceStart head n := by
  rcases head with _ | ⟨_ | _⟩ | q
  · rfl
  · have hmin : (JsNumber.infinity false).min (.ofInt k) = .ofInt k := by
      simp [JsNumber.min, JsNumber.ofInt, JsNumber.lt]
    rw [hmin, spliceStart_ofInt, min_self]
    exact le_antisymm hkn hk
  · rfl
  · by_cases hlt : q < k
    · have hmin : (JsNumber.finite q).min (.ofInt k) = .finite q := by
        simp [JsNumber.min, JsNumber.ofInt, JsNumber.lt_finite, hlt]
      -- a head that is not longer than the list stays as it is
      have hfloor : q.floor < (k : Int) := by
        have h := lt_of_le_of_lt (Rat.floor_le q) hlt
        exact_mod_cast h
      rw [hmin, spliceStart, spliceStart]
      omega
    · have hmin : (JsNumber.finite q).min (.ofInt k) = .ofInt k := by
        simp [JsNumber.min, JsNumber.ofInt, JsNumber.lt_finite, hlt]
      have hfloor : (k : Int) ≤ q.floor := by
        rw [Rat.le_floor_iff]
        exact_mod_cast not_lt.mp hlt
      rw [spliceStart] at hk
      rw [hmin, spliceStart_ofInt, spliceStart]
      omega

/-- Nothing in front of the end of the head is removed. -/
theorem notMem_gone_of_lt {i : Nat} (h : i < spliceStart options.head messages.length) :
    i ∉ input.gone.flatten := by
  intro hi
  obtain ⟨unit, hunit, hi⟩ := List.mem_flatten.mp hi
  have hremovable := input.removable_of_mem_gone hunit
  rw [removable, Bool.not_eq_true', protectedUnit, List.any_eq_false] at hremovable
  exact hremovable i hi (by simp [lt_head_of_lt_spliceStart h])

/-- The indexes behind the head that are left. -/
def leftBehind (input : Input host options messages) : List Nat :=
  (List.range' (spliceStart options.head messages.length)
    (messages.length - spliceStart options.head messages.length)).filter
      fun i => decide (i ∉ input.gone.flatten)

theorem mem_leftBehind_iff {j : Nat} : j ∈ leftBehind input ↔
    spliceStart options.head messages.length ≤ j ∧ j < messages.length ∧
      j ∉ input.gone.flatten := by
  rw [leftBehind, List.mem_filter, List.mem_range'_1, decide_eq_true_eq, and_assoc]
  have hle := spliceStart_le options.head messages.length
  rw [Nat.add_sub_cancel' hle]

/-- What is left are the messages of the head and the others that are left behind it. -/
theorem compiled_eq_append : (input.without input.gone).compiled =
    messages.take (spliceStart options.head messages.length) ++
      pick messages (leftBehind input) := by
  have hle := spliceStart_le options.head messages.length
  have hrange : List.range messages.length =
      List.range (spliceStart options.head messages.length) ++
        List.range' (spliceStart options.head messages.length)
          (messages.length - spliceStart options.head messages.length) := by
    have happend := List.range'_append_1 (s := 0)
      (m := spliceStart options.head messages.length)
      (n := messages.length - spliceStart options.head messages.length)
    rw [Nat.zero_add, Nat.add_sub_cancel' hle] at happend
    rw [List.range_eq_range', List.range_eq_range', happend]
  have hhead : (List.range (spliceStart options.head messages.length)).filter
      (fun i => decide (i ∉ input.gone.flatten)) =
        List.range (spliceStart options.head messages.length) :=
    List.filter_eq_self.mpr fun i hi =>
      decide_eq_true (notMem_gone_of_lt (List.mem_range.mp hi))
  rw [input.compiled_without, keepAt_eq_pick, hrange, List.filter_append, pick_append, hhead,
    List.range_eq_range', pick_range', List.drop_zero, leftBehind]

theorem drop_compiled :
    (input.without input.gone).compiled.drop (spliceStart options.head messages.length) =
    pick messages (leftBehind input) := by
  rw [compiled_eq_append, List.drop_left']
  rw [List.length_take, min_eq_left (spliceStart_le _ _)]

theorem exists_unit_of_lt {i : Nat} (h : i < messages.length) : ∃ unit ∈ input.units, i ∈ unit := by
  rw [← List.mem_range, ← input.cover, List.mem_flatten] at h
  exact h

/-- A result and the message before it are in one unit, so they stay or go together. -/
theorem result_together {j : Nat} {m : ContextMessage} (hm : messages[j]? = some m)
    (hrole : m.role = .tool) :
    ∃ j', j = j' + 1 ∧ (j ∈ input.gone.flatten ↔ j' ∈ input.gone.flatten) := by
  obtain ⟨unit, hunit, hj⟩ := @exists_unit_of_lt _ _ _ input _ (List.getElem?_eq_some_iff.mp hm).1
  obtain ⟨j', hj', rfl⟩ := (input.isUnit hunit).pred_mem hj hm hrole
  refine ⟨j', rfl, ?_⟩
  rw [mem_flatten_iff_mem input.nodup_flatten input.gone_subset hunit hj,
    mem_flatten_iff_mem input.nodup_flatten input.gone_subset hunit hj']

/-- An index behind the head that is left is not in front of the first one. -/
theorem le_of_mem_leftBehind {j j' : Nat} {rest : List Nat} (h : leftBehind input = j :: rest)
    (hge : spliceStart options.head messages.length ≤ j') (hlt : j' < messages.length)
    (hstays : j' ∉ input.gone.flatten) : j ≤ j' := by
  have hj' : j' ∈ leftBehind input := mem_leftBehind_iff.mpr ⟨hge, hlt, hstays⟩
  have hsorted : (leftBehind input).Pairwise (· < ·) :=
    (List.pairwise_lt_range' ..).sublist List.filter_sublist
  rw [h] at hj' hsorted
  rcases List.mem_cons.mp hj' with rfl | hrest
  · exact le_rfl
  · exact ((List.pairwise_cons.mp hsorted).1 j' hrest).le

theorem head?_leftBehind {j : Nat} {rest : List Nat} (h : leftBehind input = j :: rest) :
    (pick messages (leftBehind input)).head? = messages[j]? := by
  have hj : j ∈ leftBehind input := h ▸ List.mem_cons_self
  simp [h, pick, (mem_leftBehind_iff.mp hj).2.1]

/-- What is left begins behind the head with a result exactly if the head ends in front of it. -/
theorem drop_compiled_head_iff :
    (∃ m ∈ ((input.without input.gone).compiled.drop
      (spliceStart options.head messages.length)).head?, m.role = .tool) ↔
    ∃ m ∈ messages[spliceStart options.head messages.length]?, m.role = .tool := by
  rw [drop_compiled]
  constructor
  · rintro ⟨m, hm, hrole⟩
    cases hleft : leftBehind input with
    | nil =>
      rw [hleft] at hm
      cases hm
    | cons j rest =>
      rw [head?_leftBehind hleft] at hm
      have hj : j ∈ leftBehind input := hleft ▸ List.mem_cons_self
      obtain ⟨hge, hlt, hstays⟩ := mem_leftBehind_iff.mp hj
      obtain ⟨j', rfl, htogether⟩ := @result_together _ _ _ input _ _ hm hrole
      -- the message before would come first if it were behind the head too
      have hfirst : j' + 1 = spliceStart options.head messages.length := by
        by_contra hne
        have hle := le_of_mem_leftBehind hleft (by omega) (by omega)
          fun h => hstays (htogether.mpr h)
        omega
      exact ⟨m, hfirst ▸ hm, hrole⟩
  · rintro ⟨m, hm, hrole⟩
    have hlt := (List.getElem?_eq_some_iff.mp hm).1
    obtain ⟨j', hj', htogether⟩ := @result_together _ _ _ input _ _ hm hrole
    have hstays : spliceStart options.head messages.length ∉ input.gone.flatten := by
      rw [htogether]
      exact notMem_gone_of_lt (by omega)
    refine ⟨m, ?_, hrole⟩
    -- the head ends in front of the first index that is left
    cases hleft : leftBehind input with
    | nil =>
      have hmem := mem_leftBehind_iff.mpr ⟨le_rfl, hlt, hstays⟩
      rw [hleft] at hmem
      cases hmem
    | cons j rest =>
      have hj : j ∈ leftBehind input := hleft ▸ List.mem_cons_self
      have hge := (mem_leftBehind_iff.mp hj).1
      have hle := le_of_mem_leftBehind hleft le_rfl hlt hstays
      rw [← hleft, head?_leftBehind hleft, le_antisymm hle hge]
      exact hm

/-! ### Where the summary is put -/

theorem insertAtHead_compiled (m : ContextMessage) :
    insertAtHead options.head m (input.without input.gone).compiled =
      (input.without input.gone).compiled.take (spliceStart options.head messages.length) ++
        m :: (input.without input.gone).compiled.drop
          (spliceStart options.head messages.length) := by
  have hle : spliceStart options.head messages.length ≤
      (input.without input.gone).compiled.length := by
    have hlength := congrArg List.length (@compiled_eq_append _ _ _ input)
    rw [List.length_append, List.length_take, min_eq_left (spliceStart_le _ _)] at hlength
    omega
  rw [insertAtHead, spliceStart_min hle length_compiled_le]

/-- With the summary the messages are well formed exactly if it does not come in front of a result
and no message that is left has its id. -/
theorem wellFormed_insertAtHead_iff (s : HandoffSummary) :
    WellFormed (insertAtHead options.head (summaryMessage host s)
        (input.without input.gone).compiled) ↔
      (∀ m ∈ messages[spliceStart options.head messages.length]?, m.role ≠ .tool) ∧
        HANDOFF_ID ∉ (input.without input.gone).compiled.map ContextMessage.id := by
  have hcompiled := wellFormed_compiled input
  have hids : (insertAtHead options.head (summaryMessage host s)
      (input.without input.gone).compiled).map ContextMessage.id |>.Perm
        (HANDOFF_ID :: (input.without input.gone).compiled.map ContextMessage.id) :=
    (insertAtHead_perm _ _ _).map _
  -- the summary may stand anywhere but before the answer of a tool
  have hexchanges : Exchanges (insertAtHead options.head (summaryMessage host s)
      (input.without input.gone).compiled) ↔
        ∀ m ∈ messages[spliceStart options.head messages.length]?, m.role ≠ .tool := by
    rw [insertAtHead_compiled, Exchanges.insert_iff (by
      rw [List.take_append_drop]
      exact hcompiled.exchanges) (by simp [summaryMessage]) rfl]
    have hiff := not_congr (@drop_compiled_head_iff _ _ _ input)
    simpa only [not_exists, not_and] using hiff
  constructor
  · intro h
    exact ⟨hexchanges.mp h.exchanges, (List.nodup_cons.mp (hids.nodup_iff.mp h.unique)).1⟩
  · rintro ⟨hhead, hid⟩
    refine ⟨fun h => ?_, hids.nodup_iff.mpr (List.nodup_cons.mpr ⟨hid, hcompiled.unique⟩),
      hexchanges.mpr hhead⟩
    rcases List.mem_cons.mp (hids.mem_iff.mp h) with heq | hmem
    · exact absurd heq (by decide)
    · exact hcompiled.ids hmem

/-- No message that is left has an id exactly if every message that has it is removed. -/
theorem notMem_ids_compiled_iff {id : String} :
    id ∉ (input.without input.gone).compiled.map ContextMessage.id ↔
      ∀ i m, messages[i]? = some m → m.id = id → ∃ unit ∈ input.gone, i ∈ unit := by
  rw [input.compiled_without]
  simp only [List.mem_map, mem_keepAt_iff, decide_eq_true_eq, not_exists, not_and]
  constructor
  · intro h i m hm hid
    by_contra hgone
    exact h m ⟨i, fun hi => hgone (List.mem_flatten.mp hi), hm⟩ hid
  · rintro h m ⟨i, hi, hm⟩ hid
    exact hi (List.mem_flatten.mpr (h i m hm hid))

/-- What is returned is well formed exactly if the summary fits. -/
theorem compileContext_wellFormed_iff
    (h : compileContext host messages options raw = .ok out) :
    ∃ input : Input host options messages,
      (WellFormed out.messages ↔ ∃ units, accept out.messages = .ok units) ∧
        (WellFormed out.messages ↔ SummaryFits input raw) := by
  obtain ⟨input, hout⟩ := compileContext_parts h
  refine ⟨input, accept_iff.symm, ?_⟩
  rw [hout.messages, SummaryFits, hout.summary]
  cases hsummary : out.summary with
  | none => exact iff_of_true (wellFormed_compiled input) fun s hs => by cases hs
  | some s =>
    rw [withSummary, wellFormed_insertAtHead_iff, notMem_ids_compiled_iff]
    constructor
    · rintro hfits s' -
      exact hfits
    · intro hfits
      exact hfits s rfl

/-- The summary stands in front of the request, which no message of its id keeps out. -/
theorem compileContext_wellFormed_iff_talk : ∃ out,
    compileContext textHost talk summarizing namesReply = .ok out ∧
      out.messages.map ContextMessage.id =
        ["rules", HANDOFF_ID, "call", "result", "latest"] ∧
      out.diagnostics.prunedMessageIds = ["old", "reply"] ∧
      WellFormed out.messages ∧ ∃ units, accept out.messages = .ok units := by
  obtain ⟨out, hout, hids, hpruned⟩ := exists_compiled_talk
  obtain ⟨input, haccepted, hiff⟩ := compileContext_wellFormed_iff hout
  have hfits : SummaryFits input namesReply := by
    refine fun _ _ => ⟨by decide +kernel, fun i m hm hid => ?_⟩
    have hnone : HANDOFF_ID ∉ talk.map ContextMessage.id := by decide
    exact absurd (List.mem_map.mpr ⟨m, List.mem_of_getElem? hm, hid⟩) hnone
  have hwf := hiff.mpr hfits
  exact ⟨out, hout, hids, hpruned, hwf, haccepted.mp hwf⟩

/-! ### A head that ends behind a request -/

/-- A request for a tool with its result, an old question, and the latest one. -/
def lookup : List ContextMessage :=
  [{ id := "call", role := .assistant, content := "",
     toolCalls := some [{ id := "tc", name := "lookup", arguments := .object [] }] },
   { id := "result", role := .tool, content := "answer", toolCallId := some "tc" },
   { id := "old", role := .user, content := "old" },
   { id := "latest", role := .user, content := "now" }]

/-- The summary comes between the request, which is the head, and its result. -/
theorem summary_splits_exchange : ∃ out,
    compileContext textHost lookup summarizing (.object [("references", .array [])]) = .ok out ∧
      ¬ WellFormed out.messages := by
  have hrun : (compileContext textHost lookup summarizing
      (.object [("references", .array [])])).toOption.map
        (fun out => (accept out.messages).toOption.isSome) = some false := by
    decide +kernel
  obtain ⟨out, hout, hrefused⟩ := exists_ok_of_toOption hrun
  refine ⟨out, hout, fun h => ?_⟩
  obtain ⟨units, hunits⟩ := accept_iff.mpr h
  rw [hunits] at hrefused
  cases hrefused

end AriOs.Cognition.Context
