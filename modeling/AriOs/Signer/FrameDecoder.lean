import AriOs.Signer.Transaction

/-!
# Framing of the signer's socket

Requests and answers are lines of JSON. The bytes of a socket arrive in chunks that know nothing
of lines: what has arrived without its newline is kept, and every push takes the complete lines
off what is kept and what has just arrived. A line is read from its bytes at once, so that no
character is read from parts of it.

What a chunk may hold is limited twice: a line may be no longer than the limit, and neither may
what is kept without a newline. The second check only sees a line that the first would refuse
later, since a stream that ends in a newline ends every line.

What a line reads as is a parameter.
-/

namespace AriOs.Signer

open AriOs.Js

/-- The newline. -/
def NEWLINE : UInt8 := 10

section Frames

variable {Frame : Type}

/-- `n > max`. -/
def tooLarge (max : JsNumber) (n : Nat) : Bool := max.lt (.ofInt n)

/-- A line is skipped if it is empty, and read otherwise. -/
def readLine (parse : Bytes → Option Frame) (line : Bytes) : Except String (List Frame) :=
  if line = [] then return []
  else do
    let frame ← orThrow (parse line) "frame_json_invalid"
    return [frame]

/-- The loop of `push`: the lines at the front, and what is left after the last of them. -/
def drain (max : JsNumber) (parse : Bytes → Option Frame) (pending : Bytes) :
    Except String (List Frame × Bytes) :=
  match _h : pending.idxOf? NEWLINE with
  | none => return ([], pending)
  | some i => do
    throwIf (tooLarge max i) "frame_too_large"
    let frames ← readLine parse (pending.take i)
    let (rest, left) ← drain max parse (pending.drop (i + 1))
    return (frames ++ rest, left)
termination_by pending.length
decreasing_by
  have hlt := (List.findIdx?_eq_some_iff_getElem.mp _h).1
  rw [List.length_drop]
  omega

/-- A decoder: the bytes of a line that has not ended, and the limit. -/
structure JsonFrameDecoder where
  pending : Bytes := []
  max : JsNumber := .ofInt (1024 * 1024)

/-- The frames of the lines that a chunk completes, and the decoder after it. -/
def JsonFrameDecoder.push (parse : Bytes → Option Frame) (d : JsonFrameDecoder) (chunk : Bytes) :
    Except String (List Frame × JsonFrameDecoder) := do
  let pending := d.pending ++ chunk
  throwIf (tooLarge d.max pending.length ∧ NEWLINE ∉ pending) "frame_too_large"
  let (frames, left) ← drain d.max parse pending
  return (frames, { d with pending := left })

/-- Chunks, pushed in their order until one is rejected. -/
def JsonFrameDecoder.pushAll (parse : Bytes → Option Frame) :
    List Bytes → JsonFrameDecoder → Except String (List Frame)
  | [], _ => return []
  | chunk :: chunks, d => do
    let (frames, d) ← d.push parse chunk
    let rest ← pushAll parse chunks d
    return frames ++ rest

/-! ### Lines -/

variable {max : JsNumber} {parse : Bytes → Option Frame} {line pending rest : Bytes}

/-- A longer line is no less too long. -/
theorem tooLarge_mono {n m : Nat} (h : tooLarge max n = true) (hle : n ≤ m) :
    tooLarge max m = true := by
  rcases hle.eq_or_lt with rfl | hlt
  · exact h
  · have hlt' : (JsNumber.ofInt n).lt (.ofInt m) = true := by
      rw [JsNumber.lt_ofInt]
      exact decide_eq_true (by exact_mod_cast hlt)
    exact JsNumber.lt_trans h hlt'

/-- Bytes without a newline hold no line. -/
theorem drain_of_notMem (h : NEWLINE ∉ pending) : drain max parse pending = .ok ([], pending) := by
  have hnone : pending.idxOf? NEWLINE = none := List.idxOf?_eq_none_iff.mpr h
  rw [drain]
  split
  · rfl
  · rename_i i hi
    rw [hnone] at hi
    cases hi

theorem idxOf?_line (h : NEWLINE ∉ line) :
    (line ++ NEWLINE :: rest).idxOf? NEWLINE = some line.length := by
  induction line with
  | nil => rfl
  | cons b line ih =>
    obtain ⟨hb, hline⟩ := not_or.mp (mt List.mem_cons.mpr h)
    rw [List.cons_append, List.idxOf?_cons, if_neg (by simpa using Ne.symm hb), ih hline]
    rfl

/-- The line at the front is taken off first. -/
theorem drain_line (h : NEWLINE ∉ line) : drain max parse (line ++ NEWLINE :: rest) = do
    throwIf (tooLarge max line.length) "frame_too_large"
    let frames ← readLine parse line
    let (more, left) ← drain max parse rest
    return (frames ++ more, left) := by
  rw [drain]
  split
  · rename_i hnone
    rw [idxOf?_line h] at hnone
    cases hnone
  · rename_i i hi
    obtain rfl := Option.some.inj ((idxOf?_line h).symm.trans hi)
    simp

/-- Bytes hold no line, or one in front of the rest. -/
theorem exists_line (pending : Bytes) : NEWLINE ∉ pending ∨
    ∃ line rest, NEWLINE ∉ line ∧ pending = line ++ NEWLINE :: rest := by
  by_cases h : NEWLINE ∈ pending
  · obtain ⟨line, rest, heq, hline⟩ := List.eq_append_cons_of_mem h
    exact .inr ⟨line, rest, hline, heq⟩
  · exact .inl h

/-- Lines are taken off the front, and what is left after them holds none. -/
theorem left_spec {left : Bytes} {frames : List Frame}
    (h : drain max parse pending = .ok (frames, left)) : left <:+ pending ∧ NEWLINE ∉ left := by
  induction hn : pending.length using Nat.strong_induction_on generalizing pending frames with
  | _ n ih =>
    rcases exists_line pending with hmem | ⟨line, rest, hline, rfl⟩
    · rw [drain_of_notMem hmem] at h
      obtain ⟨-, rfl⟩ := Prod.mk.inj (Except.ok.inj h)
      exact ⟨List.suffix_rfl, hmem⟩
    · simp only [drain_line hline, bind_eq_ok] at h
      obtain ⟨-, -, front, -, ⟨more, left'⟩, hrest, hret⟩ := h
      obtain ⟨-, rfl⟩ := Prod.mk.inj (Except.ok.inj hret)
      obtain ⟨hsuffix, hmem⟩ := ih rest.length (by simp [← hn]; omega) hrest rfl
      exact ⟨hsuffix.trans ((List.suffix_cons _ _).trans (List.suffix_append _ _)), hmem⟩

/-- Where not even the empty line is short enough, no line is taken off. -/
theorem left_eq_of_tooLarge_zero {left : Bytes} {frames : List Frame}
    (hzero : tooLarge max 0 = true)
    (h : drain max parse pending = .ok (frames, left)) : left = pending := by
  rcases exists_line pending with hmem | ⟨line, rest, hline, rfl⟩
  · rw [drain_of_notMem hmem] at h
    exact (Prod.mk.inj (Except.ok.inj h)).2.symm
  · simp only [drain_line hline, bind_eq_ok, throwIf_eq_ok] at h
    obtain ⟨-, hlarge, -⟩ := h
    exact absurd (tooLarge_mono hzero (Nat.zero_le _)) hlarge

/-- Bytes that are lines read as those lines do. -/
theorem drain_lines (lines : List Bytes) (h : ∀ line ∈ lines, NEWLINE ∉ line) :
    drain max parse (lines.flatMap fun line => line ++ [NEWLINE]) = do
      let frames ← lines.mapM fun line => do
        throwIf (tooLarge max line.length) "frame_too_large"
        readLine parse line
      return (frames.flatten, []) := by
  induction lines with
  | nil => exact drain_of_notMem List.not_mem_nil
  | cons line lines ih =>
    obtain ⟨hline, hlines⟩ := List.forall_mem_cons.mp h
    rw [List.flatMap_cons, List.append_assoc, List.singleton_append, drain_line hline, ih hlines,
      List.mapM_cons]
    simp only [bind_assoc, pure_bind]
    cases throwIf (tooLarge max line.length = true) "frame_too_large" with
    | error e => rfl
    | ok u =>
      cases readLine parse line with
      | error e => rfl
      | ok frames => rfl

theorem drain_lines_two :
    drain (.ofInt 4) some [97, NEWLINE, 98, NEWLINE] = .ok ([[97], [98]], []) :=
  (drain_lines [[97], [98]] (by decide)).trans (by decide +kernel)

/-- Lines are taken off a stream as it arrives: first those that are complete, then those that
the rest completes. -/
theorem drain_append (a b : Bytes) : drain max parse (a ++ b) = do
    let (frames, left) ← drain max parse a
    let (more, left) ← drain max parse (left ++ b)
    return (frames ++ more, left) := by
  -- on the length of the first part, a line at a time
  induction hn : a.length using Nat.strong_induction_on generalizing a with
  | _ n ih =>
    rcases exists_line a with hmem | ⟨line, rest, hline, rfl⟩
    · rw [drain_of_notMem hmem]
      simp only [bind, Except.bind]
      cases drain max parse (a ++ b) <;> rfl
    · rw [List.append_assoc, List.cons_append, drain_line hline, drain_line hline,
        ih rest.length (by simp [← hn]; omega) rest rfl]
      cases throwIf (tooLarge max line.length = true) "frame_too_large" with
      | error e => rfl
      | ok u =>
        cases readLine parse line with
        | error e => rfl
        | ok frames =>
          cases drain max parse rest with
          | error e => rfl
          | ok out =>
            obtain ⟨more, left⟩ := out
            simp only [bind, Except.bind, pure, Except.pure]
            cases drain max parse (left ++ b) with
            | error e => rfl
            | ok out => simp only [List.append_assoc]

/-! ### Chunks -/

/-- Bytes that are empty or end in a newline: every line of them is complete. -/
def Complete (bytes : Bytes) : Prop := ∀ b ∈ bytes.getLast?, b = NEWLINE

theorem Complete.of_append {a b : Bytes} (h : Complete (a ++ b)) : Complete b := by
  rcases b.eq_nil_or_concat with rfl | ⟨init, last, rfl⟩
  · simp [Complete]
  · simpa [Complete] using h

/-- What is kept without a newline is the front of a line, and that line is no shorter. -/
theorem drain_of_tooLarge {kept rest : Bytes} (hkept : NEWLINE ∉ kept)
    (hlarge : tooLarge max kept.length = true) (hnonempty : kept ++ rest ≠ [])
    (hcomplete : Complete (kept ++ rest)) :
    drain max parse (kept ++ rest) = .error "frame_too_large" := by
  rcases exists_line rest with hmem | ⟨line, rest, hline, rfl⟩
  · -- bytes that end in a newline hold one
    have hlast := List.getLast_mem hnonempty
    rw [hcomplete _ (List.getLast?_eq_some_getLast hnonempty)] at hlast
    exact absurd hlast (by simp [hkept, hmem])
  · have hfront : NEWLINE ∉ kept ++ line := by simp [hkept, hline]
    have hlarge' : tooLarge max (kept ++ line).length = true := tooLarge_mono hlarge (by simp)
    rw [← List.append_assoc, drain_line hfront, hlarge']
    rfl

/-- **The chunks do not show in what is decoded**: a run over the chunks of complete bytes reads
the lines of the bytes, and rejects what they are rejected for. -/
theorem pushAll_eq_drain (chunks : List Bytes) (d : JsonFrameDecoder)
    (hpending : NEWLINE ∉ d.pending) (hcomplete : Complete (d.pending ++ chunks.flatten))
    (hroom : tooLarge d.max 0 = true → d.pending ++ chunks.flatten ≠ []) :
    d.pushAll parse chunks = (drain d.max parse (d.pending ++ chunks.flatten)).map Prod.fst := by
  induction chunks generalizing d with
  | nil =>
    rw [List.flatten_nil, List.append_nil, drain_of_notMem hpending]
    rfl
  | cons chunk chunks ih =>
    rw [List.flatten_cons, ← List.append_assoc] at hcomplete hroom ⊢
    by_cases hkept : tooLarge d.max (d.pending ++ chunk).length ∧ NEWLINE ∉ d.pending ++ chunk
    · obtain ⟨hlarge, hmem⟩ := hkept
      -- too long and without an end of line: both refuse
      have hnonempty : (d.pending ++ chunk) ++ chunks.flatten ≠ [] := by
        intro hnil
        rw [(List.append_eq_nil_iff.mp hnil).1] at hlarge
        exact hroom hlarge hnil
      rw [drain_of_tooLarge hmem hlarge hnonempty hcomplete]
      simp only [JsonFrameDecoder.pushAll, JsonFrameDecoder.push, throwIf,
        if_pos (And.intro hlarge hmem)]
      rfl
    · rw [drain_append]
      simp only [JsonFrameDecoder.pushAll, JsonFrameDecoder.push, throwIf, if_neg hkept]
      cases hdrain : drain d.max parse (d.pending ++ chunk) with
      | error e => rfl
      | ok out =>
        obtain ⟨frames, left⟩ := out
        -- what is left over is a suffix of what came in, and ends as it does
        have hcomplete' : Complete (left ++ chunks.flatten) := by
          obtain ⟨front, hfront⟩ := (left_spec hdrain).1
          rw [← hfront, List.append_assoc] at hcomplete
          exact hcomplete.of_append
        have hroom' : tooLarge d.max 0 = true → left ++ chunks.flatten ≠ [] := by
          intro hzero
          rw [left_eq_of_tooLarge_zero hzero hdrain]
          exact hroom hzero
        simp only [bind, Except.bind, pure, Except.pure]
        rw [ih _ (left_spec hdrain).2 hcomplete' hroom']
        cases drain d.max parse (left ++ chunks.flatten) <;> rfl

/-- **Two ways of cutting a stream decode alike**: if it ends in a newline, both read the same
frames in the same order, or both reject it. -/
theorem pushAll_chunking (max : JsNumber) (parse : Bytes → Option Frame) (stream : Bytes)
    (hend : stream.getLast? = some NEWLINE) (chunks chunks' : List Bytes)
    (hchunks : chunks.flatten = stream) (hchunks' : chunks'.flatten = stream) :
    JsonFrameDecoder.pushAll parse chunks { max } = JsonFrameDecoder.pushAll parse chunks' { max } := by
  have hcomplete : Complete stream := fun b hb => Option.some.inj (hb.symm.trans hend)
  have hnonempty : stream ≠ [] := by
    rintro rfl
    cases hend
  have hrun : ∀ chunks : List Bytes, chunks.flatten = stream →
      JsonFrameDecoder.pushAll parse chunks { max } = (drain max parse stream).map Prod.fst := by
    rintro chunks rfl
    exact pushAll_eq_drain chunks { max } List.not_mem_nil hcomplete fun _ => hnonempty
  rw [hrun chunks hchunks, hrun chunks' hchunks']

end Frames

/-- The two lines of the sample read as they are written. -/
def sampleParse (line : Bytes) : Option String :=
  if line = [34, 195, 169, 34] then some "é" else if line = [49] then some "1" else none

/-- `"é"` and `1`, once in one chunk and once with the character cut in two; a line may have four
bytes. -/
theorem pushAll_chunking_cut :
    JsonFrameDecoder.pushAll sampleParse [[34, 195, 169, 34, 10, 49, 10]] { max := .ofInt 4 } =
      JsonFrameDecoder.pushAll sampleParse [[34, 195], [169, 34, 10, 49], [], [10]]
        { max := .ofInt 4 } :=
  pushAll_chunking (.ofInt 4) sampleParse [34, 195, 169, 34, 10, 49, 10] rfl _ _ rfl rfl

end AriOs.Signer
