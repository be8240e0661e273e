import AriOs.Js.Number
import AriOs.Js.Throw

/-!
# Messages in chunks

A text that is too long for one message is sent in chunks. A chunk ends after the last line break up
to the limit, or at the limit where there is none. The line break is looked for at the limit too,
and it is part of the chunk: such a chunk is one unit longer than a message may be.
-/

namespace AriOs.Gateway

open AriOs.Js

/-- The code units of a text. -/
abbrev Units := List UInt16

def newline : UInt16 := 10

/-- `lastIndexOf`: the last place of a unit up to a given one. -/
def lastIndexOf (c : UInt16) (rest : Units) : ℕ → Option ℕ
  | 0 => if rest[0]? = some c then some 0 else none
  | i + 1 => if rest[i + 1]? = some c then some (i + 1) else lastIndexOf c rest i

/-- Where the first chunk of a long text ends. -/
def cut (max : ℕ) (rest : Units) : ℕ :=
  match lastIndexOf newline rest max with
  | none => max
  | some i => if i < 1 then max else i + 1

theorem cut_pos {max : ℕ} (hmax : 1 ≤ max) (rest : Units) : 1 ≤ cut max rest := by
  unfold cut
  split
  · exact hmax
  · split <;> omega

/-- The loop. -/
def chunks (max : ℕ) (hmax : 1 ≤ max) (rest : Units) : List Units :=
  if rest = [] then []
  else if rest.length ≤ max then [rest]
  else rest.take (cut max rest) :: chunks max hmax (rest.drop (cut max rest))
termination_by rest.length
decreasing_by
  have hcut := cut_pos hmax rest
  rw [List.length_drop]
  omega

def chunkTelegramText (text : Units) (max : JsNumber) : Except String (List Units) :=
  match max.toBigInt? with
  | none => .error "Invalid message length"
  | some n =>
    if hmax : n < 1 then .error "Invalid message length"
    else .ok (chunks n.toNat (by omega) text)

/-- What is left of a text where a chunk begins. -/
inductive Left (max : ℕ) (text : Units) : Units → Prop
  | start : Left max text text
  | next {rest : Units} : Left max text rest → max < rest.length →
      Left max text (rest.drop (cut max rest))

/-! ### Where chunks end -/

theorem lastIndexOf_eq_none {c : UInt16} {rest : Units} {n : ℕ} (h : lastIndexOf c rest n = none) :
    ∀ j ≤ n, rest[j]? ≠ some c := by
  induction n with
  | zero =>
    rw [lastIndexOf] at h
    intro j hj
    obtain rfl := Nat.le_zero.mp hj
    split at h
    · cases h
    · assumption
  | succ n ih =>
    rw [lastIndexOf] at h
    intro j hj
    split at h
    · cases h
    · rcases Nat.le_succ_iff.mp hj with hj | rfl
      · exact ih h j hj
      · assumption

theorem lastIndexOf_eq_some {c : UInt16} {rest : Units} {n i : ℕ}
    (h : lastIndexOf c rest n = some i) :
    i ≤ n ∧ rest[i]? = some c ∧ ∀ j, i < j → j ≤ n → rest[j]? ≠ some c := by
  induction n with
  | zero =>
    rw [lastIndexOf] at h
    split at h
    · obtain rfl := Option.some.inj h
      exact ⟨le_rfl, by assumption, fun j hlt hle => by omega⟩
    · cases h
  | succ n ih =>
    rw [lastIndexOf] at h
    split at h
    · obtain rfl := Option.some.inj h
      exact ⟨le_rfl, by assumption, fun j hlt hle => by omega⟩
    · obtain ⟨hle, hfound, hlast⟩ := ih h
      refine ⟨by omega, hfound, fun j hlt hj => ?_⟩
      rcases Nat.le_succ_iff.mp hj with hj | rfl
      · exact hlast j hlt hj
      · assumption

/-- A chunk ends within the limit unless a line break stands there. -/
theorem cut_le_iff {max : ℕ} {rest : Units} (hmax : 1 ≤ max) :
    cut max rest ≤ max ↔ rest[max]? ≠ some newline := by
  unfold cut
  split
  · rename_i hnone
    exact iff_of_true le_rfl (lastIndexOf_eq_none hnone max le_rfl)
  · rename_i i hsome
    obtain ⟨hle, hfound, hlast⟩ := lastIndexOf_eq_some hsome
    split
    · exact iff_of_true le_rfl (hlast max (by omega) le_rfl)
    · rcases Nat.eq_or_lt_of_le hle with rfl | hlt
      · exact iff_of_false (by omega) (by simp [hfound])
      · exact iff_of_true hlt (hlast max hlt le_rfl)

theorem cut_le_succ {max : ℕ} {rest : Units} : cut max rest ≤ max + 1 := by
  unfold cut
  split
  · omega
  · rename_i hsome
    have hle := (lastIndexOf_eq_some hsome).1
    split <;> omega

/-! ### The loop -/

variable {max : ℕ} {hmax : 1 ≤ max}

theorem chunks_nil : chunks max hmax [] = [] := by rw [chunks, if_pos rfl]

theorem chunks_of_short {rest : Units} (hne : rest ≠ []) (hshort : rest.length ≤ max) :
    chunks max hmax rest = [rest] := by
  rw [chunks, if_neg hne, if_pos hshort]

theorem chunks_of_long {rest : Units} (hlong : max < rest.length) :
    chunks max hmax rest =
      rest.take (cut max rest) :: chunks max hmax (rest.drop (cut max rest)) := by
  have hne : rest ≠ [] := List.ne_nil_of_length_pos (by omega)
  rw [chunks, if_neg hne, if_neg (by omega)]

/-- The chunks of a text are made of its units, none is empty and each is a unit too long at most.
-/
theorem chunks_spec (rest : Units) : (chunks max hmax rest).flatten = rest ∧
    ∀ c ∈ chunks max hmax rest, c ≠ [] ∧ c.length ≤ max + 1 := by
  induction rest using chunks.induct max hmax with
  | case1 => simp [chunks_nil]
  | case2 rest hne hshort =>
    rw [chunks_of_short hne hshort]
    simpa using ⟨hne, by omega⟩
  | case3 rest hne hlong ih =>
    rw [chunks_of_long (by omega)]
    refine ⟨by rw [List.flatten_cons, ih.1, List.take_append_drop], ?_⟩
    rintro c (_ | ⟨_, hc⟩)
    · have hcut := cut_pos hmax rest
      have hcut' := @cut_le_succ max rest
      refine ⟨List.ne_nil_of_length_pos ?_, ?_⟩ <;> rw [List.length_take] <;> omega
    · exact ih.2 c hc

theorem left_of_short {rest left : Units} (hshort : rest.length ≤ max) (h : Left max rest left) :
    left = rest := by
  induction h with
  | start => rfl
  | next _ hlong ih =>
    rw [ih] at hlong
    omega

/-- The rest of a long text is the text itself, or left after the first chunk. -/
theorem left_iff {rest left : Units} (hlong : max < rest.length) :
    Left max rest left ↔ left = rest ∨ Left max (rest.drop (cut max rest)) left := by
  constructor
  · intro h
    induction h with
    | start => exact .inl rfl
    | next _ hlong' ih =>
      rcases ih with rfl | ih
      · exact .inr .start
      · exact .inr (.next ih hlong')
  · rintro (rfl | h)
    · exact .start
    · induction h with
      | start => exact .next .start hlong
      | next _ hlong' ih => exact .next ih hlong'

/-- The chunks are short enough exactly if no line break stands at the limit of one. -/
theorem length_chunks_le_iff (rest : Units) : (∀ c ∈ chunks max hmax rest, c.length ≤ max) ↔
    ∀ left, Left max rest left → left[max]? ≠ some newline := by
  have hshort : ∀ rest : Units, rest.length ≤ max →
      ∀ left, Left max rest left → left[max]? ≠ some newline := by
    intro rest hle left hleft
    rw [left_of_short hle hleft, List.getElem?_eq_none hle]
    simp
  induction rest using chunks.induct max hmax with
  | case1 =>
    rw [chunks_nil]
    exact iff_of_true (by simp) (hshort [] (by simp))
  | case2 rest hne hle =>
    rw [chunks_of_short hne hle]
    exact iff_of_true (by simpa using hle) (hshort rest hle)
  | case3 rest hne hlong ih =>
    have hlong : max < rest.length := by omega
    have hfirst : (rest.take (cut max rest)).length ≤ max ↔ rest[max]? ≠ some newline := by
      rw [← cut_le_iff hmax, List.length_take]
      omega
    simp only [chunks_of_long hlong, List.forall_mem_cons, ih, hfirst, left_iff hlong,
      forall_eq_or_imp]

/-! ### The whole text -/

/-- The limit is a positive integer, or the text is refused. -/
theorem chunkTelegramText_eq_ok_iff {text : Units} {max : JsNumber} {out : List Units} :
    chunkTelegramText text max = .ok out ↔
      ∃ n : ℕ, ∃ hn : 1 ≤ n, max.toBigInt? = some (n : ℤ) ∧ chunks n hn text = out := by
  unfold chunkTelegramText
  cases max.toBigInt? with
  | none => simp
  | some i =>
    dsimp only
    split
    · rename_i hlt
      refine iff_of_false (by simp) ?_
      rintro ⟨n, hn, hi, -⟩
      obtain rfl := Option.some.inj hi
      omega
    · rename_i hpos
      constructor
      · intro h
        exact ⟨i.toNat, by omega, congrArg some (by omega), Except.ok.inj h⟩
      · rintro ⟨n, hn, hi, rfl⟩
        obtain rfl := Option.some.inj hi
        rfl

/-- The chunks are not empty, and put together they are the text. -/
theorem chunkTelegramText_eq_ok {text : Units} {max : JsNumber} {out : List Units}
    (h : chunkTelegramText text max = .ok out) : out.flatten = text ∧ ∀ c ∈ out, c ≠ [] := by
  obtain ⟨n, hn, -, rfl⟩ := chunkTelegramText_eq_ok_iff.mp h
  exact ⟨(chunks_spec text).1, fun c hc => ((chunks_spec text).2 c hc).1⟩

/-- **The chunks of a text** are not empty, within the limit and the text when put together exactly
if the limit is a positive integer and no line break stands so many units after the beginning of a
chunk. -/
theorem chunkTelegramText_iff (text : Units) (max : JsNumber) :
    (∃ out, chunkTelegramText text max = .ok out ∧ out.flatten = text ∧
      ∀ c ∈ out, c ≠ [] ∧ (JsNumber.ofInt c.length).le max = true) ↔
    ∃ n : ℕ, 1 ≤ n ∧ max.toBigInt? = some (n : ℤ) ∧
      ∀ left, Left n text left → left[n]? ≠ some newline := by
  have hle : ∀ n : ℕ, max.toBigInt? = some (n : ℤ) → ∀ c : Units,
      (JsNumber.ofInt c.length).le max = true ↔ c.length ≤ n := by
    intro n hn c
    rw [JsNumber.eq_ofInt_of_toBigInt? hn, JsNumber.le_ofInt, decide_eq_true_eq, Nat.cast_le]
  constructor
  · rintro ⟨out, hout, -, hall⟩
    obtain ⟨n, hn, hmax, rfl⟩ := chunkTelegramText_eq_ok_iff.mp hout
    refine ⟨n, hn, hmax, (@length_chunks_le_iff n hn text).mp fun c hc => ?_⟩
    exact (hle n hmax c).mp (hall c hc).2
  · rintro ⟨n, hn, hmax, hleft⟩
    have hout : chunkTelegramText text max = .ok (chunks n hn text) :=
      chunkTelegramText_eq_ok_iff.mpr ⟨n, hn, hmax, rfl⟩
    obtain ⟨hflatten, hne⟩ := chunkTelegramText_eq_ok hout
    refine ⟨_, hout, hflatten, fun c hc => ⟨hne c hc, ?_⟩⟩
    exact (hle n hmax c).mpr ((length_chunks_le_iff text).mpr hleft c hc)

/-- The letter `a`, a line break and the letter `b`, one unit at a time. -/
theorem chunk_too_long : chunkTelegramText [97, 10, 98] (.ofInt 1) = .ok [[97, 10], [98]] ∧
    ¬ ([97, 10] : Units).length ≤ 1 := by
  rw [chunkTelegramText_eq_ok_iff]
  refine ⟨⟨1, le_rfl, rfl, ?_⟩, by decide⟩
  rw [chunks_of_long (by decide), chunks_of_short (by decide) (by decide)]
  rfl

end AriOs.Gateway
