import AriOs.Async.Transition
import AriOs.Js.Numeral

/-!
# Updates of the Telegram bot

The runner asks the server for updates from an offset on, and a request forgets the updates below
it. The offset behind an update is saved before the update is processed, in a file that is replaced
as a whole, and is read back for the next request. A process may end at any of these points; the
next one knows the file only.
-/

namespace AriOs.Gateway.Telegram

open AriOs.Async AriOs.Js

/-! ### The offset -/

/-- `load` of `FileTelegramOffsetStore`: whatever goes wrong, the offset is zero. -/
def FileTelegramOffsetStore.load (readable : Bool) (file : Option String) : Nat :=
  match if readable then file else none with
  | none => 0
  | some text =>
    match (JsValue.number (toNumber text.toList)).safeInteger? with
    | some n => n.toNat
    | none => 0

/-- `String(n)`, as `save` writes it. -/
def offsetText (n : Nat) : String := toString n

example : FileTelegramOffsetStore.load true (some "5 ") = 5 ∧
    FileTelegramOffsetStore.load true (some "five") = 0 := by decide +kernel

theorem toNumber_offsetText (n : Nat) : toNumber (offsetText n).toList = nearest n := by
  have hdigits : IsNumeral (Nat.toDigits 10 n) := ⟨Nat.toDigits_ne_nil, fun c hc =>
    Nat.isDigit_of_mem_toDigits (by decide) (by decide) hc⟩
  have htext : (offsetText n).toList = Nat.toDigits 10 n := Nat.toList_repr
  rw [htext, toNumber_numeral hdigits, Nat.ofDigitChars_ten_toDigits]

theorem isSafeInteger_natCast {n : Nat} :
    (JsNumber.ofInt (n : Int)).isSafeInteger = true ↔ n < 2 ^ 53 := by
  rw [JsNumber.isSafeInteger, JsNumber.toBigInt?_ofInt]
  rw [decide_eq_true_iff, JsNumber.maxSafeInteger]
  omega

/-- An offset that is a safe integer is read as it was written. -/
theorem load_offsetText {n : Nat} (h : n < 2 ^ 53) :
    FileTelegramOffsetStore.load true (some (offsetText n)) = n := by
  have hvalue :
      (JsValue.number (toNumber (offsetText n).toList)).safeInteger? = some (n : Int) := by
    rw [toNumber_offsetText, (nearest_natCast n).1 h, JsValue.safeInteger?_eq_some]
    exact ⟨rfl, isSafeInteger_natCast.mpr h⟩
  simp [FileTelegramOffsetStore.load, hvalue]

/-- No offset is read as a greater one. -/
theorem load_le (readable : Bool) (n : Option Nat) :
    FileTelegramOffsetStore.load readable (n.map offsetText) ≤ n.getD 0 := by
  cases readable with
  | false => exact Nat.zero_le _
  | true =>
    cases n with
    | none => exact le_rfl
    | some n =>
      rcases Nat.lt_or_ge n (2 ^ 53) with hlt | hge
      · exact (load_offsetText hlt).le
      · -- the number is not safe, or no number at all
        have hnone : (JsValue.number (toNumber (offsetText n).toList)).safeInteger? = none := by
          rw [toNumber_offsetText]
          rcases (nearest_natCast n).2 hge with hinf | ⟨m, hm, heq⟩
          · rw [hinf]
            rfl
          · rw [heq, JsValue.safeInteger?, if_neg]
            rw [isSafeInteger_natCast]
            omega
        simp [FileTelegramOffsetStore.load, hnone]

/-! ### A process that polls -/

/-- What an update is handed to. -/
inductive Target where
  | dispatch | approval
  deriving DecidableEq

/-- Where `pollOnce` is. `rest` are the updates of the answer that come later. -/
inductive Stage where
  | idle
  /-- `getUpdates` is called -/
  | requesting (offset : Nat)
  /-- the offset behind an update is saved -/
  | saving (offset id : Nat) (rest : List Nat)
  /-- the channel receives an update -/
  | receiving (offset id : Nat) (rest : List Nat)
  /-- `dispatch` or `approval` was called -/
  | handling (offset : Nat) (rest : List Nat)
  | sending (offset : Nat) (rest : List Nat)
  deriving DecidableEq

/-- The loop, up to the next update that is not passed over. -/
def advance (offset : Nat) : List Nat → Stage
  | [] => .idle
  | id :: rest =>
    if ¬(JsNumber.ofInt id).isSafeInteger ∨ id < offset then advance offset rest
    else .saving offset id rest

/-- The server with the updates that have arrived and the bound below which they are forgotten; the
file; a process, with the updates its channel has seen; and what has happened so far. -/
structure State where
  arrived : List Nat
  floor : Nat
  file : Option String
  seen : List Nat
  stage : Stage
  /-- the offsets that were saved -/
  saved : List Nat
  /-- what was handed on, and to what -/
  handed : List (Nat × Target)
  /-- updates the channel had nothing to hand on of -/
  refused : List Nat
  /-- updates whose offset was saved when the poll ended -/
  cutOff : List Nat

def State.start : State := ⟨[], 0, none, [], .idle, [], [], [], []⟩

/-- What becomes of a request: it is lost on its way, no usable answer comes back, or one does. -/
inductive Outcome where
  | lost
  | unanswered
  | answered (ids : List Nat)

/-- What the channel makes of an update that is new to it: it throws, it has nothing to hand on, or
a message, which may be a command. -/
inductive Reception where
  | throws
  | nothing
  | message (command : Bool)

inductive Event where
  /-- an update arrives at the server -/
  | arrive (id : Nat)
  /-- a poll begins: the offset is loaded -/
  | load (readable : Bool)
  | request (outcome : Outcome)
  | save (ok : Bool)
  | receive (r : Reception)
  /-- `dispatch` or `approval` throws, or returns a text or none -/
  | handled (reply : Option Bool)
  | sent (ok : Bool)
  /-- the process ends, and another one takes its place -/
  | crash

/-- The updates an answer may consist of: some that are not forgotten, in ascending order. -/
def State.Answers (s : State) (ids : List Nat) : Prop :=
  ids.Pairwise (· < ·) ∧ ∀ i ∈ ids, i ∈ s.arrived ∧ s.floor ≤ i

instance (s : State) (ids : List Nat) : Decidable (s.Answers ids) :=
  inferInstanceAs (Decidable (_ ∧ _))

/-- What an event does; where the process is at another point the event does not happen. `approval`
tells whether there is a callback for commands. -/
def step (approval : Bool) (s : State) : Event → State
  | .arrive id => { s with arrived := s.arrived ++ [id] }
  | .load readable =>
    match s.stage with
    | .idle => { s with stage := .requesting (FileTelegramOffsetStore.load readable s.file) }
    | _ => s
  | .request outcome =>
    match s.stage with
    | .requesting offset =>
      match outcome with
      | .lost => { s with stage := .idle }
      | .unanswered => { s with floor := max s.floor offset, stage := .idle }
      | .answered ids =>
        let s' := { s with floor := max s.floor offset }
        if s'.Answers ids then { s' with stage := advance offset ids } else s
    | _ => s
  | .save ok =>
    match s.stage with
    | .saving offset id rest =>
      if ok then
        { s with
          file := some (offsetText (id + 1))
          saved := s.saved ++ [id + 1]
          stage := .receiving offset id rest }
      else { s with stage := .idle }
    | _ => s
  | .receive r =>
    match s.stage with
    | .receiving offset id rest =>
      if id ∈ s.seen then { s with stage := advance offset rest }
      else
        let s := { s with seen := s.seen ++ [id] }
        match r with
        | .throws => { s with cutOff := s.cutOff ++ [id], stage := .idle }
        | .nothing => { s with refused := s.refused ++ [id], stage := advance offset rest }
        | .message command =>
          let target := if command && approval then Target.approval else Target.dispatch
          { s with handed := s.handed ++ [(id, target)], stage := .handling offset rest }
    | _ => s
  | .handled reply =>
    match s.stage with
    | .handling offset rest =>
      match reply with
      | none => { s with stage := .idle }
      | some true => { s with stage := .sending offset rest }
      | some false => { s with stage := advance offset rest }
    | _ => s
  | .sent ok =>
    match s.stage with
    | .sending offset rest => { s with stage := if ok then advance offset rest else .idle }
    | _ => s
  | .crash =>
    match s.stage with
    | .receiving _ id _ => { s with seen := [], stage := .idle, cutOff := s.cutOff ++ [id] }
    | _ => { s with seen := [], stage := .idle }

/-- An update that the channel is about to receive. -/
def State.Current (s : State) (id : Nat) : Prop :=
  match s.stage with
  | .receiving _ id' _ => id = id'
  | _ => False

/-- Each update is handed on at most once, and in order. One that is forgotten, or that an offset is
behind, is passed over only if the channel has nothing to hand on of it, or if the poll ended when
its own offset was saved. -/
def Good (s : State) : Prop :=
  (s.handed.map Prod.fst).Pairwise (· < ·) ∧
    ∀ id ∈ s.arrived, (id < s.floor ∨ ∃ n ∈ s.saved, id < n) →
      id + 1 ∈ s.saved ∧
        (id ∈ s.handed.map Prod.fst ∨ id ∈ s.refused ∨ id ∈ s.cutOff ∨ s.Current id)

/-- The offset that was saved last. -/
def State.offset (s : State) : Nat := s.saved.getLast?.getD 0

/-- An event by which nothing is lost: the number of an update that arrives is greater than those
before; the offset can be read, if one was saved and there are updates below it that the server has
not forgotten; and an answer leaves out no update before another one. -/
def Fits (s : State) : Event → Prop
  | .arrive id => ∀ u ∈ s.arrived, u < id
  | .load readable => (∀ n ∈ s.saved.getLast?, readable = true ∧ n < 2 ^ 53) ∨
      ∀ u ∈ s.arrived, s.floor ≤ u → s.offset ≤ u
  | .request (.answered ids) => ∀ offset, s.stage = .requesting offset →
      ∀ u ∈ s.arrived, max s.floor offset ≤ u → ∀ i ∈ ids, u < i → u ∈ ids
  | _ => True

/-! ### What every such event keeps -/

/-- The rest of an answer: updates from the last offset on, with every one before another. -/
structure Batch (arrived : List Nat) (last offset : Nat) (l : List Nat) : Prop where
  ascending : l.Pairwise (· < ·)
  present : ∀ i ∈ l, i ∈ arrived
  above : ∀ i ∈ l, last ≤ i ∧ offset ≤ i
  complete : ∀ u ∈ arrived, last ≤ u → ∀ i ∈ l, u < i → u ∈ l

/-- What holds where the process is. -/
def AtStage (s : State) : Prop :=
  match s.stage with
  | .idle => ∀ x ∈ s.seen, x < s.offset
  | .requesting offset => (∀ x ∈ s.seen, x < s.offset) ∧ offset ≤ s.offset ∧
      ∀ u ∈ s.arrived, s.floor ≤ u → offset ≤ u → s.offset ≤ u
  | .saving offset id rest => (∀ x ∈ s.seen, x < s.offset) ∧
      Batch s.arrived s.offset offset (id :: rest)
  | .receiving offset id rest => (∀ x ∈ s.seen, x < id) ∧
      (∀ x ∈ s.handed.map Prod.fst, x < id) ∧ s.offset = id + 1 ∧
      Batch s.arrived s.offset offset rest
  | .handling offset rest | .sending offset rest => (∀ x ∈ s.seen, x < s.offset) ∧
      Batch s.arrived s.offset offset rest

/-- What holds after any events by which nothing is lost. -/
structure Inv (s : State) : Prop where
  rising : s.saved.Pairwise (· < ·)
  origin : ∀ n ∈ s.saved, ∃ u ∈ s.arrived, n = u + 1
  file : s.file = s.saved.getLast?.map offsetText
  floor_le : s.floor ≤ s.offset
  ordered : (s.handed.map Prod.fst).Pairwise (· < ·)
  handed_lt : ∀ x ∈ s.handed.map Prod.fst, x < s.offset
  accounted : ∀ u ∈ s.arrived, u < s.offset → u + 1 ∈ s.saved ∧
    (u ∈ s.handed.map Prod.fst ∨ u ∈ s.refused ∨ u ∈ s.cutOff ∨ s.Current u)
  stage : AtStage s

variable {s : State} {approval : Bool} {offset id : Nat} {l rest : List Nat}

theorem inv_start : Inv .start := by
  refine ⟨.nil, ?_, rfl, le_rfl, .nil, ?_, ?_, ?_⟩
  · intro n hn
    cases hn
  · intro x hx
    cases hx
  · intro u hu
    cases hu
  · intro x hx
    cases hx

/-- The loop goes on with the next update, or ends where its number is no safe integer. -/
theorem advance_cases {arrived : List Nat} {last : Nat} (h : Batch arrived last offset l) :
    advance offset l = .idle ∨
      ∃ id rest, l = id :: rest ∧ advance offset l = .saving offset id rest := by
  have hend : ∀ l : List Nat, (∀ i ∈ l, 2 ^ 53 ≤ i) → advance offset l = .idle := by
    intro l hl
    induction l with
    | nil => rfl
    | cons i l ih =>
      obtain ⟨hi, hrest⟩ := List.forall_mem_cons.mp hl
      have hbig : ¬(JsNumber.ofInt (i : Int)).isSafeInteger = true := by
        rw [isSafeInteger_natCast]
        omega
      rw [advance, if_pos (.inl hbig), ih hrest]
  cases l with
  | nil => exact .inl rfl
  | cons id rest =>
    by_cases hsafe : id < 2 ^ 53
    · have habove := (h.above id List.mem_cons_self).2
      refine .inr ⟨id, rest, rfl, ?_⟩
      rw [advance, if_neg]
      rintro (hbig | hlt)
      · exact hbig (isSafeInteger_natCast.mpr hsafe)
      · omega
    · -- greater numbers are not safe either
      refine .inl (hend _ fun i hi => ?_)
      rcases List.mem_cons.mp hi with rfl | hi
      · omega
      · have hlt := (List.pairwise_cons.mp h.ascending).1 i hi
        omega

/-- Where the loop goes on: nothing else has changed. -/
theorem atStage_advance (hseen : ∀ x ∈ s.seen, x < s.offset) (h : Batch s.arrived s.offset offset l)
    (hstage : s.stage = advance offset l) : AtStage s := by
  unfold AtStage
  rw [hstage]
  rcases advance_cases h with hidle | ⟨id, rest, rfl, hsaving⟩
  · rw [hidle]
    exact hseen
  · rw [hsaving]
    exact ⟨hseen, h⟩

namespace Inv

/-- What is below an offset that was saved is below the last one. -/
theorem lt_offset_of_saved (h : Inv s) {n : Nat} (hn : n ∈ s.saved) : n ≤ s.offset := by
  have hrising := h.rising
  unfold State.offset
  rcases List.eq_nil_or_concat' s.saved with hnil | ⟨saved, last, hsplit⟩
  · rw [hnil] at hn
    cases hn
  · rw [hsplit] at hn hrising ⊢
    rw [List.getLast?_concat, Option.getD_some]
    rcases List.mem_append.mp hn with hn | hn
    · exact ((List.pairwise_append.mp hrising).2.2 n hn last (List.mem_singleton.mpr rfl)).le
    · exact (List.mem_singleton.mp hn).le

theorem good (h : Inv s) : Good s := by
  refine ⟨h.ordered, fun id hid hpassed => h.accounted id hid ?_⟩
  rcases hpassed with hfloor | ⟨n, hn, hlt⟩
  · exact hfloor.trans_le h.floor_le
  · exact hlt.trans_le (h.lt_offset_of_saved hn)

/-- The process is at another point, where no update is about to be received. -/
theorem move (h : Inv s) {stage : Stage} (hcurrent : ∀ u, ¬ s.Current u)
    (hstage : AtStage { s with stage }) : Inv { s with stage } := by
  refine ⟨h.rising, h.origin, h.file, h.floor_le, h.ordered, h.handed_lt, ?_, hstage⟩
  intro u hu hlt
  obtain ⟨hsaved, hfate⟩ := h.accounted u hu hlt
  refine ⟨hsaved, ?_⟩
  rcases hfate with hhanded | hrefused | hcut | hcur
  · exact .inl hhanded
  · exact .inr (.inl hrefused)
  · exact .inr (.inr (.inl hcut))
  · exact absurd hcur (hcurrent u)

/-- Every arrival is above the offset that was saved last. -/
theorem offset_le_of_arrive (h : Inv s) {id : Nat} (hid : ∀ u ∈ s.arrived, u < id) :
    s.offset ≤ id := by
  unfold State.offset
  cases hlast : s.saved.getLast? with
  | none => exact Nat.zero_le _
  | some n =>
    obtain ⟨u, hu, rfl⟩ := h.origin n (List.mem_of_getLast? hlast)
    exact hid u hu

end Inv

theorem Batch.arrive {arrived : List Nat} {last id : Nat} (h : Batch arrived last offset l)
    (hid : ∀ u ∈ arrived, u < id) : Batch (arrived ++ [id]) last offset l := by
  refine ⟨h.ascending, fun i hi => List.mem_append_left _ (h.present i hi), h.above, ?_⟩
  intro u hu hle i hi hlt
  rcases List.mem_append.mp hu with hu | hu
  · exact h.complete u hu hle i hi hlt
  · -- the answer was given before
    obtain rfl := List.mem_singleton.mp hu
    have hbelow := hid i (h.present i hi)
    omega

theorem inv_arrive (h : Inv s) {id : Nat} (hid : ∀ u ∈ s.arrived, u < id) :
    Inv { s with arrived := s.arrived ++ [id] } := by
  -- an update that arrives is above every offset that was ever taken
  have hnew := h.offset_le_of_arrive hid
  refine ⟨h.rising, ?_, h.file, h.floor_le, h.ordered, h.handed_lt, ?_, ?_⟩
  · intro n hn
    obtain ⟨u, hu, hnu⟩ := h.origin n hn
    exact ⟨u, List.mem_append_left _ hu, hnu⟩
  · intro u hu hlt
    rcases List.mem_append.mp hu with hu | hu
    · exact h.accounted u hu hlt
    · obtain rfl := List.mem_singleton.mp hu
      exact absurd hlt (Nat.not_lt.mpr hnew)
  · have hstage := h.stage
    unfold AtStage at hstage ⊢
    dsimp only
    cases hat : s.stage with
    | idle =>
      rw [hat] at hstage
      exact hstage
    | requesting o =>
      rw [hat] at hstage
      refine ⟨hstage.1, hstage.2.1, fun u hu hfloor ho => ?_⟩
      rcases List.mem_append.mp hu with hu | hu
      · exact hstage.2.2 u hu hfloor ho
      · obtain rfl := List.mem_singleton.mp hu
        exact hnew
    | saving o i rest =>
      rw [hat] at hstage
      exact ⟨hstage.1, hstage.2.arrive hid⟩
    | receiving o i rest =>
      rw [hat] at hstage
      exact ⟨hstage.1, hstage.2.1, hstage.2.2.1, hstage.2.2.2.arrive hid⟩
    | handling o rest | sending o rest =>
      rw [hat] at hstage
      exact ⟨hstage.1, hstage.2.arrive hid⟩

/-- The offset that is loaded leaves out no update that the last one would not. -/
theorem inv_load (h : Inv s) {readable : Bool} (hidle : s.stage = .idle)
    (hfits : Fits s (.load readable)) :
    Inv { s with stage := .requesting (FileTelegramOffsetStore.load readable s.file) } := by
  have hstage := h.stage
  unfold AtStage at hstage
  rw [hidle] at hstage
  refine h.move (by simp [State.Current, hidle]) ⟨hstage, ?_, ?_⟩
  · rw [h.file]
    exact load_le _ _
  · -- the file is read as it was saved, or nothing has arrived past it
    rcases hfits with hread | hnone
    · intro u _ _ hle
      refine le_trans (le_of_eq ?_) hle
      unfold State.offset
      rw [h.file]
      cases hlast : s.saved.getLast? with
      | none =>
        cases readable <;> rfl
      | some n =>
        obtain ⟨rfl, hsafe⟩ := hread n hlast
        exact (load_offsetText hsafe).symm
    · intro u hu hfloor _
      exact hnone u hu hfloor

/-- What a request forgets was passed before. -/
theorem inv_request (h : Inv s) {outcome : Outcome} (hfits : Fits s (.request outcome)) :
    Inv (step approval s (.request outcome)) := by
  cases hat : s.stage with
  | requesting o =>
    have hstage := h.stage
    unfold AtStage at hstage
    rw [hat] at hstage
    obtain ⟨hseen, hle, hfrom⟩ := hstage
    have hcurrent : ∀ u, ¬ s.Current u := by simp [State.Current, hat]
    have hfloor : Inv { s with floor := max s.floor o, stage := .idle } := by
      have hidle : Inv { s with stage := .idle } := h.move hcurrent hseen
      exact ⟨hidle.rising, hidle.origin, hidle.file, max_le h.floor_le hle, hidle.ordered,
        hidle.handed_lt, hidle.accounted, hidle.stage⟩
    cases outcome with
    | lost =>
      simp only [step, hat]
      exact h.move hcurrent hseen
    | unanswered =>
      simp only [step, hat]
      exact hfloor
    | answered ids =>
      simp only [step, hat]
      split
      · rename_i hanswers
        refine hfloor.move (fun u hu => hu) (atStage_advance hseen ⟨hanswers.1, ?_, ?_, ?_⟩ rfl)
        · exact fun i hi => (hanswers.2 i hi).1
        · intro i hi
          obtain ⟨hmem, habove⟩ := hanswers.2 i hi
          have hfloor := (le_max_left s.floor o).trans habove
          have ho := (le_max_right s.floor o).trans habove
          exact ⟨hfrom i hmem hfloor ho, ho⟩
        · intro u hu hlast i hi hlt
          exact hfits o hat u hu (max_le (h.floor_le.trans hlast) (hle.trans hlast)) i hi hlt
      · exact h
  | idle | saving | receiving | handling | sending =>
    simp only [step, hat]
    exact h

/-- The offset behind an update is saved: none before it is left. -/
theorem inv_save (h : Inv s) (hat : s.stage = .saving offset id rest) :
    Inv { s with
      file := some (offsetText (id + 1))
      saved := s.saved ++ [id + 1]
      stage := .receiving offset id rest } := by
  have hstage := h.stage
  unfold AtStage at hstage
  rw [hat] at hstage
  obtain ⟨hseen, hbatch⟩ := hstage
  have hid := (hbatch.above id List.mem_cons_self).1
  obtain ⟨hlt, hrest⟩ := List.pairwise_cons.mp hbatch.ascending
  have hlast : (s.saved ++ [id + 1]).getLast? = some (id + 1) := List.getLast?_concat
  have hoffset : State.offset { s with
      file := some (offsetText (id + 1))
      saved := s.saved ++ [id + 1]
      stage := .receiving offset id rest } = id + 1 := by
    rw [State.offset, hlast]
    rfl
  constructor
  -- every offset saved before was for an update below this one
  case rising =>
    refine List.pairwise_append.mpr ⟨h.rising, List.pairwise_singleton _ _, fun n hn n' hn' => ?_⟩
    obtain rfl := List.mem_singleton.mp hn'
    have hle := h.lt_offset_of_saved hn
    omega
  case origin =>
    intro n hn
    rcases List.mem_append.mp hn with hn | hn
    · exact h.origin n hn
    · exact ⟨id, hbatch.present id List.mem_cons_self, List.mem_singleton.mp hn⟩
  case file =>
    rw [hlast]
    rfl
  case floor_le =>
    rw [hoffset]
    have hfloor := h.floor_le
    dsimp only
    omega
  case ordered => exact h.ordered
  case handed_lt =>
    rw [hoffset]
    intro x hx
    have hbelow := h.handed_lt x hx
    omega
  case accounted =>
    rw [hoffset]
    intro u hu hbelow
    rcases Nat.lt_or_ge u s.offset with hold | hnew
    · obtain ⟨hsaved, hfate⟩ := h.accounted u hu hold
      refine ⟨List.mem_append_left _ hsaved, ?_⟩
      rcases hfate with hhanded | hrefused | hcut | hcur
      · exact .inl hhanded
      · exact .inr (.inl hrefused)
      · exact .inr (.inr (.inl hcut))
      · simp [State.Current, hat] at hcur
    · -- an update before this one would have been in the answer
      have hsame : u = id := by
        by_contra hne
        have hmem := hbatch.complete u hu hnew id List.mem_cons_self (by omega)
        rcases List.mem_cons.mp hmem with heq | hmem
        · exact hne heq
        · have hafter := hlt u hmem
          omega
      subst hsame
      exact ⟨List.mem_append_right _ (List.mem_singleton.mpr rfl), .inr (.inr (.inr rfl))⟩
  case stage =>
    refine ⟨fun x hx => (hseen x hx).trans_le hid, fun x hx => (h.handed_lt x hx).trans_le hid,
      hoffset, hrest, fun i hi => hbatch.present i (List.mem_cons_of_mem _ hi), ?_, ?_⟩
    · intro i hi
      have hbehind := hlt i hi
      rw [hoffset]
      exact ⟨hbehind, (hbatch.above i (List.mem_cons_of_mem _ hi)).2⟩
    · rw [hoffset]
      intro u hu hle i hi hui
      have hmem := hbatch.complete u hu (by omega) i (List.mem_cons_of_mem _ hi) hui
      rcases List.mem_cons.mp hmem with rfl | hmem
      · omega
      · exact hmem

/-- The update that was being received is accounted for in another way. -/
theorem Inv.received (h : Inv s) (hat : s.stage = .receiving offset id rest) {s' : State}
    (harrived : s'.arrived = s.arrived) (hfloor : s'.floor = s.floor) (hfile : s'.file = s.file)
    (hsaved : s'.saved = s.saved) (hordered : (s'.handed.map Prod.fst).Pairwise (· < ·))
    (hlt : ∀ x ∈ s'.handed.map Prod.fst, x ≤ id)
    (hfate : ∀ u, u ∈ s.handed.map Prod.fst ∨ u ∈ s.refused ∨ u ∈ s.cutOff ∨ u = id →
      u ∈ s'.handed.map Prod.fst ∨ u ∈ s'.refused ∨ u ∈ s'.cutOff ∨ s'.Current u)
    (hstage : AtStage s') : Inv s' := by
  have hoffset : s'.offset = s.offset := by rw [State.offset, hsaved, State.offset]
  have hreceiving := h.stage
  unfold AtStage at hreceiving
  rw [hat] at hreceiving
  obtain ⟨-, -, hlast, -⟩ := hreceiving
  constructor
  case rising =>
    rw [hsaved]
    exact h.rising
  case origin =>
    rw [hsaved, harrived]
    exact h.origin
  case file =>
    rw [hfile, hsaved]
    exact h.file
  case floor_le =>
    rw [hfloor, hoffset]
    exact h.floor_le
  case ordered => exact hordered
  case handed_lt =>
    intro x hx
    have hle := hlt x hx
    omega
  case accounted =>
    rw [harrived, hoffset, hsaved]
    intro u hu hbelow
    obtain ⟨hown, hold⟩ := h.accounted u hu hbelow
    refine ⟨hown, hfate u ?_⟩
    -- whoever was being received has another fate now
    rcases hold with hhanded | hrefused | hcut | hcur
    · exact .inl hhanded
    · exact .inr (.inl hrefused)
    · exact .inr (.inr (.inl hcut))
    · unfold State.Current at hcur
      rw [hat] at hcur
      exact .inr (.inr (.inr hcur))
  case stage => exact hstage

/-- The channel has not seen the update, and hands it on, refuses it or throws. -/
theorem inv_receive (h : Inv s) {r : Reception} : Inv (step approval s (.receive r)) := by
  cases hat : s.stage with
  | receiving o id rest =>
    have hstage := h.stage
    unfold AtStage at hstage
    rw [hat] at hstage
    obtain ⟨hseen, hhanded, hlast, hbatch⟩ := hstage
    -- everything seen has a smaller number, so the channel does not know the update yet
    have hnew : id ∉ s.seen := fun hmem => (hseen id hmem).false
    have hseen' : ∀ x ∈ s.seen ++ [id], x < s.offset := by
      intro x hx
      rw [hlast]
      rcases List.mem_append.mp hx with hx | hx
      · exact (hseen x hx).trans (Nat.lt_succ_self id)
      · rw [List.mem_singleton.mp hx]
        exact Nat.lt_succ_self id
    have hbelow : ∀ x ∈ s.handed.map Prod.fst, x ≤ id := fun x hx => (hhanded x hx).le
    cases r with
    | throws =>
      simp only [step, hat, if_neg hnew]
      refine h.received hat rfl rfl rfl rfl h.ordered hbelow ?_ hseen'
      rintro u (hu | hu | hu | rfl)
      · exact .inl hu
      · exact .inr (.inl hu)
      · exact .inr (.inr (.inl (List.mem_append_left _ hu)))
      · exact .inr (.inr (.inl (List.mem_append_right _ (List.mem_singleton.mpr rfl))))
    | nothing =>
      simp only [step, hat, if_neg hnew]
      refine h.received hat rfl rfl rfl rfl h.ordered hbelow ?_ (atStage_advance hseen' hbatch rfl)
      rintro u (hu | hu | hu | rfl)
      · exact .inl hu
      · exact .inr (.inl (List.mem_append_left _ hu))
      · exact .inr (.inr (.inl hu))
      · exact .inr (.inl (List.mem_append_right _ (List.mem_singleton.mpr rfl)))
    | message command =>
      simp only [step, hat, if_neg hnew]
      have hids : ∀ target : Target, (s.handed ++ [(id, target)]).map Prod.fst =
          s.handed.map Prod.fst ++ [id] := fun target => List.map_append
      refine h.received hat rfl rfl rfl rfl ?_ ?_ ?_ ⟨hseen', hbatch⟩
      · dsimp only
        rw [hids, List.pairwise_append]
        refine ⟨h.ordered, List.pairwise_singleton _ _, fun x hx y hy => ?_⟩
        obtain rfl := List.mem_singleton.mp hy
        exact hhanded x hx
      · dsimp only
        rw [hids]
        intro x hx
        rcases List.mem_append.mp hx with hx | hx
        · exact hbelow x hx
        · exact (List.mem_singleton.mp hx).le
      · dsimp only
        rw [hids]
        rintro u (hu | hu | hu | rfl)
        · exact .inl (List.mem_append_left _ hu)
        · exact .inr (.inl hu)
        · exact .inr (.inr (.inl hu))
        · exact .inl (List.mem_append_right _ (List.mem_singleton.mpr rfl))
  -- at every other stage the event does not happen
  | idle | requesting | saving | handling | sending =>
    simp only [step, hat]
    exact h

/-- What was handed on is answered, and the loop goes on. -/
theorem inv_handled (h : Inv s) {reply : Option Bool} :
    Inv (step approval s (.handled reply)) := by
  cases hat : s.stage with
  | handling o rest =>
    have hstage := h.stage
    unfold AtStage at hstage
    rw [hat] at hstage
    have hcurrent : ∀ u, ¬ s.Current u := by simp [State.Current, hat]
    rcases reply with _ | _ | _
    · simp only [step, hat]
      exact h.move hcurrent hstage.1
    · simp only [step, hat]
      exact h.move hcurrent (atStage_advance hstage.1 hstage.2 rfl)
    · simp only [step, hat]
      exact h.move hcurrent hstage
  | idle | requesting | saving | receiving | sending =>
    simp only [step, hat]
    exact h

theorem inv_sent (h : Inv s) {ok : Bool} : Inv (step approval s (.sent ok)) := by
  cases hat : s.stage with
  | sending o rest =>
    have hstage := h.stage
    unfold AtStage at hstage
    rw [hat] at hstage
    have hcurrent : ∀ u, ¬ s.Current u := by simp [State.Current, hat]
    cases ok with
    | true =>
      simp only [step, hat, if_true]
      exact h.move hcurrent (atStage_advance hstage.1 hstage.2 rfl)
    | false =>
      simp only [step, hat]
      exact h.move hcurrent hstage.1
  | idle | requesting | saving | receiving | handling =>
    simp only [step, hat]
    exact h

/-- The process ends: the update that it was to receive is cut off. -/
theorem inv_crash (h : Inv s) : Inv (step approval s .crash) := by
  -- nothing is seen any more, so nothing is promised of it
  have hnone : ∀ {s' : State}, s'.seen = [] → s'.stage = .idle → AtStage s' := by
    intro s' hseen hidle
    unfold AtStage
    rw [hidle, hseen]
    intro x hx
    cases hx
  cases hat : s.stage with
  | receiving o id rest =>
    have hstage := h.stage
    unfold AtStage at hstage
    rw [hat] at hstage
    simp only [step, hat]
    refine h.received hat rfl rfl rfl rfl h.ordered (fun x hx => (hstage.2.1 x hx).le) ?_
      (hnone rfl rfl)
    rintro u (hu | hu | hu | rfl)
    · exact .inl hu
    · exact .inr (.inl hu)
    · exact .inr (.inr (.inl (List.mem_append_left _ hu)))
    · exact .inr (.inr (.inl (List.mem_append_right _ (List.mem_singleton.mpr rfl))))
  | idle | requesting | saving | handling | sending =>
    simp only [step, hat]
    refine ⟨h.rising, h.origin, h.file, h.floor_le, h.ordered, h.handed_lt, ?_, hnone rfl rfl⟩
    intro u hu hlt
    obtain ⟨hsaved, hfate⟩ := h.accounted u hu hlt
    refine ⟨hsaved, ?_⟩
    simpa [State.Current, hat] using hfate

/-- What one event by which nothing is lost keeps. -/
theorem inv_step {e : Event} (h : Inv s) (hfits : Fits s e) : Inv (step approval s e) := by
  cases e with
  | arrive id => exact inv_arrive h hfits
  -- out of its turn an answer changes nothing
  | load readable =>
    cases hat : s.stage with
    | idle =>
      simp only [step, hat]
      exact inv_load h hat hfits
    | requesting | saving | receiving | handling | sending =>
      simp only [step, hat]
      exact h
  | request outcome => exact inv_request h hfits
  | save ok =>
    cases hat : s.stage with
    | saving o id rest =>
      cases ok with
      | true =>
        simp only [step, hat, if_true]
        exact inv_save h hat
      -- an offset that is not saved ends the poll
      | false =>
        have hstage := h.stage
        unfold AtStage at hstage
        rw [hat] at hstage
        simp only [step, hat]
        exact h.move (by simp [State.Current, hat]) hstage.1
    | idle | requesting | receiving | handling | sending =>
      simp only [step, hat]
      exact h
  | receive r => exact inv_receive h
  | handled reply => exact inv_handled h
  | sent ok => exact inv_sent h
  | crash => exact inv_crash h

/-- In every run of events by which nothing is lost, each update is handed on at most once, in
order, and passed over only when the poll ended with its own offset saved. -/
theorem good_of_fits {approval : Bool} {es : List Event}
    (hfits : Transition.Meets (step approval) Fits .start es) :
    Transition.Throughout (step approval) Good .start es :=
  (Transition.throughout_of_step (fun _ _ h hfit => inv_step h hfit) hfits inv_start).imp
    fun _ h => h.good

/-- A process ends between saving an offset and receiving the update, and the next one reads the
offset. -/
theorem good_of_crash : Transition.Throughout (step false) Good .start
    [.arrive 4, .load true, .request (.answered [4]), .save true, .crash, .load true,
      .request .unanswered] := by
  have hnone : Fits .start (.arrive 4) := by
    intro u hu
    cases hu
  refine good_of_fits ⟨hnone, .inr (by decide), ?_, trivial, trivial, .inl (by decide +kernel),
    trivial, trivial⟩
  intro offset _ u hu _ i hi hlt
  rw [List.mem_singleton.mp hu]
  exact List.mem_singleton.mpr rfl

/-- The offset cannot be read after a restart, and the server still has the last update: it is
handed on twice. -/
theorem handed_twice : ¬ Transition.Throughout (step false) Good .start
    [.arrive 4, .load true, .request (.answered [4]), .save true, .receive (.message false),
      .handled (some false), .crash, .load false, .request (.answered [4]), .save true,
      .receive (.message false)] := by
  intro h
  have hordered := (h _ [] (List.append_nil _).symm).1
  revert hordered
  decide +kernel

end AriOs.Gateway.Telegram
