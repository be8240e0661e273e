import AriOs.Gateway.MemoryRuns
import Mathlib.Data.List.Induction
import Mathlib.Data.Set.Basic

/-!
# Runs of one's own

`MemoryRunStore` keeps a run under its id, and the id under a text made of the tenant and the
idempotency key of the request that started it. It is compared with a store that keeps ids under
the two themselves.

## Main results

* `RunStore.separate_iff` — the first for every run of the store iff the second
-/

namespace AriOs.Gateway.Api

open AriOs.Js AriOs.Storage

namespace RunStore

variable {κ : Type} [DecidableEq κ] (keyOf : String → String → κ)

/-- The store after some calls of `create`. -/
def created (rs : List (Run × Option String)) : RunStore κ :=
  rs.foldl (fun s r => s.create keyOf r.1 r.2) (empty 0)

theorem created_append_singleton (rs : List (Run × Option String)) (r : Run × Option String) :
    created keyOf (rs ++ [r]) = (created keyOf rs).create keyOf r.1 r.2 := by
  simp [created]

variable {keyOf}

@[simp] theorem runs_create (s : RunStore κ) (r : Run) (key : Option String) :
    (s.create keyOf r key).runs = s.runs.set r.id r := rfl

theorem keys_create_get (s : RunStore κ) (r : Run) (key : Option String) (k : κ) :
    (s.create keyOf r key).keys.get k =
      if key.getD "" ≠ "" ∧ keyOf r.tenantId (key.getD "") = k then some r.id
      else s.keys.get k := by
  unfold create
  by_cases hkey : key.getD "" = ""
  · simp [hkey]
  · simp [hkey, OrderedMap.get_set]

end RunStore

/-- Whom `create` files a run under. -/
def fileKey (r : Run × Option String) : String × String := (r.1.tenantId, r.2.getD "")

/-- No two of these tenants and keys can be confused. -/
def Unshifted (T : Set (String × String)) : Prop :=
  ∀ x ∈ T, ∀ y ∈ T, ¬Shifted x.1 x.2 y.1 y.2

namespace RunStore

/-- The store answers as one that keeps ids under tenant and key themselves, and with a run of
the tenant that asks. -/
def Separate (T : Set (String × String)) (rs : List (Run × Option String)) : Prop :=
  ∀ x ∈ T, (created joined rs).idempotent joined x.1 x.2 =
      (created Prod.mk rs).idempotent Prod.mk x.1 x.2 ∧
    ∀ r ∈ (created joined rs).idempotent joined x.1 x.2, r.tenantId = x.1

variable {T : Set (String × String)} {rs : List (Run × Option String)}

theorem runs_created : (created joined rs).runs = (created Prod.mk rs).runs := by
  induction rs using List.reverseRecOn with
  | nil => rfl
  | append_singleton rs r ih => simp [created_append_singleton, ih]

/-- Where no two requests can be confused, ids are found under the text where they are found
under tenant and key. -/
theorem keys_created (hT : Unshifted T) (hrs : ∀ r ∈ rs, r.2.getD "" ≠ "" → fileKey r ∈ T)
    {x : String × String} (hx : x ∈ T) :
    (created joined rs).keys.get (joined x.1 x.2) = (created Prod.mk rs).keys.get x := by
  induction rs using List.reverseRecOn with
  | nil => rfl
  | append_singleton rs r ih =>
    have hrest := ih fun r' hr' => hrs r' (List.mem_append_left _ hr')
    have hr := hrs r (List.mem_append_right _ (List.mem_singleton.mpr rfl))
    rw [created_append_singleton, created_append_singleton, keys_create_get, keys_create_get, hrest]
    refine if_congr (and_congr_right fun hkey => ?_) rfl rfl
    constructor
    · intro hsame
      rcases joined_eq_joined_iff.mp hsame with heq | hshift | hshift
      · exact Prod.ext heq.1 heq.2
      · exact absurd hshift (hT _ (hr hkey) x hx)
      · exact absurd hshift (hT x hx _ (hr hkey))
    · rintro rfl
      rfl

theorem mem_ids_of_get {κ : Type} [DecidableEq κ] {keyOf : String → String → κ} {i : String}
    {r : Run} (h : (created keyOf rs).runs.get i = some r) : i ∈ rs.map fun r => r.1.id := by
  induction rs using List.reverseRecOn with
  | nil => simp [created, empty] at h
  | append_singleton rs r' ih =>
    rw [created_append_singleton, runs_create, OrderedMap.get_set] at h
    rw [List.map_append, List.mem_append]
    split at h
    · rename_i heq
      exact .inr (List.mem_singleton.mpr heq.symm)
    · exact .inl (ih h)

/-- An id that is kept under a tenant and a key is that of a run of this tenant. -/
theorem tenant_created (hfresh : (rs.map fun r => r.1.id).Nodup) {x : String × String}
    {i : String} (hi : (created Prod.mk rs).keys.get x = some i) :
    ∃ r, (created Prod.mk rs).runs.get i = some r ∧ r.tenantId = x.1 := by
  induction rs using List.reverseRecOn with
  | nil => simp [created, empty] at hi
  | append_singleton rs r ih =>
    rw [created_append_singleton, keys_create_get] at hi
    rw [created_append_singleton, runs_create]
    split at hi
    · rename_i hkey
      obtain rfl := Option.some.inj hi
      exact ⟨r.1, OrderedMap.get_set_self, congrArg Prod.fst hkey.2⟩
    · rw [List.map_append, List.nodup_append] at hfresh
      obtain ⟨r', hr', htenant⟩ := ih hfresh.1 hi
      -- the id of the new run is another one
      have hne : r.1.id ≠ i := by
        rintro rfl
        exact hfresh.2.2 _ (mem_ids_of_get hr') _ (by simp) rfl
      exact ⟨r', by rw [OrderedMap.get_set_ne hne]; exact hr', htenant⟩

/-- Whatever runs are created for these tenants and keys, with new ids: the store keeps them
apart iff no two of the tenants and keys can be confused. -/
theorem separate_iff : (∀ rs : List (Run × Option String), (rs.map fun r => r.1.id).Nodup →
      (∀ r ∈ rs, r.2.getD "" ≠ "" → fileKey r ∈ T) → Separate T rs) ↔ Unshifted T := by
  constructor
  · intro h x hx y hy hshift
    have hsame : joined x.1 x.2 = joined y.1 y.2 := joined_eq_joined_iff.mpr (.inr (.inl hshift))
    have hne : x ≠ y := by
      rintro rfl
      obtain ⟨r, hr, -⟩ := hshift
      have hlength := congrArg List.length (joined_eq_iff.mp hr)
      simp at hlength
    -- the first key is not empty: it has the separator
    have hkey : x.2 ≠ "" := by
      obtain ⟨r, -, hr⟩ := hshift
      intro hempty
      have htext := joined_eq_iff.mp hr
      simp [hempty] at htext
    have hsep := h [(newRun none "r" x.1, some x.2)] (by simp [newRun]) (by
      intro r hr _
      obtain rfl := List.mem_singleton.mp hr
      exact hx) y hy
    have hcode : (created joined [(newRun none "r" x.1, some x.2)]).idempotent joined y.1 y.2 =
        some (newRun none "r" x.1) := by
      have hget : (created joined [(newRun none "r" x.1, some x.2)]).keys.get (joined y.1 y.2) =
          some "r" := by
        simp only [created, List.foldl_cons, List.foldl_nil, keys_create_get, Option.getD_some]
        exact if_pos ⟨hkey, hsame⟩
      simp only [idempotent, hget, Option.bind_some]
      exact OrderedMap.get_set_self
    have hideal : (created Prod.mk [(newRun none "r" x.1, some x.2)]).idempotent Prod.mk y.1 y.2 =
        none := by
      have hget : (created Prod.mk [(newRun none "r" x.1, some x.2)]).keys.get y = none := by
        simp only [created, List.foldl_cons, List.foldl_nil, keys_create_get, Option.getD_some]
        rw [if_neg fun hboth => hne hboth.2]
        rfl
      simp only [idempotent, hget, Option.bind_none]
    rw [hcode, hideal] at hsep
    exact absurd hsep.1 (by simp)
  · intro hT rs hfresh hrs x hx
    have hkeys := keys_created hT hrs hx
    have hsame : (created joined rs).idempotent joined x.1 x.2 =
        (created Prod.mk rs).idempotent Prod.mk x.1 x.2 := by
      simp only [idempotent, runs_created]
      rw [hkeys]
    refine ⟨hsame, fun r hr => ?_⟩
    rw [hsame] at hr
    obtain ⟨i, hi, hr⟩ := Option.bind_eq_some_iff.mp hr
    obtain ⟨r', hr', htenant⟩ := tenant_created hfresh hi
    obtain ⟨-, hr⟩ := Option.ite_none_left_eq_some.mp hr
    obtain rfl := Option.some.inj (hr'.symm.trans hr)
    exact htenant

end RunStore

end AriOs.Gateway.Api
