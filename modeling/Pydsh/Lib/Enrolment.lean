import Pydsh.Lib.Dict

/-!
# All or none

A registry is a dict that refuses a key it holds, and may refuse others. Many entries are entered one after the other; where one is
refused those before it are taken out again, and the registry is as it was (`get?_enrol_none`). All are entered exactly if the registry
takes them (`enrol_isSome_iff`).
-/

namespace Enrolment

variable {κ ν : Type*} [DecidableEq κ]

/-- Keys are taken out. -/
def withdraw (registry : Dict κ ν) (keys : List κ) : Dict κ ν := keys.foldl Dict.pop registry

/-- Entries are entered in order; the keys of those that were entered, `none` where one was refused and all were taken out again. -/
def enrolFrom (refused : κ → Bool) (registry : Dict κ ν) (entered : List κ) : List (κ × ν) → Dict κ ν × Option (List κ)
  | [] => (registry, some entered)
  | (k, v) :: entries =>
    if (registry.get? k).isSome || refused k then (withdraw registry entered, none)
    else enrolFrom refused (registry.set k v) (entered ++ [k]) entries

/-- A dict of entries is entered, all of it or none. -/
def enrol (refused : κ → Bool) (registry entries : Dict κ ν) : Dict κ ν × Option (List κ) :=
  enrolFrom refused registry [] entries.entries

/-- The registry takes all entries of a dict. -/
def Takes (refused : κ → Bool) (registry entries : Dict κ ν) : Prop :=
  ∀ k v, entries.get? k = some v → registry.get? k = none ∧ refused k = false

theorem get?_withdraw (registry : Dict κ ν) (keys : List κ) (k : κ) :
    (withdraw registry keys).get? k = if k ∈ keys then none else registry.get? k := by
  induction keys generalizing registry with
  | nil => rfl
  | cons key keys ih =>
    have hrest : (withdraw registry (key :: keys)).get? k = (withdraw (registry.pop key) keys).get? k := rfl
    rw [hrest, ih, Dict.get?_pop]
    by_cases hkeys : k ∈ keys
    · rw [if_pos hkeys, if_pos (List.mem_cons_of_mem key hkeys)]
    · rw [if_neg hkeys]
      by_cases hkey : k = key
      · rw [if_pos hkey, if_pos (hkey ▸ List.mem_cons_self)]
      · rw [if_neg hkey, if_neg (fun hmem => (List.mem_cons.mp hmem).elim hkey hkeys)]

section Entering

variable {refused : κ → Bool} {registry registry' : Dict κ ν} {entered keys : List κ} {entries : List (κ × ν)}

/-- A registry that refuses an entry holds what it held without those that were entered before. -/
theorem get?_enrolFrom_none (h : enrolFrom refused registry entered entries = (registry', none)) (k : κ) :
    registry'.get? k = if k ∈ entered then none else registry.get? k := by
  induction entries generalizing registry entered with
  | nil => cases h
  | cons entry entries ih =>
    unfold enrolFrom at h
    split at h
    · cases h
      exact get?_withdraw registry entered k
    · rename_i hfree
      have hnone : registry.get? entry.1 = none := by
        simp only [Bool.or_eq_true, not_or] at hfree
        simpa using hfree.1
      rw [ih h, Dict.get?_set]
      by_cases hk : k = entry.1
      · rw [if_pos (List.mem_append_right _ (hk ▸ List.mem_singleton_self _)), hk, hnone, ite_self]
      · rw [if_neg hk]
        simp [hk]

/-- A registry that took all entries holds them and what it held. -/
theorem get?_enrolFrom_some (h : enrolFrom refused registry entered entries = (registry', some keys)) :
    keys = entered ++ entries.map (·.1) ∧ ∀ k v, registry'.get? k = some v ↔ (k, v) ∈ entries ∨ registry.get? k = some v := by
  induction entries generalizing registry entered with
  | nil =>
    cases h
    simp
  | cons entry entries ih =>
    unfold enrolFrom at h
    split at h
    · cases h
    · rename_i hfree
      have hnone : registry.get? entry.1 = none := by
        simp only [Bool.or_eq_true, not_or] at hfree
        simpa using hfree.1
      obtain ⟨hkeys, hget⟩ := ih h
      refine ⟨by simp [hkeys], ?_⟩
      intro k v
      rw [hget, Dict.get?_set]
      by_cases hk : k = entry.1
      · rw [if_pos hk]
        constructor
        · rintro (hmem | hentry)
          · exact Or.inl (List.mem_cons_of_mem entry hmem)
          · left
            rw [hk, ← Option.some.inj hentry]
            exact List.mem_cons_self
        · rintro (hmem | hheld)
          · rcases List.mem_cons.mp hmem with heq | hmem
            · rw [← heq]
              exact Or.inr rfl
            · exact Or.inl hmem
          · rw [hk, hnone] at hheld
            cases hheld
      · rw [if_neg hk, List.mem_cons]
        constructor
        · rintro (hmem | hheld)
          · exact Or.inl (Or.inr hmem)
          · exact Or.inr hheld
        · rintro ((heq | hmem) | hheld)
          · exact absurd (congrArg Prod.fst heq) hk
          · exact Or.inl hmem
          · exact Or.inr hheld

/-- Entries with distinct keys are all entered exactly if the registry takes each. -/
theorem enrolFrom_isSome_iff (hnodup : (entries.map (·.1)).Nodup) : (enrolFrom refused registry entered entries).2.isSome ↔
    ∀ entry ∈ entries, registry.get? entry.1 = none ∧ refused entry.1 = false := by
  induction entries generalizing registry entered with
  | nil => simp [enrolFrom]
  | cons entry entries ih =>
    obtain ⟨hnew, hnodup⟩ := List.nodup_cons.mp hnodup
    unfold enrolFrom
    split
    · rename_i hrefused
      refine iff_of_false (by simp) ?_
      intro h
      obtain ⟨hnone, hnot⟩ := h entry List.mem_cons_self
      simp [hnone, hnot] at hrefused
    · rename_i hfree
      have htakes : registry.get? entry.1 = none ∧ refused entry.1 = false := by simpa using hfree
      rw [ih hnodup, List.forall_mem_cons]
      have hsame : ∀ other ∈ entries, (registry.set entry.1 entry.2).get? other.1 = registry.get? other.1 := by
        intro other hother
        refine Dict.get?_set_of_ne registry entry.2 ?_
        intro heq
        exact hnew (List.mem_map.mpr ⟨other, hother, heq⟩)
      constructor
      · intro h
        refine ⟨htakes, ?_⟩
        intro other hother
        rw [← hsame other hother]
        exact h other hother
      · rintro ⟨-, h⟩ other hother
        rw [hsame other hother]
        exact h other hother

end Entering

section All

variable {refused : κ → Bool} {registry registry' entries : Dict κ ν} {keys : List κ}

/-- Entering goes wrong and the registry holds what it held. -/
theorem get?_enrol_none (h : enrol refused registry entries = (registry', none)) (k : κ) : registry'.get? k = registry.get? k :=
  get?_enrolFrom_none h k

/-- All is entered: the registry holds the entries and what it held. -/
theorem get?_enrol_some (h : enrol refused registry entries = (registry', some keys)) :
    (∀ k, k ∈ keys ↔ (entries.get? k).isSome) ∧
    ∀ k v, registry'.get? k = some v ↔ entries.get? k = some v ∨ registry.get? k = some v := by
  obtain ⟨hkeys, hget⟩ := get?_enrolFrom_some h
  constructor
  · intro k
    rw [hkeys, List.nil_append, Option.isSome_iff_ne_none, ne_eq, Dict.get?_eq_none, not_not]
  · intro k v
    rw [hget, ← Dict.get?_eq_some]

theorem enrol_isSome_iff : (enrol refused registry entries).2.isSome ↔ Takes refused registry entries := by
  refine (enrolFrom_isSome_iff entries.unique).trans ?_
  constructor
  · intro h k v hget
    exact h (k, v) (Dict.get?_eq_some.mp hget)
  · intro h entry hentry
    exact h entry.1 entry.2 (Dict.get?_eq_some.mpr hentry)

end All

end Enrolment
