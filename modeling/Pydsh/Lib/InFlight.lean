import Mathlib.Data.List.Basic

/-!
# Calls in flight

Calls that have begun and not ended, each at a place of a list; one of them goes on at a time. A call may have resources in hand, read
off it by `owns`. `Has` says that some call has a resource: it goes on having it when a call begins, when another goes on, and when
the call itself goes on without letting go of it.
-/

namespace InFlight

variable {τ ρ : Type*} {owns : τ → List ρ} {calls : List τ} {call call' : τ} {k : Nat} {r : ρ}

/-- Some call has the resource. -/
def Has (owns : τ → List ρ) (calls : List τ) (r : ρ) : Prop := ∃ call ∈ calls, r ∈ owns call

theorem Has.begins (h : Has owns calls r) (call : τ) : Has owns (calls ++ [call]) r := by
  obtain ⟨call', hmem, howns⟩ := h
  exact ⟨call', List.mem_append_left _ hmem, howns⟩

theorem Has.of_begins (calls : List τ) (h : r ∈ owns call) : Has owns (calls ++ [call]) r :=
  ⟨call, List.mem_append_right _ (List.mem_singleton_self call), h⟩

theorem Has.of_goes (hk : calls[k]? = some call) (h : r ∈ owns call') : Has owns (calls.set k call') r :=
  ⟨call', List.mem_set (List.getElem?_eq_some_iff.mp hk).1 call', h⟩

/-- A call is this one, which goes on, or is still in flight. -/
theorem mem_goes {other : τ} (h : other ∈ calls) (hk : calls[k]? = some call) (call' : τ) : other = call ∨ other ∈ calls.set k call' := by
  obtain ⟨j, hj⟩ := List.getElem?_of_mem h
  by_cases hjk : j = k
  · subst hjk
    exact Or.inl (Option.some.inj (hj.symm.trans hk))
  · right
    refine List.mem_of_getElem? (i := j) ?_
    rw [List.getElem?_set_ne (Ne.symm hjk), hj]

/-- When a call goes on it was this one that had the resource, or some call still has it. -/
theorem Has.goes (h : Has owns calls r) (hk : calls[k]? = some call) (call' : τ) :
    r ∈ owns call ∨ Has owns (calls.set k call') r := by
  obtain ⟨other, hmem, howns⟩ := h
  rcases mem_goes hmem hk call' with rfl | hmem'
  · exact Or.inl howns
  · exact Or.inr ⟨other, hmem', howns⟩

/-- A call that goes on lets go of nothing. -/
theorem Has.kept (h : Has owns calls r) (hk : calls[k]? = some call) (hkept : r ∈ owns call → r ∈ owns call') :
    Has owns (calls.set k call') r := by
  rcases h.goes hk call' with howns | hhas
  · exact Has.of_goes hk (hkept howns)
  · exact hhas

end InFlight
