import Pydsh.Runtime.Answers

/-!
# The read loop survives

A line that is blank, no JSON or no object is noise: the loop goes on as if it had not been there (`exec_without_noise`). `_parse` only
catches `JSONDecodeError`, though, and `json.loads` raises other exceptions too: on an integer with too many digits, on deep nesting.
Such a line ends the loop's task, with nothing said and nothing failed (`read_loop_survives`).
-/

namespace Pydsh

/-- A line that `json.loads` raises anything but a `JSONDecodeError` on. -/
def RpcAction.Unreadable (json : JsonText) (a : RpcAction) : Prop :=
  ∃ text, a = .line text ∧ pyStrip text ≠ "" ∧ json.loads (pyStrip text) = .raises

/-- A line that is blank, no JSON, or no object. -/
def RpcAction.noise (json : JsonText) : RpcAction → Bool
  | .line text =>
    if pyStrip text = "" then true
    else
      match json.loads (pyStrip text) with
      | .value (.dict _) => false
      | .value _ => true
      | .decodeError => true
      | .raises => false
  | _ => false

namespace JsonRpcTransport

variable {json : JsonText} {s s' : JsonRpcTransport}

/-! ## Where the loop is after a step -/

theorem loop_write (s : JsonRpcTransport) (frame : PyValue) (writer : Option String) : (s.write json frame writer).1.loop = s.loop := by
  rcases write_cases json s frame writer with ⟨error, -, heq⟩ | ⟨-, error, -, heq⟩ | ⟨-, -, heq⟩
  · rw [heq]
    rfl
  · rw [heq]
    rfl
  · rw [heq]

theorem loop_request (s : JsonRpcTransport) (id method : String) (params : Option PyDict) (timeout : Bool) (writer : Option String) :
    (s.request json id method params timeout writer).loop = s.loop := by
  rcases request_cases json s id method params timeout writer with
    ⟨-, heq⟩ | ⟨-, error, -, heq⟩ | ⟨-, -, error, -, heq⟩ | ⟨-, -, -, heq⟩
  · rw [heq]
    rfl
  · rw [heq]
    rfl
  · rw [heq]
    rfl
  · rw [heq]
    rfl

theorem loop_handle (s : JsonRpcTransport) (frame : PyDict) : (s.handle frame).loop = s.loop := by
  unfold handle
  split
  · rfl
  · exact (resolve_flags s _ frame).2.1
  · rfl

/-- After a line the loop goes on at an open endpoint and ends at a closed one. -/
theorem loop_again (s : JsonRpcTransport) : s.again.loop = if s.closed then .ended else s.loop := by
  unfold again
  split <;> rfl

/-- A line cannot be read and the loop dies; or it is noise; or it is a frame, which is handled. -/
theorem readLine_cases (json : JsonText) (s : JsonRpcTransport) (text : String) :
    ((RpcAction.line text).Unreadable json ∧ s.readLine json text = { s with loop := .died }) ∨
    (¬(RpcAction.line text).Unreadable json ∧ (RpcAction.line text).noise json = true ∧ s.readLine json text = s.again) ∨
    ∃ frame, ¬(RpcAction.line text).Unreadable json ∧ (RpcAction.line text).noise json = false ∧
      s.readLine json text = (s.handle frame).again := by
  have hreadable : json.loads (pyStrip text) ≠ .raises → ¬(RpcAction.line text).Unreadable json := by
    rintro hloads ⟨text', heq, -, hraises⟩
    cases heq
    exact hloads hraises
  by_cases hblank : pyStrip text = ""
  · refine Or.inr (Or.inl ⟨?_, by simp [RpcAction.noise, hblank], by rw [readLine, if_pos hblank]⟩)
    rintro ⟨text', heq, htext, -⟩
    cases heq
    exact htext hblank
  · cases hloads : json.loads (pyStrip text) with
    | raises =>
      refine Or.inl ⟨⟨text, rfl, hblank, hloads⟩, ?_⟩
      rw [readLine, if_neg hblank, hloads]
    | decodeError =>
      refine Or.inr (Or.inl ⟨hreadable (by simp [hloads]), by simp [RpcAction.noise, hblank, hloads], ?_⟩)
      rw [readLine, if_neg hblank, hloads]
    | value v =>
      by_cases hdict : ∃ frame, v = .dict frame
      · obtain ⟨frame, rfl⟩ := hdict
        refine Or.inr (Or.inr ⟨frame, hreadable (by simp [hloads]), by simp [RpcAction.noise, hblank, hloads], ?_⟩)
        rw [readLine, if_neg hblank, hloads]
      · refine Or.inr (Or.inl ⟨hreadable (by simp [hloads]), ?_, ?_⟩)
        · simp only [RpcAction.noise, if_neg hblank, hloads]
          split
          · rename_i frame hvalue
            exact absurd ⟨frame, (LineParse.value.inj hvalue)⟩ hdict
          · rfl
          · rfl
          · rename_i hvalue
            cases hvalue
        · rw [readLine, if_neg hblank, hloads]
          split
          · rename_i frame hvalue
            exact absurd ⟨frame, (LineParse.value.inj hvalue)⟩ hdict
          · rfl
          · rfl
          · rename_i hvalue
            cases hvalue

theorem again_of_open (h : s.closed = false) : s.again = s := by
  rw [again, h]
  rfl

/-- A line leaves the loop of an open endpoint as it was, exactly if it can be read. -/
theorem loop_readLine (hclosed : s.closed = false) (hreading : s.loop = .reading) (text : String) :
    (s.readLine json text).loop = .reading ↔ ¬(RpcAction.line text).Unreadable json := by
  rcases readLine_cases json s text with ⟨hbad, heq⟩ | ⟨hgood, -, heq⟩ | ⟨frame, hgood, -, heq⟩
  · rw [heq]
    exact iff_of_false (fun hloop => ReadLoop.noConfusion hloop) (not_not.mpr hbad)
  · rw [heq, again_of_open hclosed]
    exact iff_of_true hreading hgood
  · rw [heq, again_of_open ((flags_handle s frame).1.trans hclosed), loop_handle]
    exact iff_of_true hreading hgood

theorem died_again (h : s.loop ≠ .died) : s.again.loop ≠ .died := by
  rw [loop_again]
  split
  · intro hdied
    cases hdied
  · exact h

theorem died_loopEnds (s : JsonRpcTransport) : s.loopEnds.loop ≠ .died := by
  unfold loopEnds
  split
  · intro hdied
    cases hdied
  · intro hdied
    cases hdied

theorem died_step {a : RpcAction} (h : s.loop ≠ .died) (hstep : s.step json a = some s') : s'.loop ≠ .died ↔ ¬ a.Unreadable json := by
  have hother : s'.loop ≠ .died → (∀ text, a = .line text → False) → (s'.loop ≠ .died ↔ ¬ a.Unreadable json) := by
    intro halive hline
    refine iff_of_true halive ?_
    rintro ⟨text, heq, -⟩
    exact hline text heq
  cases a with
  | start =>
    refine hother ?_ (by rintro text ⟨⟩)
    obtain rfl := Option.some.inj hstep
    split
    · intro hdied
      cases hdied
    · exact h
  | request id method params timeout writer =>
    refine hother ?_ (by rintro text ⟨⟩)
    simp only [step] at hstep
    split at hstep
    · cases hstep
    · obtain rfl := Option.some.inj hstep
      rw [loop_request]
      exact h
  | notify method params writer =>
    refine hother ?_ (by rintro text ⟨⟩)
    obtain rfl := Option.some.inj hstep
    rw [loop_write]
    exact h
  | resume id =>
    obtain ⟨call, completion, -, -, -, rfl⟩ := resume_cases hstep
    exact hother h (by rintro text ⟨⟩)
  | interrupt id cause =>
    obtain ⟨call, -, -, -, rfl⟩ := interrupt_cases hstep
    exact hother h (by rintro text ⟨⟩)
  | line text =>
    obtain ⟨-, hnext⟩ := Option.ite_none_right_eq_some.mp hstep
    obtain rfl := Option.some.inj hnext
    rcases readLine_cases json s text with ⟨hbad, heq⟩ | ⟨hgood, -, heq⟩ | ⟨frame, hgood, -, heq⟩
    · rw [heq]
      exact iff_of_false (not_not.mpr rfl) (not_not.mpr hbad)
    · rw [heq]
      exact iff_of_true (died_again h) hgood
    · rw [heq]
      refine iff_of_true (died_again ?_) hgood
      rw [loop_handle]
      exact h
  | endOfInput =>
    obtain ⟨-, hnext⟩ := Option.ite_none_right_eq_some.mp hstep
    obtain rfl := Option.some.inj hnext
    exact hother (died_loopEnds _) (by rintro text ⟨⟩)
  | readError =>
    obtain ⟨-, hnext⟩ := Option.ite_none_right_eq_some.mp hstep
    obtain rfl := Option.some.inj hnext
    exact hother (died_loopEnds s) (by rintro text ⟨⟩)
  | readCancelled =>
    obtain ⟨-, hnext⟩ := Option.ite_none_right_eq_some.mp hstep
    obtain rfl := Option.some.inj hnext
    exact hother (fun hdied => ReadLoop.noConfusion hdied) (by rintro text ⟨⟩)
  | served place handled writer =>
    obtain ⟨serving, -, ⟨-, rfl⟩ | ⟨frame, -, rfl⟩⟩ := served_cases hstep
    · exact hother h (by rintro text ⟨⟩)
    · refine hother ?_ (by rintro text ⟨⟩)
      rw [loop_write]
      exact h
  | close reason =>
    refine hother ?_ (by rintro text ⟨⟩)
    obtain rfl := Option.some.inj hstep
    unfold JsonRpcTransport.close
    split
    · exact h
    · split <;> exact h
  | closeGoesOn =>
    refine hother ?_ (by rintro text ⟨⟩)
    simp only [step] at hstep
    split at hstep
    · cases hstep
    · obtain rfl := Option.some.inj hstep
      exact h

/-! ## Noise -/

theorem step_noise {a : RpcAction} (hclosed : s.closed = false) (hnoise : a.noise json = true) (hstep : s.step json a = some s') :
    s' = s := by
  cases a with
  | line text =>
    obtain ⟨-, hnext⟩ := Option.ite_none_right_eq_some.mp hstep
    obtain rfl := Option.some.inj hnext
    rcases readLine_cases json s text with ⟨⟨text', hline, htext, hraises⟩, -⟩ | ⟨-, -, heq⟩ | ⟨frame, -, hnot, -⟩
    · cases hline
      simp [RpcAction.noise, htext, hraises] at hnoise
    · rw [heq, again_of_open hclosed]
    · rw [hnot] at hnoise
      cases hnoise
  | _ => cases hnoise

/-- As long as the endpoint is not closed, a run ends as it does without the noise. -/
theorem exec_without_noise {as : List RpcAction} (hclosed : s.closed = false) (hopen : ∀ a ∈ as, ∀ reason, a ≠ .close reason)
    (hrun : Machine.exec (step json) s as = some s') :
    Machine.exec (step json) s (as.filter (fun a => !a.noise json)) = some s' := by
  induction as generalizing s with
  | nil => exact hrun
  | cons a as ih =>
    obtain ⟨s₁, hstep, hrest⟩ := Option.bind_eq_some_iff.mp hrun
    have hopen' : ∀ b ∈ as, ∀ reason, b ≠ .close reason := fun b hb => hopen b (List.mem_cons_of_mem a hb)
    have hclosed₁ : s₁.closed = false := by
      rcases (flags_step hstep).1 with hsame | ⟨reason, hclose, -⟩
      · exact hsame.trans hclosed
      · exact absurd hclose (hopen a List.mem_cons_self reason)
    by_cases hnoise : a.noise json = true
    · rw [List.filter_cons_of_neg (by simp [hnoise])]
      obtain rfl : s₁ = s := step_noise hclosed hnoise hstep
      exact ih hclosed hopen' hrest
    · rw [List.filter_cons_of_pos (by simpa using hnoise), Machine.exec, hstep]
      exact ih hclosed₁ hopen' hrest

end JsonRpcTransport

open JsonRpcTransport in
/-- In every run without a line that cannot be read the loop does not die, and the next step makes it die exactly if it is such a line; at
an open endpoint a line leaves the loop reading exactly if it can be read, and when the input ends nobody waits. As long as the endpoint
is not closed, a run ends as it does without the noise among its lines. -/
theorem read_loop_survives (json : JsonText) :
    (∀ s, Machine.Reach (step json) (fun _ a => ¬ a.Unreadable json) {} s →
      s.loop ≠ .died ∧
      (∀ a s', s.step json a = some s' → (s'.loop ≠ .died ↔ ¬ a.Unreadable json)) ∧
      (∀ text s', s.closed = false → s.step json (.line text) = some s' → (s'.loop = .reading ↔ ¬(RpcAction.line text).Unreadable json)) ∧
      ∀ s', s.closed = false → s.step json .endOfInput = some s' → s'.loop = .ended ∧ ¬ s'.SomeoneWaits) ∧
    ∀ s as s', s.closed = false → (∀ a ∈ as, ∀ reason, a ≠ .close reason) → Machine.exec (step json) s as = some s' →
      Machine.exec (step json) s (as.filter (fun a => !a.noise json)) = some s' := by
  constructor
  · intro s hreach
    have halive : s.loop ≠ .died := by
      refine hreach.invariant (P := fun s => s.loop ≠ .died) (fun hdied => ReadLoop.noConfusion hdied) ?_
      intro s a s' halive hok hstep
      exact (died_step halive hstep).mpr hok
    refine ⟨halive, fun a s' hstep => died_step halive hstep, fun text s' hclosed hstep => ?_, fun s' hclosed hstep => ?_⟩
    · obtain ⟨hreading, hnext⟩ := Option.ite_none_right_eq_some.mp hstep
      obtain rfl := Option.some.inj hnext
      exact loop_readLine hclosed hreading text
    · obtain ⟨hreading, hnext⟩ := Option.ite_none_right_eq_some.mp hstep
      obtain rfl := Option.some.inj hnext
      have hinv : ({ s with
          eof := true
          loop := .ended } : JsonRpcTransport).Inv :=
        (inv_reach hreach).flags rfl rfl (fun _ => rfl) (inv_reach hreach).quiet (inv_reach hreach).closing
      have hends : ({ s with eof := true } : JsonRpcTransport).loopEnds =
          { s with
            eof := true
            loop := .ended }.failPending .peerClosed := by
        rw [loopEnds, if_neg (by simp [hclosed])]
      rw [hends]
      exact ⟨rfl, hinv.quiet_failPending .peerClosed⟩
  · intro s as s' hclosed hopen hrun
    exact exec_without_noise hclosed hopen hrun

theorem not_unreadable_twoInbound (a : RpcAction) : ¬ a.Unreadable twoInbound := by
  rintro ⟨text, -, -, hraises⟩
  simp only [twoInbound] at hraises
  split at hraises
  · cases hraises
  · split at hraises <;> cases hraises

open JsonRpcTransport in
/-- A request after a line of noise is served as if the noise had not been there. -/
theorem read_loop_survives_noise : ∃ s,
    Machine.exec (step twoInbound) {} [.start, .line "noise", .line "\x7b\"id\": 7, \"method\": \"list\"\x7d"] = some s ∧
    s.loop ≠ .died ∧ s.served = [.int 7] ∧
    Machine.exec (step twoInbound) {} [.start, .line "\x7b\"id\": 7, \"method\": \"list\"\x7d"] = some s := by
  refine ⟨_, rfl, ?_, rfl, ?_⟩
  · have hrun : Machine.exec (step twoInbound) {} [.start, .line "noise", .line "\x7b\"id\": 7, \"method\": \"list\"\x7d"] = _ := rfl
    have hreach := Machine.Reach.exec .start hrun
    exact ((read_loop_survives twoInbound).1 _ (hreach.mono (fun _ a _ => not_unreadable_twoInbound a))).1
  · have hopen : ∀ a ∈ [RpcAction.start, .line "noise", .line "\x7b\"id\": 7, \"method\": \"list\"\x7d"], ∀ reason, a ≠ .close reason := by
      simp
    exact (read_loop_survives twoInbound).2 {} _ _ rfl hopen rfl

/-- A line that is an integer of so many digits. -/
def nines (n : Nat) : String := String.ofList (List.replicate n '9')

/-- A peer that sends an integer of so many digits, which are more than `int` takes, and otherwise noise. -/
def longInteger (n : Nat) : JsonText where
  loads text := if text = nines n then .raises else .decodeError
  refuses _ := none

theorem pyStrip_nines (n : Nat) : pyStrip (nines n) = nines n := by
  have hdigit : isSpace '9' = false := by decide
  simp only [pyStrip, nines, String.toList_ofList]
  simp [hdigit]

theorem nines_ne_empty {n : Nat} (hn : n ≠ 0) : nines n ≠ "" := by
  intro hempty
  have hlist := congrArg String.toList hempty
  rw [nines, String.toList_ofList] at hlist
  exact hn (by simpa using hlist)

open JsonRpcTransport in
theorem readLine_longInteger {n : Nat} (hn : n ≠ 0) (s : JsonRpcTransport) :
    s.readLine (longInteger n) (nines n) = { s with loop := .died } := by
  have hraises : (longInteger n).loads (nines n) = .raises := if_pos rfl
  rw [readLine, pyStrip_nines, if_neg (nines_ne_empty hn), hraises]

open JsonRpcTransport in
/-- The line ends the loop, and a call waits for a response that no later line can bring. -/
theorem read_loop_dies : ∃ s,
    Machine.exec (step (longInteger 4301)) {} [.start, .request "req_1" "one" none false none, .line (nines 4301)] = some s ∧
    s.loop = .died ∧ s.SomeoneWaits ∧ ∀ text, s.step (longInteger 4301) (.line text) = none := by
  refine ⟨_, rfl, ?_⟩
  rw [readLine_longInteger (by omega)]
  exact ⟨rfl, ⟨"req_1", _, rfl, rfl, rfl, rfl⟩, fun _ => rfl⟩

end Pydsh
