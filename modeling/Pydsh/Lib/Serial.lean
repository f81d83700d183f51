import Mathlib.Data.List.Nodup

/-!
# Intervals one after another

Some entries of a log begin an interval, some end one; `opens` and `closes` read its name off an entry. `scan` reads a log and gives
the interval that is still open at its end; it fails where an interval begins inside another one or one ends that is not open. A log
on which it does not fail holds intervals one after another, the last of which may be open.
-/

namespace Serial

variable {ε ι : Type*} [DecidableEq ι] (opens closes : ε → Option ι)

/-- One entry, with the interval that is open before it. -/
def advance (running : Option ι) (e : ε) : Option (Option ι) :=
  match opens e, closes e with
  | some id, _ => if running = none then some (some id) else none
  | none, some id => if running = some id then some none else none
  | none, none => some running

/-- The interval open at the end of a log. -/
def scan (es : List ε) : Option (Option ι) := es.foldlM (advance opens closes) none

/-- The intervals that a log begins. -/
def opened (es : List ε) : List ι := es.filterMap opens

variable {opens closes} {es : List ε} {e : ε} {id : ι}

@[simp] theorem scan_nil : scan opens closes ([] : List ε) = some none := rfl

theorem scan_concat (es : List ε) (e : ε) :
    scan opens closes (es ++ [e]) = (scan opens closes es).bind (fun running => advance opens closes running e) := by
  simp [scan, List.foldlM_append]

/-- An interval begins where none is open, and only there. -/
theorem scan_open {running : Option ι} (hscan : scan opens closes es = some running) (hopen : opens e = some id) :
    scan opens closes (es ++ [e]) = if running = none then some (some id) else none := by
  rw [scan_concat, hscan]
  simp [advance, hopen]

theorem scan_close (hscan : scan opens closes es = some (some id)) (hopen : opens e = none) (hclose : closes e = some id) :
    scan opens closes (es ++ [e]) = some none := by
  rw [scan_concat, hscan]
  simp [advance, hopen, hclose]

omit [DecidableEq ι] in
theorem opened_concat_open (hopen : opens e = some id) : opened opens (es ++ [e]) = opened opens es ++ [id] := by
  simp [opened, hopen]

omit [DecidableEq ι] in
theorem opened_concat_other (hopen : opens e = none) : opened opens (es ++ [e]) = opened opens es := by
  simp [opened, hopen]

omit [DecidableEq ι] in
/-- One more name is new exactly when the names stay distinct. -/
theorem nodup_opened_concat (h : (opened opens es).Nodup) (hopen : opens e = some id) :
    (opened opens (es ++ [e])).Nodup ↔ id ∉ opened opens es := by
  rw [opened_concat_open hopen, List.nodup_append']
  simp [h]

end Serial
