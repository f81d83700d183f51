import Mathlib.Data.List.Dedup
import Pydsh.Lib.Dict
import Pydsh.Lib.Machine
import Pydsh.Mcp.Naming
import Pydsh.Python.Dynamic
import Pydsh.Python.Text

/-!
# What memory holds and what it recalls

The store and the reading side of `sidecar/memory.py`. A memory is kept under a digest of its text: `remember` looks the digest up, and
only then waits for the write, so that two calls of one text may both write. Still one entry is kept of a text, and a text of which a
call returned is there for good, across failing writes, cancelled calls and restarts (`memories_kept`). What is recalled for a query are
the entries that share the most words with it, the later ones first, or the most recent ones where none shares a word
(`retrieve_best`); a recall takes them from the front as long as the next line fits the budget (`recall_fits`).
-/

namespace Pydsh

/-- One record of the table `entries`. -/
structure MemoryEntry where
  id : String
  time : Rat
  text : String
  tags : List String := []
  deriving DecidableEq

/-- `memory_key`. -/
def memoryKey (sha : Sha256) (text : String) : String := slice (sha.hexdigest text) 32

/-! ## Writing -/

/-- A write of `remember` in the chain of the domain, with whether the unit has it. -/
structure MemoryWrite where
  entry : MemoryEntry
  landed : Bool := false

/-- The store: the table in memory and on the unit, the writes that wait for their slot in their order, and the texts of which a call
of `remember` returned. -/
structure Memories where
  table : Dict String MemoryEntry := .empty
  unit : Dict String MemoryEntry := .empty
  writing : List MemoryWrite := []
  returned : List String := []

/-- What happens to the store: a call of `remember`; the first write takes effect on the unit, returns or raises; a waiting call is
cancelled; the process ends and the domain is opened again. -/
inductive MemoryAction where
  | remember (text : String) (tags : List String) (now : Rat)
  | lands
  | returns
  | raises
  | cancel (n : Nat)
  | reopen

namespace Memories

variable (sha : Sha256)

/-- `remember`, up to its `put`. -/
def remember (s : Memories) (text : String) (tags : List String) (now : Rat) : Memories :=
  let text := pyStrip text
  if text = "" then s
  else
    let key := memoryKey sha text
    if (s.table.get? key).isSome then { s with returned := text :: s.returned }
    else { s with writing := s.writing ++ [{ entry := { id := key, time := now, text, tags } }] }

/-- One step. A call that is cancelled while its write is in the unit leaves what took effect there. -/
def step (s : Memories) : MemoryAction → Option Memories
  | .remember text tags now => some (s.remember sha text tags now)
  | .lands =>
    match s.writing with
    | ⟨entry, false⟩ :: rest => some { s with unit := s.unit.set entry.id entry, writing := ⟨entry, true⟩ :: rest }
    | _ => none
  | .returns =>
    match s.writing with
    | ⟨entry, true⟩ :: rest =>
      some { s with table := s.table.set entry.id entry, writing := rest, returned := entry.text :: s.returned }
    | _ => none
  | .raises =>
    match s.writing with
    | ⟨_, false⟩ :: rest => some { s with writing := rest }
    | _ => none
  | .cancel n => if n < s.writing.length then some { s with writing := s.writing.eraseIdx n } else none
  | .reopen => some { s with table := s.unit, writing := [] }

end Memories

/-- An entry under the digest of its text, which is not empty and has no white space around it. -/
structure MemoryEntry.Proper (sha : Sha256) (entry : MemoryEntry) : Prop where
  key : entry.id = memoryKey sha entry.text
  text : entry.text ≠ ""
  stripped : pyStrip entry.text = entry.text

/-- Every entry of a table is proper and under its id. -/
def ProperTable (sha : Sha256) (table : Dict String MemoryEntry) : Prop :=
  ∀ key entry, table.get? key = some entry → entry.id = key ∧ entry.Proper sha

namespace Memories

variable {sha : Sha256}

/-- What holds between the steps. -/
structure Inv (sha : Sha256) (s : Memories) : Prop where
  table : ProperTable sha s.table
  unit : ProperTable sha s.unit
  writing : ∀ write ∈ s.writing, write.entry.Proper sha
  landed : ∀ write ∈ s.writing, write.landed = true → (s.unit.get? write.entry.id).isSome = true
  durable : ∀ key, (s.table.get? key).isSome = true → (s.unit.get? key).isSome = true
  returned : ∀ text ∈ s.returned, (s.table.get? (memoryKey sha text)).isSome = true

theorem Inv.start : Inv sha {} where
  table := by
    intro key entry h
    simp at h
  unit := by
    intro key entry h
    simp at h
  writing := by simp
  landed := by simp
  durable := by simp
  returned := by simp

end Memories

theorem ProperTable.set {sha : Sha256} {table : Dict String MemoryEntry} (h : ProperTable sha table) {entry : MemoryEntry}
    (hentry : entry.Proper sha) : ProperTable sha (table.set entry.id entry) := by
  intro key e hget
  rw [Dict.get?_set] at hget
  split at hget
  next heq =>
    obtain rfl := Option.some.inj hget
    exact ⟨heq.symm, hentry⟩
  next => exact h key e hget

theorem isSome_get?_set {κ α : Type*} [DecidableEq κ] {d : Dict κ α} {k : κ} (h : (d.get? k).isSome = true) (k' : κ) (v : α) :
    ((d.set k' v).get? k).isSome = true := by
  rw [Dict.get?_set]
  split
  · rfl
  · exact h

namespace Memories

variable {sha : Sha256} {s s' : Memories}

theorem Inv.remember (h : s.Inv sha) (text : String) (tags : List String) (now : Rat) : (s.remember sha text tags now).Inv sha := by
  unfold Memories.remember
  dsimp only
  split
  next => exact h
  next hempty =>
    split
    next hthere =>
      refine { h with returned := ?_ }
      intro t ht
      rcases List.mem_cons.mp ht with rfl | ht
      · exact hthere
      · exact h.returned t ht
    next =>
      refine { h with writing := ?_, landed := ?_ }
      · intro write hwrite
        rcases List.mem_append.mp hwrite with hwrite | hwrite
        · exact h.writing write hwrite
        · obtain rfl := List.mem_singleton.mp hwrite
          exact ⟨rfl, hempty, pyStrip_pyStrip text⟩
      · intro write hwrite hlanded
        rcases List.mem_append.mp hwrite with hwrite | hwrite
        · exact h.landed write hwrite hlanded
        · obtain rfl := List.mem_singleton.mp hwrite
          contradiction

theorem Inv.fewer (h : s.Inv sha) {writing : List MemoryWrite} (hsub : ∀ write ∈ writing, write ∈ s.writing) :
    Inv sha { s with writing } :=
  { h with
    writing := fun write hwrite => h.writing write (hsub write hwrite)
    landed := fun write hwrite => h.landed write (hsub write hwrite) }

theorem Inv.lands (h : s.Inv sha) {entry : MemoryEntry} {rest : List MemoryWrite} (hwriting : s.writing = ⟨entry, false⟩ :: rest) :
    Inv sha { s with unit := s.unit.set entry.id entry, writing := ⟨entry, true⟩ :: rest } := by
  have hentry : entry.Proper sha := h.writing ⟨entry, false⟩ (by simp [hwriting])
  refine { h with
    unit := h.unit.set hentry, writing := ?_, landed := ?_, durable := fun key hkey => isSome_get?_set (h.durable key hkey) _ _ }
  · intro write hwrite
    rcases List.mem_cons.mp hwrite with rfl | hwrite
    · exact hentry
    · exact h.writing write (by simp [hwriting, hwrite])
  · intro write hwrite hlanded
    rcases List.mem_cons.mp hwrite with rfl | hwrite
    · exact Option.isSome_iff_exists.mpr ⟨entry, Dict.get?_set_self ..⟩
    · exact isSome_get?_set (h.landed write (by simp [hwriting, hwrite]) hlanded) _ _

theorem Inv.returns (h : s.Inv sha) {entry : MemoryEntry} {rest : List MemoryWrite} (hwriting : s.writing = ⟨entry, true⟩ :: rest) :
    Inv sha { s with table := s.table.set entry.id entry, writing := rest, returned := entry.text :: s.returned } := by
  have hmem : (⟨entry, true⟩ : MemoryWrite) ∈ s.writing := by simp [hwriting]
  have hentry : entry.Proper sha := h.writing _ hmem
  have hrest : Inv sha { s with writing := rest } := h.fewer (fun write hwrite => by simp [hwriting, hwrite])
  refine { hrest with table := h.table.set hentry, durable := ?_, returned := ?_ }
  · intro key hkey
    rw [Dict.get?_set] at hkey
    split at hkey
    next heq =>
      subst heq
      exact h.landed _ hmem rfl
    next => exact h.durable key hkey
  · intro text htext
    rcases List.mem_cons.mp htext with rfl | htext
    · rw [← hentry.key, Dict.get?_set_self]
      rfl
    · exact isSome_get?_set (h.returned text htext) _ _

theorem Inv.reopen (h : s.Inv sha) : Inv sha { s with table := s.unit, writing := [] } where
  table := h.unit
  unit := h.unit
  writing := by simp
  landed := by simp
  durable _ hkey := hkey
  returned text htext := h.durable _ (h.returned text htext)

theorem Inv.step (h : s.Inv sha) {a : MemoryAction} (hstep : s.step sha a = some s') : s'.Inv sha := by
  cases a with
  | remember text tags now =>
    obtain rfl := Option.some.inj hstep
    exact h.remember text tags now
  | lands =>
    dsimp only [Memories.step] at hstep
    split at hstep
    next entry rest hwriting =>
      obtain rfl := Option.some.inj hstep
      exact h.lands hwriting
    next => contradiction
  | returns =>
    dsimp only [Memories.step] at hstep
    split at hstep
    next entry rest hwriting =>
      obtain rfl := Option.some.inj hstep
      exact h.returns hwriting
    next => contradiction
  | raises =>
    dsimp only [Memories.step] at hstep
    split at hstep
    next entry rest hwriting =>
      obtain rfl := Option.some.inj hstep
      exact h.fewer (fun write hwrite => by simp [hwriting, hwrite])
    next => contradiction
  | cancel n =>
    obtain ⟨-, hs⟩ := Option.ite_none_right_eq_some.mp hstep
    obtain rfl := Option.some.inj hs
    exact h.fewer (fun write hwrite => List.mem_of_mem_eraseIdx hwrite)
  | reopen =>
    obtain rfl := Option.some.inj hstep
    exact h.reopen

theorem reach_inv (h : Machine.Reach (step sha) Machine.anyStep {} s) : s.Inv sha :=
  h.invariant .start (fun _ _ _ hs _ hstep => hs.step hstep)

end Memories

/-- Of each text one entry is stored, in memory as on the unit, and a text of which a call returned stays stored: under its key is an
entry of a text with the same digest. -/
theorem memories_kept (sha : Sha256) {actions : List MemoryAction} {s : Memories}
    (h : Machine.exec (Memories.step sha) {} actions = some s) :
    ProperTable sha s.table ∧ ProperTable sha s.unit ∧ (s.table.entries.map (fun e => e.2.text)).Nodup ∧
      ∀ text ∈ s.returned, (∃ entry, s.table.get? (memoryKey sha text) = some entry ∧ memoryKey sha entry.text = memoryKey sha text) ∧
        (s.unit.get? (memoryKey sha text)).isSome = true := by
  have hinv := Memories.reach_inv (Machine.Reach.start.exec h)
  refine ⟨hinv.table, hinv.unit, ?_, fun text htext => ?_⟩
  · have hkeys := s.table.unique
    rw [List.Nodup, List.pairwise_map] at hkeys ⊢
    refine hkeys.imp_of_mem (fun {a b} ha hb hne heq => hne ?_)
    obtain ⟨hida, hpropera⟩ := hinv.table a.1 a.2 (Dict.get?_eq_some.mpr ha)
    obtain ⟨hidb, hproperb⟩ := hinv.table b.1 b.2 (Dict.get?_eq_some.mpr hb)
    rw [← hida, ← hidb, hpropera.key, hproperb.key, heq]
  · have hthere := hinv.returned text htext
    obtain ⟨entry, hentry⟩ := Option.isSome_iff_exists.mp hthere
    obtain ⟨hid, hproper⟩ := hinv.table _ entry hentry
    exact ⟨⟨entry, hentry, hproper.key.symm.trans hid⟩, hinv.durable _ hthere⟩

/-- Two calls of one text look it up before either is written, the second one's write fails, and the process ends behind it. -/
def twiceRemembered : List MemoryAction :=
  [.remember " a " [] 1, .remember "a" [] 2, .lands, .returns, .raises, .reopen, .remember "a" [] 3]

/-- The digest of the one text of that run. -/
def shaOfA : Sha256 where
  hexdigest _ := "ca978112ca1bbdcafac231b39a23dc4da786eff8147c4e72b9807785afee48bb"
  length_eq _ := rfl
  hex _ := hex_of_all rfl

theorem memories_kept_twice :
    ∃ s, Machine.exec (Memories.step shaOfA) {} twiceRemembered = some s ∧ (s.table.entries.map (fun e => e.2.text)).Nodup :=
  ⟨_, rfl, (@memories_kept shaOfA twiceRemembered _ rfl).2.2.1⟩

example : (Machine.exec (Memories.step shaOfA) {} twiceRemembered).map (fun s => (s.returned, s.table.size)) = some (["a", "a"], 1) := by
  decide +kernel

/-! ## Reading -/

/-- What `LongTermMemory` reads of its config. -/
structure MemoryConfig where
  maxChars : Int := 4000
  maxRecalled : Int := 10
  recentCount : Int := 5

/-- A character of `[a-z0-9]`. -/
def isLatin (c : Char) : Bool := ('a' ≤ c && c ≤ 'z') || ('0' ≤ c && c ≤ '9')

/-- A character of `[一-鿿]`. -/
def isIdeograph (c : Char) : Bool := 0x4E00 ≤ c.toNat && c.toNat ≤ 0x9FFF

/-- `tokenize`; `str.lower` is an argument. -/
def tokenize (lower : List Char → List Char) (text : String) : List (List Char) :=
  let lowered := lower text.toList
  (lowered.splitOnP (fun c => !isLatin c)).filter (· ≠ []) ++ (lowered.filter isIdeograph).map (fun c => [c])

/-- `len(words & set(tokenize(text)))`. -/
def overlap (lower : List Char → List Char) (words : List (List Char)) (text : String) : Nat :=
  (words.dedup.filter (· ∈ tokenize lower text)).length

/-- `xs[start:]`. -/
def sliceFrom {α : Type} (xs : List α) (start : Int) : List α := xs.drop (if start < 0 then (xs.length + start).toNat else start.toNat)

/-- `all`: sorted by time. -/
def allMemories (table : Dict String MemoryEntry) : List MemoryEntry :=
  (table.entries.map (·.2)).mergeSort (fun a b => a.time ≤ b.time)

/-- Of two scored entries the first comes no later in a sort with `reverse=True`. -/
def ranksOver (a b : Nat × MemoryEntry) : Bool := b.1 < a.1 || (b.1 == a.1 && b.2.time ≤ a.2.time)

/-- `retrieve`. -/
def retrieve (config : MemoryConfig) (lower : List Char → List Char) (table : Dict String MemoryEntry) (query : String) :
    List MemoryEntry :=
  let stored := allMemories table
  if stored = [] then []
  else
    let words := tokenize lower query
    if words = [] then sliceFrom stored (-config.recentCount)
    else
      let matched := (stored.map (fun entry => (overlap lower words entry.text, entry))).filter (fun row => 0 < row.1)
      if matched = [] then sliceFrom stored (-config.recentCount)
      else (sliceTo (matched.mergeSort ranksOver) config.maxRecalled).map (·.2)

/-- The result is the front of the candidates put in an order, of the length that `[:count]` leaves. -/
def FrontOf {α : Type} (order : α → α → Prop) (candidates : List α) (count : Int) (result : List α) : Prop :=
  ∃ rest, (result ++ rest).Perm candidates ∧ (result ++ rest).Pairwise order ∧ result = sliceTo (result ++ rest) count

/-- The result is the end of the candidates put in an order, of the length that `[-count:]` leaves. -/
def EndOf {α : Type} (order : α → α → Prop) (candidates : List α) (count : Int) (result : List α) : Prop :=
  ∃ rest, (rest ++ result).Perm candidates ∧ (rest ++ result).Pairwise order ∧ result = sliceFrom (rest ++ result) (-count)

section Order

variable {α : Type} {le : α → α → Bool}

theorem frontOf_mergeSort (trans : ∀ a b c, le a b → le b c → le a c) (total : ∀ a b, le a b || le b a) (candidates : List α)
    (count : Int) : FrontOf (fun a b => le a b = true) candidates count (sliceTo (candidates.mergeSort le) count) := by
  refine ⟨(candidates.mergeSort le).drop (if count < 0 then ((candidates.mergeSort le).length + count).toNat else count.toNat), ?_⟩
  rw [sliceTo, List.take_append_drop]
  exact ⟨List.mergeSort_perm .., List.pairwise_mergeSort trans total candidates, rfl⟩

theorem endOf_mergeSort (trans : ∀ a b c, le a b → le b c → le a c) (total : ∀ a b, le a b || le b a) (candidates : List α)
    (count : Int) : EndOf (fun a b => le a b = true) candidates count (sliceFrom (candidates.mergeSort le) (-count)) := by
  refine ⟨(candidates.mergeSort le).take (if -count < 0 then ((candidates.mergeSort le).length + -count).toNat else (-count).toNat), ?_⟩
  rw [sliceFrom, List.take_append_drop]
  exact ⟨List.mergeSort_perm .., List.pairwise_mergeSort trans total candidates, rfl⟩

end Order

theorem ranksOver_trans (a b c : Nat × MemoryEntry) (hab : ranksOver a b) (hbc : ranksOver b c) : ranksOver a c := by
  simp only [ranksOver, Bool.or_eq_true, Bool.and_eq_true, decide_eq_true_eq, beq_iff_eq] at *
  rcases hab with hab | ⟨hab, htab⟩
  · left
    rcases hbc with hbc | ⟨hbc, -⟩ <;> omega
  · rcases hbc with hbc | ⟨hbc, htbc⟩
    · left
      omega
    · exact Or.inr ⟨hbc.trans hab, Rat.le_trans htbc htab⟩

theorem ranksOver_total (a b : Nat × MemoryEntry) : ranksOver a b || ranksOver b a := by
  simp only [ranksOver, Bool.or_eq_true, Bool.and_eq_true, decide_eq_true_eq, beq_iff_eq]
  rcases Nat.lt_trichotomy a.1 b.1 with h | h | h
  · exact Or.inr (Or.inl h)
  · rcases Rat.le_total (a := a.2.time) (b := b.2.time) with ht | ht
    · exact Or.inr (Or.inr ⟨h, ht⟩)
    · exact Or.inl (Or.inr ⟨h.symm, ht⟩)
  · exact Or.inl (Or.inl h)

@[simp] theorem sliceTo_map {α β : Type} (f : α → β) (xs : List α) (stop : Int) : sliceTo (xs.map f) stop = (sliceTo xs stop).map f := by
  rw [sliceTo, sliceTo, List.map_take, List.length_map]

/-- The front of some things turned into others, where the order of the ones says the order of the others. -/
theorem FrontOf.map {α β : Type} {order : α → α → Prop} {order' : β → β → Prop} {candidates result : List α} {count : Int} (f : α → β)
    (h : FrontOf order candidates count result) (horder : ∀ a ∈ candidates, ∀ b ∈ candidates, order a b → order' (f a) (f b)) :
    FrontOf order' (candidates.map f) count (result.map f) := by
  obtain ⟨rest, hperm, hpairwise, hresult⟩ := h
  refine ⟨rest.map f, ?_, ?_, ?_⟩
  · rw [← List.map_append]
    exact hperm.map f
  · rw [← List.map_append, List.pairwise_map]
    exact hpairwise.imp_of_mem (fun ha hb => horder _ (hperm.mem_iff.mp ha) _ (hperm.mem_iff.mp hb))
  · rw [← List.map_append, sliceTo_map, ← hresult]

theorem FrontOf.perm {α : Type} {order : α → α → Prop} {candidates candidates' result : List α} {count : Int}
    (h : FrontOf order candidates count result) (hperm : candidates.Perm candidates') : FrontOf order candidates' count result := by
  obtain ⟨rest, hrest, hpairwise, hresult⟩ := h
  exact ⟨rest, hrest.trans hperm, hpairwise, hresult⟩

theorem map_matched (score : MemoryEntry → Nat) (stored : List MemoryEntry) :
    ((stored.map (fun entry => (score entry, entry))).filter (fun row => 0 < row.1)).map (·.2) =
      stored.filter (fun entry => 0 < score entry) := by
  rw [List.filter_map, List.map_map]
  exact List.map_id'' (fun _ => rfl) _

theorem endOf_allMemories (table : Dict String MemoryEntry) (count : Int) :
    EndOf (fun a b => a.time ≤ b.time) (table.entries.map (·.2)) count (sliceFrom (allMemories table) (-count)) := by
  have h := @endOf_mergeSort _ (fun a b : MemoryEntry => decide (a.time ≤ b.time))
    (fun a b c hab hbc => decide_eq_true (Rat.le_trans (of_decide_eq_true hab) (of_decide_eq_true hbc)))
    (fun a b => by simpa using Rat.le_total) (table.entries.map (·.2)) count
  rw [allMemories]
  simpa only [decide_eq_true_eq] using h

/-- What is recalled for a query: where an entry shares a word with it, the front of those that do, by how many words they share and
then by their time, the greater ones first; elsewhere the end of all of them, by their time. -/
theorem retrieve_best (config : MemoryConfig) (lower : List Char → List Char) (table : Dict String MemoryEntry) (query : String) :
    let score := fun entry : MemoryEntry => overlap lower (tokenize lower query) entry.text
    let stored := table.entries.map (·.2)
    let matched := stored.filter (fun entry => 0 < score entry)
    (matched ≠ [] → FrontOf (fun a b => score b < score a ∨ (score b = score a ∧ b.time ≤ a.time)) matched config.maxRecalled
        (retrieve config lower table query)) ∧
      (matched = [] → EndOf (fun a b => a.time ≤ b.time) stored config.recentCount (retrieve config lower table query)) := by
  intro score stored matched
  have hperm : (allMemories table).Perm stored := List.mergeSort_perm ..
  have hmatched := map_matched score (allMemories table)
  have hfiltered : ((allMemories table).filter (fun entry => 0 < score entry)).Perm matched := hperm.filter _
  unfold retrieve
  dsimp only
  split
  next hempty =>
    have hstored : stored = [] := by
      rw [hempty] at hperm
      exact hperm.nil_eq.symm
    refine ⟨fun h => absurd (by simp [matched, hstored]) h, fun _ => ?_⟩
    have hend := endOf_allMemories table config.recentCount
    rw [hempty] at hend
    simpa [sliceFrom] using hend
  next =>
    split
    next hwords =>
      refine ⟨fun h => absurd ?_ h, fun _ => endOf_allMemories table _⟩
      simp [matched, score, hwords, overlap]
    next =>
      split
      next hnone =>
        refine ⟨fun h => absurd ?_ h, fun _ => endOf_allMemories table _⟩
        rw [hnone] at hmatched
        rw [← hmatched] at hfiltered
        exact hfiltered.nil_eq.symm
      next hsome =>
        refine ⟨fun _ => ?_, fun h => absurd ?_ hsome⟩
        · have hfront := frontOf_mergeSort ranksOver_trans ranksOver_total
            (((allMemories table).map (fun entry => (score entry, entry))).filter (fun row => 0 < row.1)) config.maxRecalled
          refine ((hfront.map (·.2) ?_).perm ?_)
          · intro a ha b hb hab
            obtain ⟨ea, -, rfl⟩ := List.mem_map.mp (List.mem_of_mem_filter ha)
            obtain ⟨eb, -, rfl⟩ := List.mem_map.mp (List.mem_of_mem_filter hb)
            simpa [ranksOver] using hab
          · rw [hmatched]
            exact hfiltered
        · rw [h] at hfiltered
          rw [hfiltered.eq_nil] at hmatched
          exact List.map_eq_nil_iff.mp hmatched

/-! ## The message -/

/-- `RECALL_HEADER`. -/
def recallHeader : String := "Long-term memory from earlier conversations, for reference only:"

/-- The line of an entry. -/
def recallLine (entry : MemoryEntry) : String := "- " ++ entry.text

/-- The lines that fit behind what is used. -/
def recallBody (maxChars : Int) : Nat → List MemoryEntry → List String
  | _, [] => []
  | used, entry :: entries =>
    if maxChars < used + (recallLine entry).length + 1 then []
    else recallLine entry :: recallBody maxChars (used + (recallLine entry).length + 1) entries

/-- `build_recall`. -/
def buildRecall (entries : List MemoryEntry) (maxChars : Int) : String :=
  String.intercalate "\n" (recallHeader :: recallBody maxChars recallHeader.length entries)

/-- How long a text of some lines is behind its first one. -/
def linesLength : List String → Nat
  | [] => 0
  | line :: lines => line.length + 1 + linesLength lines

theorem length_intercalate (first : String) (lines : List String) :
    (String.intercalate "\n" (first :: lines)).length = first.length + linesLength lines := by
  induction lines generalizing first with
  | nil => simp [linesLength]
  | cons line lines ih =>
    rw [String.intercalate_cons_cons, String.length_append, String.length_append, ih]
    simp only [linesLength]
    have hsep : "\n".length = 1 := rfl
    omega

/-- The lines are those of the entries in front, up to the first whose line does not fit. -/
theorem recallBody_takes (maxChars : Int) (used : Nat) (entries : List MemoryEntry) :
    ∃ n ≤ entries.length, recallBody maxChars used entries = (entries.take n).map recallLine ∧
      (0 < n → (used + linesLength ((entries.take n).map recallLine) : Int) ≤ maxChars) ∧
      ∀ entry, entries[n]? = some entry →
        maxChars < used + linesLength ((entries.take n).map recallLine) + (recallLine entry).length + 1 := by
  induction entries generalizing used with
  | nil => exact ⟨0, Nat.le_refl 0, rfl, fun h => absurd h (Nat.lt_irrefl 0), by simp⟩
  | cons entry entries ih =>
    by_cases hfits : maxChars < used + (recallLine entry).length + 1
    · refine ⟨0, Nat.zero_le _, by simp [recallBody, hfits], fun h => absurd h (Nat.lt_irrefl 0), ?_⟩
      intro e he
      obtain rfl : entry = e := by simpa using he
      simpa [linesLength] using hfits
    · obtain ⟨n, hn, hbody, hused, hnext⟩ := ih (used + (recallLine entry).length + 1)
      have hlength : linesLength (((entry :: entries).take (n + 1)).map recallLine) =
          (recallLine entry).length + 1 + linesLength ((entries.take n).map recallLine) := by
        simp [linesLength]
      refine ⟨n + 1, Nat.succ_le_succ hn, by simp [recallBody, hfits, hbody], fun _ => ?_, ?_⟩
      · rw [hlength]
        rcases Nat.eq_zero_or_pos n with rfl | hpos
        · simp only [List.take_zero, List.map_nil, linesLength]
          omega
        · have := hused hpos
          omega
      · intro e he
        have := hnext e (by simpa using he)
        rw [hlength]
        omega

/-- A recall is the header and the lines of the entries in front. It is over the budget only where it is the header alone, and the next
entry, if there is one, would take it over the budget. -/
theorem recall_fits (entries : List MemoryEntry) (maxChars : Int) :
    ∃ n ≤ entries.length, buildRecall entries maxChars = String.intercalate "\n" (recallHeader :: (entries.take n).map recallLine) ∧
      (0 < n ∨ recallHeader.length ≤ maxChars → ((buildRecall entries maxChars).length : Int) ≤ maxChars) ∧
      ∀ entry, entries[n]? = some entry →
        maxChars < (buildRecall entries maxChars).length + (1 + (recallLine entry).length) := by
  obtain ⟨n, hn, hbody, hused, hnext⟩ := recallBody_takes maxChars recallHeader.length entries
  have htext : buildRecall entries maxChars = String.intercalate "\n" (recallHeader :: (entries.take n).map recallLine) := by
    rw [buildRecall, hbody]
  have hlength := congrArg String.length htext
  rw [length_intercalate] at hlength
  refine ⟨n, hn, htext, fun h => ?_, fun entry hentry => ?_⟩
  · rcases Nat.eq_zero_or_pos n with rfl | hpos
    · have hheader := h.resolve_left (Nat.lt_irrefl 0)
      simp only [List.take_zero, List.map_nil, linesLength] at hlength
      omega
    · have := hused hpos
      omega
  · have := hnext entry hentry
    omega

end Pydsh
