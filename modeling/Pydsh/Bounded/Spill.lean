import Pydsh.Bounded.Retention
import Pydsh.Storage.JsonUnit

/-!
# The spill store

`bounded/spill.py`. A session id and a suggested name become one path segment each, by percent escapes for what is not safe. The escapes
can be read back (`unescape_escape`), so two strings have the same segment only where one of them is empty and the other is what stands
for it (`encodeSegment_eq_iff`), and a spill stays under the root of its store.
-/

namespace Pydsh

/-! ## `encode_segment` -/

/-- `_SAFE` -/
def isSafe (c : Char) : Bool := c.isAlphanum || c == '.' || c == '_' || c == '-'

/-- One hexadecimal digit of `%02X`. -/
def hexDigit (n : Nat) : Char := "0123456789ABCDEF".toList.getD n '0'

/-- `%{byte:02X}` -/
def percentEscape (byte : UInt8) : List Char := ['%', hexDigit (byte.toNat / 16), hexDigit (byte.toNat % 16)]

/-- The characters of a segment; `first` where the index is 0. -/
def escape : Bool → List Char → List Char
  | _, [] => []
  | first, c :: raw =>
    (if isSafe c && !(first && c == '.') then [c] else (encodeUtf8 [c]).flatMap percentEscape) ++ escape false raw

/-- `encode_segment`. -/
def encodeSegment (raw : String) : String := if raw = "" then "_" else String.ofList (escape true raw.toList)

/-! ### Read back -/

/-- The number of a hexadecimal digit. -/
def hexValue (c : Char) : Nat := "0123456789ABCDEF".toList.idxOf c

/-- The bytes that a segment was made from. -/
def unescape : List Char → List UInt8
  | [] => []
  | '%' :: high :: low :: rest => UInt8.ofNat (16 * hexValue high + hexValue low) :: unescape rest
  | c :: rest => c.val.toUInt8 :: unescape rest

theorem unescape_percentEscape (byte : UInt8) (rest : List Char) : unescape (percentEscape byte ++ rest) = byte :: unescape rest := by
  have hbyte : ∀ b : UInt8, UInt8.ofNat (16 * hexValue (hexDigit (b.toNat / 16)) + hexValue (hexDigit (b.toNat % 16))) = b :=
    forall_byte (by decide +kernel)
  exact congrArg (· :: unescape rest) (hbyte byte)

theorem unescape_flatMap (data : List UInt8) (rest : List Char) :
    unescape (data.flatMap percentEscape ++ rest) = data ++ unescape rest := by
  induction data with
  | nil => rfl
  | cons byte data ih => rw [List.flatMap_cons, List.append_assoc, unescape_percentEscape, ih, List.cons_append]

theorem isSafe_ascii {c : Char} (h : isSafe c = true) : c ≠ '%' ∧ String.utf8EncodeChar c = [c.val.toUInt8] := by
  refine ⟨?_, String.utf8EncodeChar_eq_singleton (Char.utf8Size_eq_one_iff.mpr ?_)⟩
  · rintro rfl
    revert h
    decide
  · change (((decide ('A'.val ≤ c.val ∧ c.val ≤ 'Z'.val) || decide ('a'.val ≤ c.val) && decide (c.val ≤ 'z'.val)) ||
      decide ('0'.val ≤ c.val) && decide (c.val ≤ '9'.val)) || c == '.' || c == '_' || c == '-') = true at h
    simp only [Bool.or_eq_true, Bool.and_eq_true, decide_eq_true_eq, beq_iff_eq] at h
    rcases h with ((((⟨-, h⟩ | ⟨-, h⟩) | ⟨-, h⟩) | rfl) | rfl) | rfl
    · exact UInt32.le_trans h (by decide)
    · exact UInt32.le_trans h (by decide)
    · exact UInt32.le_trans h (by decide)
    · decide
    · decide
    · decide

theorem unescape_escape (first : Bool) (raw : List Char) : unescape (escape first raw) = encodeUtf8 raw := by
  induction raw generalizing first with
  | nil => rfl
  | cons c raw ih =>
    have hcons : encodeUtf8 (c :: raw) = encodeUtf8 [c] ++ encodeUtf8 raw := by simp [encodeUtf8]
    rw [escape, hcons]
    split
    · rename_i hsafe
      obtain ⟨hne, hbyte⟩ := isSafe_ascii ((Bool.and_eq_true _ _).mp hsafe).1
      rw [List.singleton_append, unescape, ih]
      · simp [encodeUtf8, hbyte]
      · exact fun _ _ _ heq => absurd heq hne
    · rw [unescape_flatMap, ih]

/-- Two strings have the same escapes only if they are the same. -/
theorem escape_injective {a b : List Char} (h : escape true a = escape true b) : a = b := by
  have hbytes := unescape_escape true a
  rw [h, unescape_escape] at hbytes
  have hchars := decodeReplace_encodeUtf8 a
  rwa [← hbytes, decodeReplace_encodeUtf8, eq_comm] at hchars

/-- One of the two is empty, and the other is the segment that stands for it. -/
def Confused (a b : String) : Prop := a = "" ∧ b = "_" ∨ a = "_" ∧ b = ""

instance (a b : String) : Decidable (Confused a b) := inferInstanceAs (Decidable (_ ∨ _))

theorem encodeSegment_underscore {a : String} (h : encodeSegment a = "_") : a = "" ∨ a = "_" := by
  unfold encodeSegment at h
  split at h
  · exact .inl ‹_›
  · refine .inr ?_
    have hescape : escape true a.toList = escape true "_".toList := by
      rw [← String.toList_ofList (l := escape true a.toList), h]
      decide
    exact String.toList_inj.mp (escape_injective hescape)

/-- `encode_segment` is injective but for the empty string. -/
theorem encodeSegment_eq_iff (a b : String) : encodeSegment a = encodeSegment b ↔ a = b ∨ Confused a b := by
  constructor
  · intro h
    by_cases ha : a = ""
    · subst ha
      exact (encodeSegment_underscore (a := b) h.symm).elim (fun hb => .inl hb.symm) (fun hb => .inr (.inl ⟨rfl, hb⟩))
    · by_cases hb : b = ""
      · subst hb
        exact (encodeSegment_underscore (a := a) h).elim (fun ha => .inl ha) (fun ha => .inr (.inr ⟨ha, rfl⟩))
      · rw [encodeSegment, encodeSegment, if_neg ha, if_neg hb] at h
        exact .inl (String.toList_inj.mp (escape_injective (String.ofList_injective h)))
  · rintro (rfl | ⟨rfl, rfl⟩ | ⟨rfl, rfl⟩)
    · rfl
    · decide
    · decide

/-- The string is the name of a file in a directory, and of no other directory. -/
structure IsSegment (name : String) : Prop where
  nonempty : name ≠ ""
  notDot : name ≠ "."
  notDotDot : name ≠ ".."
  slash : '/' ∉ name.toList
  backslash : '\\' ∉ name.toList

theorem isSafe_hexDigit (n : Nat) : isSafe (hexDigit n) = true := by
  have hdigits : ∀ c ∈ "0123456789ABCDEF".toList, isSafe c = true := List.all_eq_true.mp (by decide)
  rw [hexDigit, List.getD_eq_getElem?_getD]
  cases hget : "0123456789ABCDEF".toList[n]? with
  | none => rfl
  | some c => exact hdigits c (List.mem_of_getElem? hget)

/-- What is not safe is escaped, with a percent sign and safe digits. -/
theorem safe_of_mem_escape {first : Bool} {raw : List Char} {c : Char} (h : c ∈ escape first raw) : isSafe c = true ∨ c = '%' := by
  induction raw generalizing first with
  | nil => exact absurd h List.not_mem_nil
  | cons d raw ih =>
    rw [escape, List.mem_append] at h
    rcases h with h | h
    · split at h
      · rename_i hsafe
        rw [List.mem_singleton.mp h]
        exact .inl ((Bool.and_eq_true _ _).mp hsafe).1
      · obtain ⟨byte, -, hc⟩ := List.mem_flatMap.mp h
        simp only [percentEscape, List.mem_cons, List.not_mem_nil, or_false] at hc
        rcases hc with rfl | rfl | rfl
        · exact .inr rfl
        · exact .inl (isSafe_hexDigit _)
        · exact .inl (isSafe_hexDigit _)
    · exact ih h

theorem escape_head (c : Char) (raw : List Char) : ∃ d rest, escape true (c :: raw) = d :: rest ∧ d ≠ '.' := by
  rw [escape]
  split
  · rename_i hsafe
    refine ⟨c, escape false raw, rfl, ?_⟩
    rintro rfl
    revert hsafe
    decide
  · cases hbytes : String.utf8EncodeChar c with
    | nil => exact absurd hbytes String.utf8EncodeChar_ne_nil
    | cons lead more =>
      have hfirst : (encodeUtf8 [c]).flatMap percentEscape = '%' :: ((percentEscape lead).tail ++ more.flatMap percentEscape) := by
        rw [encodeUtf8, List.flatMap_cons, List.flatMap_nil, List.append_nil, hbytes, List.flatMap_cons]
        rfl
      rw [hfirst]
      exact ⟨'%', _, rfl, by decide⟩

theorem isSegment_encodeSegment (raw : String) : IsSegment (encodeSegment raw) := by
  by_cases hraw : raw = ""
  · subst hraw
    exact ⟨by decide, by decide, by decide, by decide, by decide⟩
  · have hlist : (encodeSegment raw).toList = escape true raw.toList := by
      rw [encodeSegment, if_neg hraw, String.toList_ofList]
    obtain ⟨c, chars, hchars⟩ := List.exists_cons_of_ne_nil (fun hnil => hraw (String.toList_eq_nil_iff.mp hnil))
    obtain ⟨d, rest, hhead, hdot⟩ := escape_head c chars
    rw [hchars, hhead] at hlist
    have hmem : ∀ x ∈ (encodeSegment raw).toList, isSafe x = true ∨ x = '%' := by
      rw [hlist, ← hhead]
      exact fun x hx => safe_of_mem_escape hx
    have hne : ∀ name : String, name.toList.head? ≠ some d → encodeSegment raw ≠ name := by
      rintro _ hname rfl
      exact hname (by rw [hlist]; rfl)
    refine ⟨hne "" (by simp), hne "." ?_, hne ".." ?_, ?_, ?_⟩
    · exact fun h => hdot (Option.some.inj h).symm
    · exact fun h => hdot (Option.some.inj h).symm
    · exact fun h => absurd (hmem _ h) (by decide)
    · exact fun h => absurd (hmem _ h) (by decide)

/-! ## `LocalSpillStore` -/

/-- A path from the root of a file system, by its parts. -/
abbrev FilePath : Type := List String

/-- `path / segment` -/
def FilePath.join (path : FilePath) (segment : String) : FilePath :=
  let parts := ((segment.toList.splitOn '/').map String.ofList).filter (fun part => part ≠ "" ∧ part ≠ ".")
  if segment.toList.head? = some '/' then parts else path ++ parts

/-- `path.name` -/
def FilePath.name (path : FilePath) : String := path.getLastD ""

/-- What is to be read under a path. -/
abbrev SpillFiles : Type := FilePath → Option String

/-- A store of spills, on a file system that resolves links in its own way. -/
structure LocalSpillStore where
  root : FilePath
  resolve : FilePath → FilePath

/-- What `save_text` raises. -/
inductive SpillError where
  /-- `ValueError`: the target is outside of the root. -/
  | outside (path : FilePath)
  /-- `OSError`, of the write. -/
  | os (fault : WriteFault)

/-- What `save_text` returns; its locator is the text of the path. -/
structure SavedSpill where
  path : FilePath
  bytes : Nat

namespace LocalSpillStore

/-- `session_dir`. -/
def sessionDir (store : LocalSpillStore) (sessionId : String) : FilePath := store.root.join (encodeSegment sessionId)

/-- The path that `save_text` resolves and checks. -/
def target (store : LocalSpillStore) (sessionId suggestedName : String) : Except SpillError FilePath :=
  let directory := store.sessionDir sessionId
  let target := directory.join (encodeSegment suggestedName)
  let resolved := store.resolve (directory.join target.name)
  if store.root <+: resolved ∧ store.root ≠ resolved then .ok resolved else .error (.outside resolved)

/-- `save_text`. -/
def saveText (store : LocalSpillStore) (fault : Option WriteFault) (files : SpillFiles) (sessionId suggestedName content : String) :
    Except SpillError SavedSpill × SpillFiles :=
  match store.target sessionId suggestedName with
  | .error e => (.error e, files)
  | .ok resolved =>
    match writeFileAtomic fault ⟨files resolved, none⟩ content with
    | (.error fault, file) => (.error (.os fault), Function.update files resolved file.target)
    | (.ok (), file) => (.ok ⟨resolved, (encodeUtf8 content.toList).length⟩, Function.update files resolved file.target)

/-- The root is resolved, and what stands under it are no links. -/
def Plain (store : LocalSpillStore) : Prop :=
  ∀ a b, IsSegment a → IsSegment b → store.resolve (store.root ++ [a, b]) = store.root ++ [a, b]

theorem join_segment (path : FilePath) {segment : String} (h : IsSegment segment) : path.join segment = path ++ [segment] := by
  have hsplit : segment.toList.splitOn '/' = [segment.toList] :=
    List.splitOn_eq_singleton h.slash
  have hrelative : segment.toList.head? ≠ some '/' := fun hhead => h.slash (List.mem_of_head? hhead)
  simp only [FilePath.join, hsplit, if_neg hrelative, List.map_singleton, String.ofList_toList]
  rw [List.filter_cons_of_pos (by simp [h.nonempty, h.notDot]), List.filter_nil]

theorem target_eq {store : LocalSpillStore} (h : store.Plain) (sessionId suggestedName : String) :
    store.target sessionId suggestedName = .ok (store.root ++ [encodeSegment sessionId, encodeSegment suggestedName]) := by
  have hsession := isSegment_encodeSegment sessionId
  have hname := isSegment_encodeSegment suggestedName
  have hpath : (store.sessionDir sessionId).join
      ((store.sessionDir sessionId).join (encodeSegment suggestedName)).name =
        store.root ++ [encodeSegment sessionId, encodeSegment suggestedName] := by
    rw [sessionDir, join_segment _ hsession, join_segment _ hname, FilePath.name, List.getLastD_concat, join_segment _ hname,
      List.append_assoc]
    rfl
  have hinside : store.root <+: store.root ++ [encodeSegment sessionId, encodeSegment suggestedName] ∧
      store.root ≠ store.root ++ [encodeSegment sessionId, encodeSegment suggestedName] :=
    ⟨List.prefix_append _ _, fun heq => absurd (congrArg List.length heq) (by simp)⟩
  simp only [target, hpath, h _ _ hsession hname, if_pos hinside]

theorem saveText_none {store : LocalSpillStore} (h : store.Plain) (files : SpillFiles) (sessionId suggestedName content : String) :
    store.saveText none files sessionId suggestedName content =
      (.ok ⟨store.root ++ [encodeSegment sessionId, encodeSegment suggestedName], (encodeUtf8 content.toList).length⟩,
        Function.update files (store.root ++ [encodeSegment sessionId, encodeSegment suggestedName]) (some content)) := by
  simp only [saveText, target_eq h, writeFileAtomic]

theorem saveText_fault {store : LocalSpillStore} (h : store.Plain) (stage : WriteFault) (files : SpillFiles)
    (sessionId suggestedName content : String) :
    ∃ e, store.saveText (some stage) files sessionId suggestedName content = (.error e, files) := by
  simp only [saveText, target_eq h]
  obtain ⟨hnone, -⟩ | ⟨stage', -, hresult, htarget⟩ := writeFileAtomic_spec (some stage)
    ⟨files (store.root ++ [encodeSegment sessionId, encodeSegment suggestedName]), none⟩ content
  · cases hnone
  · split
    · rename_i hwrite
      rw [hwrite] at htarget
      simp only at htarget
      rw [htarget, Function.update_eq_self]
      exact ⟨_, rfl⟩
    · rename_i hwrite
      rw [hwrite] at hresult
      cases hresult

/-- A store without links. -/
def plainStore : LocalSpillStore := ⟨["srv", "spill"], id⟩

end LocalSpillStore

end Pydsh
