import Mathlib.Logic.Function.Basic
import Pydsh.Storage.JsonUnit

/-!
# Attachments under their content address

`sidecar/attachments.py`: a file lies under the hash of its bytes, `read_image` hashes what it finds there again, and `save_image` writes
only where nothing lies yet. A directory is what lies under each address, whoever put it there. What a read returns has the hash that was
asked for; and what was saved is read back, after any further saves and reads, exactly if nothing else lay under its address before
(`attachment_read_back_iff`).
-/

namespace Pydsh

/-- Some bytes. -/
abbrev Bytes : Type := List UInt8

/-- `hashlib.sha256(data).hexdigest()`: 64 hexadecimal digits. -/
structure ByteHash where
  hexdigest : Bytes → String
  length_eq : ∀ data, (hexdigest data).toList.length = 64
  hex : ∀ data, (hexdigest data).toList.all (fun c => "0123456789abcdef".toList.contains c) = true

/-- `AttachmentError`, by what its message quotes; or what a write or a read of the file system raises. -/
inductive AttachmentError where
  | empty
  | tooLarge (bytes : Nat) (limit : Int)
  | unsupportedType (declared : String) (allowed : List String)
  | notAnId (id : String)
  | notAnAddress (id : String)
  | notFound (id : String)
  | corrupt (id : String)
  | write (stage : WriteFault)
  | unreadable
  deriving DecidableEq

/-- The code that callers route on. -/
def AttachmentError.code : AttachmentError → Option String
  | .empty => some "attachment-empty"
  | .tooLarge _ _ => some "attachment-too-large"
  | .unsupportedType _ _ => some "attachment-unsupported-type"
  | .notAnId _ | .notAnAddress _ => some "attachment-invalid-id"
  | .notFound _ => some "attachment-not-found"
  | .corrupt _ => some "attachment-corrupt"
  | .write _ | .unreadable => none

/-- `image_limits`: what the store was configured with, or its defaults. -/
structure ImageLimits where
  maxBytes : Int := 10 * 1024 * 1024
  allowedTypes : List String := ["image/png", "image/jpeg", "image/gif", "image/webp"]

/-- The reference to an image. -/
structure ImageReference where
  id : String
  bytes : Nat
  mediaType : String
  deriving DecidableEq

/-- `ID_PREFIX`. -/
def idPrefix : String := "sha256:"

/-- `content_id`. -/
def contentId (sha : ByteHash) (data : Bytes) : String := idPrefix ++ sha.hexdigest data

/-- `validate_image`; the data is `none` where it is no bytes. -/
def validateImage (sha : ByteHash) (limits : ImageLimits) (data : Option Bytes) (declared : String) :
    Except AttachmentError ImageReference :=
  match data with
  | none | some [] => .error .empty
  | some data =>
    if data.length > limits.maxBytes then .error (.tooLarge data.length limits.maxBytes)
    else if declared ∉ limits.allowedTypes then .error (.unsupportedType declared limits.allowedTypes)
    else .ok { id := contentId sha data, bytes := data.length, mediaType := declared }

/-- A path under the root of the store. -/
structure AttachmentPath where
  shard : String
  name : String
  deriving DecidableEq

/-- `_path_for`. -/
def pathFor (id : String) : Except AttachmentError AttachmentPath :=
  if idPrefix.toList.isPrefixOf id.toList then
    let digest := id.toList.drop idPrefix.toList.length
    if digest.length = 64 ∧ digest.all (fun c => "0123456789abcdef".toList.contains c) = true then
      .ok { shard := String.ofList (digest.take 2), name := String.ofList digest }
    else .error (.notAnAddress id)
  else .error (.notAnId id)

/-- What lies under a path: a file, or something else that is there and cannot be read as one. -/
inductive Stored where
  | file (data : Bytes)
  | other
  deriving DecidableEq

/-- What lies under each path of the store. -/
abbrev AttachmentDir : Type := AttachmentPath → Option Stored

/-- `save_image`, with where the write raises if it does. -/
def saveImage (sha : ByteHash) (limits : ImageLimits) (dir : AttachmentDir) (data : Option Bytes) (declared : String)
    (fault : Option WriteFault) : Except AttachmentError ImageReference × AttachmentDir :=
  match validateImage sha limits data declared with
  | .error e => (.error e, dir)
  | .ok reference =>
    match pathFor reference.id with
    | .error e => (.error e, dir)
    | .ok target =>
      if (dir target).isSome then (.ok reference, dir)
      else
        match writeFileAtomic fault { target := dir target, temporary := none } (.file (data.getD [])) with
        | (.error stage, file) => (.error (.write stage), Function.update dir target file.target)
        | (.ok (), file) => (.ok reference, Function.update dir target file.target)

/-- `read_image`. -/
def readImage (sha : ByteHash) (dir : AttachmentDir) (id : String) : Except AttachmentError Bytes :=
  match pathFor id with
  | .error e => .error e
  | .ok target =>
    match dir target with
    | none => .error (.notFound id)
    | some .other => .error .unreadable
    | some (.file data) => if contentId sha data ≠ id then .error (.corrupt id) else .ok data

/-- A save or a read. -/
inductive AttachmentOp where
  | save (data : Option Bytes) (declared : String) (fault : Option WriteFault)
  | read (id : String)

/-- The directory after an operation; a read changes nothing. -/
def AttachmentOp.after (sha : ByteHash) (limits : ImageLimits) (dir : AttachmentDir) : AttachmentOp → AttachmentDir
  | .save data declared fault => (saveImage sha limits dir data declared fault).2
  | .read _ => dir

/-- The directory after some operations. -/
def afterOps (sha : ByteHash) (limits : ImageLimits) (dir : AttachmentDir) (ops : List AttachmentOp) : AttachmentDir :=
  ops.foldl (AttachmentOp.after sha limits) dir

/-- Where some bytes lie. -/
def addressOf (sha : ByteHash) (data : Bytes) : AttachmentPath :=
  { shard := String.ofList ((sha.hexdigest data).toList.take 2), name := sha.hexdigest data }

/-! ## One operation -/

variable {sha : ByteHash} {limits : ImageLimits} {dir dir' : AttachmentDir}

theorem pathFor_contentId (data : Bytes) : pathFor (contentId sha data) = .ok (addressOf sha data) := by
  have hlist : (contentId sha data).toList = idPrefix.toList ++ (sha.hexdigest data).toList := String.toList_append
  have hprefix : idPrefix.toList.isPrefixOf (contentId sha data).toList = true := by
    rw [hlist, List.isPrefixOf_iff_prefix]
    exact List.prefix_append _ _
  have hdrop : (contentId sha data).toList.drop idPrefix.toList.length = (sha.hexdigest data).toList := by
    rw [hlist, List.drop_left]
  unfold pathFor
  rw [if_pos hprefix]
  simp only [hdrop]
  rw [if_pos ⟨sha.length_eq data, sha.hex data⟩, String.ofList_toList]
  rfl

/-- What `read_image` returns has the hash that was asked for. -/
theorem readImage_hash {id : String} {data : Bytes} (h : readImage sha dir id = .ok data) : contentId sha data = id := by
  unfold readImage at h
  split at h
  · cases h
  · split at h
    · cases h
    · cases h
    · split at h
      · cases h
      · rename_i hhash
        cases h
        exact not_not.mp hhash

/-- What lies under the address of some bytes is read back as these exactly if it is a file with them. -/
theorem readImage_contentId_iff (data : Bytes) :
    readImage sha dir (contentId sha data) = .ok data ↔ dir (addressOf sha data) = some (.file data) := by
  unfold readImage
  rw [pathFor_contentId]
  cases hstored : dir (addressOf sha data) with
  | none => simp [hstored]
  | some stored =>
    cases stored with
    | other => simp [hstored]
    | file data' =>
      simp only [hstored, Option.some.injEq, Stored.file.injEq]
      constructor
      · intro h
        split at h
        · cases h
        · exact Except.ok.inj h
      · rintro rfl
        rw [if_neg (not_not.mpr rfl)]

/-- The reference to an image that is let through is the content id of its bytes. -/
theorem id_of_validateImage {data : Option Bytes} {declared : String} {reference : ImageReference}
    (h : validateImage sha limits data declared = .ok reference) :
    ∃ bytes, data = some bytes ∧ reference.id = contentId sha bytes := by
  unfold validateImage at h
  split at h
  · contradiction
  · contradiction
  · rename_i bytes _
    split at h
    · contradiction
    · split at h
      · contradiction
      · obtain rfl := Except.ok.inj h
        exact ⟨bytes, rfl, rfl⟩

theorem saveImage_of_stored {data : Bytes} {declared : String} {reference : ImageReference} {stored : Stored}
    (hvalid : validateImage sha limits (some data) declared = .ok reference) (hstored : dir (addressOf sha data) = some stored)
    (fault : Option WriteFault) : saveImage sha limits dir (some data) declared fault = (.ok reference, dir) := by
  obtain ⟨bytes, hbytes, hid⟩ := id_of_validateImage hvalid
  obtain rfl := Option.some.inj hbytes
  simp [saveImage, hvalid, hid, pathFor_contentId, hstored]

theorem saveImage_of_free {data : Bytes} {declared : String} {reference : ImageReference}
    (hvalid : validateImage sha limits (some data) declared = .ok reference) (hfree : dir (addressOf sha data) = none) :
    saveImage sha limits dir (some data) declared none =
      (.ok reference, Function.update dir (addressOf sha data) (some (.file data))) := by
  obtain ⟨bytes, hbytes, hid⟩ := id_of_validateImage hvalid
  obtain rfl := Option.some.inj hbytes
  simp [saveImage, hvalid, hid, pathFor_contentId, hfree, writeFileAtomic]

/-- What `save_image` does: it raises and leaves the directory; or it leaves it since something lies at the address; or it writes there. -/
theorem saveImage_cases (sha : ByteHash) (limits : ImageLimits) (dir : AttachmentDir) (data : Option Bytes) (declared : String)
    (fault : Option WriteFault) :
    (∃ e, saveImage sha limits dir data declared fault = (.error e, dir)) ∨
      ∃ bytes reference, data = some bytes ∧ reference.id = contentId sha bytes ∧
        ((∃ stored, dir (addressOf sha bytes) = some stored ∧ saveImage sha limits dir data declared fault = (.ok reference, dir)) ∨
          (dir (addressOf sha bytes) = none ∧ saveImage sha limits dir data declared fault =
            (.ok reference, Function.update dir (addressOf sha bytes) (some (.file bytes))))) := by
  cases hvalid : validateImage sha limits data declared with
  | error e =>
    refine Or.inl ⟨e, ?_⟩
    unfold saveImage
    rw [hvalid]
  | ok reference =>
    obtain ⟨bytes, rfl, hid⟩ := id_of_validateImage hvalid
    cases hstored : dir (addressOf sha bytes) with
    | some stored =>
      exact Or.inr ⟨bytes, reference, rfl, hid, Or.inl ⟨stored, hstored, saveImage_of_stored hvalid hstored fault⟩⟩
    | none =>
      rcases writeFileAtomic_spec fault { target := (none : Option Stored), temporary := none } (.file bytes) with
        ⟨rfl, -⟩ | ⟨stage, -, herror, hsame⟩
      · exact Or.inr ⟨bytes, reference, rfl, hid, Or.inr ⟨hstored, saveImage_of_free hvalid hstored⟩⟩
      · refine Or.inl ⟨.write stage, ?_⟩
        rcases hwrite : writeFileAtomic fault { target := (none : Option Stored), temporary := none } (.file bytes) with ⟨result, file⟩
        rw [hwrite] at herror hsame
        obtain rfl : result = .error stage := herror
        have hkept : Function.update dir (addressOf sha bytes) file.target = dir := by
          rw [hsame, ← hstored, Function.update_eq_self]
        simp [saveImage, hvalid, hid, pathFor_contentId, hstored, hwrite, hkept]

/-! ## Saves and reads -/

theorem AttachmentOp.keeps (op : AttachmentOp) {target : AttachmentPath} {stored : Stored} (h : dir target = some stored) :
    op.after sha limits dir target = some stored := by
  cases op with
  | read id => exact h
  | save data declared fault =>
    change (saveImage sha limits dir data declared fault).2 target = some stored
    rcases saveImage_cases sha limits dir data declared fault with ⟨e, hsave⟩ |
      ⟨bytes, reference, -, -, ⟨stored', -, hsave⟩ | ⟨hnone, hsave⟩⟩
    · rw [hsave]
      exact h
    · rw [hsave]
      exact h
    · rw [hsave]
      have hne : target ≠ addressOf sha bytes := by
        rintro rfl
        rw [hnone] at h
        cases h
      exact (Function.update_of_ne hne _ _).trans h

theorem afterOps_keeps (ops : List AttachmentOp) {target : AttachmentPath} {stored : Stored} (h : dir target = some stored) :
    afterOps sha limits dir ops target = some stored := by
  induction ops generalizing dir with
  | nil => exact h
  | cons op ops ih => exact ih (op.keeps h)

/-- An image whose save returned a reference is read back by it, after any further saves and reads, exactly if what lay under its address
before the save, if anything, was a file with the same bytes; and what a read returns always has the hash that was asked for. -/
theorem attachment_read_back_iff {data : Bytes} {declared : String} {fault : Option WriteFault} {reference : ImageReference}
    (hsave : saveImage sha limits dir (some data) declared fault = (.ok reference, dir')) (ops : List AttachmentOp) :
    (readImage sha (afterOps sha limits dir' ops) reference.id = .ok data ∧
        ∀ id bytes, readImage sha (afterOps sha limits dir' ops) id = .ok bytes → contentId sha bytes = id) ↔
      ∀ stored, dir (addressOf sha data) = some stored → stored = .file data := by
  rw [and_iff_left (fun id bytes => readImage_hash)]
  rcases saveImage_cases sha limits dir (some data) declared fault with ⟨e, hsave'⟩ |
    ⟨bytes, reference', hbytes, hid, hwhat⟩
  · rw [hsave'] at hsave
    cases hsave
  · cases hbytes
    rcases hwhat with ⟨stored, hstored, hsave'⟩ | ⟨hnone, hsave'⟩
    · cases hsave'.symm.trans hsave
      rw [hid, readImage_contentId_iff, afterOps_keeps ops hstored]
      simp [hstored]
    · cases hsave'.symm.trans hsave
      have hwritten : Function.update dir (addressOf sha data) (some (.file data)) (addressOf sha data) = some (.file data) :=
        Function.update_self _ _ _
      rw [hid, readImage_contentId_iff, afterOps_keeps ops hwritten]
      refine iff_of_true rfl (fun stored hstored => ?_)
      rw [hnone] at hstored
      cases hstored

/-- `b"pixels"`. -/
def pixels : Bytes := [0x70, 0x69, 0x78, 0x65, 0x6c, 0x73]

/-- `b"tampered"`. -/
def tampered : Bytes := [0x74, 0x61, 0x6d, 0x70, 0x65, 0x72, 0x65, 0x64]

/-- The hashes of two byte strings, and one for all others. -/
def twoHashes : ByteHash where
  hexdigest data :=
    if data = pixels then "6ec9c2b0eb14010746c8bce8939303b382344b296206612eb8a907a37b2b2f37"
    else if data = tampered then "d121be3103007b41edf96f8262925f8c7d61894afe9a041843b631f69445bc57"
    else "0000000000000000000000000000000000000000000000000000000000000000"
  length_eq data := by
    split
    · rfl
    · split <;> rfl
  hex data := by
    split
    · rfl
    · split <;> rfl

/-- The reference to `pixels`. -/
def pixelsReference : ImageReference :=
  { id := "sha256:6ec9c2b0eb14010746c8bce8939303b382344b296206612eb8a907a37b2b2f37"
    bytes := 6
    mediaType := "image/png" }

theorem pixelsReference_valid : validateImage twoHashes {} (some pixels) "image/png" = .ok pixelsReference := by
  rfl

/-- A directory with one entry, where `pixels` lies. -/
def atPixels (stored : Stored) : AttachmentDir := Function.update (fun _ => none) (addressOf twoHashes pixels) (some stored)

theorem atPixels_self (stored : Stored) : atPixels stored (addressOf twoHashes pixels) = some stored := Function.update_self _ _ _

theorem attachment_read_back_pixels : readImage twoHashes (afterOps twoHashes {} (atPixels (.file pixels))
    [.save (some tampered) "image/gif" none, .read pixelsReference.id]) pixelsReference.id = .ok pixels := by
  have hsave : saveImage twoHashes {} (fun _ => none) (some pixels) "image/png" none = (.ok pixelsReference, atPixels (.file pixels)) :=
    saveImage_of_free pixelsReference_valid rfl
  refine ((attachment_read_back_iff hsave _).mpr ?_).1
  rintro stored hstored
  cases hstored

/-- Where no file of the directory has the hash of other bytes, an image whose save returned a reference need not be read back: the bytes of
another image lie under its address, are left there by the save and refused by the read. -/
theorem attachment_not_read_back : ¬∀ (sha : ByteHash) (limits : ImageLimits) (dir dir' : AttachmentDir) (data : Bytes) (declared : String)
    (reference : ImageReference),
    (∀ target bytes, dir target = some (.file bytes) → sha.hexdigest bytes = sha.hexdigest data → bytes = data) →
      saveImage sha limits dir (some data) declared none = (.ok reference, dir') → readImage sha dir' reference.id = .ok data := by
  intro h
  have hapart : twoHashes.hexdigest tampered ≠ twoHashes.hexdigest pixels := by decide
  have hread := h twoHashes {} (atPixels (.file tampered)) (atPixels (.file tampered)) pixels "image/png" pixelsReference
    (fun target bytes hfile hhash => ?_) (saveImage_of_stored pixelsReference_valid (atPixels_self _) none)
  · have hid : pixelsReference.id = contentId twoHashes pixels := rfl
    rw [hid, readImage_contentId_iff, atPixels_self] at hread
    have hsame : tampered = pixels := Stored.file.inj (Option.some.inj hread)
    contradiction
  · by_cases htarget : target = addressOf twoHashes pixels
    · subst htarget
      rw [atPixels_self] at hfile
      obtain rfl := Stored.file.inj (Option.some.inj hfile)
      exact absurd hhash hapart
    · rw [atPixels, Function.update_of_ne htarget] at hfile
      contradiction

end Pydsh
