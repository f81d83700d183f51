import Pydsh.Lib.Separated

/-!
# The names of a server's tools

`public_tool_name` of `mcp/bridge.py`: the name under which the model sees a tool of a server. A name that has to change carries a hash of
the original pair; one that has not is the two parts as they are, joined by `__`, which each of them may hold as well. So two pairs may
spell one name, and a pair may spell the shortened name of another (`public_tool_names`).
-/

namespace Pydsh

/-- `hashlib.sha256(text.encode("utf-8")).hexdigest()`: 64 hexadecimal digits. -/
structure Sha256 where
  hexdigest : String → String
  length_eq : ∀ text, (hexdigest text).toList.length = 64
  hex : ∀ text, ∀ c ∈ (hexdigest text).toList, c ∈ "0123456789abcdef".toList

/-- A tool of a server, by its raw name. -/
structure RawTool where
  server : String
  raw : String
  deriving DecidableEq

/-- `text[:n]`. -/
def slice (text : String) (n : Nat) : String := String.ofList (text.toList.take n)

/-- `MAX_PUBLIC_NAME_LENGTH`. -/
def maxPublicNameLength : Nat := 64

/-- `HASH_LENGTH`. -/
def hashLength : Nat := 12

/-- A character that `INVALID_NAME_CHARS` leaves. -/
def validNameChar (c : Char) : Bool := c.isAlphanum || c == '_' || c == '-'

/-- `INVALID_NAME_CHARS.sub("_", text)`. -/
def normalize (text : String) : String := String.ofList (text.toList.map (fun c => if validNameChar c then c else '_'))

namespace RawTool

/-- `f"mcp__{server_name}__{raw_name}"`. -/
def joined (tool : RawTool) : String := "mcp__" ++ tool.server ++ "__" ++ tool.raw

/-- The text that is hashed. -/
def identity (tool : RawTool) : String := tool.server ++ "\x00" ++ tool.raw

/-- The joined name is used as it is. -/
def Plain (tool : RawTool) : Prop := normalize tool.joined = tool.joined ∧ (normalize tool.joined).toList.length ≤ maxPublicNameLength

instance (tool : RawTool) : Decidable tool.Plain := inferInstanceAs (Decidable (_ ∧ _))

/-- The hash of the original pair. -/
def digest (sha : Sha256) (tool : RawTool) : String := slice (sha.hexdigest tool.identity) hashLength

/-- What is kept of a name that changes. -/
def kept (tool : RawTool) : String := slice (normalize tool.joined) (maxPublicNameLength - hashLength - 1)

/-- A name that changes. -/
def shortened (sha : Sha256) (tool : RawTool) : String := tool.kept ++ "_" ++ tool.digest sha

end RawTool

/-- `public_tool_name`. -/
def publicToolName (sha : Sha256) (tool : RawTool) : String :=
  if tool.Plain then normalize tool.joined else tool.shortened sha

/-- A name that a provider takes. -/
def LegalName (name : String) : Prop := name.toList.length ≤ maxPublicNameLength ∧ ∀ c ∈ name.toList, validNameChar c = true

/-! ## Names are legal -/

theorem valid_normalize (text : String) : ∀ c ∈ (normalize text).toList, validNameChar c = true := by
  intro c hc
  simp only [normalize, String.toList_ofList, List.mem_map] at hc
  obtain ⟨before, -, rfl⟩ := hc
  split
  · rename_i hvalid
    exact hvalid
  · rfl

theorem valid_hex {c : Char} (h : c ∈ "0123456789abcdef".toList) : validNameChar c = true := by
  have hall : "0123456789abcdef".toList.all validNameChar = true := by decide +kernel
  exact List.all_eq_true.mp hall c h

theorem length_digest (sha : Sha256) (tool : RawTool) : (tool.digest sha).toList.length = hashLength := by
  simp [RawTool.digest, slice, sha.length_eq, hashLength]

theorem legal_shortened (sha : Sha256) (tool : RawTool) : LegalName (tool.shortened sha) := by
  have hlist : (tool.shortened sha).toList = tool.kept.toList ++ "_".toList ++ (tool.digest sha).toList := by
    simp [RawTool.shortened]
  constructor
  · have hkept : tool.kept.toList.length ≤ maxPublicNameLength - hashLength - 1 := by
      simp only [RawTool.kept, slice, String.toList_ofList]
      exact List.length_take_le _ _
    have hunderscore : "_".toList.length = 1 := by decide +kernel
    have hdigest := length_digest sha tool
    rw [hlist, List.length_append, List.length_append, hunderscore, hdigest]
    simp only [maxPublicNameLength, hashLength] at hkept ⊢
    omega
  · intro c hc
    rw [hlist, List.mem_append, List.mem_append] at hc
    rcases hc with (hkept | hunderscore) | hdigest
    · simp only [RawTool.kept, slice, String.toList_ofList] at hkept
      exact valid_normalize tool.joined c (List.mem_of_mem_take hkept)
    · have hall : "_".toList.all validNameChar = true := by decide +kernel
      exact List.all_eq_true.mp hall c hunderscore
    · simp only [RawTool.digest, slice, String.toList_ofList] at hdigest
      exact valid_hex (sha.hex tool.identity c (List.mem_of_mem_take hdigest))

theorem legal_publicToolName (sha : Sha256) (tool : RawTool) : LegalName (publicToolName sha tool) := by
  unfold publicToolName
  split
  · rename_i hplain
    exact ⟨hplain.2, valid_normalize tool.joined⟩
  · exact legal_shortened sha tool

/-! ## Which names are the same -/

namespace RawTool

/-- The second tool's server name goes on where the first one's ends, by what the first one's raw name begins with, separators
included. -/
def Shifted (separator : String) (tool other : RawTool) : Prop :=
  Separated.Shifted separator.toList tool.server.toList tool.raw.toList other.server.toList other.raw.toList

/-- Two tools that are given one name: the joined names are plain and spell the same; one is plain and spells what the other is
shortened to; or both change, begin alike, and are hashed as the same text. -/
inductive Clash (sha : Sha256) (tool other : RawTool) : Prop where
  | plain (h : tool.Plain) (h' : other.Plain) (hshifted : Shifted "__" tool other ∨ Shifted "__" other tool)
  | spelled (h : tool.Plain) (h' : ¬ other.Plain) (hspells : tool.joined = other.kept ++ "_" ++ other.digest sha)
  | spelledBy (h : ¬ tool.Plain) (h' : other.Plain) (hspells : other.joined = tool.kept ++ "_" ++ tool.digest sha)
  | hashed (h : ¬ tool.Plain) (h' : ¬ other.Plain) (hkept : tool.kept = other.kept)
    (hshifted : Shifted "\x00" tool other ∨ Shifted "\x00" other tool)

end RawTool

variable {sha : Sha256} {tool other : RawTool}

theorem eq_of_parts (hserver : tool.server.toList = other.server.toList) (hraw : tool.raw.toList = other.raw.toList) : tool = other := by
  cases tool
  cases other
  simp only [String.toList_inj] at hserver hraw
  rw [hserver, hraw]

/-- Two different tools whose parts spell one text with a separator. -/
theorem separated_eq (hne : tool ≠ other) (separator : String) :
    tool.server ++ separator ++ tool.raw = other.server ++ separator ++ other.raw ↔
      RawTool.Shifted separator tool other ∨ RawTool.Shifted separator other tool := by
  rw [← String.toList_inj]
  simp only [String.toList_append, List.append_assoc]
  rw [Separated.separated_eq_iff]
  constructor
  · rintro (⟨hserver, hraw⟩ | h)
    · exact absurd (eq_of_parts hserver hraw) hne
    · exact h
  · exact Or.inr

theorem joined_eq (hne : tool ≠ other) : tool.joined = other.joined ↔ RawTool.Shifted "__" tool other ∨ RawTool.Shifted "__" other tool := by
  rw [← separated_eq hne]
  constructor
  · intro h
    have hlist := congrArg String.toList h
    simp only [RawTool.joined, String.toList_append, List.append_assoc] at hlist
    rw [← String.toList_inj]
    simpa only [String.toList_append, List.append_assoc] using List.append_cancel_left hlist
  · intro h
    simp only [String.append_assoc] at h
    simp only [RawTool.joined, String.append_assoc]
    rw [h]

/-- Two shortened names are the same exactly if what is kept and the hashes are. -/
theorem shortened_eq : tool.shortened sha = other.shortened sha ↔ tool.kept = other.kept ∧ tool.digest sha = other.digest sha := by
  constructor
  · intro h
    have hlist := congrArg String.toList h
    simp only [RawTool.shortened, String.toList_append] at hlist
    have hlength : (tool.digest sha).toList.length = (other.digest sha).toList.length :=
      (length_digest sha tool).trans (length_digest sha other).symm
    obtain ⟨hkept, hdigest⟩ := List.append_inj' hlist hlength
    have hkept := List.append_cancel_right hkept
    exact ⟨String.toList_inj.mp hkept, String.toList_inj.mp hdigest⟩
  · rintro ⟨hkept, hdigest⟩
    rw [RawTool.shortened, hkept, hdigest]
    rfl

theorem publicToolName_plain (h : tool.Plain) : publicToolName sha tool = tool.joined := by
  rw [publicToolName, if_pos h, h.1]

theorem publicToolName_shortened (h : ¬ tool.Plain) : publicToolName sha tool = tool.shortened sha := by
  rw [publicToolName, if_neg h]

/-- Every name is legal; and two different tools whose hashes, if they are the same, are of one text have different names exactly if they
do not clash. -/
theorem public_tool_names (sha : Sha256) : (∀ tool, LegalName (publicToolName sha tool)) ∧
    ∀ tool other : RawTool, tool ≠ other → (tool.digest sha = other.digest sha → tool.identity = other.identity) →
      (publicToolName sha tool ≠ publicToolName sha other ↔ ¬ RawTool.Clash sha tool other) := by
  refine ⟨legal_publicToolName sha, ?_⟩
  intro tool other hne hcollision
  rw [ne_eq, not_iff_not]
  by_cases htool : tool.Plain
  · by_cases hother : other.Plain
    · rw [publicToolName_plain htool, publicToolName_plain hother, joined_eq hne]
      constructor
      · intro hshifted
        exact .plain htool hother hshifted
      · rintro (⟨-, -, hshifted⟩ | ⟨-, hnot, -⟩ | ⟨hnot, -, -⟩ | ⟨hnot, -, -, -⟩)
        · exact hshifted
        · exact absurd hother hnot
        · exact absurd htool hnot
        · exact absurd htool hnot
    · rw [publicToolName_plain htool, publicToolName_shortened hother]
      constructor
      · intro hspells
        exact .spelled htool hother hspells
      · rintro (⟨-, hplain, -⟩ | ⟨-, -, hspells⟩ | ⟨-, hplain, -⟩ | ⟨hnot, -, -, -⟩)
        · exact absurd hplain hother
        · exact hspells
        · exact absurd hplain hother
        · exact absurd htool hnot
  · by_cases hother : other.Plain
    · rw [publicToolName_shortened htool, publicToolName_plain hother, eq_comm]
      constructor
      · intro hspells
        exact .spelledBy htool hother hspells
      · rintro (⟨hplain, -, -⟩ | ⟨hplain, -, -⟩ | ⟨-, -, hspells⟩ | ⟨-, hnot, -, -⟩)
        · exact absurd hplain htool
        · exact absurd hplain htool
        · exact hspells
        · exact absurd hother hnot
    · rw [publicToolName_shortened htool, publicToolName_shortened hother, shortened_eq]
      constructor
      · rintro ⟨hkept, hdigest⟩
        exact .hashed htool hother hkept ((separated_eq hne "\x00").mp (hcollision hdigest))
      · rintro (⟨hplain, -, -⟩ | ⟨hplain, -, -⟩ | ⟨-, hplain, -⟩ | ⟨-, -, hkept, hshifted⟩)
        · exact absurd hplain htool
        · exact absurd hplain htool
        · exact absurd hplain hother
        · refine ⟨hkept, ?_⟩
          have hidentity : tool.identity = other.identity := (separated_eq hne "\x00").mpr hshifted
          rw [RawTool.digest, hidentity]
          rfl

theorem hex_of_all {text : String} (h : text.toList.all (fun c => "0123456789abcdef".toList.contains c) = true) :
    ∀ c ∈ text.toList, c ∈ "0123456789abcdef".toList := by
  intro c hc
  exact List.contains_iff_mem.mp (List.all_eq_true.mp h c hc)

/-- The hash of one text, and a digest for every other one. -/
def oneHash : Sha256 where
  hexdigest text :=
    if text = "s\x00a b" then "eae83beb362e79d536aaf0b9f39882e6b4ca2cd7ef43274b9c843e90bb8952aa"
    else "0000000000000000000000000000000000000000000000000000000000000000"
  length_eq text := by split <;> rfl
  hex text := by split <;> exact hex_of_all rfl

/-- A name that is normalised and one that looks like it stay apart. -/
theorem public_tool_names_normalised : publicToolName oneHash ⟨"s", "a b"⟩ ≠ publicToolName oneHash ⟨"s", "a_b"⟩ := by
  have hchanged : ¬ (RawTool.mk "s" "a b").Plain := by decide +kernel
  have hplain : (RawTool.mk "s" "a_b").Plain := by decide +kernel
  have hother : RawTool.digest oneHash ⟨"s", "a b"⟩ ≠ RawTool.digest oneHash ⟨"s", "a_b"⟩ := by decide +kernel
  refine ((public_tool_names oneHash).2 ⟨"s", "a b"⟩ ⟨"s", "a_b"⟩ (by decide) (fun heq => absurd heq hother)).mpr ?_
  rintro (⟨h, -, -⟩ | ⟨h, -, -⟩ | ⟨-, -, hspells⟩ | ⟨-, h, -, -⟩)
  · exact hchanged h
  · exact hchanged h
  · exact absurd hspells (by decide +kernel)
  · exact h hplain

/-- Two tools of two servers under one name. -/
theorem public_tool_names_clash : RawTool.mk "a__b" "c" ≠ RawTool.mk "a" "b__c" ∧
    publicToolName oneHash ⟨"a__b", "c"⟩ = publicToolName oneHash ⟨"a", "b__c"⟩ := by
  decide +kernel

end Pydsh
