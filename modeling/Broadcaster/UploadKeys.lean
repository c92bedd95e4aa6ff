import Broadcaster.AdEditor

/-!
# The keys of uploaded images

An upload builds a key from the number of the user, a token and the cleaned
name of the file. The form of keys that the editor accepts is written down
elsewhere, as a pattern.
-/

namespace Broadcaster
namespace UploadKeys

open AdEditor

def maxFilenameLength : ℕ := 100

def fallbackFilename : String := "upload"

def isPathSeparator (c : Char) : Bool := c = '\\' || c = '/'

def safeFilename : Option String → String
  | none => fallbackFilename
  | some filename =>
    if filename = "" then fallbackFilename
    else
      let lastSegment := (filename.toList.splitOnP isPathSeparator).getLastD []
      let cleaned := (lastSegment.map fun c => if isNameChar c then c else '_').take maxFilenameLength
      if cleaned = [] then fallbackFilename else String.ofList cleaned

def knownImageExtensions : List String := [".jpeg",".jpg",".png"]

/-- The name has been cleaned: `lower()` meets ASCII only. -/
def retargetExtension (filename extension : String) : String :=
  let lowered := filename.toList.map Char.toLower
  let base :=
    match knownImageExtensions.find? fun known => known.toList.isSuffixOf lowered with
    | some known => filename.toList.take (filename.toList.length-known.toList.length)
    | none => filename.toList
  let base := base.take (maxFilenameLength-extension.toList.length)
  (if base = [] then fallbackFilename else String.ofList base) ++ extension

inductive Format
  | jpeg | png

/-- `_FORMAT_EXTENSIONS` -/
def Format.extension : Format → String
  | .jpeg => ".jpg"
  | .png => ".png"

/-- `uuid4().hex` -/
structure Token where
  hex : String
  length_hex : hex.toList.length = 32
  digits : hex.toList.all isHexDigit = true

def uploadKey (userId : ℕ) (token : Token) (filename : Option String) (format : Format) : Key :=
  toString userId ++ "/" ++ token.hex ++ "_" ++ retargetExtension (safeFilename filename) format.extension

def thumbKeyPrefix : String := "thumbs/"

def thumbKey (key : Key) : Key :=
  if key = "" then ""
  else if thumbKeyPrefix.toList.isPrefixOf key.toList then key
  else thumbKeyPrefix ++ key

structure SafeName (name : String) : Prop where
  chars : ∀ c ∈ name.toList, isNameChar c = true
  pos : 1 ≤ name.toList.length
  bounded : name.toList.length ≤ maxFilenameLength

theorem safeName_fallback : SafeName fallbackFilename := ⟨List.all_eq_true.mp (by decide),by decide,by decide⟩

theorem safeName_safeFilename (filename : Option String) : SafeName (safeFilename filename) := by
  cases filename with
  | none => exact safeName_fallback
  | some filename =>
    simp only [safeFilename]
    split_ifs with hempty hcleaned
    · exact safeName_fallback
    · exact safeName_fallback
    · refine ⟨?_,?_,?_⟩
      · intro c hc
        rw [String.toList_ofList] at hc
        obtain ⟨d,-,rfl⟩ := List.mem_map.mp (List.mem_of_mem_take hc)
        by_cases hd : isNameChar d = true
        · rwa [if_pos hd]
        · rw [if_neg hd]
          decide
      · rw [String.toList_ofList]
        exact List.length_pos_iff.mpr hcleaned
      · rw [String.toList_ofList]
        exact List.length_take_le _ _

theorem SafeName.append {base extension : String} (hbase : ∀ c ∈ base.toList, isNameChar c = true)
    (hextension : ∀ c ∈ extension.toList, isNameChar c = true) (hne : base.toList ≠ [])
    (hlength : base.toList.length+extension.toList.length ≤ maxFilenameLength) : SafeName (base ++ extension) where
  chars := by
    intro c hc
    rw [String.toList_append,List.mem_append] at hc
    exact hc.elim (hbase c) (hextension c)
  pos := by
    rw [String.toList_append,List.length_append]
    exact Nat.le_add_right_of_le (List.length_pos_iff.mpr hne)
  bounded := by
    rwa [String.toList_append,List.length_append]

theorem SafeName.retargetExtension {filename extension : String} (h : SafeName filename)
    (hchars : ∀ c ∈ extension.toList, isNameChar c = true) (hlength : extension.toList.length ≤ 4) :
    SafeName (retargetExtension filename extension) := by
  unfold UploadKeys.retargetExtension
  simp only
  generalize hbase : (match knownImageExtensions.find? fun known =>
      known.toList.isSuffixOf (filename.toList.map Char.toLower) with
    | some known => filename.toList.take (filename.toList.length-known.toList.length)
    | none => filename.toList) = base
  have hsub : ∀ c ∈ base, isNameChar c = true := by
    intro c hc
    refine h.chars c ?_
    rw [← hbase] at hc
    split at hc
    · exact List.mem_of_mem_take hc
    · exact hc
  have hcut : (base.take (maxFilenameLength-extension.toList.length)).length+extension.toList.length ≤
      maxFilenameLength := by
    have hle := List.length_take_le (maxFilenameLength-extension.toList.length) base
    unfold maxFilenameLength at *
    omega
  split_ifs with hempty
  · -- nothing is left of the name
    have hfallback : fallbackFilename.toList.length = 6 := by
      decide
    refine SafeName.append safeName_fallback.chars hchars (by decide) ?_
    rw [hfallback]
    unfold maxFilenameLength
    omega
  · refine SafeName.append ?_ hchars ?_ ?_
    · rw [String.toList_ofList]
      exact fun c hc => hsub c (List.mem_of_mem_take hc)
    · rwa [String.toList_ofList]
    · rwa [String.toList_ofList]

section Keys

variable {key : Key} {number name : List Char}

/-- The pattern, read as a form of keys -/
theorem imageKeyUser_of_form (hex : List Char) (h : key.toList = number ++ '/'::(hex ++ '_'::name)) (hne : number ≠ [])
    (hdigits : ∀ c ∈ number, c.isDigit = true) (hhead : number.head? ≠ some '0') (hlength : hex.length = 32)
    (hhex : hex.all isHexDigit = true) (hname : ∀ c ∈ name, isNameChar c = true) (hpos : 1 ≤ name.length)
    (hbounded : name.length ≤ 100) : imageKeyUser key = some number := by
  have htake : key.toList.takeWhile Char.isDigit = number := by
    rw [h,List.takeWhile_append_of_pos hdigits]
    simp
  have hdrop : key.toList.dropWhile Char.isDigit = '/'::(hex ++ '_'::name) := by
    rw [h,List.dropWhile_append_of_pos hdigits]
    simp
  unfold imageKeyUser
  simp only [htake,hdrop,← hlength,List.take_left,List.drop_left]
  rw [if_pos ⟨hne,hhead,trivial,hhex,List.all_eq_true.mpr hname,hpos,hbounded⟩]

theorem imageKeyUser_of_head {c : Char} {cs : List Char} (h : key.toList = c::cs) (hc : c.isDigit = false) :
    imageKeyUser key = none := by
  have htake : key.toList.takeWhile Char.isDigit = [] := by
    simp [h,hc]
  unfold imageKeyUser
  simp only [htake,ne_eq,not_true,false_and,if_false]
  split
  · split <;> rfl
  · rfl

theorem imageKeyUser_empty : imageKeyUser "" = none := by
  decide

theorem imageKeyUser_of_thumbs (h : thumbKeyPrefix.toList.isPrefixOf key.toList = true) : imageKeyUser key = none := by
  obtain ⟨cs,hcs⟩ := List.isPrefixOf_iff_prefix.mp h
  exact imageKeyUser_of_head hcs.symm (c := 't') (by decide)

theorem imageKeyUser_thumbKey (key : Key) : imageKeyUser (thumbKey key) = none := by
  unfold thumbKey
  split_ifs with hempty hthumbs
  · exact imageKeyUser_empty
  · exact imageKeyUser_of_thumbs hthumbs
  · refine imageKeyUser_of_thumbs (List.isPrefixOf_iff_prefix.mpr ?_)
    rw [String.toList_append]
    exact List.prefix_append _ _

theorem thumbKey_of_accepted (h : imageKeyUser key ≠ none) : thumbKey key = thumbKeyPrefix ++ key := by
  unfold thumbKey
  split_ifs with hempty hthumbs
  · exact absurd (hempty ▸ imageKeyUser_empty) h
  · exact absurd (imageKeyUser_of_thumbs hthumbs) h
  · rfl

end Keys

theorem toList_toString (n : ℕ) : (toString n).toList = Nat.toDigits 10 n := Nat.toList_repr

theorem isDigit_of_mem_toString {n : ℕ} {c : Char} (h : c ∈ (toString n).toList) : c.isDigit = true := by
  rw [toList_toString] at h
  exact Nat.isDigit_of_mem_toDigits (by decide) (by decide) h

theorem toDigits_head_ne_zero {n : ℕ} (h : 1 ≤ n) : (Nat.toDigits 10 n).head? ≠ some '0' := by
  induction n using Nat.strong_induction_on with
  | h n ih =>
    rw [Nat.toDigits_eq_if (by decide)]
    split_ifs with hn
    · have hall : ∀ m < 10, 1 ≤ m → [Nat.digitChar m].head? ≠ some '0' := by
        decide
      exact hall n hn h
    · rw [List.head?_append_of_ne_nil _ Nat.toDigits_ne_nil]
      exact ih (n/10) (by omega) (by omega)

theorem toString_injective {m n : ℕ} (h : (toString m).toList = (toString n).toList) : m = n := by
  rw [toList_toString,toList_toString] at h
  rw [← Nat.ofDigitChars_ten_toDigits (n := m),h,Nat.ofDigitChars_ten_toDigits]

section Owners

variable {userId : ℕ}

theorem Format.extension_chars (format : Format) : ∀ c ∈ format.extension.toList, isNameChar c = true := by
  refine List.all_eq_true.mp ?_
  cases format <;> decide

theorem Format.length_extension (format : Format) : format.extension.toList.length ≤ 4 := by
  cases format <;> decide

theorem imageKeyUser_uploadKey (h : 1 ≤ userId) (token : Token) (filename : Option String) (format : Format) :
    imageKeyUser (uploadKey userId token filename format) = some (toString userId).toList := by
  have hname := (safeName_safeFilename filename).retargetExtension format.extension_chars format.length_extension
  refine imageKeyUser_of_form token.hex.toList ?_ ?_ ?_ ?_ token.length_hex token.digits hname.chars
    hname.pos hname.bounded
  · simp [uploadKey]
  · rw [toList_toString]
    exact Nat.toDigits_ne_nil
  · exact fun c hc => isDigit_of_mem_toString hc
  · rw [toList_toString]
    exact toDigits_head_ne_zero h

/-- The key is the user's and nobody else's, and its thumbnail is nobody's. -/
structure Owned (userId : ℕ) (extension : String) (key : Key) : Prop where
  own : ∀ values, key ∈ values →
    key ∈ (partitionOwnImageKeys values userId).1 ∧ key ∉ (partitionOwnImageKeys values userId).2
  others : ∀ other ≠ userId, ∀ values, key ∈ values →
    key ∉ (partitionOwnImageKeys values other).1 ∧ key ∈ (partitionOwnImageKeys values other).2
  extension : extension.toList <:+ key.toList
  thumb : ∀ user values, thumbKey key ∉ (partitionOwnImageKeys values user).1

structure Splits (values own offending : List Key) : Prop where
  left : own.Sublist values
  right : offending.Sublist values
  perm : (own ++ offending).Perm values

theorem mem_partition {values : List Key} {user : ℕ} {key : Key} :
    (key ∈ (partitionOwnImageKeys values user).1 ↔ key ∈ values ∧ isOwnImageKey user key = true) ∧
      (key ∈ (partitionOwnImageKeys values user).2 ↔ key ∈ values ∧ isOwnImageKey user key = false) := by
  simp [partitionOwnImageKeys,List.partition_eq_filter_filter]

theorem splits_partition (values : List Key) (user : ℕ) :
    Splits values (partitionOwnImageKeys values user).1 (partitionOwnImageKeys values user).2 := by
  unfold partitionOwnImageKeys
  rw [List.partition_eq_filter_filter]
  exact ⟨List.filter_sublist,List.filter_sublist,List.filter_append_perm (isOwnImageKey user) values⟩

theorem isOwnImageKey_uploadKey (h : 1 ≤ userId) (token : Token) (filename : Option String) (format : Format)
    (user : ℕ) : isOwnImageKey user (uploadKey userId token filename format) = decide (user = userId) := by
  unfold isOwnImageKey
  rw [imageKeyUser_uploadKey h]
  simp only [Option.some.injEq,decide_eq_decide]
  exact ⟨fun heq => (toString_injective heq).symm,fun heq => by rw [heq]⟩

theorem thumbKey_injOn : Set.InjOn thumbKey {key | ∃ user, isOwnImageKey user key = true} := by
  have haccepted : ∀ key user, isOwnImageKey user key = true → imageKeyUser key ≠ none := by
    intro key user h hnone
    simp [isOwnImageKey,hnone] at h
  rintro key ⟨user,hkey⟩ key' ⟨user',hkey'⟩ heq
  rw [thumbKey_of_accepted (haccepted key user hkey),thumbKey_of_accepted (haccepted key' user' hkey')] at heq
  exact String.append_right_inj _ |>.mp heq

theorem owned_uploadKey (h : 1 ≤ userId) (token : Token) (filename : Option String) (format : Format) :
    Owned userId format.extension (uploadKey userId token filename format) where
  own := fun values hvalues => by
    have hown := isOwnImageKey_uploadKey h token filename format userId
    simp [mem_partition,hvalues,hown]
  others := fun other hother values hvalues => by
    have hown := isOwnImageKey_uploadKey h token filename format other
    simp [mem_partition,hvalues,hown,hother]
  extension := by
    unfold uploadKey retargetExtension
    simp only [String.toList_append,← List.append_assoc]
    exact List.suffix_append _ _
  thumb := fun user values => by
    simp [mem_partition,isOwnImageKey,imageKeyUser_thumbKey]

theorem uploaded_image_is_its_owners (userId : ℕ) (h : 1 ≤ userId) (token : Token) (filename : Option String)
    (format : Format) : Owned userId format.extension (uploadKey userId token filename format) ∧
      Set.InjOn thumbKey {key | ∃ user, isOwnImageKey user key = true} ∧
      ∀ values user, Splits values (partitionOwnImageKeys values user).1 (partitionOwnImageKeys values user).2 :=
  ⟨owned_uploadKey h token filename format,thumbKey_injOn,splits_partition⟩

def tokenOfZeros : Token := ⟨"00000000000000000000000000000000",by decide,by decide⟩

/-- A name in Cyrillic letters with a path and an extension in capitals -/
theorem uploaded_image_is_its_owners_cyrillic :
    uploadKey 7 tokenOfZeros (some "C:\\фото\\кот.JPEG") .png = "7/00000000000000000000000000000000____.png" ∧
      Owned 7 ".png" "7/00000000000000000000000000000000____.png" := by
  have hkey : uploadKey 7 tokenOfZeros (some "C:\\фото\\кот.JPEG") .png =
      "7/00000000000000000000000000000000____.png" := by
    decide +kernel
  have howned := (uploaded_image_is_its_owners 7 (by decide) tokenOfZeros (some "C:\\фото\\кот.JPEG") .png).1
  rw [hkey] at howned
  exact ⟨hkey,howned⟩

end Owners

end UploadKeys
end Broadcaster
