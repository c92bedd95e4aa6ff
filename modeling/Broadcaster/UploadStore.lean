import Broadcaster.EditorPage
import Broadcaster.StoredImages
import Broadcaster.Transcripts
import Broadcaster.UploadKeys

/-!
# Uploading files to the image store

`store_upload` judges a file by its content, builds an image of its own from it
and puts this image and a thumbnail into the store. The handler does so for one
file after another and answers with the tray. The store may refuse any put.
-/

namespace Broadcaster
namespace UploadStore

open AdEditor UploadKeys StoredImages Transcripts

inductive Call
  | uuid4
  | put (key : Key) (content : Body) (contentType : String)

def Call.Value : Call → Type
  | .uuid4 => Token
  | .put _ _ _ => Unit

inductive Failure
  | httpException (statusCode : ℕ) (detail : String)
  | other (e : Raised)

abbrev Upload := Program Call.Value Failure

abbrev Puts := Transcript Call.Value Failure

def uuid4 : Upload Token := Program.call Call.uuid4

def uploadFileToS3 (content : Body) (key : Key) (contentType : String) : Upload Unit :=
  Program.call (Call.put key content contentType)

/-- The answers of `file.read`; after the last one it answers with nothing. -/
structure UploadFile where
  filename : Option String
  reads : List Body

def Format.name : Format → String
  | .jpeg => "JPEG"
  | .png => "PNG"

def imageSignatures : List (Body × String) :=
  [([0xff,0xd8,0xff],"image/jpeg"),([0x89,0x50,0x4e,0x47,0x0d,0x0a,0x1a,0x0a],"image/png")]

def sniffImage (content : Body) : Option String :=
  (imageSignatures.find? fun signature => signature.1.isPrefixOf content).map Prod.snd

structure PreparedImage where
  delivery : Body
  thumbnail : Body
  contentType : String
  extension : String

def unsupportedImageMessage : String :=
  "Не удалось загрузить: подойдут только изображения JPEG или PNG — " ++
    "другие форматы принимают не все мессенджеры. Выберите другой файл."

def oversizedImageMessage : String :=
  "Не удалось загрузить: в изображении слишком много точек. Уменьшите разрешение и попробуйте снова."

def fileSizeMessage (maxImageSizeMb : ℕ) : String :=
  "File size exceeds " ++ toString maxImageSizeMb ++ "MB limit"

section Store

variable (pil : Pillow) (maxImageSizeMb maxImages userId : ℕ)

/-- The opaque image becomes a JPEG whatever it has been. -/
def prepareUpload (content : Body) : Except ImageError PreparedImage := do
  let (sourceFormat,image) ← decode pil content true
  let keepsAlpha ← (keepsAlpha pil sourceFormat image).mapError escaped
  let targetFormat : Format := if keepsAlpha then .png else .jpeg
  let image ← (normaliseMode pil image keepsAlpha).mapError escaped
  let deliveryImage ← (fitLongEdge pil image deliveryMaxEdge).mapError escaped
  let delivery ← (encode pil deliveryImage (Format.name targetFormat) deliveryJpegQuality).mapError escaped
  let thumbnailImage ← (fitLongEdge pil deliveryImage thumbMaxEdge).mapError escaped
  let thumbnail ← (encode pil thumbnailImage (Format.name targetFormat) thumbJpegQuality).mapError escaped
  return ⟨delivery,thumbnail,contentTypeOf (Format.name targetFormat),targetFormat.extension⟩

/-- The loop over `file.read`; without a content the limit has been passed. -/
def readContent (maxBytes : ℕ) : (received : ℕ) → (chunks reads : List Body) → Option Body
  | _, chunks, [] => some chunks.flatten
  | received, chunks, chunk::reads =>
    if chunk = [] then some chunks.flatten
    else if maxBytes < received+chunk.length then none
    else readContent maxBytes (received+chunk.length) (chunks++[chunk]) reads

inductive Verdict
  | accepted (key : Key) | rejected (r : Rejected)

def maxBytes : ℕ := maxImageSizeMb*1024*1024

def putPrepared (file : UploadFile) (prepared : PreparedImage) : Upload Verdict := do
  let filename := retargetExtension (safeFilename file.filename) prepared.extension
  let token ← uuid4
  let key := toString userId ++ "/" ++ token.hex ++ "_" ++ filename
  (uploadFileToS3 prepared.delivery key prepared.contentType).handle fun _ =>
    Program.raise (.httpException 502 "Failed to upload image to storage")
  (uploadFileToS3 prepared.thumbnail (thumbKey key) prepared.contentType).handle fun _ => pure ()
  return .accepted key

def storeUpload (file : UploadFile) : Upload Verdict :=
  let reject := fun reason => Verdict.rejected ⟨safeFilename file.filename,reason⟩
  match readContent (maxBytes maxImageSizeMb) 0 [] file.reads with
  | none => pure (reject (fileSizeMessage maxImageSizeMb))
  | some content =>
    if sniffImage content = none then pure (reject unsupportedImageMessage)
    else match prepareUpload pil content with
      | .error .tooLarge => pure (reject oversizedImageMessage)
      | .error .unreadable => pure (reject unsupportedImageMessage)
      | .error (.raised e) => Program.raise (.other e)
      | .ok prepared => putPrepared userId file prepared

inductive Field
  | text (value : String) | file (f : UploadFile)

def Field.text? : Field → Option String
  | .text value => some value
  | .file _ => none

def Field.file? : Field → Option UploadFile
  | .text _ => none
  | .file f => some f

abbrev Form := List (String × Field)

def getlist (form : Form) (name : String) : List Field := (form.filter fun item => item.1 = name).map Prod.snd

def Form.parts (form : Form) : List UploadFile := (getlist form "files").filterMap Field.file?

def uploadOne (b : Batch) (part : UploadFile) : Upload Batch := do
  if b.free = 0 then return b.refuse (safeFilename part.filename) (uploadLimitMessage maxImages)
  else
    let result ← (some <$> storeUpload pil maxImageSizeMb userId part).handle fun
      | .httpException _ _ => pure none
      | e => Program.raise e
    match result with
    | none => return b.refuse (safeFilename part.filename) storageUnavailableMessage
    | some (.accepted key) => return b.attach key
    | some (.rejected r) => return { b with refusals := b.refusals ++ [r] }

def uploadParts : List UploadFile → Batch → Upload Batch
  | [], b => pure b
  | part::parts, b => do uploadParts parts (← uploadOne pil maxImageSizeMb maxImages userId b part)

/-- The keys that the page has sent: the user's own and the others. -/
def Form.keys (form : Form) : List Key × List Key :=
  partitionOwnImageKeys (((getlist form "images").filterMap Field.text?).filter notBlank) userId

def Form.foreign (form : Form) : Bool :=
  (form.keys userId).2 ≠ [] ∨ ((getlist form "images").filterMap Field.text?).length ≠ (getlist form "images").length

/-- `POST /ads/images`, after the user and the origin have been checked. -/
def adsImagesUpload (form : Form) : Upload UploadReply := do
  if maxUploadParts < (form.filterMap fun item => item.2.file?).length ∨
      maxUploadParts < (form.filterMap fun item => item.2.text?).length then
    return .refusals [⟨"",uploadPartsMessage maxUploadParts⟩]
  else if form.foreign userId then
    return .strip (form.keys userId).1 (⟨"",inaccessibleImageMessage⟩::form.parts.map fun part =>
      ⟨safeFilename part.filename,inaccessibleImageMessage⟩) false
  else
    let imageKeys := (form.keys userId).1
    let b ← uploadParts pil maxImageSizeMb maxImages userId form.parts ⟨imageKeys,[],maxImages-imageKeys.length,false⟩
    return .strip b.imageKeys b.refusals b.attached

def UploadFile.content (file : UploadFile) : Body := (file.reads.takeWhile (· ≠ [])).flatten

inductive Judgement
  | refused (reason : String) | failed (e : Raised) | prepared (image : PreparedImage)

/-- What is said of a content, however it has been read. -/
def judge (content : Body) : Judgement :=
  if maxBytes maxImageSizeMb < content.length then .refused (fileSizeMessage maxImageSizeMb)
  else if sniffImage content = none then .refused unsupportedImageMessage
  else match prepareUpload pil content with
    | .error .tooLarge => .refused oversizedImageMessage
    | .error .unreadable => .refused unsupportedImageMessage
    | .error (.raised e) => .failed e
    | .ok prepared => .prepared prepared

end Store

variable {pil : Pillow} {maxImageSizeMb maxImages userId : ℕ}

theorem readContent_eq (limit : ℕ) (reads : List Body) (received : ℕ) (chunks : List Body)
    (hreceived : received = chunks.flatten.length) (hlimit : received ≤ limit) :
    readContent limit received chunks reads =
      let content := chunks.flatten ++ (reads.takeWhile (· ≠ [])).flatten
      if limit < content.length then none else some content := by
  induction reads generalizing received chunks with
  | nil =>
    have hle : ¬ limit < chunks.flatten.length := by omega
    simp only [readContent,List.takeWhile_nil,List.flatten_nil,List.append_nil,hle,if_false]
  | cons chunk reads ih =>
    unfold readContent
    split_ifs with hchunk hlarge
    · have hstop : (chunk::reads).takeWhile (· ≠ []) = [] := by
        simp [hchunk]
      simp only [hstop,List.flatten_nil,List.append_nil]
      rw [if_neg (by omega)]
    · have hgo : (chunk::reads).takeWhile (· ≠ []) = chunk::reads.takeWhile (· ≠ []) := by
        simp [hchunk]
      simp only [hgo,List.flatten_cons,List.length_append]
      rw [if_pos (by omega)]
    · have hgo : (chunk::reads).takeWhile (· ≠ []) = chunk::reads.takeWhile (· ≠ []) := by
        simp [hchunk]
      have happend : (chunks++[chunk]).flatten = chunks.flatten++chunk := by
        simp
      rw [ih (received+chunk.length) (chunks++[chunk]) ?_ (by omega),happend]
      · simp only [hgo,List.flatten_cons,List.append_assoc]
      · rw [happend,List.length_append,hreceived]

theorem readContent_file (limit : ℕ) (file : UploadFile) : readContent limit 0 [] file.reads =
    if limit < file.content.length then none else some file.content :=
  readContent_eq limit file.reads 0 [] rfl (Nat.zero_le _)

theorem storeUpload_eq (file : UploadFile) : storeUpload pil maxImageSizeMb userId file =
    match judge pil maxImageSizeMb file.content with
    | .refused reason => pure (.rejected ⟨safeFilename file.filename,reason⟩)
    | .failed e => Program.raise (.other e)
    | .prepared prepared => putPrepared userId file prepared := by
  unfold storeUpload judge
  rw [readContent_file]
  by_cases hlarge : maxBytes maxImageSizeMb < file.content.length
  · simp only [hlarge,if_true]
  · by_cases hsniff : sniffImage file.content = none
    · simp only [hlarge,if_false,hsniff,if_true]
    · simp only [hlarge,if_false,hsniff]
      rcases prepareUpload pil file.content with (_ | _ | e) | prepared <;> rfl

/-- The image library has written the bytes in this format. -/
def Encoded (pil : Pillow) (format : Format) (body : Body) : Prop :=
  ∃ image quality, encode pil image (Format.name format) quality = .ok body

/-- The image is the library's, and its type and its extension say what it is. -/
structure Labelled (pil : Pillow) (prepared : PreparedImage) (format : Format) : Prop where
  delivery : Encoded pil format prepared.delivery
  thumbnail : Encoded pil format prepared.thumbnail
  contentType : prepared.contentType = contentTypeOf (Format.name format)
  extension : prepared.extension = format.extension

theorem ok_of_mapError {α : Type} {x : Except PilFailure α} {a : α} (h : x.mapError escaped = .ok a) : x = .ok a := by
  cases x with
  | error e => cases h
  | ok b => cases h; rfl

theorem labelled_of_prepared {content : Body} {prepared : PreparedImage}
    (h : prepareUpload pil content = .ok prepared) : ∃ format, Labelled pil prepared format := by
  unfold prepareUpload at h
  obtain ⟨decoded,_,h⟩ := bind_eq_ok.mp h
  obtain ⟨alpha,_,h⟩ := bind_eq_ok.mp h
  obtain ⟨image,_,h⟩ := bind_eq_ok.mp h
  obtain ⟨deliveryImage,_,h⟩ := bind_eq_ok.mp h
  obtain ⟨delivery,hdelivery,h⟩ := bind_eq_ok.mp h
  obtain ⟨thumbnailImage,_,h⟩ := bind_eq_ok.mp h
  obtain ⟨thumbnail,hthumbnail,h⟩ := bind_eq_ok.mp h
  cases h
  exact ⟨_,⟨_,_,ok_of_mapError hdelivery⟩,⟨_,_,ok_of_mapError hthumbnail⟩,rfl,rfl⟩

theorem labelled_of_judge {content : Body} {prepared : PreparedImage}
    (h : judge pil maxImageSizeMb content = .prepared prepared) : ∃ format, Labelled pil prepared format := by
  unfold judge at h
  split_ifs at h
  split at h
  · cases h
  · cases h
  · cases h
  · cases h
    exact labelled_of_prepared ‹_›

def isThumb (key : Key) : Bool := thumbKeyPrefix.toList.isPrefixOf key.toList

/-- The images that the store has taken. -/
def delivered (t : Puts) : List Key :=
  t.filterMap fun
    | ⟨.put key _ _,.ok _⟩ => if isThumb key then none else some key
    | _ => none

def thumbs (t : Puts) : List Key :=
  t.filterMap fun
    | ⟨.put key _ _,_⟩ => if isThumb key then some key else none
    | _ => none

/-- A put of an image of the user, or of a thumbnail of one, under its own type. -/
def Safe (pil : Pillow) (userId : ℕ) : Entry Call.Value Failure → Prop
  | ⟨.uuid4,_⟩ => True
  | ⟨.put key content contentType,_⟩ => ∃ format, contentType = contentTypeOf (Format.name format) ∧
      Encoded pil format content ∧ format.extension.toList <:+ key.toList ∧
      ∃ image, isOwnImageKey userId image = true ∧ (key = image ∨ key = thumbKey image)

inductive Stores (userId : ℕ) (file : UploadFile) (prepared : PreparedImage) (format : Format) :
    Puts → Except Failure Verdict → Prop
  | untokened (e : Failure) : Stores userId file prepared format [⟨.uuid4,.error e⟩] (.error e)
  | unstored (token : Token) (e : Failure) : Stores userId file prepared format
      [⟨.uuid4,.ok token⟩,
        ⟨.put (uploadKey userId token file.filename format) prepared.delivery prepared.contentType,.error e⟩]
      (.error (.httpException 502 "Failed to upload image to storage"))
  | stored (token : Token) (answer : Except Failure Unit) : Stores userId file prepared format
      [⟨.uuid4,.ok token⟩,
        ⟨.put (uploadKey userId token file.filename format) prepared.delivery prepared.contentType,.ok ()⟩,
        ⟨.put (thumbKey (uploadKey userId token file.filename format)) prepared.thumbnail prepared.contentType,answer⟩]
      (.ok (.accepted (uploadKey userId token file.filename format)))

theorem putPrepared_leaves {file : UploadFile} {prepared : PreparedImage} {format : Format}
    (h : Labelled pil prepared format) :
    Leaves (putPrepared userId file prepared) (Stores userId file prepared format) := by
  unfold putPrepared
  refine Leaves.bind (P := fun t r => t = [⟨.uuid4,r⟩]) (leaves_call fun answer => rfl) ?_ ?_
  · rintro t e rfl
    exact .untokened e
  · rintro t token rfl
    have hkey : toString userId ++ "/" ++ token.hex ++ "_" ++
        retargetExtension (safeFilename file.filename) prepared.extension =
        uploadKey userId token file.filename format := by
      rw [h.extension]
      rfl
    simp only [hkey]
    refine Leaves.bind (P := fun t r => ∃ answer : Except Failure Unit,
      t = [⟨.put (uploadKey userId token file.filename format) prepared.delivery prepared.contentType,answer⟩] ∧
        r = answer.mapError fun _ => .httpException 502 "Failed to upload image to storage")
      (Leaves.handle (P := fun t r => t = [⟨.put (uploadKey userId token file.filename format) prepared.delivery
        prepared.contentType,r⟩]) (leaves_call fun answer => rfl) ?_ ?_) ?_ ?_
    · rintro t a rfl
      exact ⟨.ok a,rfl,rfl⟩
    · rintro t e rfl
      exact leaves_raise ⟨.error e,rfl,rfl⟩
    · rintro t e ⟨_ | _,rfl,hr⟩
      · cases hr
        exact .unstored token _
      · cases hr
    · rintro t a ⟨_ | _,rfl,hr⟩
      · cases hr
      · refine Leaves.bind (P := fun t r => ∃ answer : Except Failure Unit,
          t = [⟨.put (thumbKey (uploadKey userId token file.filename format)) prepared.thumbnail
            prepared.contentType,answer⟩] ∧ r = .ok ())
          (Leaves.handle (P := fun t r => t = [⟨.put (thumbKey (uploadKey userId token file.filename format))
            prepared.thumbnail prepared.contentType,r⟩]) (leaves_call fun answer => rfl) ?_ ?_) ?_ ?_
        · rintro t a rfl
          exact ⟨.ok a,rfl,rfl⟩
        · rintro t e rfl
          exact leaves_pure ⟨.error e,by simp,rfl⟩
        · rintro t e ⟨_,_,hr⟩
          cases hr
        · rintro t a ⟨answer,rfl,_⟩
          exact leaves_pure (.stored token answer)

theorem isThumb_thumbKey {key : Key} (h : isOwnImageKey userId key = true) : isThumb (thumbKey key) = true := by
  have haccepted : imageKeyUser key ≠ none := by
    intro hnone
    simp [isOwnImageKey,hnone] at h
  unfold isThumb
  rw [thumbKey_of_accepted haccepted,List.isPrefixOf_iff_prefix,String.toList_append]
  exact List.prefix_append _ _

theorem not_isThumb_of_own {key : Key} (h : isOwnImageKey userId key = true) : isThumb key = false := by
  refine Bool.eq_false_iff.mpr fun hthumb => ?_
  simp [isOwnImageKey,imageKeyUser_of_thumbs hthumb] at h

/-- What the transcript of one file, or of several, leaves in the store. -/
structure Stocked (pil : Pillow) (userId : ℕ) (t : Puts) : Prop where
  safe : ∀ e ∈ t, Safe pil userId e
  own : ∀ key ∈ delivered t, isOwnImageKey userId key = true
  thumbs : thumbs t = (delivered t).map thumbKey

theorem stocked_nil : Stocked pil userId [] := ⟨by simp,by simp [delivered],rfl⟩

theorem Stocked.append {t t' : Puts} (h : Stocked pil userId t) (h' : Stocked pil userId t') :
    Stocked pil userId (t++t') where
  safe := List.forall_mem_append.mpr ⟨h.safe,h'.safe⟩
  own := by
    unfold delivered
    rw [List.filterMap_append]
    exact List.forall_mem_append.mpr ⟨h.own,h'.own⟩
  thumbs := by
    unfold UploadStore.thumbs delivered
    rw [List.filterMap_append,List.filterMap_append,List.map_append]
    exact congrArg₂ (· ++ ·) h.thumbs h'.thumbs

theorem delivered_append (t t' : Puts) : delivered (t++t') = delivered t ++ delivered t' := List.filterMap_append

/-- The key of an accepted file -/
def Verdict.key? : Except Failure Verdict → Option Key
  | .ok (.accepted key) => some key
  | .ok (.rejected _) | .error _ => none

theorem uploadKey_extension (token : Token) (filename : Option String) (format : Format) :
    format.extension.toList <:+ (uploadKey userId token filename format).toList := by
  unfold uploadKey retargetExtension
  simp only [String.toList_append,← List.append_assoc]
  exact List.suffix_append _ _

theorem suffix_thumbKey {key : Key} {extension : List Char} (h : isOwnImageKey userId key = true)
    (hsuffix : extension <:+ key.toList) : extension <:+ (thumbKey key).toList := by
  have haccepted : imageKeyUser key ≠ none := by
    intro hnone
    simp [isOwnImageKey,hnone] at h
  rw [thumbKey_of_accepted haccepted,String.toList_append]
  exact hsuffix.trans (List.suffix_append _ _)

theorem Stores.stocked {file : UploadFile} {prepared : PreparedImage} {format : Format} {t : Puts}
    {r : Except Failure Verdict} (h : Stores userId file prepared format t r) (hl : Labelled pil prepared format)
    (huser : 1 ≤ userId) : Stocked pil userId t ∧ delivered t = (Verdict.key? r).toList := by
  have hsafe : ∀ token, isOwnImageKey userId (uploadKey userId token file.filename format) = true := by
    intro token
    rw [isOwnImageKey_uploadKey huser]
    exact decide_eq_true rfl
  have hput : ∀ token answer, Safe pil userId
      ⟨.put (uploadKey userId token file.filename format) prepared.delivery prepared.contentType,answer⟩ :=
    fun token answer => ⟨format,hl.contentType,hl.delivery,uploadKey_extension token _ format,_,hsafe token,.inl rfl⟩
  have hthumb : ∀ token answer, Safe pil userId
      ⟨.put (thumbKey (uploadKey userId token file.filename format)) prepared.thumbnail prepared.contentType,answer⟩ :=
    fun token answer => ⟨format,hl.contentType,hl.thumbnail,
      suffix_thumbKey (hsafe token) (uploadKey_extension token _ format),_,hsafe token,.inr rfl⟩
  cases h with
  | untokened e => exact ⟨⟨by simp [Safe],by simp [delivered],rfl⟩,rfl⟩
  | unstored token e =>
    have hnot := not_isThumb_of_own (hsafe token)
    refine ⟨⟨?_,by simp [delivered],by simp [thumbs,delivered,hnot]⟩,by simp [delivered,Verdict.key?]⟩
    simp only [List.forall_mem_cons]
    exact ⟨trivial,hput token _,by simp⟩
  | stored token answer =>
    have hnot := not_isThumb_of_own (hsafe token)
    have hyes := isThumb_thumbKey (hsafe token)
    have hdelivered : delivered [⟨.uuid4,.ok token⟩,
        ⟨.put (uploadKey userId token file.filename format) prepared.delivery prepared.contentType,.ok ()⟩,
        ⟨.put (thumbKey (uploadKey userId token file.filename format)) prepared.thumbnail prepared.contentType,answer⟩] =
        [uploadKey userId token file.filename format] := by
      cases answer <;> simp [delivered,hnot,hyes]
    refine ⟨⟨?_,?_,?_⟩,hdelivered⟩
    · simp only [List.forall_mem_cons]
      exact ⟨trivial,hput token _,hthumb token _,by simp⟩
    · rw [hdelivered]
      exact List.forall_mem_singleton.mpr (hsafe token)
    · rw [hdelivered]
      simp [thumbs,hnot,hyes]

def reasons (maxImageSizeMb maxImages : ℕ) : List String :=
  [fileSizeMessage maxImageSizeMb,unsupportedImageMessage,oversizedImageMessage,uploadLimitMessage maxImages,
    storageUnavailableMessage,inaccessibleImageMessage,uploadPartsMessage maxUploadParts]

/-- The row shows no name or a cleaned one, and a text of the closed set. -/
structure Readable (maxImageSizeMb maxImages : ℕ) (row : Rejected) : Prop where
  name : row.displayName = "" ∨ SafeName row.displayName
  reason : row.reason ∈ reasons maxImageSizeMb maxImages

theorem judge_reason {content : Body} {reason : String} (h : judge pil maxImageSizeMb content = .refused reason) :
    reason ∈ [fileSizeMessage maxImageSizeMb,unsupportedImageMessage,oversizedImageMessage] := by
  unfold judge at h
  split_ifs at h
  · cases h
    exact List.mem_cons_self
  · cases h
    simp
  · split at h <;> cases h <;> simp

/-- What the page is told of the file: a refusal exactly where the content is refused. -/
def Agrees (pil : Pillow) (maxImageSizeMb : ℕ) (file : UploadFile) (s : Stored) : Prop :=
  ∀ reason, s = .rejected reason ↔ judge pil maxImageSizeMb file.content = .refused reason

def unasked : Judgement → Stored
  | .refused reason => .rejected reason
  | .failed _ | .prepared _ => .storageFailed

theorem agrees_unasked (file : UploadFile) :
    Agrees pil maxImageSizeMb file (unasked (judge pil maxImageSizeMb file.content)) := by
  intro reason
  cases judge pil maxImageSizeMb file.content <;> simp [unasked]

def isHttp : Failure → Bool
  | .httpException _ _ => true
  | .other _ => false

structure Served (pil : Pillow) (maxImageSizeMb maxImages userId : ℕ) (b : Batch) (part : UploadFile) (t : Puts)
    (b' : Batch) (s : Stored) : Prop where
  agrees : Agrees pil maxImageSizeMb part s
  moved : b' = uploadPart maxImages b (safeFilename part.filename,s)
  accepted : acceptedKeys [s] = delivered t
  full : b.free = 0 → t = []

structure Judged (pil : Pillow) (maxImageSizeMb userId : ℕ) (file : UploadFile) (t : Puts)
    (r : Except Failure Verdict) : Prop where
  stocked : Stocked pil userId t
  delivered : delivered t = (Verdict.key? r).toList
  rejected : ∀ row, r = .ok (.rejected row) →
    row.displayName = safeFilename file.filename ∧ judge pil maxImageSizeMb file.content = .refused row.reason
  refused : ∀ reason, judge pil maxImageSizeMb file.content = .refused reason → ∃ row, r = .ok (.rejected row)

theorem storeUpload_leaves (huser : 1 ≤ userId) (file : UploadFile) :
    Leaves (storeUpload pil maxImageSizeMb userId file) (Judged pil maxImageSizeMb userId file) := by
  rw [storeUpload_eq]
  cases hjudge : judge pil maxImageSizeMb file.content with
  | refused reason =>
    refine leaves_pure ⟨stocked_nil,rfl,?_,fun _ _ => ⟨_,rfl⟩⟩
    rintro row hrow
    cases hrow
    exact ⟨rfl,hjudge⟩
  | failed e =>
    refine leaves_raise ⟨stocked_nil,rfl,?_,?_⟩
    · rintro row hrow
      cases hrow
    · intro reason hreason
      rw [hjudge] at hreason
      cases hreason
  | prepared prepared =>
    obtain ⟨format,hl⟩ := labelled_of_judge hjudge
    refine (@putPrepared_leaves _ userId file _ _ hl).mono fun t r hs => ?_
    obtain ⟨hstocked,hdelivered⟩ := hs.stocked hl huser
    refine ⟨hstocked,hdelivered,?_,?_⟩
    · rintro row rfl
      cases hs
    · intro reason hreason
      rw [hjudge] at hreason
      cases hreason

/-- The exception that the handler takes for a refusal of the store is told apart. -/
def storedOf : Option Verdict → Stored
  | none => .storageFailed
  | some (.accepted key) => .accepted key
  | some (.rejected row) => .rejected row.reason

structure Handled (pil : Pillow) (maxImageSizeMb userId : ℕ) (file : UploadFile) (t : Puts)
    (r : Except Failure (Option Verdict)) : Prop where
  stocked : Stocked pil userId t
  returned : ∀ result, r = .ok result → acceptedKeys [storedOf result] = delivered t ∧
    Agrees pil maxImageSizeMb file (storedOf result) ∧
    ∀ row, result = some (.rejected row) → row.displayName = safeFilename file.filename
  raised : ∀ e, r = .error e → isHttp e = false

theorem Judged.handled {file : UploadFile} {t : Puts} {verdict : Verdict}
    (h : Judged pil maxImageSizeMb userId file t (.ok verdict)) :
    Handled pil maxImageSizeMb userId file t (.ok (some verdict)) := by
  refine ⟨h.stocked,?_,fun e he => by cases he⟩
  rintro result hresult
  cases hresult
  rw [h.delivered]
  cases verdict with
  | accepted key =>
    refine ⟨rfl,fun reason => ⟨fun heq => (by cases heq),fun hrefused => ?_⟩,fun row hrow => by cases hrow⟩
    obtain ⟨row,hrow⟩ := h.refused reason hrefused
    cases hrow
  | rejected row =>
    obtain ⟨hname,hjudge⟩ := h.rejected row rfl
    refine ⟨rfl,fun reason => ?_,fun row' hrow => by cases hrow; exact hname⟩
    simp only [storedOf,hjudge,Stored.rejected.injEq,Judgement.refused.injEq]

theorem Judged.unstored {file : UploadFile} {t : Puts} {e : Failure}
    (h : Judged pil maxImageSizeMb userId file t (.error e)) :
    Handled pil maxImageSizeMb userId file t (.ok none) := by
  refine ⟨h.stocked,?_,fun e he => by cases he⟩
  rintro result hresult
  cases hresult
  rw [h.delivered]
  refine ⟨rfl,fun reason => ⟨fun heq => (by cases heq),fun hrefused => ?_⟩,fun row hrow => by cases hrow⟩
  obtain ⟨row,hrow⟩ := h.refused reason hrefused
  cases hrow

theorem handled_leaves (huser : 1 ≤ userId) (file : UploadFile) :
    Leaves ((some <$> storeUpload pil maxImageSizeMb userId file).handle fun
      | .httpException _ _ => pure none
      | e => Program.raise e) (Handled pil maxImageSizeMb userId file) := by
  refine Leaves.handle (P := fun t r => ∃ r', r = r'.map some ∧ Judged pil maxImageSizeMb userId file t r')
    ((storeUpload_leaves huser file).map fun t r h => ⟨r,rfl,h⟩) ?_ ?_
  · rintro t a ⟨e | verdict,hr,h⟩
    · cases hr
    · cases hr
      exact h.handled
  · rintro t e ⟨e' | verdict,hr,h⟩
    · cases hr
      cases e with
      | httpException code detail =>
        refine leaves_pure ?_
        rw [List.append_nil]
        exact h.unstored
      | other raised =>
        refine leaves_raise ?_
        rw [List.append_nil]
        refine ⟨h.stocked,fun result hresult => (by cases hresult),?_⟩
        rintro e he
        cases he
        rfl
    · cases hr

theorem uploadOne_leaves (huser : 1 ≤ userId) (b : Batch) (part : UploadFile) :
    Leaves (uploadOne pil maxImageSizeMb maxImages userId b part) fun t r => Stocked pil userId t ∧
      (∀ b', r = .ok b' → ∃ s, Served pil maxImageSizeMb maxImages userId b part t b' s) ∧
      ∀ e, r = .error e → isHttp e = false := by
  unfold uploadOne
  split_ifs with hfree
  · refine leaves_pure ⟨stocked_nil,?_,fun e he => by cases he⟩
    rintro b' hb'
    cases hb'
    refine ⟨unasked (judge pil maxImageSizeMb part.content),agrees_unasked part,?_,?_,fun _ => rfl⟩
    · rw [uploadPart,if_pos hfree]
    · cases judge pil maxImageSizeMb part.content <;> rfl
  · refine (handled_leaves huser part).bind ?_ ?_
    · exact fun t e h => ⟨h.stocked,fun b' hb' => (by cases hb'),fun e' he => h.raised e' (by cases he; rfl)⟩
    · intro t result h
      obtain ⟨hdelivered,hagrees,hname⟩ := h.returned result rfl
      have hserved : ∀ b', b' = uploadPart maxImages b (safeFilename part.filename,storedOf result) →
          Served pil maxImageSizeMb maxImages userId b part t b' (storedOf result) :=
        fun b' hb' => ⟨hagrees,hb',hdelivered,fun hzero => absurd hzero hfree⟩
      have hreturn : ∀ b', b' = uploadPart maxImages b (safeFilename part.filename,storedOf result) →
          Leaves (pure b' : Upload Batch) fun t' r => Stocked pil userId (t++t') ∧
            (∀ b'', r = .ok b'' → ∃ s, Served pil maxImageSizeMb maxImages userId b part (t++t') b'' s) ∧
            ∀ e, r = .error e → isHttp e = false := by
        intro b' hb'
        refine leaves_pure ?_
        rw [List.append_nil]
        refine ⟨h.stocked,?_,fun e he => by cases he⟩
        rintro b'' hb''
        cases hb''
        exact ⟨_,hserved b' hb'⟩
      rcases result with _ | key | row
      · exact hreturn _ (by simp [uploadPart,hfree,storedOf])
      · exact hreturn _ (by simp [uploadPart,hfree,storedOf])
      · refine hreturn _ ?_
        have hrow := hname row rfl
        simp [uploadPart,hfree,storedOf,Batch.refuse,← hrow]

structure Grown (maxImageSizeMb maxImages : ℕ) (b : Batch) (t : Puts) (b' : Batch) : Prop where
  keys : b'.imageKeys = b.imageKeys ++ delivered t
  places : b'.free+(delivered t).length = b.free
  attached : b'.attached = (b.attached || decide (delivered t ≠ []))
  rows : ∀ row ∈ b'.refusals, row ∈ b.refusals ∨ Readable maxImageSizeMb maxImages row

theorem grown_refuse {b : Batch} {name reason : String} {t : Puts} (ht : delivered t = [])
    (hname : SafeName name) (hreason : reason ∈ reasons maxImageSizeMb maxImages) :
    Grown maxImageSizeMb maxImages b t (b.refuse name reason) := by
  refine ⟨?_,?_,?_,?_⟩
  · simp [Batch.refuse,ht]
  · simp [Batch.refuse,ht]
  · simp [Batch.refuse,ht]
  · intro row hrow
    rcases List.mem_append.mp hrow with hold | hnew
    · exact .inl hold
    · rw [List.mem_singleton.mp hnew]
      exact .inr ⟨.inr hname,hreason⟩

theorem Served.grown {b b' : Batch} {part : UploadFile} {t : Puts} {s : Stored}
    (h : Served pil maxImageSizeMb maxImages userId b part t b' s) : Grown maxImageSizeMb maxImages b t b' := by
  have hname := safeName_safeFilename part.filename
  have haccepted := h.accepted
  rw [h.moved]
  unfold uploadPart
  split_ifs with hfree
  · refine grown_refuse (by rw [h.full hfree]; rfl) hname (by simp [reasons])
  · cases s with
    | accepted key =>
      have ht : delivered t = [key] := haccepted.symm
      have hfree : b.free ≠ 0 := hfree
      refine ⟨by simp [Batch.attach,ht],?_,by simp [Batch.attach,ht],fun row hrow => .inl hrow⟩
      rw [ht]
      change b.free-1+1 = b.free
      omega
    | rejected reason =>
      refine grown_refuse haccepted.symm hname ?_
      have hreason := judge_reason ((h.agrees reason).mp rfl)
      exact List.mem_append_left [uploadLimitMessage maxImages,storageUnavailableMessage,inaccessibleImageMessage,
        uploadPartsMessage maxUploadParts] hreason
    | storageFailed => exact grown_refuse haccepted.symm hname (by simp [reasons])

theorem Grown.trans {b b' b'' : Batch} {t t' : Puts} (h : Grown maxImageSizeMb maxImages b t b')
    (h' : Grown maxImageSizeMb maxImages b' t' b'') :
    Grown maxImageSizeMb maxImages b (t++t') b'' where
  keys := by rw [h'.keys,h.keys,delivered_append,List.append_assoc]
  places := by
    have hplaces := h.places
    have hplaces' := h'.places
    rw [delivered_append,List.length_append]
    omega
  attached := by
    rw [h'.attached,h.attached,delivered_append]
    cases delivered t <;> cases delivered t' <;> simp
  rows := fun row hrow => (h'.rows row hrow).elim (h.rows row) .inr

def shownName (part : UploadFile) : String := safeFilename part.filename

theorem uploadParts_leaves (huser : 1 ≤ userId) (parts : List UploadFile) (b : Batch) :
    Leaves (uploadParts pil maxImageSizeMb maxImages userId parts b) fun t r => Stocked pil userId t ∧
      (∀ b', r = .ok b' → Grown maxImageSizeMb maxImages b t b' ∧
        ∃ stored, List.Forall₂ (Agrees pil maxImageSizeMb) parts stored ∧ acceptedKeys stored = delivered t ∧
          b' = ((parts.map shownName).zip stored).foldl (uploadPart maxImages) b) ∧
      ∀ e, r = .error e → isHttp e = false := by
  induction parts generalizing b with
  | nil =>
    refine leaves_pure ⟨stocked_nil,?_,fun e he => by cases he⟩
    rintro b' hb'
    cases hb'
    exact ⟨⟨by simp [delivered],by simp [delivered],by simp [delivered],fun row hrow => .inl hrow⟩,[],.nil,rfl,rfl⟩
  | cons part parts ih =>
    unfold uploadParts
    refine (uploadOne_leaves huser b part).bind ?_ ?_
    · exact fun t e h => ⟨h.1,fun b' hb' => (by cases hb'),fun e' he => h.2.2 e' (by cases he; rfl)⟩
    · rintro t b' ⟨hstocked,hserved,_⟩
      obtain ⟨s,hs⟩ := hserved b' rfl
      refine (ih b').mono fun t' r ⟨hstocked',hrun,hraised⟩ => ⟨hstocked.append hstocked',?_,hraised⟩
      intro b'' hb''
      obtain ⟨hgrown,stored,hagrees,haccepted,hfold⟩ := hrun b'' hb''
      refine ⟨hs.grown.trans hgrown,s::stored,.cons hs.agrees hagrees,?_,?_⟩
      · rw [acceptedKeys_cons,hs.accepted,haccepted,delivered_append]
      · rw [hfold,hs.moved]
        rfl

/-- Each file has one outcome, in the order of the files: a key that the store has taken, or a row under the
name of the file. -/
def Outcomes (pil : Pillow) (maxImageSizeMb maxImages userId : ℕ) (form : Form) (t : Puts) (keys : List Key)
    (rows : List Rejected) (attached : Bool) : Prop :=
  ∃ stored free, List.Forall₂ (Agrees pil maxImageSizeMb) form.parts stored ∧ acceptedKeys stored = delivered t ∧
    ((form.parts.map shownName).zip stored).foldl (uploadPart maxImages)
      ⟨(form.keys userId).1,[],maxImages-(form.keys userId).1.length,false⟩ = ⟨keys,rows,free,attached⟩

/-- The tray shows the keys of the form and the images that the store has taken. A foreign key turns every
file away, with one more row at the head. -/
structure Tray (pil : Pillow) (maxImageSizeMb maxImages userId : ℕ) (form : Form) (t : Puts) (keys : List Key)
    (rows : List Rejected) (attached : Bool) : Prop where
  shown : keys = (form.keys userId).1 ++ delivered t
  own : ∀ key ∈ keys, isOwnImageKey userId key = true
  bounded : keys.length ≤ max maxImages (form.keys userId).1.length
  fresh : attached = decide (delivered t ≠ [])
  foreign : form.foreign userId = true → t = [] ∧ rows = ⟨"",inaccessibleImageMessage⟩::form.parts.map fun part =>
    ⟨shownName part,inaccessibleImageMessage⟩
  outcomes : form.foreign userId = false → Outcomes pil maxImageSizeMb maxImages userId form t keys rows attached
  readable : ∀ row ∈ rows, Readable maxImageSizeMb maxImages row

/-- A request and the store agree on what has been uploaded. More than 64 parts are turned away with one row,
and a refusal of the store is never raised. -/
structure Accounted (pil : Pillow) (maxImageSizeMb maxImages userId : ℕ) (form : Form) (t : Puts)
    (r : Except Failure UploadReply) : Prop where
  stocked : Stocked pil userId t
  tray : ∀ keys rows attached, r = .ok (.strip keys rows attached) →
    Tray pil maxImageSizeMb maxImages userId form t keys rows attached
  unread : ∀ rows, r = .ok (.refusals rows) → t = [] ∧ rows = [⟨"",uploadPartsMessage maxUploadParts⟩] ∧
    (maxUploadParts < (form.filterMap fun item => item.2.file?).length ∨
      maxUploadParts < (form.filterMap fun item => item.2.text?).length)
  raised : ∀ e, r = .error e → isHttp e = false

/-- What the browser sends of the page: the hidden fields of the tray and the selection. -/
def browserForm (images : List Key) (files : List UploadFile) : Form :=
  images.map (fun key => ("images",Field.text key)) ++ files.map fun file => ("files",Field.file file)

section BrowserForm

variable (images : List Key) (files : List UploadFile)

theorem getlist_images : getlist (browserForm images files) "images" = images.map .text := by
  simp [getlist,browserForm,List.filter_map,Function.comp_def]

theorem parts_browserForm : (browserForm images files).parts = files := by
  simp [Form.parts,getlist,browserForm,List.filter_map,Function.comp_def,List.filterMap_map,Field.file?]

theorem keys_browserForm : (browserForm images files).keys userId =
    partitionOwnImageKeys (images.filter notBlank) userId := by
  simp [Form.keys,getlist_images,List.filterMap_map,Function.comp_def,Field.text?]

theorem foreign_browserForm : (browserForm images files).foreign userId =
    decide ((partitionOwnImageKeys (images.filter notBlank) userId).2 ≠ []) := by
  simp [Form.foreign,keys_browserForm,getlist_images,List.filterMap_map,Function.comp_def,Field.text?]

theorem files_browserForm : ((browserForm images files).filterMap fun item => item.2.file?) = files := by
  simp [browserForm,List.filterMap_map,Field.file?]

theorem texts_browserForm : ((browserForm images files).filterMap fun item => item.2.text?) = images := by
  simp [browserForm,List.filterMap_map,Field.text?]

end BrowserForm

theorem forall₂_unasked (files : List UploadFile) : List.Forall₂ (Agrees pil maxImageSizeMb) files
    (files.map fun file => unasked (judge pil maxImageSizeMb file.content)) := by
  rw [List.forall₂_map_right_iff]
  exact List.forall₂_same.mpr fun file _ => agrees_unasked file

theorem acceptedKeys_unasked (files : List UploadFile) :
    acceptedKeys (files.map fun file => unasked (judge pil maxImageSizeMb file.content)) = [] := by
  unfold acceptedKeys
  rw [List.filterMap_eq_nil_iff]
  refine List.forall_mem_map.mpr fun file _ => ?_
  cases judge pil maxImageSizeMb file.content <;> rfl

theorem acceptedWithin_unasked (images : List Key) (files : List UploadFile) :
    acceptedWithin userId maxImages ⟨images,files.map shownName⟩
      (files.map fun file => unasked (judge pil maxImageSizeMb file.content)) = [] := by
  have hsub := acceptedWithin_sublist userId maxImages ⟨images,files.map shownName⟩
    (files.map fun file => unasked (judge pil maxImageSizeMb file.content))
  rw [acceptedKeys_unasked] at hsub
  exact List.sublist_nil.mp hsub

theorem adsImagesUpload_leaves (huser : 1 ≤ userId) (images : List Key) (files : List UploadFile) :
    Leaves (adsImagesUpload pil maxImageSizeMb maxImages userId (browserForm images files)) fun t r =>
      Stocked pil userId t ∧ ∀ reply, r = .ok reply →
        ∃ stored, List.Forall₂ (Agrees pil maxImageSizeMb) files stored ∧ acceptedKeys stored = delivered t ∧
          acceptedWithin userId maxImages ⟨images,files.map shownName⟩ stored = delivered t ∧
          reply = AdEditor.adsImagesUpload userId maxImages ⟨images,files.map shownName⟩ stored := by
  unfold adsImagesUpload AdEditor.adsImagesUpload
  simp only [files_browserForm,texts_browserForm,keys_browserForm,foreign_browserForm,parts_browserForm,
    List.length_map,decide_eq_true_eq]
  split_ifs with hlimit hforeign
  · refine leaves_pure ⟨stocked_nil,?_⟩
    rintro reply hreply
    cases hreply
    exact ⟨_,forall₂_unasked files,acceptedKeys_unasked files,acceptedWithin_unasked images files,rfl⟩
  · refine leaves_pure ⟨stocked_nil,?_⟩
    rintro reply hreply
    cases hreply
    refine ⟨_,forall₂_unasked files,acceptedKeys_unasked files,acceptedWithin_unasked images files,?_⟩
    simp only [List.map_map,Function.comp_def,shownName]
  · refine (uploadParts_leaves huser files _).bind (fun t e h => ⟨h.1,fun _ hr => by cases hr⟩) ?_
    rintro t b ⟨hstocked,hrun,_⟩
    obtain ⟨hgrown,stored,hagrees,haccepted,hfold⟩ := hrun b rfl
    refine leaves_pure ?_
    rw [List.append_nil]
    refine ⟨hstocked,?_⟩
    rintro reply hreply
    cases hreply
    refine ⟨stored,hagrees,haccepted,?_,by rw [← hfold]⟩
    have hplaces := hgrown.places
    dsimp only at hplaces
    have hgo : ¬(maxUploadParts < (files.map shownName).length ∨ maxUploadParts < images.length ∨
        (partitionOwnImageKeys (images.filter notBlank) userId).2 ≠ []) := by
      rw [List.length_map,← or_assoc]
      exact not_or.mpr ⟨hlimit,hforeign⟩
    unfold acceptedWithin
    dsimp only
    rw [if_neg hgo,haccepted]
    exact List.take_of_length_le (by omega)

/-- The upload of the page machine is the one of the handler: each file is refused exactly as its content is
worth, and the keys that the machine takes for accepted are those of the images that the store has taken. -/
theorem handler_moves_page (pil : Pillow) (maxImageSizeMb : ℕ) (site : EditorPage.Site) (s : EditorPage.State)
    (images : List Key) (files : List UploadFile) (huser : 1 ≤ site.userId)
    (hsent : s.upload = .sent ⟨images,files.map shownName⟩) :
    Leaves (adsImagesUpload pil maxImageSizeMb site.maxImages site.userId (browserForm images files)) fun t r =>
      ∀ reply, r = .ok reply → ∃ stored, List.Forall₂ (Agrees pil maxImageSizeMb) files stored ∧
        acceptedKeys stored = delivered t ∧ ((delivered t).Nodup → (∀ key ∈ delivered t, key ∉ s.known) →
          EditorPage.step site s (.processUpload stored) =
            some (s.processedUpload reply (delivered t))) := by
  refine (adsImagesUpload_leaves huser images files).mono fun t r ⟨hstocked,hreply⟩ reply hr => ?_
  obtain ⟨stored,hagrees,haccepted,hwithin,heq⟩ := hreply reply hr
  refine ⟨stored,hagrees,haccepted,fun hnodup hnew => ?_⟩
  have hlength : stored.length = (files.map shownName).length := by
    rw [List.length_map]
    exact hagrees.length_eq.symm
  have hfresh : EditorPage.Fresh site s stored := by
    unfold EditorPage.Fresh
    rw [haccepted]
    refine ⟨hnodup,fun key hkey => ⟨hstocked.own key hkey,?_⟩⟩
    have hknown := hnew key hkey
    rwa [EditorPage.State.known,List.mem_append,not_or] at hknown
  unfold EditorPage.step
  simp only [hsent,hlength,hfresh,and_self,if_true,heq,hwithin]

/-- A JPEG of two by two pixels, which needs no change. -/
def twoByTwo : Pillow where
  File := Unit
  Image := Unit
  openFile := fun _ => .ok ()
  format := fun _ => some "JPEG"
  fileSize := fun _ => (2,2)
  draft := fun file _ => .ok file
  exifTranspose := fun _ => .ok ()
  size := fun _ => (2,2)
  mode := fun _ => "RGB"
  bands := fun _ => ["R","G","B"]
  transparency := fun _ => false
  convert := fun image _ => .ok image
  alphaMin := fun _ => .ok 255
  pasteOnWhite := fun image => .ok image
  resize := fun image _ => .ok image
  save := fun _ _ _ => .ok [0xff,0xd8,0xff,0xd9]

def withoutThumbnails : Server Call.Value Failure := fun _ call =>
  match call with
  | .uuid4 => .ok tokenOfZeros
  | .put key _ _ => if isThumb key then .error (.other ⟨"ClientError","SlowDown"⟩) else .ok ()

def cat : UploadFile := ⟨some "cat.jpeg",[[0xff,0xd8],[0xff,0xe0]]⟩

def note : UploadFile := ⟨some "заметка.txt",[[0x68,0x69]]⟩

def catKey : Key := "7/00000000000000000000000000000000_cat.jpg"

def catReply : UploadReply := .strip [catKey] [⟨"_______.txt",unsupportedImageMessage⟩] true

def catRun : Except Failure UploadReply × Puts :=
  adsImagesUpload twoByTwo 10 10 7 (browserForm [] [cat,note]) withoutThumbnails []

theorem catRun_eq : catRun = (.ok catReply,[⟨.uuid4,.ok tokenOfZeros⟩,
    ⟨.put catKey [0xff,0xd8,0xff,0xd9] "image/jpeg",.ok ()⟩,
    ⟨.put (thumbKey catKey) [0xff,0xd8,0xff,0xd9] "image/jpeg",.error (.other ⟨"ClientError","SlowDown"⟩)⟩]) := by
  rfl

def newAdOfSeven : EditorPage.Site := ⟨7,10,.adsNew⟩

def catSelected : EditorPage.State where
  document := ⟨"","",[],[],none,[shownName cat,shownName note],[]⟩
  ads := Store.empty Ad
  save := .idle
  saveQueued := none
  upload := .sent ⟨[],[cat,note].map shownName⟩
  uploadQueued := false
  started := []
  accepted := []
  saved := []
  clicked := []

theorem handler_moves_page_cat : ∃ stored, acceptedKeys stored = [catKey] ∧
    EditorPage.step newAdOfSeven catSelected (.processUpload stored) =
      some (catSelected.processedUpload catReply [catKey]) := by
  obtain ⟨t,ht,h⟩ := handler_moves_page twoByTwo 10 newAdOfSeven catSelected [] [cat,note] (by decide) rfl
    withoutThumbnails []
  have hrun : t = catRun.2 := (ht.trans (List.nil_append t)).symm
  have hdelivered : delivered t = [catKey] := by
    rw [hrun,catRun_eq]
    decide +kernel
  obtain ⟨stored,_,haccepted,hstep⟩ := h catReply (congrArg Prod.fst catRun_eq)
  rw [hdelivered] at haccepted hstep
  refine ⟨stored,haccepted,hstep (List.nodup_singleton catKey) ?_⟩
  simp [EditorPage.State.known,catSelected]

end UploadStore
end Broadcaster
