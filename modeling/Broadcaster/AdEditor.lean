import Broadcaster.SchedulePages
import Broadcaster.Scheduling
import Mathlib.Data.List.TakeWhile

/-!
# Saving an ad and uploading its attachments

The handlers behind the two forms of the editor page, as they answer htmx. A key
is fixed by its text; the id of a tile is a digest of its key, and a tile is
found by its key here. Of a file only the name that is shown in a refusal and
what becomes of it in `store_upload` are seen.
-/

namespace Broadcaster
namespace AdEditor

open Python SchedulePages Scheduling

abbrev Key := String

def isHexDigit (c : Char) : Bool := c.isDigit || ('a' ≤ c && c ≤ 'f')

/-- A character of `[A-Za-z0-9._-]`. -/
def isNameChar (c : Char) : Bool := c.isAlphanum || c = '.' || c = '_' || c = '-'

/-- The user's number in a key that has the form of `_IMAGE_KEY_PATTERN`. -/
def imageKeyUser (key : Key) : Option (List Char) :=
  let number := key.toList.takeWhile Char.isDigit
  match key.toList.dropWhile Char.isDigit with
  | '/'::rest =>
    let hex := rest.take 32
    match rest.drop 32 with
    | '_'::name =>
      if number ≠ [] ∧ number.head? ≠ some '0' ∧ hex.length = 32 ∧ hex.all isHexDigit ∧
        name.all isNameChar ∧ 1 ≤ name.length ∧ name.length ≤ 100 then some number else none
    | _ => none
  | _ => none

def isOwnImageKey (userId : ℕ) (key : Key) : Bool := imageKeyUser key = some (toString userId).toList

def partitionOwnImageKeys (values : List Key) (userId : ℕ) : List Key × List Key :=
  values.partition (isOwnImageKey userId)

inductive EditorError
  | tooManyImages (maxImages : ℕ) | inaccessibleImage | inaccessibleAd
  deriving DecidableEq

def inaccessibleImageMessage : String :=
  "Одно из вложений недоступно. Обновите страницу и добавьте изображение заново."

def EditorError.message : EditorError → String
  | .tooManyImages maxImages => "Объявление не сохранено: вложений больше " ++ toString maxImages ++
      ". Удалите лишние и нажмите «Сохранить»."
  | .inaccessibleImage => inaccessibleImageMessage
  | .inaccessibleAd => "Объявление недоступно. Обновите страницу и попробуйте снова."

def ownImageKeys (values : List Key) (userId maxImages : ℕ) : Except EditorError (List Key) :=
  if maxImages < values.length then .error (.tooManyImages maxImages)
  else if (partitionOwnImageKeys values userId).2 ≠ [] then .error .inaccessibleImage
  else .ok (partitionOwnImageKeys values userId).1

/-- What has set off a save: a delay or an event of the page, or one of the named buttons. -/
inductive Button
  | autosave | removeImage (key : Key) | save
  deriving DecidableEq

structure AdForm where
  title : String
  text : String
  images : List Key
  removedImages : List Key
  button : Button
  adId : Option ℕ
  deriving DecidableEq

def AdForm.removeImage (form : AdForm) : Option Key :=
  match form.button with
  | .removeImage key => some key
  | .autosave | .save => none

def AdForm.explicitSave (form : AdForm) : Bool := form.button = .save

/-- The parts of the answer that change the page. -/
structure Fragment where
  error : Option EditorError
  mediaGone : List Key
  mediaTombstone : Option Key
  adId : Option ℕ
  deriving DecidableEq

inductive Reply
  | fragment (f : Fragment) | redirect
  deriving DecidableEq

def notBlank (value : String) : Bool := strip value ≠ ""

/-- `target` is the ad to change, with its id; without one an ad is created. -/
def saveFromEditor (userId maxImages : ℕ) (ads : Store Ad) (target : Option (ℕ × Ad)) (form : AdForm) :
    Store Ad × Reply :=
  let removalMarks := form.removedImages.filter notBlank
  let snapshot := form.images.filter notBlank
  let resurrected := snapshot.eraseDups.filter fun v => v ∈ removalMarks
  let subtracted := snapshot.filter fun v => v ∉ removalMarks
  match ownImageKeys subtracted userId maxImages with
  | .error e => (ads,.fragment ⟨some e,[],none,target.map Prod.fst⟩)
  | .ok imageList =>
    let removed := form.removeImage.filter fun key => key ≠ "" ∧ key ∈ imageList
    let images := removed.elim imageList fun key => imageList.erase key
    let status := fun old => if form.explicitSave then adStatusPublished else old
    let fragment := fun adId => Reply.fragment ⟨none,resurrected ++ removed.toList,removed,some adId⟩
    match target with
    | none => (ads.insert ⟨userId,form.title,form.text,images,status adStatusDraft⟩,fragment ads.size)
    | some (adId,ad) =>
      (ads.update adId fun _ =>
        { ad with title := form.title, text := form.text, images := images, status := status ad.status },
        fragment adId)

def adOfUser (userId : ℕ) (ads : Store Ad) (adId : ℕ) : Option Ad :=
  (ads.row adId).filter fun ad => ad.userId = userId

/-- `POST /ads/new` -/
def adsCreate (userId maxImages : ℕ) (ads : Store Ad) (form : AdForm) : Store Ad × Reply :=
  match form.adId with
  | none => saveFromEditor userId maxImages ads none form
  | some adId =>
    match adOfUser userId ads adId with
    | none => (ads,.fragment ⟨some .inaccessibleAd,[],none,none⟩)
    | some ad => saveFromEditor userId maxImages ads (some (adId,ad)) form

/-- `POST /ads/{ad_id}/edit` -/
def adsUpdate (userId maxImages : ℕ) (ads : Store Ad) (adId : ℕ) (form : AdForm) : Store Ad × Reply :=
  match adOfUser userId ads adId with
  | none => (ads,.redirect)
  | some ad => saveFromEditor userId maxImages ads (some (adId,ad)) form

def maxUploadParts : ℕ := 64

/-- The files of one selection are sent with the keys that are on the page. -/
structure UploadForm where
  images : List Key
  files : List String
  deriving DecidableEq

/-- What becomes of one file in `store_upload`. -/
inductive Stored
  | accepted (key : Key) | rejected (reason : String) | storageFailed
  deriving DecidableEq

structure Rejected where
  displayName : String
  reason : String
  deriving DecidableEq

def storageUnavailableMessage : String :=
  "файл не сохранился — хранилище сейчас недоступно, попробуйте ещё раз через минуту"

def uploadLimitMessage (maxImages : ℕ) : String :=
  "Можно прикрепить не больше " ++ toString maxImages ++ " вложений. Удалите лишние и попробуйте снова."

def uploadPartsMessage (maxParts : ℕ) : String :=
  "за один раз можно отправить не больше " ++ toString maxParts ++
    " файлов — выберите меньше и попробуйте снова"

structure Batch where
  imageKeys : List Key
  refusals : List Rejected
  free : ℕ
  attached : Bool
  deriving DecidableEq

def Batch.refuse (b : Batch) (displayName reason : String) : Batch :=
  { b with refusals := b.refusals ++ [⟨displayName,reason⟩] }

def Batch.attach (b : Batch) (key : Key) : Batch :=
  { b with imageKeys := b.imageKeys ++ [key], free := b.free-1, attached := true }

def uploadPart (maxImages : ℕ) (b : Batch) (part : String × Stored) : Batch :=
  if b.free = 0 then b.refuse part.1 (uploadLimitMessage maxImages)
  else match part.2 with
    | .accepted key => b.attach key
    | .rejected reason => b.refuse part.1 reason
    | .storageFailed => b.refuse part.1 storageUnavailableMessage

/-- Rows to be added to what is shown, or everything that is to be shown. -/
inductive UploadReply
  | refusals (rows : List Rejected)
  | strip (imageKeys : List Key) (refusals : List Rejected) (attached : Bool)
  deriving DecidableEq

/-- `stored` says what becomes of each file that is handed to `store_upload`. -/
def adsImagesUpload (userId maxImages : ℕ) (form : UploadForm) (stored : List Stored) : UploadReply :=
  if maxUploadParts < form.files.length ∨ maxUploadParts < form.images.length then
    .refusals [⟨"",uploadPartsMessage maxUploadParts⟩]
  else
    let keys := partitionOwnImageKeys (form.images.filter notBlank) userId
    if keys.2 ≠ [] then
      .strip keys.1
        (⟨"",inaccessibleImageMessage⟩::form.files.map fun file => ⟨file,inaccessibleImageMessage⟩) false
    else
      let b := (form.files.zip stored).foldl (uploadPart maxImages)
        ⟨keys.1,[],maxImages-keys.1.length,false⟩
      .strip b.imageKeys b.refusals b.attached

structure GoodKeys (userId maxImages : ℕ) (keys : List Key) : Prop where
  own : ∀ k ∈ keys, isOwnImageKey userId k = true
  nodup : keys.Nodup
  bounded : keys.length ≤ maxImages

variable {userId maxImages : ℕ} {keys : List Key} {k : Key} {form : AdForm} {ads : Store Ad}

theorem GoodKeys.filter (h : GoodKeys userId maxImages keys) (p : Key → Bool) :
    GoodKeys userId maxImages (keys.filter p) where
  own := fun k hk => h.own k (List.mem_of_mem_filter hk)
  nodup := h.nodup.filter p
  bounded := Nat.le_trans (List.length_filter_le p keys) h.bounded

theorem mem_spaces_of_stripChars {spaces cs : List Char} (h : stripChars spaces cs = []) {c : Char}
    (hc : c ∈ cs) : c ∈ spaces := by
  unfold stripChars at h
  rw [List.reverse_eq_nil_iff] at h
  have hdrop : cs.dropWhile spaces.contains = [] := by
    cases hd : cs.dropWhile spaces.contains with
    | nil => rfl
    | cons d ds =>
      have hfirst := List.head?_dropWhile_not spaces.contains cs
      rw [hd] at h hfirst
      have hspace := List.dropWhile_eq_nil_iff.mp h d (List.mem_reverse.mpr List.mem_cons_self)
      simp only [List.head?_cons,hspace] at hfirst
      cases hfirst
  have hspace := List.dropWhile_eq_nil_iff.mp hdrop c hc
  simpa using hspace

theorem notBlank_of_own (h : isOwnImageKey userId k = true) : notBlank k = true := by
  have hslash : '/' ∈ k.toList := by
    have huser : imageKeyUser k = some (toString userId).toList := of_decide_eq_true h
    unfold imageKeyUser at huser
    cases hrest : k.toList.dropWhile Char.isDigit with
    | nil =>
      rw [hrest] at huser
      cases huser
    | cons c rest =>
      by_cases hc : c = '/'
      · subst hc
        exact (List.dropWhile_sublist _).subset (hrest ▸ List.mem_cons_self)
      · rw [hrest] at huser
        simp [hc] at huser
  refine decide_eq_true fun hstrip => ?_
  have hnil : stripChars strSpaces k.toList = [] := by
    have hlist := congrArg String.toList hstrip
    simpa [strip] using hlist
  exact absurd (mem_spaces_of_stripChars hnil hslash) (by decide)

theorem GoodKeys.filter_notBlank (h : GoodKeys userId maxImages keys) : keys.filter notBlank = keys :=
  List.filter_eq_self.mpr fun k hk => notBlank_of_own (h.own k hk)

theorem GoodKeys.partition (h : GoodKeys userId maxImages keys) :
    partitionOwnImageKeys keys userId = (keys,[]) := by
  unfold partitionOwnImageKeys
  rw [List.partition_eq_filter_filter,List.filter_eq_self.mpr h.own]
  refine Prod.ext rfl ?_
  refine List.filter_eq_nil_iff.mpr fun k hk => ?_
  simp [h.own k hk]

theorem GoodKeys.ownImageKeys (h : GoodKeys userId maxImages keys) :
    ownImageKeys keys userId maxImages = .ok keys := by
  unfold AdEditor.ownImageKeys
  rw [if_neg (Nat.not_lt.mpr h.bounded),h.partition]
  rfl

theorem adOfUser_eq_some {adId : ℕ} {ad : Ad} :
    adOfUser userId ads adId = some ad ↔ ads.row adId = some ad ∧ ad.userId = userId := by
  unfold adOfUser
  rw [Option.filter_eq_some_iff,decide_eq_true_eq]

def AdForm.kept (form : AdForm) : List Key := form.images.filter fun v => v ∉ form.removedImages

def AdForm.dropped (form : AdForm) : Option Key := form.removeImage.filter fun key => key ∈ form.kept

def AdForm.stored (form : AdForm) : List Key := form.dropped.elim form.kept form.kept.erase

def AdForm.gone (form : AdForm) : List Key :=
  (form.images.eraseDups.filter fun v => v ∈ form.removedImages) ++ form.dropped.toList

def AdForm.newStatus (form : AdForm) (status : String) : String :=
  if form.explicitSave then adStatusPublished else status

theorem saveFromEditor_good (h : GoodKeys userId maxImages form.images) (target : Option (ℕ × Ad)) :
    saveFromEditor userId maxImages ads target form =
      match target with
      | none => (ads.insert ⟨userId,form.title,form.text,form.stored,form.newStatus adStatusDraft⟩,
          .fragment ⟨none,form.gone,form.dropped,some ads.size⟩)
      | some (adId,ad) =>
        (ads.update adId fun _ => { ad with
            title := form.title, text := form.text, images := form.stored, status := form.newStatus ad.status },
          .fragment ⟨none,form.gone,form.dropped,some adId⟩) := by
  have hmark : ∀ v ∈ form.images, (v ∈ form.removedImages.filter notBlank ↔ v ∈ form.removedImages) := by
    intro v hv
    rw [List.mem_filter]
    exact and_iff_left (notBlank_of_own (h.own v hv))
  have hkept : (form.images.filter fun v => v ∉ form.removedImages.filter notBlank) = form.kept := by
    refine List.filter_congr fun v hv => ?_
    simp only [hmark v hv]
  have hresurrected : (form.images.eraseDups.filter fun v => v ∈ form.removedImages.filter notBlank) =
      form.images.eraseDups.filter fun v => v ∈ form.removedImages := by
    refine List.filter_congr fun v hv => ?_
    simp only [hmark v (List.mem_eraseDups.mp hv)]
  have hgood : GoodKeys userId maxImages form.kept := h.filter _
  have hdropped : (form.removeImage.filter fun key => key ≠ "" ∧ key ∈ form.kept) = form.dropped := by
    have hne : ∀ key, (decide (key ≠ "" ∧ key ∈ form.kept)) = decide (key ∈ form.kept) := by
      intro key
      by_cases hk : key ∈ form.kept
      · have hkey : key ≠ "" := by
          rintro rfl
          exact absurd (notBlank_of_own (hgood.own _ hk)) (by decide)
        simp [hk,hkey]
      · simp [hk]
    unfold AdForm.dropped
    simp only [hne]
  unfold saveFromEditor
  simp only [h.filter_notBlank,hkept,hresurrected,hgood.ownImageKeys,hdropped]
  cases target <;> rfl

theorem dropped_eq_some : form.dropped = some k ↔
    form.button = .removeImage k ∧ k ∈ form.images ∧ k ∉ form.removedImages := by
  unfold AdForm.dropped AdForm.removeImage AdForm.kept
  cases form.button with
  | removeImage key =>
    simp only [Option.filter_eq_some_iff,Option.some.injEq,Button.removeImage.injEq]
    constructor
    · rintro ⟨rfl,hk⟩
      exact ⟨rfl,by simpa using hk⟩
    · rintro ⟨rfl,hk⟩
      exact ⟨rfl,by simpa using hk⟩
  | autosave => simp
  | save => simp

theorem mem_gone : k ∈ form.gone ↔ (k ∈ form.images ∧ k ∈ form.removedImages) ∨ form.dropped = some k := by
  simp [AdForm.gone]

/-- The answer takes from the page what the save has not stored. -/
theorem stored_eq_filter (h : form.images.Nodup) : form.stored = form.images.filter fun v => v ∉ form.gone := by
  have hkept : form.kept.Nodup := h.filter _
  unfold AdForm.stored
  cases hdropped : form.dropped with
  | none =>
    refine List.filter_congr fun v hv => ?_
    simp [mem_gone,hdropped,hv]
  | some key =>
    have hout : form.kept.erase key = form.kept.filter (· != key) := List.Nodup.erase_eq_filter hkept key
    rw [Option.elim_some,hout,AdForm.kept,List.filter_filter]
    refine List.filter_congr fun v hv => ?_
    by_cases hkey : v = key
    · subst hkey
      simp [mem_gone,hdropped]
    · simp [mem_gone,hdropped,hv,hkey,Ne.symm hkey]

theorem mem_stored (h : form.images.Nodup) : k ∈ form.stored ↔
    k ∈ form.images ∧ k ∉ form.removedImages ∧ form.button ≠ .removeImage k := by
  rw [stored_eq_filter h,List.mem_filter]
  simp only [decide_eq_true_eq,mem_gone,dropped_eq_some]
  constructor
  · rintro ⟨hk,hgone⟩
    have hmark : k ∉ form.removedImages := fun hm => hgone (.inl ⟨hk,hm⟩)
    exact ⟨hk,hmark,fun hb => hgone (.inr ⟨hb,hk,hmark⟩)⟩
  · rintro ⟨hk,hmark,hbutton⟩
    refine ⟨hk,?_⟩
    rintro (⟨_,hm⟩ | ⟨hb,_⟩)
    · exact hmark hm
    · exact hbutton hb

theorem GoodKeys.stored (h : GoodKeys userId maxImages form.images) :
    GoodKeys userId maxImages form.stored := by
  rw [stored_eq_filter h.nodup]
  exact h.filter _

def acceptedKeys (stored : List Stored) : List Key :=
  stored.filterMap fun
    | .accepted key => some key
    | .rejected _ | .storageFailed => none

/-- The keys that `store_upload` gives out: to no file when the request is turned away as a whole, and otherwise
to one file after another while a place is free. -/
def acceptedWithin (userId maxImages : ℕ) (form : UploadForm) (stored : List Stored) : List Key :=
  let keys := partitionOwnImageKeys (form.images.filter notBlank) userId
  if maxUploadParts < form.files.length ∨ maxUploadParts < form.images.length ∨ keys.2 ≠ [] then []
  else (acceptedKeys stored).take (maxImages-keys.1.length)

theorem acceptedKeys_cons (s : Stored) (ss : List Stored) :
    acceptedKeys (s::ss) = acceptedKeys [s] ++ acceptedKeys ss := by
  cases s <;> rfl

theorem uploadPart_cases (maxImages : ℕ) (b : Batch) (part : String × Stored) :
    ((∃ reason, uploadPart maxImages b part = b.refuse part.1 reason) ∧
        (b.free = 0 ∨ acceptedKeys [part.2] = [])) ∨
      ∃ key, part.2 = .accepted key ∧ 0 < b.free ∧ uploadPart maxImages b part = b.attach key := by
  unfold uploadPart
  split
  · exact .inl ⟨⟨_,rfl⟩,.inl ‹_›⟩
  · rename_i hfree
    obtain ⟨file,result⟩ := part
    cases result with
    | accepted key => exact .inr ⟨key,rfl,Nat.pos_of_ne_zero hfree,rfl⟩
    | rejected reason => exact .inl ⟨⟨_,rfl⟩,.inr rfl⟩
    | storageFailed => exact .inl ⟨⟨_,rfl⟩,.inr rfl⟩

theorem foldl_uploadPart (maxImages : ℕ) (parts : List (String × Stored)) (b : Batch) : ∃ rows free,
    parts.foldl (uploadPart maxImages) b =
      ⟨b.imageKeys ++ (acceptedKeys (parts.map Prod.snd)).take b.free,rows,free,
        b.attached || decide ((acceptedKeys (parts.map Prod.snd)).take b.free ≠ [])⟩ := by
  induction parts generalizing b with
  | nil => exact ⟨b.refusals,b.free,by simp [acceptedKeys]⟩
  | cons part parts ih =>
    rw [List.foldl_cons,List.map_cons,acceptedKeys_cons]
    rcases uploadPart_cases maxImages b part with ⟨⟨reason,h⟩,hnone⟩ | ⟨key,hkey,hfree,h⟩
    · obtain ⟨rows,free,hfold⟩ := ih (b.refuse part.1 reason)
      rw [h,hfold]
      rcases hnone with hfull | hnone
      · exact ⟨rows,free,by simp [Batch.refuse,hfull]⟩
      · exact ⟨rows,free,by simp [Batch.refuse,hnone]⟩
    · obtain ⟨rows,free,hfold⟩ := ih (b.attach key)
      obtain ⟨n,hn⟩ := Nat.exists_eq_add_one_of_ne_zero hfree.ne'
      rw [h,hfold,hkey,hn]
      exact ⟨rows,free,by simp [Batch.attach,acceptedKeys,hn]⟩

theorem acceptedWithin_sublist (userId maxImages : ℕ) (form : UploadForm) (stored : List Stored) :
    (acceptedWithin userId maxImages form stored).Sublist (acceptedKeys stored) := by
  unfold acceptedWithin
  dsimp only
  split_ifs
  · exact List.nil_sublist _
  · exact List.take_sublist _ _

theorem GoodKeys.acceptedWithin_bounded {form : UploadForm} (h : GoodKeys userId maxImages form.images)
    (stored : List Stored) : (form.images ++ acceptedWithin userId maxImages form stored).length ≤ maxImages := by
  have hbounded := h.bounded
  unfold acceptedWithin
  simp only [h.filter_notBlank,h.partition,List.length_append]
  split_ifs
  · simpa using hbounded
  · rw [List.length_take]
    omega

/-- With good keys an upload leaves what is shown as it is and adds rows, or shows the keys of the form and
after them those of the accepted files, and asks for a save when there are any. -/
theorem adsImagesUpload_good {form : UploadForm} {stored : List Stored}
    (h : GoodKeys userId maxImages form.images) (hlength : stored.length = form.files.length) :
    ((∃ rows, adsImagesUpload userId maxImages form stored = .refusals rows) ∧
        acceptedWithin userId maxImages form stored = []) ∨
      ∃ rows, adsImagesUpload userId maxImages form stored =
        .strip (form.images ++ acceptedWithin userId maxImages form stored) rows
          (decide (acceptedWithin userId maxImages form stored ≠ [])) := by
  unfold adsImagesUpload acceptedWithin
  by_cases hlimit : maxUploadParts < form.files.length ∨ maxUploadParts < form.images.length
  · have hturned : maxUploadParts < form.files.length ∨ maxUploadParts < form.images.length ∨
        (partitionOwnImageKeys (form.images.filter notBlank) userId).2 ≠ [] := hlimit.imp_right .inl
    rw [if_pos hlimit,if_pos hturned]
    exact .inl ⟨⟨_,rfl⟩,rfl⟩
  · obtain ⟨rows,free,hfold⟩ := foldl_uploadPart maxImages (form.files.zip stored)
      ⟨form.images,[],maxImages-form.images.length,false⟩
    have hsnd : (form.files.zip stored).map Prod.snd = stored := List.map_snd_zip hlength.le
    rw [hsnd] at hfold
    have hgo := not_or.mp hlimit
    simp only [h.filter_notBlank,h.partition,hfold,hgo,not_true_eq_false,ne_eq,or_self,if_false,Bool.false_or]
    exact .inr ⟨rows,rfl⟩

end AdEditor
end Broadcaster
