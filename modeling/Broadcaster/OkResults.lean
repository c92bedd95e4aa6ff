import Broadcaster.RepeatedDelivery

/-!
# What a result "ok" says about the group

Both workers publish "ok" when `send_message` has not raised. Images that cannot
be obtained are passed over: a file that is missing in WhatsApp, every download
that fails in MAX. When nothing else is left to send, nothing is sent.
-/

namespace Broadcaster
namespace AccountWorker

open Python

/-- `processTask` ends with the result "ok". -/
def PublishesOk (m : Messenger) (t : Task) (error : Option String) : Prop :=
  ∃ now r, afterSend m t now error = .publish r ∧ r.status = .ok

theorem publishesOk_iff (m : Messenger) (t : Task) (error : Option String) :
    PublishesOk m t error ↔ error = none := by
  constructor
  · rintro ⟨now,r,hr,hok⟩
    cases error with
    | none => rfl
    | some message =>
      rcases afterSend_cases t now message with ⟨_,hpc⟩ | ⟨_,_,_,hpc⟩ | ⟨_,_,_,hpc⟩
      · rw [hpc] at hr
        rw [← Pc.publish.inj hr] at hok
        cases hok
      all_goals
        rw [hpc] at hr
        cases hr
  · rintro rfl
    exact ⟨0,_,rfl,rfl⟩

section WhatsApp

variable {t : Task} {o : Outcomes}

/-- A message has been sent, and the caption when there is one. -/
def WaArrives (t : Task) (o : Outcomes) : Prop :=
  (sendMessage t o).1 ≠ [] ∧
    (t.caption ≠ "" → ∃ message ∈ (sendMessage t o).1, Item.caption.isIn message = true)

/-- All images are files that are missing, and the caption is not sent by itself: there is none, or it goes with
the only image. -/
def WaNothingLeft (t : Task) (o : Outcomes) : Prop :=
  o.session = true ∧ t.images ≠ [] ∧ (∀ p ∈ t.images.zipIdx, load p.1 (o.source p.2) = .missing) ∧
    (t.images.length = 1 ∨ t.caption = "")

def Outcomes.loads (o : Outcomes) (p : Json × ℕ) : Bool := load p.1 (o.source p.2) = .loaded

theorem sendImages_passed (withCaption : Bool) (ps : List (Json × ℕ)) (h : ∀ p ∈ ps, o.passes p = true) :
    (sendImages o withCaption ps).1 = (ps.filter o.loads).map fun p => .image p.2 withCaption := by
  induction ps with
  | nil => rfl
  | cons p rest ih =>
    obtain ⟨hp,hrest⟩ := List.forall_mem_cons.mp h
    obtain ⟨img,i⟩ := p
    simp only [Outcomes.passes] at hp
    simp only [sendImages]
    cases hload : load img (o.source i) with
    | failed message =>
      rw [hload] at hp
      cases hp
    | missing =>
      have hskip : o.loads (img,i) = false := by simp [Outcomes.loads,hload]
      rw [List.filter_cons_of_neg (by simp [hskip])]
      exact ih hrest
    | loaded =>
      have htake : o.loads (img,i) = true := by simp [Outcomes.loads,hload]
      rw [hload] at hp
      have hsent : o.image i = .sent := of_decide_eq_true hp
      rw [hsent,List.filter_cons_of_pos htake,List.map_cons]
      exact congrArg _ (ih hrest)

theorem loads_iff_of_passes {p : Json × ℕ} (h : o.passes p = true) :
    o.loads p = true ↔ load p.1 (o.source p.2) ≠ .missing := by
  unfold Outcomes.passes at h
  unfold Outcomes.loads
  cases hload : load p.1 (o.source p.2) with
  | loaded => simp
  | missing => simp
  | failed message =>
    rw [hload] at h
    cases h

theorem passes_of_missing {p : Json × ℕ} (h : load p.1 (o.source p.2) = .missing) : o.passes p = true := by
  simp [Outcomes.passes,h]

theorem sendMessage_error_images (himages : t.images ≠ []) (h : (sendMessage t o).2 = none) :
    o.session = true ∧ ∀ p ∈ t.images.zipIdx, o.passes p = true := by
  cases hsession : o.session with
  | false =>
    rw [sendMessage,if_pos (by simp [hsession])] at h
    cases h
  | true =>
    refine ⟨rfl,?_⟩
    rw [sendMessage,if_neg (by simp [hsession]),if_neg (by simpa using himages)] at h
    cases he : (sendImages o (t.images.length = 1 && t.caption ≠ "") t.images.zipIdx).2 with
    | none => exact (sendImages_error _ _).mp he
    | some message =>
      simp only [he] at h
      cases h

theorem sendMessage_nothingLeft (h : WaNothingLeft t o) : sendMessage t o = ([],none) := by
  obtain ⟨hsession,himages,hmissing,hcaption⟩ := h
  have hpass : ∀ p ∈ t.images.zipIdx, o.passes p = true := fun p hp => passes_of_missing (hmissing p hp)
  have hnone : t.images.zipIdx.filter o.loads = [] := by
    rw [List.filter_eq_nil_iff]
    intro p hp hloads
    exact (loads_iff_of_passes (hpass p hp)).mp hloads (hmissing p hp)
  have hsent := sendImages_passed (t.images.length = 1 && t.caption ≠ "") _ hpass
  rw [hnone,List.map_nil] at hsent
  have herror := (sendImages_error (t.images.length = 1 && t.caption ≠ "") _).mpr hpass
  have hlast : ¬ (decide (1 < t.images.length) && decide (t.caption ≠ "")) = true := by
    rw [Bool.and_eq_true,decide_eq_true_iff,decide_eq_true_iff]
    rintro ⟨hlength,hne⟩
    rcases hcaption with hone | hempty
    · omega
    · exact hne hempty
  rw [sendMessage,if_neg (by simp [hsession]),if_neg (by simpa using himages)]
  simp only [herror]
  rw [if_neg hlast,hsent]

theorem arrives_of_ok (h : (sendMessage t o).2 = none) (hleft : ¬ WaNothingLeft t o) : WaArrives t o := by
  by_cases himages : t.images = []
  · have hsession : o.session = true := by
      by_contra hs
      rw [sendMessage,if_pos (by simpa using hs)] at h
      cases h
    have htext : sendMessage t o = sendText o := by simp [sendMessage,hsession,himages]
    rw [htext] at h
    have hmessages : (sendMessage t o).1 = [.text] := by
      rw [htext,sendText_messages,(sendText_error o).mp h]
      rfl
    rw [WaArrives,hmessages]
    exact ⟨List.cons_ne_nil _ _,fun _ => ⟨.text,List.mem_singleton_self _,rfl⟩⟩
  · obtain ⟨hsession,hpass⟩ := sendMessage_error_images himages h
    have hpositive : 0 < t.images.length := List.length_pos_iff.mpr himages
    have hmessages := sendMessage_images hsession himages
    rw [sendImages_passed _ _ hpass] at hmessages
    by_cases hcaption : 1 < t.images.length ∧ t.caption ≠ ""
    · -- the caption is a message of its own
      rw [if_pos ⟨hpass,hcaption⟩] at hmessages
      have hsent : (sendText o).2 = none := by
        rw [sendMessage,if_neg (by simp [hsession]),if_neg (by simpa using himages)] at h
        simp only [(sendImages_error _ _).mpr hpass] at h
        rw [if_pos (by simpa using hcaption)] at h
        exact h
      rw [sendText_messages,(sendText_error o).mp hsent] at hmessages
      have hmem : Message.text ∈ (sendMessage t o).1 := by
        rw [hmessages]
        exact List.mem_append_right _ (List.mem_singleton_self _)
      exact ⟨List.ne_nil_of_mem hmem,fun _ => ⟨_,hmem,rfl⟩⟩
    · -- some image has been loaded
      have hsome : ∃ p ∈ t.images.zipIdx, o.loads p = true := by
        by_contra hno
        refine hleft ⟨hsession,himages,?_,?_⟩
        · intro p hp
          by_contra hne
          exact hno ⟨p,hp,(loads_iff_of_passes (hpass p hp)).mpr hne⟩
        · by_cases hempty : t.caption = ""
          · exact .inr hempty
          · have hlength : ¬ 1 < t.images.length := fun hl => hcaption ⟨hl,hempty⟩
            exact .inl (by omega)
      obtain ⟨p,hp,hloads⟩ := hsome
      have hmem : Message.image p.2 (t.images.length = 1 && t.caption ≠ "") ∈ (sendMessage t o).1 := by
        rw [hmessages]
        exact List.mem_append_left _ (List.mem_map_of_mem (List.mem_filter.mpr ⟨hp,hloads⟩))
      refine ⟨List.ne_nil_of_mem hmem,fun hne => ⟨_,hmem,?_⟩⟩
      have hlength : ¬ 1 < t.images.length := fun hl => hcaption ⟨hl,hne⟩
      have hone : t.images.length = 1 := by omega
      simp [Item.isIn,hone,hne]

end WhatsApp

inductive MaxSession
  | available | connectTimeout | notAvailable
  deriving DecidableEq

/-- What one attempt meets: the session, what becomes of each image, and the only call of the client. `describe`
is the text of an exception. -/
structure MaxOutcomes where
  session : MaxSession
  describe : PyError → String
  download : ℕ → Bool
  send : Send

structure MaxMessage where
  text : Json
  attachments : List ℕ
  deriving DecidableEq

/-- `int(raw_group_id) if raw_group_id else None` -/
def maxGroupId (t : Task) : Except PyError (Option ℤ) :=
  let raw := if t.data.groupExternalId.truthy then t.data.groupExternalId else t.data.groupId
  if raw.truthy then raw.toInt.map some else .ok none

/-- `task.get("ad_images") or task.get("image_urls") or []` -/
def maxImages (t : Task) (imageUrls : Json) : Json :=
  if t.data.adImages.truthy then t.data.adImages else if imageUrls.truthy then imageUrls else .arr []

def maxSend (o : MaxOutcomes) (message : MaxMessage) : List MaxMessage × Option String :=
  match o.send with
  | .sent => ([message],none)
  | .failed error delivered => (if delivered then [message] else [],some error)

/-- `send_message`; `imageUrls` is the field that the dispatcher does not write. -/
def maxSendMessage (t : Task) (imageUrls : Json) (o : MaxOutcomes) : List MaxMessage × Option String :=
  match maxGroupId t with
  | .error e => ([],some (o.describe e))
  | .ok _ =>
    match o.session with
    | .connectTimeout => ([],some "MAX session connect timeout")
    | .notAvailable => ([],some "MAX session not available")
    | .available =>
      if (maxImages t imageUrls).truthy then
        match (maxImages t imageUrls).iterate with
        | .error e => ([],some (o.describe e))
        | .ok urls =>
          let attachments := (List.range urls.length).filter o.download
          if !attachments.isEmpty then maxSend o ⟨t.data.adText,attachments⟩
          -- all downloads failed, send text only
          else if t.data.adText.truthy then maxSend o ⟨t.data.adText,[]⟩
          else ([],none)
      else maxSend o ⟨t.data.adText,[]⟩

section Max

variable {t : Task} {imageUrls : Json} {o : MaxOutcomes}

def MaxArrives (t : Task) (imageUrls : Json) (o : MaxOutcomes) : Prop :=
  (maxSendMessage t imageUrls o).1 ≠ [] ∧
    (t.data.adText.truthy = true → ∃ message ∈ (maxSendMessage t imageUrls o).1, message.text = t.data.adText)

/-- There are images, none of them could be downloaded, and there is no text. -/
def MaxNothingLeft (t : Task) (imageUrls : Json) (o : MaxOutcomes) : Prop :=
  (∃ groupId, maxGroupId t = .ok groupId) ∧ o.session = .available ∧ (maxImages t imageUrls).truthy = true ∧
    (∃ urls, (maxImages t imageUrls).iterate = .ok urls ∧ ∀ i < urls.length, o.download i = false) ∧
    t.data.adText.truthy = false

theorem maxSend_ok {message : MaxMessage} (h : (maxSend o message).2 = none) :
    (maxSend o message).1 = [message] := by
  unfold maxSend at *
  cases hsend : o.send with
  | sent => rfl
  | failed error delivered =>
    rw [hsend] at h
    cases h

theorem maxSendMessage_nothingLeft (h : MaxNothingLeft t imageUrls o) :
    maxSendMessage t imageUrls o = ([],none) := by
  obtain ⟨⟨groupId,hgroup⟩,hsession,himages,⟨urls,hurls,hfailed⟩,htext⟩ := h
  have hnone : (List.range urls.length).filter o.download = [] := by
    rw [List.filter_eq_nil_iff]
    intro i hi
    simp [hfailed i (List.mem_range.mp hi)]
  simp [maxSendMessage,hgroup,hsession,himages,hurls,hnone,htext]

theorem maxArrives_of_ok (h : (maxSendMessage t imageUrls o).2 = none) (hleft : ¬ MaxNothingLeft t imageUrls o) :
    MaxArrives t imageUrls o := by
  have hone : ∀ attachments, maxSendMessage t imageUrls o = maxSend o ⟨t.data.adText,attachments⟩ →
      MaxArrives t imageUrls o := by
    intro attachments he
    rw [he] at h
    rw [MaxArrives,he,maxSend_ok h]
    exact ⟨List.cons_ne_nil _ _,fun _ => ⟨_,List.mem_singleton_self _,rfl⟩⟩
  unfold maxSendMessage at h hone
  cases hgroup : maxGroupId t with
  | error e =>
    rw [hgroup] at h
    cases h
  | ok groupId =>
    rw [hgroup] at h
    simp only [hgroup] at h hone
    cases hsession : o.session with
    | connectTimeout =>
      rw [hsession] at h
      cases h
    | notAvailable =>
      rw [hsession] at h
      cases h
    | available =>
      simp only [hsession] at h hone
      cases himages : (maxImages t imageUrls).truthy with
      | false =>
        simp only [himages,Bool.false_eq_true,if_false] at hone
        exact hone [] rfl
      | true =>
        simp only [himages,if_true] at h hone
        cases hurls : (maxImages t imageUrls).iterate with
        | error e =>
          rw [hurls] at h
          cases h
        | ok urls =>
          simp only [hurls] at h hone
          by_cases hnone : (List.range urls.length).filter o.download = []
          · cases htext : t.data.adText.truthy with
            | true =>
              simp only [hnone,htext,List.isEmpty_nil,Bool.not_true,Bool.false_eq_true,if_false,if_true] at hone
              exact hone [] rfl
            | false =>
              -- images without a download and without a text
              refine absurd ⟨⟨groupId,hgroup⟩,hsession,himages,⟨urls,hurls,?_⟩,htext⟩ hleft
              intro i hi
              have hdownload := List.filter_eq_nil_iff.mp hnone i (List.mem_range.mpr hi)
              simpa using hdownload
          · rw [if_pos (by simpa using hnone)] at hone
            exact hone _ rfl

end Max

/-- A result "ok" says that the ad has reached the group, unless nothing was left to send. -/
theorem ok_means_sent (idle : ℤ) (rate : ℕ) (t : Task) (imageUrls : Json) (o : Outcomes) (o' : MaxOutcomes) :
    ((PublishesOk (waWorker idle) t (sendMessage t o).2 → WaArrives t o) ↔ ¬ WaNothingLeft t o) ∧
    ((PublishesOk (maxWorker idle rate) t (maxSendMessage t imageUrls o').2 → MaxArrives t imageUrls o') ↔
      ¬ MaxNothingLeft t imageUrls o') := by
  constructor
  · rw [publishesOk_iff]
    constructor
    · intro h hleft
      have hsent := sendMessage_nothingLeft hleft
      exact (h (congrArg Prod.snd hsent)).1 (congrArg Prod.fst hsent)
    · exact fun hleft h => arrives_of_ok h hleft
  · rw [publishesOk_iff]
    constructor
    · intro h hleft
      have hsent := maxSendMessage_nothingLeft hleft
      exact (h (congrArg Prod.snd hsent)).1 (congrArg Prod.fst hsent)
    · exact fun hleft h => maxArrives_of_ok h hleft

def oneImage (text picture group : String) : Task where
  data := ⟨.int 1,.int 1,.int 2,.int 3,.int 4,.int 5,.str "ad",.str text,.arr [.str picture],.str "group",.str group⟩
  retryCount := none
  delayUntil := none

def fileMissing : Outcomes where
  session := true
  source := fun _ => ⟨none,false,none⟩
  image := fun _ => .sent
  text := .sent

def downloadFails : MaxOutcomes where
  session := .available
  describe := fun _ => ""
  download := fun _ => false
  send := .sent

/-- In WhatsApp the text is lost with its picture, in MAX an ad without a text is lost with its pictures. -/
theorem ok_means_sent_nothing :
    (¬ ∀ idle t o, PublishesOk (waWorker idle) t (sendMessage t o).2 → WaArrives t o) ∧
    ¬ ∀ idle rate t imageUrls o,
      PublishesOk (maxWorker idle rate) t (maxSendMessage t imageUrls o).2 → MaxArrives t imageUrls o := by
  constructor
  · intro hall
    have hlost : sendMessage (oneImage "text" "/ads/1.jpg" "g@g.us") fileMissing = ([],none) := by decide
    have hok := (publishesOk_iff (waWorker 300) (oneImage "text" "/ads/1.jpg" "g@g.us") _).mpr (congrArg Prod.snd hlost)
    exact (hall 300 _ _ hok).1 (congrArg Prod.fst hlost)
  · intro hall
    have hlost : maxSendMessage (oneImage "" "https://s3/ads/1.jpg" "77") .null downloadFails = ([],none) := by
      decide
    have hok := (publishesOk_iff (maxWorker 300 8) (oneImage "" "https://s3/ads/1.jpg" "77") _).mpr
      (congrArg Prod.snd hlost)
    exact (hall 300 8 _ _ _ hok).1 (congrArg Prod.fst hlost)

end AccountWorker
end Broadcaster
