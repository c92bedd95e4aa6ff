import Broadcaster.AdEditor
import Broadcaster.Events

/-!
# The editor page

One page with its two forms, the requests that are under way, and the table of
ads. Each form has one request in flight at a time; of the triggers that come
meanwhile the last one is kept, with its button, and its form is read from the
page after the answer has been applied. Whatever happens on the page or to a
request is an event of its own, so that any order of events is a run.
-/

namespace Broadcaster
namespace EditorPage

open AdEditor Scheduling

inductive Route
  | adsNew | adsEdit (adId : ℕ)
  deriving DecidableEq

/-- What is fixed while the page is open. -/
structure Site where
  userId : ℕ
  maxImages : ℕ
  route : Route

/-- The fields that the forms send, and the refusals that are shown. `images` are the hidden fields of
the tray, `removedImages` those of `media-tombstones`, `files` is the selection of the file input. -/
structure Document where
  title : String
  text : String
  images : List Key
  removedImages : List Key
  adId : Option ℕ
  files : List String
  refusals : List Rejected
  deriving DecidableEq

inductive Flight (Form Answer : Type)
  | idle | sent (form : Form) | answered (answer : Answer)
  deriving DecidableEq

structure Saved where
  button : Button
  images : List Key
  deriving DecidableEq

/-- `started` are the keys of the page as it was opened. `accepted`, `saved` and `clicked` record what
`store_upload` has accepted, what saves have stored and which buttons have been clicked. -/
structure State where
  document : Document
  ads : Store Ad
  save : Flight AdForm Reply
  saveQueued : Option Button
  upload : Flight UploadForm UploadReply
  uploadQueued : Bool
  started : List Key
  accepted : List Key
  saved : List Saved
  clicked : List Button

inductive Event
  | type (title text : String)
  /-- The delay after a key or a change is over. -/
  | autosave
  | clickRemove (key : Key)
  | clickSave
  | select (files : List String)
  | processSave
  | applySave
  | processUpload (stored : List Stored)
  | applyUpload
  deriving DecidableEq

def Document.adForm (d : Document) (button : Button) : AdForm where
  title := d.title
  text := d.text
  images := d.images
  removedImages := d.removedImages
  button := button
  adId := d.adId

def Document.uploadForm (d : Document) : UploadForm := ⟨d.images,d.files⟩

def trigger (s : State) (button : Button) : State :=
  let clicked := if button = Button.autosave then s.clicked else s.clicked ++ [button]
  match s.save with
  | .idle => { s with clicked := clicked, save := .sent (s.document.adForm button) }
  | .sent _ | .answered _ => { s with clicked := clicked, saveQueued := some button }

/-- The tiles that are gone leave the tray, and a removal leaves its mark. -/
def Document.applyFragment (d : Document) (f : Fragment) : Document :=
  { d with
    images := d.images.filter fun k => k ∉ f.mediaGone
    removedImages := d.removedImages ++ f.mediaTombstone.toList
    adId := f.adId }

def Document.applyUpload (d : Document) : UploadReply → Document
  | .refusals rows => { d with refusals := d.refusals ++ rows }
  | .strip imageKeys refusals _ => { d with images := imageKeys, refusals := refusals }

/-- `ads-image-attached` -/
def attached : UploadReply → Bool
  | .refusals _ => false
  | .strip _ _ attached => attached

def handleSave (site : Site) (ads : Store Ad) (form : AdForm) : Store Ad × Reply :=
  match site.route with
  | .adsNew => adsCreate site.userId site.maxImages ads form
  | .adsEdit adId => adsUpdate site.userId site.maxImages ads adId form

def savedBy (ads : Store Ad) (form : AdForm) : Reply → List Saved
  | .fragment ⟨none,_,_,some adId⟩ => ((ads.row adId).map fun ad => ⟨form.button,ad.images⟩).toList
  | .fragment ⟨none,_,_,none⟩ | .fragment ⟨some _,_,_,_⟩ | .redirect => []

/-- The keys that are given out belong to the user and have not been there before. -/
def Fresh (site : Site) (s : State) (stored : List Stored) : Prop :=
  (acceptedKeys stored).Nodup ∧ ∀ k ∈ acceptedKeys stored,
    isOwnImageKey site.userId k = true ∧ k ∉ s.started ∧ k ∉ s.accepted

instance (site : Site) (s : State) (stored : List Stored) : Decidable (Fresh site s stored) :=
  inferInstanceAs (Decidable (_ ∧ _))

def nextSave (document : Document) (queued : Option Button) : Flight AdForm Reply :=
  queued.elim .idle fun button => .sent (document.adForm button)

def nextUpload (document : Document) (queued : Bool) : Flight UploadForm UploadReply :=
  if queued then .sent document.uploadForm else .idle

@[simps]
def State.processedSave (s : State) (ads : Store Ad) (reply : Reply) (saved : List Saved) : State :=
  { s with ads := ads, save := .answered reply, saved := s.saved ++ saved }

@[simps]
def State.appliedSave (s : State) (f : Fragment) : State :=
  { s with
    document := s.document.applyFragment f
    save := nextSave (s.document.applyFragment f) s.saveQueued
    saveQueued := none }

@[simps]
def State.processedUpload (s : State) (reply : UploadReply) (new : List Key) : State :=
  { s with upload := .answered reply, accepted := s.accepted ++ new }

@[simps]
def State.appliedUpload (s : State) (reply : UploadReply) : State :=
  { s with
    document := s.document.applyUpload reply
    upload := nextUpload (s.document.applyUpload reply) s.uploadQueued
    uploadQueued := false }

def step (site : Site) (s : State) : Event → Option State
  | .type title text => some { s with document := { s.document with title := title, text := text } }
  | .autosave => some (trigger s .autosave)
  | .clickRemove key => if key ∈ s.document.images then some (trigger s (.removeImage key)) else none
  | .clickSave => some (trigger s .save)
  | .select files =>
    let document := { s.document with files := files }
    match s.upload with
    | .idle => some { s with document := document, upload := .sent document.uploadForm }
    | .sent _ | .answered _ => some { s with document := document, uploadQueued := true }
  | .processSave =>
    match s.save with
    | .sent form =>
      let r := handleSave site s.ads form
      some (s.processedSave r.1 r.2 (savedBy r.1 form r.2))
    | .idle | .answered _ => none
  | .applySave =>
    match s.save with
    | .answered (.fragment f) => some (s.appliedSave f)
    -- the browser leaves the page
    | .answered .redirect => none
    | .idle | .sent _ => none
  | .processUpload stored =>
    match s.upload with
    | .sent form =>
      if stored.length = form.files.length ∧ Fresh site s stored then
        let reply := adsImagesUpload site.userId site.maxImages form stored
        some (s.processedUpload reply (acceptedWithin site.userId site.maxImages form stored))
      else none
    | .idle | .answered _ => none
  | .applyUpload =>
    match s.upload with
    | .answered reply =>
      some (if attached reply then trigger (s.appliedUpload reply) .autosave else s.appliedUpload reply)
    | .idle | .sent _ => none

structure Quiet (s : State) : Prop where
  save : s.save = .idle
  saveQueued : s.saveQueued = none
  upload : s.upload = .idle
  uploadQueued : s.uploadQueued = false

/-- The ad of the page: the one that its fields name, or the answer that is on its way. -/
def State.adId (s : State) : Option ℕ :=
  match s.save with
  | .answered (.fragment f) => f.adId
  | .idle | .sent _ | .answered .redirect => s.document.adId

def State.ad (s : State) : Option Ad := s.adId.bind s.ads.row

def State.known (s : State) : List Key := s.started ++ s.accepted

structure Opened (site : Site) (s : State) : Prop where
  shown : match site.route with
    | .adsNew => s.document.images = [] ∧ s.document.adId = none
    | .adsEdit adId => s.document.adId = some adId ∧
      ∃ ad, adOfUser site.userId s.ads adId = some ad ∧ s.document.images = ad.images
  started : s.started = s.document.images
  good : GoodKeys site.userId site.maxImages s.document.images
  removedImages : s.document.removedImages = []
  quiet : Quiet s
  accepted : s.accepted = []
  saved : s.saved = []
  clicked : s.clicked = []

variable {site : Site} {s s' : State} {button : Button} {k : Key}

theorem nextSave_eq_sent {d : Document} {queued : Option Button} {form : AdForm} :
    nextSave d queued = .sent form ↔ ∃ button, queued = some button ∧ form = d.adForm button := by
  cases queued with
  | none => simp [nextSave]
  | some button => simp [nextSave,eq_comm]

theorem nextSave_ne_answered {d : Document} {queued : Option Button} {reply : Reply} :
    nextSave d queued ≠ .answered reply := by
  cases queued <;> exact nofun

theorem nextUpload_eq_sent {d : Document} {queued : Bool} {form : UploadForm} :
    nextUpload d queued = .sent form ↔ queued = true ∧ form = d.uploadForm := by
  cases queued with
  | false => simp [nextUpload]
  | true => simp [nextUpload,eq_comm]

theorem nextUpload_ne_answered {d : Document} {queued : Bool} {reply : UploadReply} :
    nextUpload d queued ≠ .answered reply := by
  cases queued <;> exact nofun

theorem last_processedSave {ads : Store Ad} {reply : Reply} {last e : Saved}
    (he : (s.processedSave ads reply [last]).saved.getLast? = some e) : e = last := by
  rw [State.processedSave_saved,List.getLast?_append] at he
  simpa using he.symm

@[simp] theorem document_trigger : (trigger s button).document = s.document := by
  unfold trigger
  cases s.save <;> rfl

@[simp] theorem ads_trigger : (trigger s button).ads = s.ads := by
  unfold trigger
  cases s.save <;> rfl

@[simp] theorem upload_trigger : (trigger s button).upload = s.upload := by
  unfold trigger
  cases s.save <;> rfl

@[simp] theorem started_trigger : (trigger s button).started = s.started := by
  unfold trigger
  cases s.save <;> rfl

@[simp] theorem accepted_trigger : (trigger s button).accepted = s.accepted := by
  unfold trigger
  cases s.save <;> rfl

@[simp] theorem saved_trigger : (trigger s button).saved = s.saved := by
  unfold trigger
  cases s.save <;> rfl

@[simp] theorem known_trigger : (trigger s button).known = s.known := by
  simp [State.known]

theorem save_trigger (s : State) (button : Button) :
    (s.save = .idle ∧ (trigger s button).save = .sent (s.document.adForm button) ∧
        (trigger s button).saveQueued = s.saveQueued) ∨
      (s.save ≠ .idle ∧ (trigger s button).save = s.save ∧ (trigger s button).saveQueued = some button) := by
  unfold trigger
  cases s.save with
  | idle => exact .inl ⟨rfl,rfl,rfl⟩
  | sent form => exact .inr ⟨by simp,rfl,rfl⟩
  | answered reply => exact .inr ⟨by simp,rfl,rfl⟩

@[simp] theorem adId_trigger : (trigger s button).adId = s.adId := by
  rcases save_trigger s button with ⟨hidle,hsave,_⟩ | ⟨_,hsave,_⟩
  · simp only [State.adId,hidle,hsave,document_trigger]
  · simp only [State.adId,hsave,document_trigger]

@[simp] theorem ad_trigger : (trigger s button).ad = s.ad := by
  simp [State.ad]

/-- What holds of every page: nothing on it or under way will be refused. -/
structure Sound (site : Site) (s : State) : Prop where
  page : GoodKeys site.userId site.maxImages s.document.images
  known : ∀ k ∈ s.document.images, k ∈ s.known
  sent : ∀ form, s.save = .sent form → GoodKeys site.userId site.maxImages form.images ∧
    (∀ k ∈ form.images, k ∈ s.known) ∧ form.removedImages = s.document.removedImages ∧
      form.adId = s.document.adId
  answered : ∀ reply, s.save = .answered reply → ∃ f, reply = .fragment f
  waiting : s.save = .idle → s.saveQueued = none
  addressed : ∀ adId, site.route = .adsEdit adId → s.adId = some adId
  owned : ∀ adId, s.adId = some adId → ∃ ad, adOfUser site.userId s.ads adId = some ad
  uploadSent : ∀ form, s.upload = .sent form → GoodKeys site.userId site.maxImages form.images ∧
    (∀ k ∈ form.images, k ∈ s.known) ∧ ∀ k ∈ s.document.images, k ∈ form.images
  uploadAnswered : ∀ keys rows a, s.upload = .answered (.strip keys rows a) →
    GoodKeys site.userId site.maxImages keys ∧ (∀ k ∈ keys, k ∈ s.known) ∧
      ∀ k ∈ s.document.images, k ∈ keys
  lastSaved : ∀ e, s.saved.getLast? = some e → ∃ ad, s.ad = some ad ∧ ad.images = e.images

def Event.pressed : Event → Option Button
  | .autosave => some .autosave
  | .clickRemove key => some (.removeImage key)
  | .clickSave => some .save
  | .type _ _ | .select _ | .processSave | .applySave | .processUpload _ | .applyUpload => none

/-- What an event does to a sound page. -/
inductive Change (site : Site) (s : State) : Event → State → Prop
  | typed (title text : String) : Change site s (.type title text)
      { s with document := { s.document with title := title, text := text } }
  | triggered (e : Event) (button : Button) : e.pressed = some button →
      (∀ k, button = .removeImage k → k ∈ s.document.images) → Change site s e (trigger s button)
  | selected (files : List String) (upload : Flight UploadForm UploadReply) (queued : Bool) :
      (upload = s.upload ∨ s.upload = .idle ∧ upload = .sent ⟨s.document.images,files⟩) →
      Change site s (.select files)
      { s with document := { s.document with files := files }, upload := upload, uploadQueued := queued }
  | processedSave (form : AdForm) (ads : Store Ad) (adId : ℕ) (ad : Ad) : s.save = .sent form →
      adOfUser site.userId ads adId = some ad → ad.images = form.stored →
      ad.status = form.newStatus ((s.ad.map Ad.status).getD adStatusDraft) →
      (∀ i, s.adId = some i → i = adId) → Change site s .processSave
      (s.processedSave ads (.fragment ⟨none,form.gone,form.dropped,some adId⟩) [⟨form.button,form.stored⟩])
  | appliedSave (f : Fragment) : s.save = .answered (.fragment f) → Change site s .applySave (s.appliedSave f)
  | refusedUpload (form : UploadForm) (stored : List Stored) (rows : List Rejected) :
      s.upload = .sent form → Change site s (.processUpload stored) (s.processedUpload (.refusals rows) [])
  | processedUpload (form : UploadForm) (stored : List Stored) (new : List Key) (rows : List Rejected) :
      s.upload = .sent form → GoodKeys site.userId site.maxImages (form.images ++ new) →
      new.Nodup → (∀ k ∈ new, k ∉ s.known) → Change site s (.processUpload stored)
      (s.processedUpload (.strip (form.images ++ new) rows (decide (new ≠ []))) new)
  | appliedUpload (reply : UploadReply) : s.upload = .answered reply → Change site s .applyUpload
      (if attached reply then trigger (s.appliedUpload reply) .autosave else s.appliedUpload reply)

theorem handleSave_good {ads : Store Ad} {form : AdForm} (h : GoodKeys site.userId site.maxImages form.images)
    (hroute : ∀ adId, site.route = .adsEdit adId → form.adId = some adId)
    (howned : ∀ adId, form.adId = some adId → ∃ ad, adOfUser site.userId ads adId = some ad) :
    ∃ ads' adId ad, handleSave site ads form =
        (ads',.fragment ⟨none,form.gone,form.dropped,some adId⟩) ∧
      adOfUser site.userId ads' adId = some ad ∧ ad.images = form.stored ∧
      ad.status = form.newStatus (((form.adId.bind ads.row).map Ad.status).getD adStatusDraft) ∧
      ∀ i, form.adId = some i → i = adId := by
  have hhandle : handleSave site ads form = saveFromEditor site.userId site.maxImages ads
      (form.adId.bind fun adId => (adOfUser site.userId ads adId).map (adId,·)) form := by
    unfold handleSave
    cases hr : site.route with
    | adsNew =>
      unfold adsCreate
      cases hid : form.adId with
      | none => rfl
      | some adId =>
        obtain ⟨ad,had⟩ := howned adId hid
        simp only [had,Option.bind_some,Option.map_some]
    | adsEdit adId =>
      have hid := hroute adId hr
      obtain ⟨ad,had⟩ := howned adId hid
      simp only [adsUpdate,had,hid,Option.bind_some,Option.map_some]
  rw [hhandle,saveFromEditor_good h]
  cases hid : form.adId with
  | none =>
    let new : Ad := ⟨site.userId,form.title,form.text,form.stored,form.newStatus adStatusDraft⟩
    refine ⟨ads.insert new,ads.size,new,rfl,?_,rfl,rfl,fun i hi => by cases hi⟩
    exact adOfUser_eq_some.mpr ⟨Function.update_self _ _ _,rfl⟩
  | some adId =>
    obtain ⟨ad,had⟩ := howned adId hid
    have hrow := adOfUser_eq_some.mp had
    let changed : Ad := { ad with
      title := form.title, text := form.text, images := form.stored, status := form.newStatus ad.status }
    refine ⟨ads.update adId fun _ => changed,adId,changed,?_,?_,rfl,?_,fun i hi => (Option.some.inj hi).symm⟩
    · simp only [had,Option.bind_some,Option.map_some]
      rfl
    · exact adOfUser_eq_some.mpr ⟨Store.row_update_self hrow.1,hrow.2⟩
    · simp only [Option.bind_some,hrow.1,Option.map_some,Option.getD_some]
      rfl

theorem Sound.adId_sent (h : Sound site s) {form : AdForm} (hsent : s.save = .sent form) :
    s.adId = form.adId := by
  rw [(h.sent form hsent).2.2.2]
  simp only [State.adId,hsent]

theorem Sound.processSave_change (h : Sound site s) (hs : step site s .processSave = some s') :
    Change site s .processSave s' := by
  simp only [step] at hs
  cases hsave : s.save with
  | sent form =>
    rw [hsave] at hs
    cases hs
    obtain ⟨hgood,_,_,hid⟩ := h.sent form hsave
    have hadId := h.adId_sent hsave
    obtain ⟨ads,adId,ad,hhandle,had,himages,hstatus,hsame⟩ := handleSave_good hgood
      (fun i hi => hadId ▸ h.addressed i hi) (fun i hi => h.owned i (hadId.trans hi))
    have hrow := (adOfUser_eq_some.mp had).1
    have hsaved : savedBy ads form (.fragment ⟨none,form.gone,form.dropped,some adId⟩) =
        [⟨form.button,form.stored⟩] := by
      simp [savedBy,hrow,himages]
    rw [hhandle,hsaved]
    refine .processedSave form ads adId ad hsave had himages ?_ fun i hi => hsame i (hadId ▸ hi)
    rw [hstatus,State.ad,hadId]
  | idle => rw [hsave] at hs; cases hs
  | answered reply => rw [hsave] at hs; cases hs

theorem Fresh.unknown {stored : List Stored} (h : Fresh site s stored) (hk : k ∈ acceptedKeys stored) :
    k ∉ s.known := by
  obtain ⟨_,hstarted,haccepted⟩ := h.2 k hk
  intro hmem
  rcases List.mem_append.mp hmem with hmem | hmem
  · exact hstarted hmem
  · exact haccepted hmem

/-- Keys that are given out may follow good ones that have been on the page. -/
theorem Fresh.goodKeys {stored : List Stored} {keys new : List Key} (h : Fresh site s stored)
    (hkeys : GoodKeys site.userId site.maxImages keys) (hknown : ∀ k ∈ keys, k ∈ s.known)
    (hsub : new.Sublist (acceptedKeys stored)) (hbounded : (keys ++ new).length ≤ site.maxImages) :
    GoodKeys site.userId site.maxImages (keys ++ new) where
  own := by
    intro k hk
    rcases List.mem_append.mp hk with hk | hk
    · exact hkeys.own k hk
    · exact (h.2 k (hsub.subset hk)).1
  nodup := by
    refine List.nodup_append.mpr ⟨hkeys.nodup,h.1.sublist hsub,fun k hk l hl hkl => ?_⟩
    exact h.unknown (hsub.subset hl) (hkl ▸ hknown k hk)
  bounded := hbounded

theorem Sound.processUpload_change {stored : List Stored} (h : Sound site s)
    (hs : step site s (.processUpload stored) = some s') : Change site s (.processUpload stored) s' := by
  simp only [step] at hs
  cases hupload : s.upload with
  | sent form =>
    rw [hupload] at hs
    simp only at hs
    split at hs
    · rename_i hstored
      obtain ⟨hlength,hfresh⟩ := hstored
      cases hs
      obtain ⟨hgood,hknown,_⟩ := h.uploadSent form hupload
      have hsub := acceptedWithin_sublist site.userId site.maxImages form stored
      rcases adsImagesUpload_good hgood hlength with ⟨⟨rows,hreply⟩,hnone⟩ | ⟨rows,hreply⟩
      · rw [hreply,hnone]
        exact .refusedUpload form stored rows hupload
      · rw [hreply]
        have hkeys := hfresh.goodKeys hgood hknown hsub (hgood.acceptedWithin_bounded stored)
        exact .processedUpload form stored _ rows hupload hkeys (hfresh.1.sublist hsub)
          fun k hk => hfresh.unknown (hsub.subset hk)
    · cases hs
  | idle => rw [hupload] at hs; cases hs
  | answered reply => rw [hupload] at hs; cases hs

theorem step_change {e : Event} (h : Sound site s) (hs : step site s e = some s') : Change site s e s' := by
  cases e with
  | type title text =>
    cases hs
    exact .typed title text
  | autosave =>
    cases hs
    exact .triggered _ .autosave rfl fun k hk => by cases hk
  | clickRemove key =>
    simp only [step] at hs
    split at hs
    · rename_i hkey
      cases hs
      exact .triggered _ (.removeImage key) rfl fun k hk => by cases hk; exact hkey
    · cases hs
  | clickSave =>
    cases hs
    exact .triggered _ .save rfl fun k hk => by cases hk
  | select files =>
    simp only [step] at hs
    cases hupload : s.upload with
    | idle =>
      rw [hupload] at hs
      cases hs
      exact .selected files _ _ (.inr ⟨hupload,rfl⟩)
    | sent form =>
      simp only [hupload] at hs
      cases hs
      exact .selected files _ true (.inl hupload.symm)
    | answered reply =>
      simp only [hupload] at hs
      cases hs
      exact .selected files _ true (.inl hupload.symm)
  | processSave => exact h.processSave_change hs
  | applySave =>
    simp only [step] at hs
    cases hsave : s.save with
    | answered reply =>
      obtain ⟨f,rfl⟩ := h.answered reply hsave
      rw [hsave] at hs
      cases hs
      exact .appliedSave f hsave
    | idle => rw [hsave] at hs; cases hs
    | sent form => rw [hsave] at hs; cases hs
  | processUpload stored => exact h.processUpload_change hs
  | applyUpload =>
    simp only [step] at hs
    cases hupload : s.upload with
    | answered reply =>
      rw [hupload] at hs
      cases hs
      exact .appliedUpload reply hupload
    | idle => rw [hupload] at hs; cases hs
    | sent form => rw [hupload] at hs; cases hs

theorem known_append (new : List Key) : ∀ k ∈ s.known, k ∈ s.started ++ (s.accepted ++ new) := by
  intro k hk
  rcases List.mem_append.mp hk with hk | hk
  · exact List.mem_append_left _ hk
  · exact List.mem_append_right _ (List.mem_append_left _ hk)

theorem Sound.trigger (h : Sound site s) (button : Button) : Sound site (trigger s button) where
  page := by rw [document_trigger]; exact h.page
  known := by rw [document_trigger,known_trigger]; exact h.known
  sent := by
    intro form hform
    rw [document_trigger,known_trigger]
    rcases save_trigger s button with ⟨_,hsave,_⟩ | ⟨_,hsave,_⟩
    · rw [hsave] at hform
      cases hform
      exact ⟨h.page,h.known,rfl,rfl⟩
    · exact h.sent form (hsave ▸ hform)
  answered := by
    intro reply hreply
    rcases save_trigger s button with ⟨_,hsave,_⟩ | ⟨_,hsave,_⟩
    · rw [hsave] at hreply
      cases hreply
    · exact h.answered reply (hsave ▸ hreply)
  waiting := by
    intro hidle
    rcases save_trigger s button with ⟨_,hsave,_⟩ | ⟨hbusy,hsave,_⟩
    · rw [hsave] at hidle
      cases hidle
    · exact absurd (hsave ▸ hidle) hbusy
  addressed := by rw [adId_trigger]; exact h.addressed
  owned := by rw [adId_trigger,ads_trigger]; exact h.owned
  uploadSent := by rw [upload_trigger,document_trigger,known_trigger]; exact h.uploadSent
  uploadAnswered := by rw [upload_trigger,document_trigger,known_trigger]; exact h.uploadAnswered
  lastSaved := by rw [saved_trigger,ad_trigger]; exact h.lastSaved

theorem adId_appliedSave {f : Fragment} (hf : s.save = .answered (.fragment f)) : (s.appliedSave f).adId = s.adId := by
  have hbefore : s.adId = f.adId := by simp only [State.adId,hf]
  rw [hbefore]
  unfold State.adId
  cases hqueued : s.saveQueued <;> simp [nextSave,hqueued,Document.applyFragment,Document.adForm]

theorem ad_appliedSave {f : Fragment} (hf : s.save = .answered (.fragment f)) : (s.appliedSave f).ad = s.ad := by
  simp [State.ad,adId_appliedSave hf]

theorem adId_appliedUpload (reply : UploadReply) : (s.appliedUpload reply).adId = s.adId := by
  have hid : (s.document.applyUpload reply).adId = s.document.adId := by
    cases reply <;> rfl
  simp [State.adId,hid]

theorem ad_appliedUpload (reply : UploadReply) : (s.appliedUpload reply).ad = s.ad := by
  simp [State.ad,adId_appliedUpload]

theorem Sound.appliedSave (h : Sound site s) {f : Fragment} (hf : s.save = .answered (.fragment f)) :
    Sound site (s.appliedSave f) := by
  have hpage : GoodKeys site.userId site.maxImages (s.document.applyFragment f).images := h.page.filter _
  have himages : ∀ k ∈ (s.document.applyFragment f).images, k ∈ s.document.images :=
    fun k hk => List.mem_of_mem_filter hk
  have hknown : ∀ k ∈ (s.document.applyFragment f).images, k ∈ s.known :=
    fun k hk => h.known k (himages k hk)
  have hadId := adId_appliedSave hf
  refine ⟨hpage,hknown,fun form hform => ?_,fun reply hreply => ?_,fun _ => rfl,?_,?_,fun form hform => ?_,
    fun keys rows a hreply => ?_,?_⟩
  · obtain ⟨button,_,rfl⟩ := nextSave_eq_sent.mp hform
    exact ⟨hpage,hknown,rfl,rfl⟩
  · exact absurd hreply nextSave_ne_answered
  · rw [hadId]
    exact h.addressed
  · rw [hadId]
    exact h.owned
  · obtain ⟨hgood,hsub,hshown⟩ := h.uploadSent form hform
    exact ⟨hgood,hsub,fun k hk => hshown k (himages k hk)⟩
  · obtain ⟨hgood,hsub,hshown⟩ := h.uploadAnswered keys rows a hreply
    exact ⟨hgood,hsub,fun k hk => hshown k (himages k hk)⟩
  · rw [ad_appliedSave hf]
    exact h.lastSaved

theorem Sound.appliedUpload (h : Sound site s) {reply : UploadReply} (hreply : s.upload = .answered reply) :
    Sound site (s.appliedUpload reply) := by
  have hpage : GoodKeys site.userId site.maxImages (s.document.applyUpload reply).images ∧
      ∀ k ∈ (s.document.applyUpload reply).images, k ∈ s.known := by
    cases reply with
    | refusals rows => exact ⟨h.page,h.known⟩
    | strip keys rows a =>
      obtain ⟨hgood,hknown,_⟩ := h.uploadAnswered keys rows a hreply
      exact ⟨hgood,hknown⟩
  have hmarks : (s.document.applyUpload reply).removedImages = s.document.removedImages ∧
      (s.document.applyUpload reply).adId = s.document.adId := by
    cases reply <;> exact ⟨rfl,rfl⟩
  have hadId := adId_appliedUpload (s := s) reply
  refine ⟨hpage.1,hpage.2,fun form hform => ?_,h.answered,h.waiting,?_,?_,fun form hform => ?_,
    fun keys rows a hstrip => ?_,?_⟩
  · rw [State.appliedUpload_document,hmarks.1,hmarks.2]
    exact h.sent form hform
  · rw [hadId]
    exact h.addressed
  · rw [hadId]
    exact h.owned
  · obtain ⟨_,rfl⟩ := nextUpload_eq_sent.mp hform
    exact ⟨hpage.1,hpage.2,fun k hk => hk⟩
  · exact absurd hstrip nextUpload_ne_answered
  · rw [ad_appliedUpload]
    exact h.lastSaved

theorem Sound.change {e : Event} (h : Sound site s) (hc : Change site s e s') : Sound site s' := by
  cases hc with
  | typed title text =>
    exact ⟨h.page,h.known,h.sent,h.answered,h.waiting,h.addressed,h.owned,h.uploadSent,h.uploadAnswered,
      h.lastSaved⟩
  | triggered e button _ _ => exact h.trigger button
  | selected files upload queued hupload =>
    refine ⟨h.page,h.known,h.sent,h.answered,h.waiting,h.addressed,h.owned,fun form hform => ?_,
      fun keys rows a hreply => ?_,h.lastSaved⟩
    · rcases hupload with hsame | ⟨_,hsent⟩
      · exact h.uploadSent form (hsame ▸ hform)
      · have hform : upload = .sent form := hform
        rw [hsent] at hform
        cases hform
        exact ⟨h.page,h.known,fun k hk => hk⟩
    · rcases hupload with hsame | ⟨_,hsent⟩
      · exact h.uploadAnswered keys rows a (hsame ▸ hreply)
      · have hreply : upload = .answered (.strip keys rows a) := hreply
        rw [hsent] at hreply
        cases hreply
  | processedSave form ads adId ad hsave had himages hstatus hsame =>
    refine ⟨h.page,h.known,fun _ hf => (by cases hf),fun _ hf => ?_,fun hidle => (by cases hidle),
      fun i hi => ?_,fun i hi => ?_,h.uploadSent,h.uploadAnswered,fun e he => ?_⟩
    · cases hf
      exact ⟨_,rfl⟩
    · rw [hsame i (h.addressed i hi)]
      rfl
    · cases hi
      exact ⟨ad,had⟩
    · have hlast : e = ⟨form.button,form.stored⟩ := last_processedSave he
      exact ⟨ad,(adOfUser_eq_some.mp had).1,by rw [hlast]; exact himages⟩
  | appliedSave f hf => exact h.appliedSave hf
  | refusedUpload form stored rows hupload =>
    have hknown := known_append (s := s) []
    refine ⟨h.page,fun k hk => hknown k (h.known k hk),fun form hform => ?_,h.answered,h.waiting,h.addressed,
      h.owned,fun _ hf => (by cases hf),fun _ _ _ hf => (by cases hf),h.lastSaved⟩
    obtain ⟨hgood,hsub,hmarks⟩ := h.sent form hform
    exact ⟨hgood,fun k hk => hknown k (hsub k hk),hmarks⟩
  | processedUpload form stored new rows hupload hgood _ _ =>
    have hknown := known_append (s := s) new
    obtain ⟨_,hsub,hshown⟩ := h.uploadSent form hupload
    refine ⟨h.page,fun k hk => hknown k (h.known k hk),fun form hform => ?_,h.answered,h.waiting,h.addressed,
      h.owned,fun _ hf => (by cases hf),fun keys rows' a hf => ?_,h.lastSaved⟩
    · obtain ⟨hgood,hsub,hmarks⟩ := h.sent form hform
      exact ⟨hgood,fun k hk => hknown k (hsub k hk),hmarks⟩
    · cases hf
      refine ⟨hgood,fun k hk => ?_,fun k hk => List.mem_append_left _ (hshown k hk)⟩
      rcases List.mem_append.mp hk with hk | hk
      · exact hknown k (hsub k hk)
      · exact List.mem_append_right _ (List.mem_append_right _ hk)
  | appliedUpload reply hreply =>
    split
    · exact (h.appliedUpload hreply).trigger .autosave
    · exact h.appliedUpload hreply

theorem Opened.sound (h : Opened site s) : Sound site s := by
  have hadId : s.adId = s.document.adId := by simp only [State.adId,h.quiet.save]
  refine ⟨h.good,fun k hk => ?_,fun form hform => ?_,fun reply hreply => ?_,fun _ => h.quiet.saveQueued,
    fun adId hroute => ?_,fun adId hid => ?_,fun form hform => ?_,fun keys rows a hreply => ?_,fun e he => ?_⟩
  · rw [State.known,h.started]
    exact List.mem_append_left _ hk
  · rw [h.quiet.save] at hform
    cases hform
  · rw [h.quiet.save] at hreply
    cases hreply
  · have hshown := h.shown
    rw [hroute] at hshown
    rw [hadId]
    exact hshown.1
  · have hshown := h.shown
    cases hroute : site.route with
    | adsNew =>
      rw [hroute] at hshown
      rw [hadId,hshown.2] at hid
      cases hid
    | adsEdit i =>
      rw [hroute] at hshown
      obtain ⟨hi,ad,had,_⟩ := hshown
      rw [hadId,hi] at hid
      cases hid
      exact ⟨ad,had⟩
  · rw [h.quiet.upload] at hform
    cases hform
  · rw [h.quiet.upload] at hreply
    cases hreply
  · rw [h.saved] at he
    cases he

/-- What the changes preserve on sound pages holds after every run from an opened page. -/
theorem invariant_of_changes {G : State → Event → Prop} {I : State → Prop} {a b : State}
    (hab : Events.Run (step site) G a b) (ha : Opened site a) (hI : I a)
    (hchange : ∀ s e s', Sound site s → I s → G s e → Change site s e s' → I s') :
    Sound site b ∧ I b := by
  have hstep : ∀ s e s', (Sound site s ∧ I s) → G s e → step site s e = some s' →
      Sound site s' ∧ I s' := by
    rintro s e s' ⟨hsound,hs⟩ hg hstep
    have hc := step_change hsound hstep
    exact ⟨hsound.change hc,hchange s e s' hsound hs hg hc⟩
  exact hab.invariant hstep ⟨ha.sound,hI⟩

def keyA : Key := "1/00000000000000000000000000000000_a.png"

def keyB : Key := "1/00000000000000000000000000000000_b.png"

def keyC : Key := "1/00000000000000000000000000000000_c.png"

def siteOne : Site := ⟨1,10,.adsEdit 0⟩

def pageWith (images : List Key) : State where
  document := ⟨"title","text",images,[],some 0,[],[]⟩
  ads := (Store.empty Ad).insert ⟨1,"title","text",images,adStatusDraft⟩
  save := .idle
  saveQueued := none
  upload := .idle
  uploadQueued := false
  started := images
  accepted := []
  saved := []
  clicked := []

theorem pageWith_opened {images : List Key} (h : GoodKeys 1 10 images) : Opened siteOne (pageWith images) :=
  ⟨⟨rfl,_,rfl,rfl⟩,rfl,h,rfl,⟨rfl,rfl,rfl,rfl⟩,rfl,rfl,rfl⟩

theorem goodKeys_ab : GoodKeys 1 10 [keyA,keyB] := by
  refine ⟨?_,by decide,by decide⟩
  intro k hk
  have hall : [keyA,keyB].all (isOwnImageKey 1) = true := by decide
  exact List.all_eq_true.mp hall k hk

def afterEvents (events : List Event) : State :=
  Events.performed (step siteOne) Events.anyEvent (pageWith [keyA,keyB]) events

end EditorPage
end Broadcaster
