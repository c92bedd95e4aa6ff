import Broadcaster.EditorPage

/-!
# No attachment is lost, resurrected or duplicated

A key counts as removed from the save on that carries its button. The page may
still show such a key, or show it again when the answer of an upload is older
than the removal; its mark keeps it out of every later save.
-/

namespace Broadcaster
namespace EditorPage

open AdEditor

def State.removed (s : State) (k : Key) : Prop := ∃ e ∈ s.saved, e.button = .removeImage k

/-- The mark that an answer is bringing. -/
def State.tombstone (s : State) : Option Key :=
  match s.save with
  | .answered (.fragment f) => f.mediaTombstone
  | .idle | .sent _ | .answered .redirect => none

/-- The keys that the answer of an upload is bringing. -/
def State.coming (s : State) : List Key :=
  match s.upload with
  | .answered (.strip imageKeys _ _) => imageKeys
  | .idle | .sent _ | .answered (.refusals _) => []

/-- Every key that is not removed is on the page or on its way to it; every removed key has its mark. -/
structure Listed (s : State) : Prop where
  marks : ∀ k ∈ s.document.removedImages, s.removed k
  marked : ∀ k, s.removed k → k ∈ s.document.removedImages ∨ s.tombstone = some k
  answered : ∀ f, s.save = .answered (.fragment f) →
    (∀ k ∈ f.mediaGone, s.removed k) ∧ ∀ k, f.mediaTombstone = some k → s.removed k
  sent : ∀ form k, s.save = .sent form → form.button = .removeImage k → k ∈ form.images ∨ s.removed k
  waiting : ∀ k, s.saveQueued = some (.removeImage k) → k ∈ s.document.images ∨ s.removed k
  covered : ∀ k ∈ s.known, k ∈ s.document.images ∨ k ∈ s.coming ∨ s.removed k
  uploadSent : ∀ form, s.upload = .sent form → ∀ k ∈ form.images, k ∈ s.document.images ∨ s.removed k
  uploadRefused : ∀ keys rows, s.upload = .answered (.strip keys rows false) →
    ∀ k ∈ keys, k ∈ s.document.images ∨ s.removed k
  stored : ∀ e, s.saved.getLast? = some e →
    e.images.Nodup ∧ ∀ k ∈ e.images, k ∈ s.known ∧ ¬ s.removed k
  ordered : s.saved.Pairwise fun e later => ∀ k, e.button = .removeImage k → k ∉ later.images

/-- What the page shows is in the save that is under way or was the last one, unless another one waits. -/
structure Kept (s : State) : Prop extends Listed s where
  sentAll : ∀ form, s.save = .sent form → s.saveQueued = none →
    ∀ k ∈ s.document.images, k ∈ form.images ∨ s.removed k
  storedAll : ∀ e, (∀ form, s.save ≠ .sent form) → s.saveQueued = none → s.saved.getLast? = some e →
    ∀ k ∈ s.document.images, k ∈ e.images ∨ s.removed k

variable {site : Site} {s s' : State} {k : Key}

@[simp] theorem removed_trigger (button : Button) : (trigger s button).removed k = s.removed k := by
  simp [State.removed]

theorem removed_processedSave {ads : Store Ad} {reply : Reply} {e : Saved} :
    (s.processedSave ads reply [e]).removed k ↔ s.removed k ∨ e.button = .removeImage k := by
  constructor
  · rintro ⟨e',he',hk⟩
    rcases List.mem_append.mp he' with he' | he'
    · exact .inl ⟨e',he',hk⟩
    · rw [List.mem_singleton.mp he'] at hk
      exact .inr hk
  · rintro (⟨e',he',hk⟩ | hk)
    · exact ⟨e',List.mem_append_left _ he',hk⟩
    · exact ⟨e,List.mem_append_right _ List.mem_cons_self,hk⟩

theorem Listed.trigger {button : Button} (h : Listed s)
    (hpressed : ∀ k, button = .removeImage k → k ∈ s.document.images) : Kept (trigger s button) := by
  have htombstone : (EditorPage.trigger s button).tombstone = s.tombstone := by
    rcases save_trigger s button with ⟨hidle,hsave,_⟩ | ⟨_,hsave,_⟩
    · simp only [State.tombstone,hidle,hsave]
    · simp only [State.tombstone,hsave]
  have hcoming : (EditorPage.trigger s button).coming = s.coming := by
    simp only [State.coming,upload_trigger]
  refine ⟨⟨?_,?_,fun f hf => ?_,fun form k hform hk => ?_,fun k hk => ?_,?_,?_,?_,?_,?_⟩,
    fun form hform hqueued => ?_,fun e hsent hqueued he => ?_⟩
  · simpa using h.marks
  · simpa [htombstone] using h.marked
  · rcases save_trigger s button with ⟨_,hsave,_⟩ | ⟨_,hsave,_⟩
    · rw [hsave] at hf
      cases hf
    · simpa using h.answered f (hsave ▸ hf)
  · rcases save_trigger s button with ⟨_,hsave,_⟩ | ⟨_,hsave,_⟩
    · rw [hsave] at hform
      cases hform
      exact .inl (hpressed k hk)
    · simpa using h.sent form k (hsave ▸ hform) hk
  · rcases save_trigger s button with ⟨_,_,hqueued⟩ | ⟨_,_,hqueued⟩
    · rw [hqueued] at hk
      simpa using h.waiting k hk
    · rw [hqueued] at hk
      rw [document_trigger]
      exact .inl (hpressed k (Option.some.inj hk))
  · simpa [hcoming] using h.covered
  · simpa using h.uploadSent
  · simpa using h.uploadRefused
  · simpa using h.stored
  · simpa using h.ordered
  · rcases save_trigger s button with ⟨_,hsave,_⟩ | ⟨_,_,hwait⟩
    · rw [hsave] at hform
      cases hform
      rw [document_trigger]
      exact fun k hk => .inl hk
    · rw [hwait] at hqueued
      cases hqueued
  · rcases save_trigger s button with ⟨_,hsave,_⟩ | ⟨_,_,hwait⟩
    · exact absurd hsave (hsent _)
    · rw [hwait] at hqueued
      cases hqueued

/-- A save stores the keys of its form that are not removed, and its button removes one of them or one
that is marked. -/
theorem Kept.processedSave {form : AdForm} {ads : Store Ad} {adId : ℕ} (h : Kept s) (hs : Sound site s)
    (hsave : s.save = .sent form) : Kept (s.processedSave ads
      (.fragment ⟨none,form.gone,form.dropped,some adId⟩) [⟨form.button,form.stored⟩]) := by
  obtain ⟨hgood,hknown,hmarks,_⟩ := hs.sent form hsave
  have hmarked : ∀ k, s.removed k → k ∈ form.removedImages := by
    intro k hk
    rw [hmarks]
    rcases h.marked k hk with hmark | htombstone
    · exact hmark
    · simp [State.tombstone,hsave] at htombstone
  have hremoved : ∀ k, (s.processedSave ads (.fragment ⟨none,form.gone,form.dropped,some adId⟩)
      [⟨form.button,form.stored⟩]).removed k ↔ s.removed k ∨ form.button = .removeImage k :=
    fun _ => removed_processedSave
  have hstored : ∀ k, k ∈ form.images → ¬ (s.removed k ∨ form.button = .removeImage k) → k ∈ form.stored := by
    intro k hk hkept
    refine (mem_stored hgood.nodup).mpr ⟨hk,fun hmark => ?_,fun hbutton => hkept (.inr hbutton)⟩
    exact hkept (.inl (h.marks k (hmarks ▸ hmark)))
  refine ⟨⟨fun k hk => (hremoved k).mpr (.inl (h.marks k hk)),fun k hk => ?_,fun f hf => ?_,
    fun _ _ hf _ => (by cases hf),fun k hk => ?_,fun k hk => ?_,fun f hf k hk => ?_,fun keys rows hf k hk => ?_,
    fun e he => ?_,?_⟩,fun _ hf => (by cases hf),fun e _ hqueued he k hk => ?_⟩
  · rcases (hremoved k).mp hk with hk | hbutton
    · exact .inl (hmarks ▸ hmarked k hk)
    · by_cases hmark : k ∈ form.removedImages
      · exact .inl (hmarks ▸ hmark)
      · have hshown : k ∈ form.images := by
          rcases h.sent form k hsave hbutton with hshown | hk
          · exact hshown
          · exact absurd (hmarked k hk) hmark
        exact .inr (dropped_eq_some.mpr ⟨hbutton,hshown,hmark⟩)
  · cases hf
    refine ⟨fun k hk => (hremoved k).mpr ?_,fun k hk => (hremoved k).mpr (.inr (dropped_eq_some.mp hk).1)⟩
    rcases mem_gone.mp hk with ⟨_,hmark⟩ | hdropped
    · exact .inl (h.marks k (hmarks ▸ hmark))
    · exact .inr (dropped_eq_some.mp hdropped).1
  · exact (h.waiting k hk).imp_right fun hk => (hremoved k).mpr (.inl hk)
  · exact (h.covered k hk).imp_right fun hk => hk.imp_right fun hk => (hremoved k).mpr (.inl hk)
  · exact (h.uploadSent f hf k hk).imp_right fun hk => (hremoved k).mpr (.inl hk)
  · exact (h.uploadRefused keys rows hf k hk).imp_right fun hk => (hremoved k).mpr (.inl hk)
  · rw [last_processedSave he]
    refine ⟨hgood.stored.nodup,fun k hk => ?_⟩
    obtain ⟨himages,hmark,hbutton⟩ := (mem_stored hgood.nodup).mp hk
    refine ⟨hknown k himages,fun hk => ?_⟩
    rcases (hremoved k).mp hk with hk | hk
    · exact hmark (hmarked k hk)
    · exact hbutton hk
  · refine List.pairwise_append.mpr ⟨h.ordered,List.pairwise_singleton _ _,fun e he later hlater k hk => ?_⟩
    rw [List.mem_singleton.mp hlater]
    intro hmem
    exact ((mem_stored hgood.nodup).mp hmem).2.1 (hmarked k ⟨e,he,hk⟩)
  · rw [last_processedSave he]
    by_cases hkept : s.removed k ∨ form.button = .removeImage k
    · exact .inr ((hremoved k).mpr hkept)
    · rcases h.sentAll form hsave hqueued k hk with himages | hk
      · exact .inl (hstored k himages hkept)
      · exact absurd (.inl hk) hkept

theorem Kept.appliedSave {f : Fragment} (h : Kept s) (hf : s.save = .answered (.fragment f)) :
    Kept (s.appliedSave f) := by
  obtain ⟨hgone,htombstone⟩ := h.answered f hf
  have hshown : ∀ k, k ∈ s.document.images ∨ s.removed k →
      k ∈ (s.document.applyFragment f).images ∨ s.removed k := by
    rintro k (hk | hk)
    · by_cases hg : k ∈ f.mediaGone
      · exact .inr (hgone k hg)
      · exact .inl (List.mem_filter.mpr ⟨hk,decide_eq_true hg⟩)
    · exact .inr hk
  refine ⟨⟨fun k hk => ?_,fun k hk => ?_,fun g hg => absurd hg nextSave_ne_answered,fun form k hform hk => ?_,
    fun _ hq => (by cases hq),fun k hk => ?_,fun form hform k hk => hshown k (h.uploadSent form hform k hk),
    fun keys rows hr k hk => hshown k (h.uploadRefused keys rows hr k hk),h.stored,h.ordered⟩,
    fun form hform _ k hk => ?_,fun e hsent _ he k hk => ?_⟩
  · rcases List.mem_append.mp hk with hk | hk
    · exact h.marks k hk
    · exact htombstone k (by simpa using hk)
  · refine .inl ?_
    rcases h.marked k hk with hmark | hmark
    · exact List.mem_append_left _ hmark
    · simp only [State.tombstone,hf] at hmark
      exact List.mem_append_right _ (by simpa using hmark)
  · obtain ⟨button,hqueued,rfl⟩ := nextSave_eq_sent.mp hform
    have hbutton : button = .removeImage k := hk
    exact hshown k (h.waiting k (hbutton ▸ hqueued))
  · rcases h.covered k hk with hk | hk | hk
    · exact (hshown k (.inl hk)).imp_right .inr
    · exact .inr (.inl hk)
    · exact .inr (.inr hk)
  · obtain ⟨button,_,rfl⟩ := nextSave_eq_sent.mp hform
    exact .inl hk
  · have hqueued : s.saveQueued = none := by
      cases hq : s.saveQueued with
      | none => rfl
      | some button =>
        refine absurd ?_ (hsent ((s.document.applyFragment f).adForm button))
        exact nextSave_eq_sent.mpr ⟨button,hq,rfl⟩
    refine h.storedAll e (fun form hform => ?_) hqueued he k (List.mem_of_mem_filter hk)
    rw [hf] at hform
    cases hform

/-- The answer of an upload takes nothing from the page, and brings back only what is removed. -/
theorem Kept.appliedUpload {reply : UploadReply} (h : Kept s) (hs : Sound site s)
    (hreply : s.upload = .answered reply) :
    Listed (s.appliedUpload reply) ∧ (attached reply = false → Kept (s.appliedUpload reply)) := by
  have hmore : ∀ k ∈ s.document.images, k ∈ (s.appliedUpload reply).document.images := by
    intro k hk
    cases reply with
    | refusals rows => exact hk
    | strip keys rows a => exact (hs.uploadAnswered keys rows a hreply).2.2 k hk
  have hback : attached reply = false → ∀ k ∈ (s.appliedUpload reply).document.images,
      k ∈ s.document.images ∨ s.removed k := by
    intro ha k hk
    cases reply with
    | refusals rows => exact .inl hk
    | strip keys rows a =>
      have ha : a = false := ha
      subst ha
      exact h.uploadRefused keys rows hreply k hk
  have hcoming : ∀ k ∈ s.coming, k ∈ (s.appliedUpload reply).document.images := by
    intro k hk
    cases reply with
    | refusals rows => simp [State.coming,hreply] at hk
    | strip keys rows a =>
      simp only [State.coming,hreply] at hk
      exact hk
  have hmarks : (s.appliedUpload reply).document.removedImages = s.document.removedImages := by
    cases reply <;> rfl
  have hlisted : Listed (s.appliedUpload reply) := by
    refine ⟨fun k hk => h.marks k (hmarks ▸ hk),fun k hk => hmarks ▸ h.marked k hk,h.answered,h.sent,
      fun k hk => (h.waiting k hk).imp_left (hmore k),fun k hk => ?_,fun form hform k hk => ?_,
      fun keys rows hr => ?_,h.stored,h.ordered⟩
    · rcases h.covered k hk with hk | hk | hk
      · exact .inl (hmore k hk)
      · exact .inl (hcoming k hk)
      · exact .inr (.inr hk)
    · obtain ⟨_,rfl⟩ := nextUpload_eq_sent.mp hform
      exact .inl hk
    · exact absurd hr nextUpload_ne_answered
  refine ⟨hlisted,fun ha => ⟨hlisted,fun form hform hqueued k hk => ?_,fun e hsent hqueued he k hk => ?_⟩⟩
  · rcases hback ha k hk with hk | hk
    · exact h.sentAll form hform hqueued k hk
    · exact .inr hk
  · rcases hback ha k hk with hk | hk
    · exact h.storedAll e hsent hqueued he k hk
    · exact .inr hk

theorem Kept.selected {files : List String} {upload : Flight UploadForm UploadReply} {queued : Bool} (h : Kept s)
    (hupload : upload = s.upload ∨ s.upload = .idle ∧ upload = .sent ⟨s.document.images,files⟩) : Kept { s with
      document := { s.document with files := files }, upload := upload, uploadQueued := queued } := by
  rcases hupload with rfl | ⟨hidle,rfl⟩
  · exact ⟨⟨h.marks,h.marked,h.answered,h.sent,h.waiting,h.covered,h.uploadSent,h.uploadRefused,h.stored,
      h.ordered⟩,h.sentAll,h.storedAll⟩
  · refine ⟨⟨h.marks,h.marked,h.answered,h.sent,h.waiting,fun k hk => ?_,fun form hform k hk => ?_,
      fun _ _ hr => (by cases hr),h.stored,h.ordered⟩,h.sentAll,h.storedAll⟩
    · rcases h.covered k hk with hk | hk | hk
      · exact .inl hk
      · simp [State.coming,hidle] at hk
      · exact .inr (.inr hk)
    · cases hform
      exact .inl hk

theorem Kept.answeredUpload {form : UploadForm} {new : List Key} {reply : UploadReply} (h : Kept s)
    (hform : s.upload = .sent form)
    (hnew : ∀ k ∈ new, k ∈ (s.processedUpload reply new).coming)
    (hkeys : ∀ keys rows, reply = .strip keys rows false → keys = form.images) :
    Kept (s.processedUpload reply new) := by
  refine ⟨⟨h.marks,h.marked,h.answered,h.sent,h.waiting,fun k hk => ?_,fun _ hf => (by cases hf),
    fun keys rows hr k hk => ?_,fun e he => ?_,h.ordered⟩,h.sentAll,h.storedAll⟩
  · have hknown : k ∈ s.known ∨ k ∈ new := by
      have hk : k ∈ s.started ++ (s.accepted ++ new) := hk
      rw [← List.append_assoc] at hk
      exact List.mem_append.mp hk
    rcases hknown with hk | hk
    · rcases h.covered k hk with hk | hk | hk
      · exact .inl hk
      · simp [State.coming,hform] at hk
      · exact .inr (.inr hk)
    · exact .inr (.inl (hnew k hk))
  · cases hr
    rw [hkeys keys rows rfl] at hk
    exact h.uploadSent form hform k hk
  · obtain ⟨hnodup,hstored⟩ := h.stored e he
    exact ⟨hnodup,fun k hk => ⟨known_append new k (hstored k hk).1,(hstored k hk).2⟩⟩

theorem Kept.change {e : Event} (h : Kept s) (hs : Sound site s) (hc : Change site s e s') : Kept s' := by
  cases hc with
  | typed title text =>
    exact ⟨⟨h.marks,h.marked,h.answered,h.sent,h.waiting,h.covered,h.uploadSent,h.uploadRefused,h.stored,
      h.ordered⟩,h.sentAll,h.storedAll⟩
  | triggered e button _ hpressed => exact h.toListed.trigger hpressed
  | selected files upload queued hupload => exact h.selected hupload
  | processedSave form ads adId ad hsave _ _ _ _ => exact h.processedSave hs hsave
  | appliedSave f hf => exact h.appliedSave hf
  | refusedUpload form stored rows hform =>
    exact h.answeredUpload hform (fun k hk => by cases hk) fun _ _ hr => by cases hr
  | processedUpload form stored new rows hform _ _ _ =>
    refine h.answeredUpload hform (fun k hk => List.mem_append_right _ hk) fun keys rows' hr => ?_
    simp only [UploadReply.strip.injEq,decide_eq_false_iff_not,ne_eq,Decidable.not_not] at hr
    obtain ⟨rfl,_,rfl⟩ := hr
    exact List.append_nil _
  | appliedUpload reply hreply =>
    obtain ⟨hlisted,hkept⟩ := h.appliedUpload hs hreply
    split
    · exact hlisted.trigger fun k hk => by cases hk
    · rename_i ha
      exact hkept (by simpa using ha)

theorem Opened.kept (h : Opened site s) : Kept s := by
  have hremoved : ∀ k, ¬ s.removed k := by
    rintro k ⟨e,he,_⟩
    rw [h.saved] at he
    cases he
  refine ⟨⟨fun k hk => ?_,fun k hk => absurd hk (hremoved k),fun f hf => ?_,fun form k hform => ?_,
    fun k hk => ?_,fun k hk => ?_,fun form hform => ?_,fun keys rows hr => ?_,fun e he => ?_,?_⟩,
    fun form hform => ?_,fun e _ _ he => ?_⟩
  · rw [h.removedImages] at hk
    cases hk
  · rw [h.quiet.save] at hf
    cases hf
  · rw [h.quiet.save] at hform
    cases hform
  · rw [h.quiet.saveQueued] at hk
    cases hk
  · rw [State.known,h.started,h.accepted,List.append_nil] at hk
    exact .inl hk
  · rw [h.quiet.upload] at hform
    cases hform
  · rw [h.quiet.upload] at hr
    cases hr
  · rw [h.saved] at he
    cases he
  · rw [h.saved]
    exact List.Pairwise.nil
  · rw [h.quiet.save] at hform
    cases hform
  · rw [h.saved] at he
    cases he

theorem started_change {e : Event} (hc : Change site s e s') : s'.started = s.started := by
  cases hc with
  | triggered e button _ _ => exact started_trigger
  | appliedUpload reply _ =>
    split
    · exact started_trigger
    · rfl
  | _ => rfl

theorem started_of_run {G : State → Event → Prop} {a b : State} (ha : Opened site a)
    (hab : Events.Run (step site) G a b) : b.started = a.started := by
  refine (invariant_of_changes (I := fun s => s.started = a.started) hab ha rfl ?_).2
  exact fun _ _ _ _ hs _ hc => (started_change hc).trans hs

theorem kept_of_run {G : State → Event → Prop} {a b : State} (ha : Opened site a)
    (hab : Events.Run (step site) G a b) : Sound site b ∧ Kept b :=
  invariant_of_changes hab ha ha.kept fun _ _ _ hs hk _ hc => hk.change hs hc

theorem Kept.quiet (h : Kept s) (hs : Sound site s) (hquiet : Quiet s) (hsaved : s.saved ≠ []) :
    ∃ ad, s.ad = some ad ∧ ad.images.Nodup ∧ ∀ k, k ∈ ad.images ↔ k ∈ s.known ∧ ¬ s.removed k := by
  cases hlast : s.saved.getLast? with
  | none => exact absurd (List.getLast?_eq_none_iff.mp hlast) hsaved
  | some e =>
    obtain ⟨ad,had,himages⟩ := hs.lastSaved e hlast
    obtain ⟨hnodup,hstored⟩ := h.stored e hlast
    refine ⟨ad,had,himages ▸ hnodup,fun k => ?_⟩
    rw [himages]
    refine ⟨hstored k,fun ⟨hknown,hkept⟩ => ?_⟩
    have hidle : ∀ form, s.save ≠ .sent form := by
      intro form hform
      rw [hquiet.save] at hform
      cases hform
    rcases h.covered k hknown with hk | hk | hk
    · exact (h.storedAll e hidle hquiet.saveQueued hlast k hk).resolve_right hkept
    · simp [State.coming,hquiet.upload] at hk
    · exact absurd hk hkept

/-- In every run of an opened page, no save after one that has carried the button of a key stores the key;
and when nothing is under way and something has been saved, the ad has exactly the keys with which the
page was opened and those accepted by uploads, without repetition, except the removed ones. -/
theorem attachments_kept (site : Site) (a b : State) (ha : Opened site a)
    (hab : Events.Run (step site) Events.anyEvent a b) :
    (b.saved.Pairwise fun e later => ∀ k, e.button = .removeImage k → k ∉ later.images) ∧
    (Quiet b → b.saved ≠ [] → ∃ ad, b.ad = some ad ∧ ad.images.Nodup ∧
      ∀ k, k ∈ ad.images ↔ (k ∈ a.document.images ∨ k ∈ b.accepted) ∧
        ¬ ∃ e ∈ b.saved, e.button = .removeImage k) := by
  obtain ⟨hsound,hkept⟩ := kept_of_run ha hab
  refine ⟨hkept.ordered,fun hquiet hsaved => ?_⟩
  obtain ⟨ad,had,hnodup,hmem⟩ := hkept.quiet hsound hquiet hsaved
  have hstarted : b.started = a.document.images := by
    rw [← ha.started]
    exact started_of_run ha hab
  refine ⟨ad,had,hnodup,fun k => ?_⟩
  rw [hmem k,State.known,List.mem_append,hstarted]
  rfl

/-- The first attachment is removed while a file is being uploaded; the answer of the upload brings its
tile back and asks for a save. -/
def removedDuringUpload : List Event :=
  [.select ["c.png"],.clickRemove keyA,.processSave,.applySave,.processUpload [.accepted keyC],.applyUpload,
    .processSave,.applySave]

theorem attachments_kept_run : (afterEvents removedDuringUpload).saved =
      [⟨.removeImage keyA,[keyB]⟩,⟨.autosave,[keyB,keyC]⟩] ∧
    ∃ ad, (afterEvents removedDuringUpload).ad = some ad ∧ ad.images.Nodup ∧
      ∀ k, k ∈ ad.images ↔ (k ∈ [keyA,keyB] ∨ k ∈ (afterEvents removedDuringUpload).accepted) ∧
        ¬ ∃ e ∈ (afterEvents removedDuringUpload).saved, e.button = .removeImage k := by
  have hsaved : (afterEvents removedDuringUpload).saved =
      [⟨.removeImage keyA,[keyB]⟩,⟨.autosave,[keyB,keyC]⟩] := by decide
  have hkept := attachments_kept siteOne (pageWith [keyA,keyB]) (afterEvents removedDuringUpload)
    (pageWith_opened goodKeys_ab) (Events.run_performed _ _ _ _)
  refine ⟨hsaved,hkept.2 ⟨by decide,by decide,by decide,by decide⟩ ?_⟩
  rw [hsaved]
  exact List.cons_ne_nil _ _

end EditorPage
end Broadcaster
