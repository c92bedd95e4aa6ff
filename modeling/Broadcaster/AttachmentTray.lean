import Broadcaster.EditorPage

/-!
# The tray shows what is stored

The answer of a save takes from the tray what the save has not stored. The
answer of an upload is as old as its form; it asks for another save when a file
has been accepted, and only then.
-/

namespace Broadcaster
namespace EditorPage

open AdEditor

/-- An answer that asks for no save shows what the page shows, unless another save waits. -/
def bringsNothingBack (s : State) (e : Event) : Bool :=
  match e, s.upload with
  | .applyUpload, .answered (.strip imageKeys _ false) =>
    imageKeys = s.document.images || s.saveQueued.isSome
  | _, _ => true

/-- The page shows what the last save has stored, or will when its answer is there, unless another save
waits. -/
structure Shown (s : State) : Prop where
  idle : s.save = .idle → ∀ e, s.saved.getLast? = some e → s.document.images = e.images
  sent : ∀ form, s.save = .sent form → s.saveQueued = none → s.document.images = form.images
  answered : ∀ f, s.save = .answered (.fragment f) → s.saveQueued = none →
    ∀ e, s.saved.getLast? = some e → (s.document.applyFragment f).images = e.images

variable {site : Site} {s s' : State}

theorem shown_trigger (s : State) (button : Button) : Shown (trigger s button) := by
  rcases save_trigger s button with ⟨_,hsave,_⟩ | ⟨hbusy,hsave,hqueued⟩
  · refine ⟨fun hidle => ?_,fun form hform _ => ?_,fun f hf => ?_⟩
    · rw [hsave] at hidle
      cases hidle
    · rw [hsave] at hform
      cases hform
      rw [document_trigger]
      rfl
    · rw [hsave] at hf
      cases hf
  · refine ⟨fun hidle => absurd (hsave ▸ hidle) hbusy,fun form _ hnone => ?_,fun f _ hnone => ?_⟩
    · rw [hqueued] at hnone
      cases hnone
    · rw [hqueued] at hnone
      cases hnone

theorem Shown.processedSave {form : AdForm} {ads : Store Ad} {adId : ℕ} (h : Shown s) (hs : Sound site s)
    (hsave : s.save = .sent form) : Shown (s.processedSave ads
      (.fragment ⟨none,form.gone,form.dropped,some adId⟩) [⟨form.button,form.stored⟩]) := by
  refine ⟨fun hidle => (by cases hidle),fun _ hf => (by cases hf),fun f hf hqueued e he => ?_⟩
  cases hf
  have hlast : e = ⟨form.button,form.stored⟩ := last_processedSave he
  have himages : s.document.images = form.images := h.sent form hsave hqueued
  rw [hlast,stored_eq_filter (hs.sent form hsave).1.nodup,← himages]
  rfl

theorem Shown.appliedSave {f : Fragment} (h : Shown s) (hf : s.save = .answered (.fragment f)) :
    Shown (s.appliedSave f) := by
  unfold State.appliedSave
  cases hqueued : s.saveQueued with
  | none =>
    exact ⟨fun _ e he => h.answered f hf hqueued e he,fun _ hform => (by cases hform),
      fun _ hg => (by cases hg)⟩
  | some button =>
    refine ⟨fun hidle => (by cases hidle),fun form hform _ => ?_,fun _ hg => (by cases hg)⟩
    cases hform
    rfl

theorem Shown.appliedUpload {reply : UploadReply} (h : Shown s) (hs : Sound site s)
    (hreply : s.upload = .answered reply) (hg : bringsNothingBack s .applyUpload = true)
    (hasks : attached reply = false) : Shown (s.appliedUpload reply) := by
  have himages : s.saveQueued = none → (s.document.applyUpload reply).images = s.document.images := by
    intro hqueued
    cases reply with
    | refusals rows => rfl
    | strip keys rows a =>
      have ha : a = false := hasks
      subst ha
      simp only [bringsNothingBack,hreply,hqueued,Option.isSome_none,Bool.or_false,decide_eq_true_eq] at hg
      exact hg
  refine ⟨fun hidle e he => ?_,fun form hform hqueued => ?_,fun f hf hqueued e he => ?_⟩
  · rw [← h.idle hidle e he]
    exact himages (hs.waiting hidle)
  · rw [← h.sent form hform hqueued]
    exact himages hqueued
  · rw [← h.answered f hf hqueued e he]
    exact congrArg (List.filter fun k => k ∉ f.mediaGone) (himages hqueued)

theorem Shown.change {e : Event} (h : Shown s) (hs : Sound site s) (hg : bringsNothingBack s e = true)
    (hc : Change site s e s') : Shown s' := by
  cases hc with
  | typed title text => exact ⟨h.idle,h.sent,h.answered⟩
  | triggered e button _ _ => exact shown_trigger s button
  | selected files upload queued _ => exact ⟨h.idle,h.sent,h.answered⟩
  | processedSave form ads adId ad hsave _ _ _ _ => exact h.processedSave hs hsave
  | appliedSave f hf => exact h.appliedSave hf
  | refusedUpload form stored rows _ => exact ⟨h.idle,h.sent,h.answered⟩
  | processedUpload form stored new rows _ _ _ _ => exact ⟨h.idle,h.sent,h.answered⟩
  | appliedUpload reply hreply =>
    split
    · exact shown_trigger _ .autosave
    · rename_i hasks
      exact h.appliedUpload hs hreply hg (by simpa using hasks)

theorem Opened.shown_initially (h : Opened site s) : Shown s := by
  refine ⟨fun _ e he => ?_,fun form hform => ?_,fun f hf => ?_⟩
  · rw [h.saved] at he
    cases he
  · rw [h.quiet.save] at hform
    cases hform
  · rw [h.quiet.save] at hf
    cases hf

/-- In every run of an opened page in which no answer of an upload brings a removed tile back without
asking for a save, the tray of a quiet page shows the keys of the ad, in their order. -/
theorem tray_shows_ad (site : Site) (a b : State) (ha : Opened site a)
    (hab : Events.Run (step site) (fun s e => bringsNothingBack s e = true) a b) (hquiet : Quiet b)
    (hsaved : b.saved ≠ []) : ∃ ad, b.ad = some ad ∧ b.document.images = ad.images := by
  obtain ⟨hsound,hshown⟩ := invariant_of_changes hab ha ha.shown_initially
    fun _ _ _ hs hshown hg hc => hshown.change hs hg hc
  cases hlast : b.saved.getLast? with
  | none => exact absurd (List.getLast?_eq_none_iff.mp hlast) hsaved
  | some e =>
    obtain ⟨ad,had,himages⟩ := hsound.lastSaved e hlast
    exact ⟨ad,had,(hshown.idle hquiet.save e hlast).trans himages.symm⟩

def removedAfterRefusal : List Event :=
  [.select ["a.gif"],.processUpload [.rejected "format"],.applyUpload,.clickRemove keyA,.processSave,.applySave]

def afterRefusal : State :=
  Events.performed (step siteOne) (fun s e => bringsNothingBack s e = true) (pageWith [keyA,keyB])
    removedAfterRefusal

theorem tray_shows_ad_run : afterRefusal.document.images = [keyB] ∧
    ∃ ad, afterRefusal.ad = some ad ∧ afterRefusal.document.images = ad.images := by
  refine ⟨by decide,tray_shows_ad siteOne (pageWith [keyA,keyB]) afterRefusal (pageWith_opened goodKeys_ab)
    (Events.run_performed _ _ _ _) ⟨by decide,by decide,by decide,by decide⟩ ?_⟩
  have hsaved : afterRefusal.saved = [⟨.removeImage keyA,[keyB]⟩] := by decide
  rw [hsaved]
  exact List.cons_ne_nil _ _

def removedBeforeRefusal : List Event :=
  [.select ["a.gif"],.clickRemove keyA,.processSave,.applySave,.processUpload [.rejected "format"],.applyUpload]

/-- The removed tile is on the page again, and nothing takes it away. -/
theorem removed_tile_shown : ¬ ∀ (site : Site) (a b : State), Opened site a →
    Events.Run (step site) Events.anyEvent a b → Quiet b → b.saved ≠ [] →
    ∃ ad, b.ad = some ad ∧ b.document.images = ad.images := by
  intro hall
  have hsaved : (afterEvents removedBeforeRefusal).saved = [⟨.removeImage keyA,[keyB]⟩] := by decide
  obtain ⟨ad,had,himages⟩ := hall siteOne (pageWith [keyA,keyB]) (afterEvents removedBeforeRefusal)
    (pageWith_opened goodKeys_ab) (Events.run_performed _ _ _ _)
    ⟨by decide,by decide,by decide,by decide⟩ (by rw [hsaved]; exact List.cons_ne_nil _ _)
  have hstored : (afterEvents removedBeforeRefusal).ad.map Ad.images = some [keyB] := by decide
  have hshown : (afterEvents removedBeforeRefusal).document.images = [keyA,keyB] := by decide
  rw [had,Option.map_some,← himages,hshown] at hstored
  exact absurd hstored (by decide)

end EditorPage
end Broadcaster
