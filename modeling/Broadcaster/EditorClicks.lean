import Broadcaster.AttachmentSafety

/-!
# Clicks that a save carries out

A click on a tile or on the save button waits while a save is under way, and the
next trigger of the form takes its place.
-/

namespace Broadcaster
namespace EditorPage

open AdEditor Scheduling

/-- What the button asks for has been saved, or the save that does it is under way. -/
def heeded (s : State) (button : Button) : Bool :=
  (match s.save with
    | .sent form => form.button = button
    | .idle | .answered _ => false) ||
  match button with
  | .autosave => true
  | .removeImage _ => s.saved.any fun e => e.button = button
  | .save => s.ad.any fun ad => ad.status = adStatusPublished

def triggerOf (s : State) (e : Event) : Option Button :=
  match e, s.upload with
  | .applyUpload, .answered reply => if attached reply then some .autosave else none
  | e, _ => e.pressed

/-- The trigger takes the place of no other click that is still to be saved. -/
def keepsClicks (s : State) (e : Event) : Bool :=
  match triggerOf s e, s.saveQueued with
  | some button, some waiting => button = waiting || heeded s waiting
  | _, _ => true

def Heeded (s : State) : Prop := ∀ button ∈ s.clicked, heeded s button = true ∨ s.saveQueued = some button

variable {site : Site} {s s' : State} {button : Button}

theorem heeded_congr {s' : State} (hsave : s'.save = s.save) (hsaved : s'.saved = s.saved) (had : s'.ad = s.ad) :
    heeded s' button = heeded s button := by
  unfold heeded
  rw [hsave,hsaved,had]

/-- While no save is sent, only what has been saved counts. -/
theorem heeded_of_saved {s' : State} (hsent : ∀ form, s.save ≠ .sent form) (hsaved : s'.saved = s.saved)
    (had : s'.ad = s.ad) (h : heeded s button = true) : heeded s' button = true := by
  unfold heeded at h ⊢
  rw [hsaved,had]
  refine Bool.or_eq_true_iff.mpr (.inr ?_)
  rcases Bool.or_eq_true_iff.mp h with hflight | hdone
  · cases hsave : s.save with
    | sent form => exact absurd hsave (hsent form)
    | idle => simp [hsave] at hflight
    | answered reply => simp [hsave] at hflight
  · exact hdone

theorem heeded_of_sent (s : State) {form : AdForm} (hsent : s.save = .sent form)
    (hbutton : form.button = button) : heeded s button = true := by
  unfold heeded
  rw [hsent]
  simp [hbutton]

theorem Heeded.trigger (h : Heeded s) (hs : Sound site s)
    (hkept : ∀ waiting, s.saveQueued = some waiting → button = waiting ∨ heeded s waiting = true) :
    Heeded (trigger s button) := by
  intro b hb
  have hclicked : b ∈ s.clicked ∨ b = button := by
    have hb : b ∈ (if button = Button.autosave then s.clicked else s.clicked ++ [button]) := by
      unfold EditorPage.trigger at hb
      cases hsave : s.save <;> simpa [hsave] using hb
    split at hb
    · exact .inl hb
    · simpa using hb
  rcases save_trigger s button with ⟨hidle,hsave,hqueued⟩ | ⟨hbusy,hsave,hqueued⟩
  · have hsent : ∀ form, s.save ≠ .sent form := by
      intro form hform
      rw [hidle] at hform
      cases hform
    rcases hclicked with hb | rfl
    · rcases h b hb with hdone | hwaits
      · exact .inl (heeded_of_saved hsent saved_trigger ad_trigger hdone)
      · rw [hs.waiting hidle] at hwaits
        cases hwaits
    · exact .inl (heeded_of_sent _ hsave rfl)
  · rw [hqueued]
    rcases hclicked with hb | rfl
    · have hsame : ∀ b, heeded (EditorPage.trigger s button) b = heeded s b :=
        fun b => heeded_congr hsave saved_trigger ad_trigger
      rw [hsame b]
      rcases h b hb with hdone | hwaits
      · exact .inl hdone
      · rcases hkept b hwaits with rfl | hdone
        · exact .inr rfl
        · exact .inl hdone
    · exact .inr rfl

theorem Heeded.processedSave {form : AdForm} {ads : Store Ad} {adId : ℕ} {ad : Ad} (h : Heeded s)
    (hsave : s.save = .sent form) (had : adOfUser site.userId ads adId = some ad)
    (hstatus : ad.status = form.newStatus ((s.ad.map Ad.status).getD adStatusDraft)) :
    Heeded (s.processedSave ads (.fragment ⟨none,form.gone,form.dropped,some adId⟩)
      [⟨form.button,form.stored⟩]) := by
  intro b hb
  refine (h b hb).imp_left fun hdone => ?_
  have hrow := (adOfUser_eq_some.mp had).1
  unfold heeded at hdone ⊢
  rw [hsave] at hdone
  refine Bool.or_eq_true_iff.mpr (.inr ?_)
  cases b with
  | autosave => rfl
  | removeImage k =>
    simp only [State.processedSave_saved,List.any_append]
    simpa [or_comm] using hdone
  | save =>
    have hpublished : ad.status = adStatusPublished := by
      rw [hstatus,AdForm.newStatus]
      split
      · rfl
      · rename_i hexplicit
        rcases Bool.or_eq_true_iff.mp hdone with hbutton | hbefore
        · exact absurd hbutton hexplicit
        · cases hold : s.ad with
          | none => simp [hold] at hbefore
          | some old => simpa [hold] using hbefore
    show (Option.bind (some adId) ads.row).any _ = true
    simp [hrow,hpublished]

theorem Heeded.appliedSave {f : Fragment} (h : Heeded s) (hf : s.save = .answered (.fragment f)) :
    Heeded (s.appliedSave f) := by
  intro b hb
  refine .inl ?_
  rcases h b hb with hdone | hwaits
  · refine heeded_of_saved (s := s) (fun form hform => ?_) rfl (ad_appliedSave hf) hdone
    rw [hf] at hform
    cases hform
  · exact heeded_of_sent _ (nextSave_eq_sent.mpr ⟨b,hwaits,rfl⟩) rfl

theorem Heeded.change {e : Event} (h : Heeded s) (hs : Sound site s) (hg : keepsClicks s e = true)
    (hc : Change site s e s') : Heeded s' := by
  have hkept : ∀ b waiting, triggerOf s e = some b → s.saveQueued = some waiting →
      b = waiting ∨ heeded s waiting = true := by
    intro b waiting hb hwaiting
    simp only [keepsClicks,hb,hwaiting,Bool.or_eq_true,decide_eq_true_eq] at hg
    exact hg
  cases hc with
  | typed title text => exact h
  | triggered e button hpressed _ =>
    refine h.trigger hs fun waiting hwaiting => hkept button waiting ?_ hwaiting
    cases e <;> first | exact hpressed | cases hpressed
  | selected files upload queued _ => exact h
  | processedSave form ads adId ad hsave had _ hstatus _ => exact h.processedSave hsave had hstatus
  | appliedSave f hf => exact h.appliedSave hf
  | refusedUpload form stored rows _ => exact h
  | processedUpload form stored new rows _ _ _ _ => exact h
  | appliedUpload reply hreply =>
    have hsame : ∀ b, heeded (s.appliedUpload reply) b = heeded s b :=
      fun b => heeded_congr rfl rfl (ad_appliedUpload reply)
    have hshown : Heeded (s.appliedUpload reply) := by
      intro b hb
      rw [hsame b]
      exact h b hb
    split
    · rename_i hasks
      refine hshown.trigger (hs.appliedUpload hreply) fun waiting hwaiting => ?_
      rw [hsame waiting]
      refine hkept .autosave waiting ?_ hwaiting
      simp [triggerOf,hreply,hasks]
    · exact hshown

/-- In every run of an opened page in which no trigger takes the place of a click that is still to be
saved, no key whose tile has been clicked away is in the ad of a quiet page, and the ad is published when
the save button has been clicked. -/
theorem clicks_heeded (site : Site) (a b : State) (ha : Opened site a)
    (hab : Events.Run (step site) (fun s e => keepsClicks s e = true) a b) (hquiet : Quiet b) :
    (∀ k, .removeImage k ∈ b.clicked → ∀ ad, b.ad = some ad → k ∉ ad.images) ∧
    (.save ∈ b.clicked → ∃ ad, b.ad = some ad ∧ ad.status = adStatusPublished) := by
  have hstart : Heeded a := by
    intro button hb
    rw [ha.clicked] at hb
    cases hb
  obtain ⟨hsound,hkept⟩ := kept_of_run ha hab
  have hheeded := (invariant_of_changes hab ha hstart fun _ _ _ hs h hg hc => h.change hs hg hc).2
  have hdone : ∀ button ∈ b.clicked, heeded b button = true := by
    intro button hb
    rcases hheeded button hb with hdone | hwaits
    · exact hdone
    · rw [hquiet.saveQueued] at hwaits
      cases hwaits
  refine ⟨fun k hk ad had hmem => ?_,fun hsave => ?_⟩
  · have hremoved : b.removed k := by
      have hdone := hdone _ hk
      simp only [heeded,hquiet.save,Bool.false_or,List.any_eq_true,decide_eq_true_eq] at hdone
      exact hdone
    have hsaved : b.saved ≠ [] := by
      obtain ⟨e,he,_⟩ := hremoved
      exact List.ne_nil_of_mem he
    obtain ⟨ad',had',_,himages⟩ := hkept.quiet hsound hquiet hsaved
    rw [had] at had'
    cases had'
    exact ((himages k).mp hmem).2 hremoved
  · have hdone := hdone _ hsave
    simp only [heeded,hquiet.save,Bool.false_or] at hdone
    cases had : b.ad with
    | none => simp [had] at hdone
    | some ad => exact ⟨ad,rfl,by simpa [had] using hdone⟩

def clickedOneAfterTheOther : List Event :=
  [.clickRemove keyA,.clickSave,.processSave,.applySave,.processSave,.applySave]

def afterBothClicks : State :=
  Events.performed (step siteOne) (fun s e => keepsClicks s e = true) (pageWith [keyA,keyB])
    clickedOneAfterTheOther

theorem clicks_heeded_run : afterBothClicks.clicked = [.removeImage keyA,.save] ∧
    (∀ k, .removeImage k ∈ afterBothClicks.clicked → ∀ ad, afterBothClicks.ad = some ad → k ∉ ad.images) ∧
    (.save ∈ afterBothClicks.clicked → ∃ ad, afterBothClicks.ad = some ad ∧ ad.status = adStatusPublished) :=
  ⟨by decide,clicks_heeded siteOne (pageWith [keyA,keyB]) afterBothClicks (pageWith_opened goodKeys_ab)
    (Events.run_performed _ _ _ _) ⟨by decide,by decide,by decide,by decide⟩⟩

def clickedDuringAutosave : List Event :=
  [.autosave,.clickRemove keyA,.clickSave,.processSave,.applySave,.processSave,.applySave]

/-- The first attachment, which has been clicked away, is in the published ad. -/
theorem click_dropped : ¬ ∀ (site : Site) (a b : State), Opened site a →
    Events.Run (step site) Events.anyEvent a b → Quiet b →
    (∀ k, .removeImage k ∈ b.clicked → ∀ ad, b.ad = some ad → k ∉ ad.images) ∧
    (.save ∈ b.clicked → ∃ ad, b.ad = some ad ∧ ad.status = adStatusPublished) := by
  intro hall
  obtain ⟨hremoved,_⟩ := hall siteOne (pageWith [keyA,keyB]) (afterEvents clickedDuringAutosave)
    (pageWith_opened goodKeys_ab) (Events.run_performed _ _ _ _) ⟨by decide,by decide,by decide,by decide⟩
  have hclicked : (afterEvents clickedDuringAutosave).clicked = [.removeImage keyA,.save] := by decide
  have hstored : (afterEvents clickedDuringAutosave).ad =
      some ⟨1,"title","text",[keyA,keyB],adStatusPublished⟩ := by decide
  exact hremoved keyA (hclicked ▸ List.mem_cons_self) _ hstored List.mem_cons_self

end EditorPage
end Broadcaster
