import Broadcaster.RecompressReport

/-!
# Dry runs and second runs

Without failures of the store the look at a key depends on its object and on its
thumbnail, which the work on another key leaves alone. A dry run therefore finds
at each key what the run with writes finds, and after a run with writes there is
nothing left to write.
-/

namespace Broadcaster
namespace Recompress

open AdEditor (Key)
open FirstOccurrences Python StoredImages
open UploadKeys (thumbKey thumbKeyPrefix)

def noFailures : Failures := fun _ _ => none

/-- What has been built as a delivery is known again as one: each part of it that can be read has a long edge
within the limit. -/
def DeliveriesWithin (pil : Pillow) : Prop :=
  ∀ content thumbnail rebuilt delivery, rebuildStoredImage pil content true thumbnail = .ok rebuilt →
    rebuilt.delivery = some delivery →
      ∀ n probe, probeImage pil (delivery.take n) = .ok probe → probe.longEdge ≤ deliveryMaxEdge

def Quiet (pil : Pillow) (objects : Objects) (key : Key) : Prop :=
  ∀ content rebuilt, Work pil noFailures objects key content rebuilt →
    rebuilt.thumbnail = none ∧ ∀ delivery, rebuilt.delivery = some delivery → ¬delivery.length < content.length

variable {pil : Pillow} {objects objects' : Objects} {key : Key} {keys : List Key} {s t : State} {content : Body}
  {rebuilt : RebuiltImage} {images images' : List Json}

theorem examine_congr {fails : Failures} (hkey : objects' key = objects key)
    (hthumb : objects' (thumbKey key) = objects (thumbKey key)) (r : Report) :
    examine pil fails objects' key r = examine pil fails objects key r := by
  simp only [examine,decideKey,readKey,hkey,hthumb]

theorem writeThumbnail_dry {sizeAfter : ℕ} (hreport : s.report = t.report) :
    (writeThumbnail noFailures key false rebuilt sizeAfter s).1.report =
        (writeThumbnail noFailures key true rebuilt sizeAfter t).1.report ∧
      (writeThumbnail noFailures key false rebuilt sizeAfter s).1.objects = s.objects ∧
      (writeThumbnail noFailures key false rebuilt sizeAfter s).1.puts = s.puts ∧
      (writeThumbnail noFailures key false rebuilt sizeAfter s).2 = none ∧
      (writeThumbnail noFailures key true rebuilt sizeAfter t).2 = none := by
  unfold writeThumbnail
  cases rebuilt.thumbnail with
  | none => simp [hreport]
  | some thumbnail => simp [noFailures,State.put,hreport]

theorem writeOriginal_dry (key : Key) (content : Body) (rebuilt : RebuiltImage) (hreport : s.report = t.report) :
    (writeOriginal noFailures key false content rebuilt s).1.report =
        (writeOriginal noFailures key true content rebuilt t).1.report ∧
      (writeOriginal noFailures key false content rebuilt s).1.objects = s.objects ∧
      (writeOriginal noFailures key false content rebuilt s).1.puts = s.puts ∧
      (writeOriginal noFailures key false content rebuilt s).2 = none ∧
      (writeOriginal noFailures key true content rebuilt t).2 = none := by
  unfold writeOriginal
  cases rebuilt.delivery with
  | none => exact writeThumbnail_dry (by simp [hreport])
  | some delivery =>
    by_cases hsmaller : delivery.length < content.length
    · simp only [if_pos hsmaller,noFailures]
      exact writeThumbnail_dry (by simp [State.put,hreport])
    · simp only [if_neg hsmaller]
      exact writeThumbnail_dry (by simp [hreport])

/-- A dry step from a state in which the key looks the same. -/
theorem processKey_dry (pil : Pillow) (hkey : t.objects key = s.objects key)
    (hthumb : t.objects (thumbKey key) = s.objects (thumbKey key)) (hreport : s.report = t.report) :
    (processKey pil noFailures false s key).report = (processKey pil noFailures true t key).report ∧
      (processKey pil noFailures false s key).objects = s.objects ∧
      (processKey pil noFailures false s key).puts = s.puts := by
  rw [processKey_eq,processKey_eq,examine_congr hkey hthumb,hreport]
  generalize examine pil noFailures s.objects key { t.report with scanned := t.report.scanned+1 } = out
  obtain ⟨r,ending⟩ := out
  cases ending with
  | returned => exact ⟨rfl,rfl,rfl⟩
  | raised e => exact ⟨rfl,rfl,rfl⟩
  | work content rebuilt =>
    obtain ⟨hwritten,hobjects,hputs,hdry,hwet⟩ := writeOriginal_dry key content rebuilt
      (s := { s with report := r }) (t := { t with report := r }) rfl
    simp only [hdry,hwet]
    exact ⟨hwritten,hobjects,hputs⟩

theorem processKeys_dry (pil : Pillow) (hkeys : ∀ k ∈ keys, Original k) (hnodup : keys.Nodup)
    (hagree : ∀ k ∈ keys, t.objects k = s.objects k ∧ t.objects (thumbKey k) = s.objects (thumbKey k))
    (hreport : s.report = t.report) :
    (processKeys pil noFailures false keys s).report = (processKeys pil noFailures true keys t).report ∧
      (processKeys pil noFailures false keys s).objects = s.objects ∧
      (processKeys pil noFailures false keys s).puts = s.puts := by
  induction keys generalizing s t with
  | nil => exact ⟨hreport,rfl,rfl⟩
  | cons k keys ih =>
    rw [List.nodup_cons] at hnodup
    have hrest : ∀ k ∈ keys, Original k := fun k h => hkeys k (List.mem_cons_of_mem _ h)
    obtain ⟨hobject,hthumb⟩ := hagree k (by simp)
    obtain ⟨hstep,hobjects,hputs⟩ := processKey_dry pil hobject hthumb hreport
    have hnext : ∀ k' ∈ keys,
        (processKey pil noFailures true t k).objects k' = (processKey pil noFailures false s k).objects k' ∧
        (processKey pil noFailures true t k).objects (thumbKey k') =
          (processKey pil noFailures false s k).objects (thumbKey k') := by
      intro k' hk'
      obtain ⟨hobject',hthumb'⟩ := processKey_others pil noFailures t
        (hkeys k (by simp)) (hrest k' hk') fun he => hnodup.1 (he ▸ hk')
      obtain ⟨hagree₁,hagree₂⟩ := hagree k' (List.mem_cons_of_mem _ hk')
      rw [hobjects,hobject',hthumb']
      exact ⟨hagree₁,hagree₂⟩
    obtain ⟨hreport',hobjects',hputs'⟩ := ih hrest hnodup.2 hnext hstep
    exact ⟨hreport',hobjects'.trans hobjects,hputs'.trans hputs⟩

theorem quiet_congr (hkey : objects' key = objects key)
    (hthumb : objects' (thumbKey key) = objects (thumbKey key)) :
    Quiet pil objects' key ↔ Quiet pil objects key := by
  simp only [Quiet,work_congr hkey hthumb]

theorem writeOriginal_quiet (hthumbnail : rebuilt.thumbnail = none)
    (hlarge : ∀ delivery, rebuilt.delivery = some delivery → ¬delivery.length < content.length) :
    (writeOriginal noFailures key true content rebuilt s).1.objects = s.objects ∧
      (writeOriginal noFailures key true content rebuilt s).1.puts = s.puts := by
  unfold writeOriginal
  cases hdelivery : rebuilt.delivery with
  | none => simp [writeThumbnail,hthumbnail]
  | some delivery => simp [writeThumbnail,hthumbnail,hlarge delivery hdelivery]

theorem processKey_quiet (h : Quiet pil s.objects key) :
    (processKey pil noFailures true s key).objects = s.objects ∧
      (processKey pil noFailures true s key).puts = s.puts := by
  have hwork : ∀ content rebuilt, _ ↔ Work pil noFailures s.objects key content rebuilt := fun content rebuilt =>
    examine_work (r := { s.report with scanned := s.report.scanned+1 })
  rw [processKey_eq]
  generalize examine pil noFailures s.objects key { s.report with scanned := s.report.scanned+1 } = out at *
  obtain ⟨r,ending⟩ := out
  cases ending with
  | returned => exact ⟨rfl,rfl⟩
  | raised e => exact ⟨rfl,rfl⟩
  | work content rebuilt =>
    obtain ⟨hthumbnail,hlarge⟩ := h content rebuilt ((hwork content rebuilt).mp rfl)
    simp only [ended_objects,ended_puts]
    exact writeOriginal_quiet hthumbnail hlarge

theorem processKeys_quiet (h : ∀ k ∈ keys, Quiet pil s.objects k) :
    (processKeys pil noFailures true keys s).objects = s.objects ∧
      (processKeys pil noFailures true keys s).puts = s.puts := by
  induction keys generalizing s with
  | nil => exact ⟨rfl,rfl⟩
  | cons k keys ih =>
    obtain ⟨hobjects,hputs⟩ := processKey_quiet (h k (by simp))
    have hrest : ∀ k' ∈ keys, Quiet pil (processKey pil noFailures true s k).objects k' := by
      intro k' hk'
      rw [hobjects]
      exact h k' (List.mem_cons_of_mem _ hk')
    obtain ⟨hobjects',hputs'⟩ := ih hrest
    exact ⟨hobjects'.trans hobjects,hputs'.trans hputs⟩

theorem writeOriginal_objects (content : Body) (rebuilt : RebuiltImage) (s : State) (hkey : Original key) :
    ((writeOriginal noFailures key true content rebuilt s).1.objects (thumbKey key) =
        rebuilt.thumbnail.or (s.objects (thumbKey key))) ∧
      (∀ delivery, rebuilt.delivery = some delivery → delivery.length < content.length →
        (writeOriginal noFailures key true content rebuilt s).1.objects key = some delivery) ∧
      ((∀ delivery, rebuilt.delivery = some delivery → ¬delivery.length < content.length) →
        (writeOriginal noFailures key true content rebuilt s).1.objects key = s.objects key) := by
  have hne := thumbKey_ne hkey hkey
  unfold writeOriginal writeThumbnail
  cases rebuilt.delivery with
  | none => cases rebuilt.thumbnail <;> simp [noFailures,State.put,hne]
  | some delivery =>
    by_cases hsmaller : delivery.length < content.length
    · cases rebuilt.thumbnail <;> simp [noFailures,State.put,hne,hne.symm,hsmaller]
    · cases rebuilt.thumbnail <;> simp [noFailures,State.put,hne,hsmaller]

theorem probed_of_delivery {delivery : Body} {probe : ImageProbe}
    (hwithin : ∀ n probe, probeImage pil (delivery.take n) = .ok probe → probe.longEdge ≤ deliveryMaxEdge)
    (h : probed pil delivery = some probe) : probe.longEdge ≤ deliveryMaxEdge := by
  rcases probed_eq_some.mp h with hfront | ⟨_,_,hwhole⟩
  · exact hwithin headReadBytes probe hfront
  · refine hwithin delivery.length probe ?_
    rw [List.take_length]
    exact hwhole

/-- An object that has been worked on is either a delivery, which is within the limit, or the object that did
not shrink, which does not shrink the second time either. -/
theorem quiet_of_work (hwithin : DeliveriesWithin pil) (hwork : Work pil noFailures objects key content rebuilt)
    (hthumb : objects' (thumbKey key) = rebuilt.thumbnail.or (objects (thumbKey key)))
    (hwritten : ∀ delivery, rebuilt.delivery = some delivery → delivery.length < content.length →
      objects' key = some delivery)
    (hkept : (∀ delivery, rebuilt.delivery = some delivery → ¬delivery.length < content.length) →
      objects' key = objects key) : Quiet pil objects' key := by
  obtain ⟨_,_,_,hobject,probe,hprobe,_,hrebuilt⟩ := hwork
  have hsome : ∃ thumbnail, objects' (thumbKey key) = some thumbnail := by
    have hbuilt := rebuild_thumbnail_isSome hrebuilt
    cases hold : objects (thumbKey key) with
    | none =>
      rw [hold,Option.isNone_none,Option.isSome_iff_exists] at hbuilt
      obtain ⟨thumbnail,hthumbnail⟩ := hbuilt
      exact ⟨thumbnail,by rw [hthumb,hthumbnail]; rfl⟩
    | some old =>
      rw [hthumb,hold]
      cases rebuilt.thumbnail with
      | none => exact ⟨old,rfl⟩
      | some thumbnail => exact ⟨thumbnail,rfl⟩
  obtain ⟨thumbnail,hthumbnail⟩ := hsome
  rintro content' rebuilt' ⟨_,_,_,hobject',probe',hprobe',hneeded',hrebuilt'⟩
  rw [hthumbnail] at hneeded' hrebuilt'
  have hlong' : deliveryMaxEdge < probe'.longEdge := by
    rcases hneeded' with hlong | hnone
    · exact hlong
    · cases hnone
  rw [decide_eq_true hlong',Option.isNone_some] at hrebuilt'
  have hnothumb : rebuilt'.thumbnail.isSome = false := rebuild_thumbnail_isSome hrebuilt'
  refine ⟨Option.not_isSome_iff_eq_none.mp (by simp [hnothumb]),fun delivery' hdelivery' => ?_⟩
  by_cases hsmaller : ∃ delivery, rebuilt.delivery = some delivery ∧ delivery.length < content.length
  · obtain ⟨delivery,hdelivery,hlt⟩ := hsmaller
    have hresize : decide (deliveryMaxEdge < probe.longEdge) = true := by
      rw [← rebuild_delivery_isSome hrebuilt,hdelivery]
      rfl
    rw [hresize] at hrebuilt
    rw [hwritten delivery hdelivery hlt] at hobject'
    cases hobject'
    have hle := probed_of_delivery (hwithin _ _ _ _ hrebuilt hdelivery) hprobe'
    exact absurd hlong' (not_lt.mpr hle)
  · have hlarge : ∀ delivery, rebuilt.delivery = some delivery → ¬delivery.length < content.length :=
      fun delivery hdelivery hlt => hsmaller ⟨delivery,hdelivery,hlt⟩
    rw [hkept hlarge,hobject] at hobject'
    cases hobject'
    rw [hprobe] at hprobe'
    cases hprobe'
    rw [decide_eq_true hlong'] at hrebuilt
    obtain ⟨rebuilt₂,hrebuilt₂,hsame⟩ := rebuild_without_thumbnail hrebuilt
    rw [hrebuilt'] at hrebuilt₂
    cases hrebuilt₂
    exact hlarge delivery' (hsame.symm.trans hdelivery')

theorem quiet_processKey (hwithin : DeliveriesWithin pil) (hkey : Original key) (s : State) :
    Quiet pil (processKey pil noFailures true s key).objects key := by
  have hwork : ∀ content rebuilt, _ ↔ Work pil noFailures s.objects key content rebuilt := fun content rebuilt =>
    examine_work (r := { s.report with scanned := s.report.scanned+1 })
  rw [processKey_eq]
  generalize examine pil noFailures s.objects key { s.report with scanned := s.report.scanned+1 } = out at *
  obtain ⟨r,ending⟩ := out
  cases ending with
  | returned => exact fun content rebuilt h => by cases (hwork content rebuilt).mpr h
  | raised e => exact fun content rebuilt h => by cases (hwork content rebuilt).mpr h
  | work content rebuilt =>
    obtain ⟨hthumb,hwritten,hkept⟩ := writeOriginal_objects content rebuilt { s with report := r } hkey
    simp only [ended_objects]
    exact quiet_of_work hwithin ((hwork content rebuilt).mp rfl) hthumb hwritten hkept

theorem quiet_processKeys (hwithin : DeliveriesWithin pil) (hkeys : ∀ k ∈ keys, Original k) (hnodup : keys.Nodup)
    (hmem : key ∈ keys) : Quiet pil (processKeys pil noFailures true keys s).objects key := by
  induction keys generalizing s with
  | nil => cases hmem
  | cons k keys ih =>
    rw [List.nodup_cons] at hnodup
    have hrest : ∀ k ∈ keys, Original k := fun k h => hkeys k (List.mem_cons_of_mem _ h)
    rcases List.mem_cons.mp hmem with rfl | hmem
    · have hkey := hkeys key (by simp)
      obtain ⟨hobject,hthumb⟩ := processKeys_others pil noFailures
        (processKey pil noFailures true s key) hrest hkey hnodup.1
      exact (quiet_congr hobject hthumb).mpr (quiet_processKey hwithin hkey s)
    · exact ih hrest hnodup.2 hmem

/-- The dry run writes nothing and reports what the run with writes reports; and a second run with writes,
over the same keys in any order, writes nothing. -/
theorem dry_run_predicts_and_second_run_rests
    (hnothumb : ∀ key ∈ collectAttachmentKeys images, isThumbKey key = false) (hwithin : DeliveriesWithin pil)
    (hsame : ∀ key ∈ collectAttachmentKeys images', key ∈ collectAttachmentKeys images) :
    (recompressAttachments pil noFailures false images objects).puts = [] ∧
      (recompressAttachments pil noFailures false images objects).objects = objects ∧
      (recompressAttachments pil noFailures false images objects).report =
        (recompressAttachments pil noFailures true images objects).report ∧
      (recompressAttachments pil noFailures true images'
        (recompressAttachments pil noFailures true images objects).objects).puts = [] := by
  have hkeys : ∀ key ∈ collectAttachmentKeys images, Original key := fun key h => collected_original hnothumb h
  have hnodup := collected_nodup images
  obtain ⟨hreport,hobjects,hputs⟩ := processKeys_dry pil (s := ⟨objects,[],Report.empty⟩)
    (t := ⟨objects,[],Report.empty⟩) hkeys hnodup (fun _ _ => ⟨rfl,rfl⟩) rfl
  have hquiet : ∀ key ∈ collectAttachmentKeys images',
      Quiet pil (recompressAttachments pil noFailures true images objects).objects key := fun key h =>
    quiet_processKeys hwithin hkeys hnodup (hsame key h)
  exact ⟨hputs,hobjects,hreport,
    (processKeys_quiet (s := ⟨_,[],Report.empty⟩) hquiet).2⟩

theorem delivery_oneByte {thumbnail : Bool} {delivery : Body}
    (h : rebuildStoredImage oneByteJpegs content true thumbnail = .ok rebuilt)
    (hdelivery : rebuilt.delivery = some delivery) : delivery = [0] := by
  obtain ⟨out,hout,hsame,_⟩ := rebuild_split h
  unfold deliver at hout
  obtain ⟨decoded,_,hout⟩ := bind_eq_ok.mp hout
  obtain ⟨keepsAlpha,_,hout⟩ := bind_eq_ok.mp hout
  obtain ⟨image,_,hout⟩ := bind_eq_ok.mp hout
  obtain ⟨deliveryImage,_,hout⟩ := bind_eq_ok.mp hout
  obtain ⟨encoded,hencoded,hout⟩ := bind_eq_ok.mp hout
  cases hout
  have hone : (encode oneByteJpegs deliveryImage decoded.1 deliveryJpegQuality).mapError escaped = .ok [0] := by
    unfold encode
    split <;> rfl
  rw [hone] at hencoded
  cases hencoded
  rw [hsame] at hdelivery
  exact (Option.some.inj hdelivery).symm

def twoAttachments : List Json := [.null,.arr [.str "7/a.jpg",.int 3,.str "7/a.jpg"],.arr [.str "8/b.jpg"]]

theorem dry_run_predicts_two :
    (recompressAttachments oneByteJpegs noFailures false twoAttachments oneObject).puts = [] ∧
      (recompressAttachments oneByteJpegs noFailures false twoAttachments oneObject).objects = oneObject ∧
      (recompressAttachments oneByteJpegs noFailures false twoAttachments oneObject).report =
        (recompressAttachments oneByteJpegs noFailures true twoAttachments oneObject).report ∧
      (recompressAttachments oneByteJpegs noFailures true twoAttachments
        (recompressAttachments oneByteJpegs noFailures true twoAttachments oneObject).objects).puts = [] := by
  have hnothumb : ∀ key ∈ collectAttachmentKeys twoAttachments, isThumbKey key = false := by
    intro key hkey
    have hall : collectAttachmentKeys twoAttachments = ["7/a.jpg","8/b.jpg"] := rfl
    rw [hall] at hkey
    simp only [List.mem_cons,List.not_mem_nil,or_false] at hkey
    rcases hkey with rfl | rfl <;> decide
  have hwithin : DeliveriesWithin oneByteJpegs := by
    intro content thumbnail rebuilt delivery hrebuilt hdelivery n probe hprobe
    rw [delivery_oneByte hrebuilt hdelivery] at hprobe
    have hshort : ([0].take n : Body).length ≤ 1 := by
      rw [List.length_take]
      exact min_le_right _ _
    simp only [probeImage,openSupported,oneByteJpegs,if_pos hshort] at hprobe
    cases hprobe
    exact (by decide : max 1920 1280 ≤ deliveryMaxEdge)
  exact dry_run_predicts_and_second_run_rests hnothumb hwithin fun _ h => h

end Recompress
end Broadcaster
