import Broadcaster.FirstOccurrences
import Broadcaster.PythonValues
import Broadcaster.StoredImages
import Broadcaster.UploadKeys

/-!
# Compressing stored attachments anew

`scripts/recompress_attachments.py`. The keys are those that the ads list. A key
is looked at first, which only reads, and then its original and its thumbnail are
written. Each call to the store may raise instead of taking effect; whatever is
raised ends the work on its key and becomes an error of the report.
-/

namespace Broadcaster
namespace Recompress

open AdEditor (Key)
open FirstOccurrences Python StoredImages
open UploadKeys (thumbKey thumbKeyPrefix)

def headReadBytes : ℕ := 65536

inductive SkipReason
  | alreadyWithinLimit | thumbnailExists | unsupportedFormat | overPixelCeiling
  deriving DecidableEq

def SkipReason.text : SkipReason → String
  | .alreadyWithinLimit => "уже в пределах"
  | .thumbnailExists => "миниатюра есть"
  | .unsupportedFormat => "формат не поддерживается"
  | .overPixelCeiling => "превышает потолок пикселей"

def unsupportedExamplesLimit : ℕ := 10

structure Report where
  scanned : ℕ
  processed : ℕ
  bytesBefore : ℕ
  bytesAfter : ℕ
  thumbBytesAdded : ℕ
  notShrunk : ℕ
  skips : SkipReason → ℕ
  unsupportedExamples : List Key
  errors : List (Key × String)

namespace Report

def empty : Report := ⟨0,0,0,0,0,0,fun _ => 0,[],[]⟩

def skip (r : Report) (reason : SkipReason) : Report :=
  { r with skips := Function.update r.skips reason (r.skips reason+1) }

def rememberUnsupported (r : Report) (key : Key) : Report :=
  if r.unsupportedExamples.length < unsupportedExamplesLimit then
    { r with unsupportedExamples := r.unsupportedExamples ++ [key] }
  else r

def error (r : Report) (key : Key) (message : String) : Report :=
  { r with errors := r.errors ++ [(key,message)] }

end Report

def missingMessage : String := "объекта нет в хранилище"

def vanishedMessage : String := "объект исчез между чтениями"

abbrev Objects := Key → Option Body

inductive Call
  | head | read | exists | putOriginal | putThumbnail
  deriving DecidableEq

abbrev Failures := Key → Call → Option Raised

structure Put where
  key : Key
  content : Body
  contentType : String

structure State where
  objects : Objects
  puts : List Put
  report : Report

def State.put (s : State) (p : Put) : State :=
  { s with objects := Function.update s.objects p.key (some p.content), puts := s.puts ++ [p] }

/-- What is no string and the empty one are passed over. -/
def attachmentKey : Json → Option Key
  | .str value => if value = "" then none else some value
  | _ => none

def listValues : Json → List Json
  | .arr values => values
  | _ => []

/-- `collect_attachment_keys`, from the column `Ad.images` -/
def collectAttachmentKeys (images : List Json) : List Key :=
  firsts some [] ((images.flatMap listValues).filterMap attachmentKey)

inductive Ending
  | returned
  | raised (e : Raised)
  | work (content : Body) (rebuilt : RebuiltImage)

section ProcessKey

variable (pil : Pillow) (fails : Failures) (objects : Objects) (key : Key)

def rebuildKey (content : Body) (resize thumbnail : Bool) (report : Report) : Report × Ending :=
  match rebuildStoredImage pil content resize thumbnail with
  | .error .tooLarge => (report.skip .overPixelCeiling,.returned)
  | .error .unreadable => ((report.skip .unsupportedFormat).rememberUnsupported key,.returned)
  | .error (.raised e) => (report,.raised e)
  | .ok rebuilt => (report,.work content rebuilt)

/-- `store.read`, and what follows when there is no object any more. -/
def readKey (report : Report) (rest : Body → Report × Ending) : Report × Ending :=
  match fails key .read with
  | some e => (report,.raised e)
  | none =>
    match objects key with
    | none => (report.error key vanishedMessage,.returned)
    | some content => rest content

/-- The two decisions; `content` is there when it had to be read for the probe. -/
def decideKey (probe : ImageProbe) (content : Option Body) (report : Report) : Report × Ending :=
  let needsResize := decide (deliveryMaxEdge < probe.longEdge)
  let report := if needsResize then report else report.skip .alreadyWithinLimit
  match fails key .exists with
  | some e => (report,.raised e)
  | none =>
    let needsThumbnail := (objects (thumbKey key)).isNone
    let report := if needsThumbnail then report else report.skip .thumbnailExists
    if !needsResize && !needsThumbnail then (report,.returned)
    else
      match content with
      | some content => rebuildKey pil key content needsResize needsThumbnail report
      | none => readKey fails objects key report fun content =>
          rebuildKey pil key content needsResize needsThumbnail report

/-- `_process_key` up to the point where an object is taken into work. -/
def examine (report : Report) : Report × Ending :=
  match fails key .head with
  | some e => (report,.raised e)
  | none =>
    match objects key with
    | none => (report.error key missingMessage,.returned)
    | some body =>
      match probeImage pil (body.take headReadBytes) with
      | .error .tooLarge => (report.skip .overPixelCeiling,.returned)
      | .error (.raised e) => (report,.raised e)
      | .error .unreadable =>
        if body.length ≤ (body.take headReadBytes).length then
          ((report.skip .unsupportedFormat).rememberUnsupported key,.returned)
        else
          readKey fails objects key report fun content =>
            match probeImage pil content with
            | .error .tooLarge => (report.skip .overPixelCeiling,.returned)
            | .error .unreadable => ((report.skip .unsupportedFormat).rememberUnsupported key,.returned)
            | .error (.raised e) => (report,.raised e)
            | .ok probe => decideKey pil fails objects key probe (some content) report
      | .ok probe => decideKey pil fails objects key probe none report

variable (apply : Bool)

/-- The end of `_process_key`, from `report.bytes_after += size_after` on. -/
def writeThumbnail (rebuilt : RebuiltImage) (sizeAfter : ℕ) (s : State) : State × Option Raised :=
  let s := { s with report := { s.report with bytesAfter := s.report.bytesAfter+sizeAfter } }
  match rebuilt.thumbnail with
  | none => (s,none)
  | some thumbnail =>
    match if apply then fails key .putThumbnail else none with
    | some e => (s,some e)
    | none =>
      let s := if apply then s.put ⟨thumbKey key,thumbnail,rebuilt.contentType⟩ else s
      ({ s with report :=
        { s.report with thumbBytesAdded := s.report.thumbBytesAdded+thumbnail.length } },none)

/-- `_process_key` from `report.processed += 1` on: the state, and what has been raised. -/
def writeOriginal (content : Body) (rebuilt : RebuiltImage) (s : State) : State × Option Raised :=
  let s := { s with report :=
    { s.report with processed := s.report.processed+1, bytesBefore := s.report.bytesBefore+content.length } }
  match rebuilt.delivery with
  | none => writeThumbnail fails key apply rebuilt content.length s
  | some delivery =>
    if delivery.length < content.length then
      match if apply then fails key .putOriginal else none with
      | some e => (s,some e)
      | none =>
        let s := if apply then s.put ⟨key,delivery,rebuilt.contentType⟩ else s
        writeThumbnail fails key apply rebuilt delivery.length s
    else
      writeThumbnail fails key apply rebuilt content.length
        { s with report := { s.report with notShrunk := s.report.notShrunk+1 } }

end ProcessKey

def State.error (s : State) (key : Key) (e : Raised) : State :=
  { s with report := s.report.error key e.text }

variable (pil : Pillow) (fails : Failures) (apply : Bool)

/-- The body of the loop of `recompress_attachments`. -/
def processKey (s : State) (key : Key) : State :=
  let report := { s.report with scanned := s.report.scanned+1 }
  match examine pil fails s.objects key report with
  | (report,.returned) => { s with report := report }
  | (report,.raised e) => { s with report := report }.error key e
  | (report,.work content rebuilt) =>
    match writeOriginal fails key apply content rebuilt { s with report := report } with
    | (s,none) => s
    | (s,some e) => s.error key e

def processKeys (keys : List Key) (s : State) : State := keys.foldl (processKey pil fails apply) s

def recompressAttachments (images : List Json) (objects : Objects) : State :=
  processKeys pil fails apply (collectAttachmentKeys images) ⟨objects,[],Report.empty⟩

/-- Only notes have been added: no bytes are counted and nothing is an error. -/
structure Noted (r r' : Report) : Prop where
  bytesBefore : r'.bytesBefore = r.bytesBefore
  bytesAfter : r'.bytesAfter = r.bytesAfter
  thumbBytesAdded : r'.thumbBytesAdded = r.thumbBytesAdded
  notShrunk : r'.notShrunk = r.notShrunk
  errors : r'.errors = r.errors
  skips : ∀ reason, r.skips reason ≤ r'.skips reason

def Accounted (key : Key) (r r' : Report) : Prop :=
  (∃ message, r'.errors = r.errors ++ [(key,message)]) ∨ (∃ reason, r.skips reason < r'.skips reason) ∨
    r.notShrunk < r'.notShrunk

/-- Bytes are counted in the other part only. -/
structure SameBytes (r r' : Report) : Prop where
  bytesBefore : r'.bytesBefore = r.bytesBefore
  bytesAfter : r'.bytesAfter = r.bytesAfter
  thumbBytesAdded : r'.thumbBytesAdded = r.thumbBytesAdded

/-- The outcomes of a look: what is returned early is accounted for, and an object that is taken into work
without a delivery has been skipped as being within the limit. -/
def Legal (key : Key) (r : Report) : Report × Ending → Prop
  | (r',.returned) => SameBytes r r' ∧ Accounted key r r'
  | (r',.raised _) => Noted r r'
  | (r',.work _ rebuilt) => Noted r r' ∧ (rebuilt.delivery = none → ∃ reason, r.skips reason < r'.skips reason)

section Look

variable {pil} {fails} {objects : Objects} {key : Key} {r r' r'' : Report} {reason : SkipReason} {message : String}

theorem noted_refl (r : Report) : Noted r r := ⟨rfl,rfl,rfl,rfl,rfl,fun _ => Nat.le_refl _⟩

theorem Noted.trans (h : Noted r r') (h' : Noted r' r'') : Noted r r'' where
  bytesBefore := h'.bytesBefore.trans h.bytesBefore
  bytesAfter := h'.bytesAfter.trans h.bytesAfter
  thumbBytesAdded := h'.thumbBytesAdded.trans h.thumbBytesAdded
  notShrunk := h'.notShrunk.trans h.notShrunk
  errors := h'.errors.trans h.errors
  skips := fun reason => (h.skips reason).trans (h'.skips reason)

theorem Noted.sameBytes (h : Noted r r') : SameBytes r r' := ⟨h.bytesBefore,h.bytesAfter,h.thumbBytesAdded⟩

theorem skips_skip (r : Report) (reason : SkipReason) : r.skips reason < (r.skip reason).skips reason := by
  simp [Report.skip]

theorem noted_skip (r : Report) (reason : SkipReason) : Noted r (r.skip reason) := by
  refine ⟨rfl,rfl,rfl,rfl,rfl,fun reason' => ?_⟩
  by_cases he : reason' = reason
  · subst he
    exact (skips_skip r reason').le
  · simp [Report.skip,he]

theorem noted_rememberUnsupported (r : Report) (key : Key) : Noted r (r.rememberUnsupported key) := by
  unfold Report.rememberUnsupported
  split
  · exact ⟨rfl,rfl,rfl,rfl,rfl,fun _ => Nat.le_refl _⟩
  · exact noted_refl r

theorem Noted.accounted (h : Noted r r') (h' : Noted (r'.skip reason) r'') : Accounted key r r'' := by
  refine Or.inr (Or.inl ⟨reason,?_⟩)
  exact lt_of_le_of_lt (h.skips reason) (lt_of_lt_of_le (skips_skip r' reason) (h'.skips reason))

theorem Noted.legal_skip (h : Noted r r') : Legal key r (r'.skip reason,.returned) :=
  ⟨(h.trans (noted_skip r' reason)).sameBytes,h.accounted (noted_refl _)⟩

theorem Noted.legal_unsupported (h : Noted r r') :
    Legal key r ((r'.skip .unsupportedFormat).rememberUnsupported key,.returned) :=
  ⟨((h.trans (noted_skip r' _)).trans (noted_rememberUnsupported _ key)).sameBytes,
    h.accounted (noted_rememberUnsupported _ key)⟩

theorem Noted.legal_error (h : Noted r r') : Legal key r (r'.error key message,.returned) :=
  ⟨⟨h.bytesBefore,h.bytesAfter,h.thumbBytesAdded⟩,Or.inl ⟨message,by rw [← h.errors]; rfl⟩⟩

theorem rebuildKey_legal {content : Body} {resize thumbnail : Bool} (h : Noted r r')
    (hskip : resize = false → ∃ reason, r.skips reason < r'.skips reason) :
    Legal key r (rebuildKey pil key content resize thumbnail r') := by
  unfold rebuildKey
  split
  · exact h.legal_skip
  · exact h.legal_unsupported
  · exact h
  · rename_i rebuilt hrebuilt
    refine ⟨h,fun hnone => hskip ?_⟩
    rw [← rebuild_delivery_isSome hrebuilt,hnone]
    rfl

theorem readKey_legal {rest : Body → Report × Ending} (h : Noted r r')
    (hrest : ∀ content, Legal key r (rest content)) :
    Legal key r (readKey fails objects key r' rest) := by
  unfold readKey
  split
  · exact h
  · split
    · exact h.legal_error
    · exact hrest _

theorem noted_decision (h : Noted r r') (needed : Bool) (reason : SkipReason) :
    Noted r (if needed then r' else r'.skip reason) ∧
      (needed = false → r.skips reason < (if needed then r' else r'.skip reason : Report).skips reason) := by
  cases needed with
  | true => exact ⟨h,fun hfalse => by cases hfalse⟩
  | false => exact ⟨h.trans (noted_skip r' reason),fun _ => lt_of_le_of_lt (h.skips reason) (skips_skip r' reason)⟩

theorem decideKey_legal {probe : ImageProbe} {content : Option Body} (h : Noted r r') :
    Legal key r (decideKey pil fails objects key probe content r') := by
  unfold decideKey
  simp only
  generalize decide (deliveryMaxEdge < probe.longEdge) = needsResize
  obtain ⟨hresize,hskip⟩ := noted_decision h needsResize .alreadyWithinLimit
  generalize (if needsResize then r' else r'.skip .alreadyWithinLimit : Report) = r₁ at *
  split
  · exact hresize
  · generalize (objects (thumbKey key)).isNone = needsThumbnail
    have hthumbnail := (noted_decision hresize needsThumbnail .thumbnailExists).1
    have hmore := (noted_decision (noted_refl r₁) needsThumbnail .thumbnailExists).1
    generalize (if needsThumbnail then r₁ else r₁.skip .thumbnailExists : Report) = r₂ at *
    have hskipped : needsResize = false → ∃ reason, r.skips reason < r₂.skips reason :=
      fun hfalse => ⟨_,lt_of_lt_of_le (hskip hfalse) (hmore.skips _)⟩
    split
    · rename_i hnothing
      have hfalse : needsResize = false := by
        cases needsResize with
        | false => rfl
        | true => cases hnothing
      exact ⟨hthumbnail.sameBytes,Or.inr (Or.inl (hskipped hfalse))⟩
    · cases content with
      | some content => exact rebuildKey_legal hthumbnail hskipped
      | none => exact readKey_legal hthumbnail fun content => rebuildKey_legal hthumbnail hskipped

theorem examine_legal (h : Noted r r') : Legal key r (examine pil fails objects key r') := by
  unfold examine
  split
  · exact h
  · split
    · exact h.legal_error
    · split
      · exact h.legal_skip
      · exact h
      · split
        · exact h.legal_unsupported
        · refine readKey_legal h fun content => ?_
          split
          · exact h.legal_skip
          · exact h.legal_unsupported
          · exact h
          · exact decideKey_legal h
      · exact decideKey_legal h

end Look

/-- What `_process_key` finds out about an image: from its first bytes, or from the whole of it. -/
def probed (body : Body) : Option ImageProbe :=
  match probeImage pil (body.take headReadBytes) with
  | .ok probe => some probe
  | .error .unreadable => if body.length ≤ headReadBytes then none else (probeImage pil body).toOption
  | .error _ => none

/-- The object under a key is read and rebuilt: no call before the first `put` raises, and a new size or a
thumbnail is needed. -/
structure Work (pil : Pillow) (fails : Failures) (objects : Objects) (key : Key) (content : Body)
    (rebuilt : RebuiltImage) : Prop where
  head : fails key .head = none
  read : fails key .read = none
  found : fails key .exists = none
  object : objects key = some content
  rebuilds : ∃ probe, probed pil content = some probe ∧
    (deliveryMaxEdge < probe.longEdge ∨ objects (thumbKey key) = none) ∧
    rebuildStoredImage pil content (decide (deliveryMaxEdge < probe.longEdge)) (objects (thumbKey key)).isNone =
      .ok rebuilt

section Taken

variable {pil} {fails} {objects : Objects} {key : Key} {r r' : Report} {content content' : Body}
  {rebuilt : RebuiltImage}

theorem rebuildKey_work {resize thumbnail : Bool} :
    (rebuildKey pil key content' resize thumbnail r).2 = .work content rebuilt ↔
      content' = content ∧ rebuildStoredImage pil content' resize thumbnail = .ok rebuilt := by
  unfold rebuildKey
  split
  · simp_all
  · simp_all
  · simp_all
  · rename_i rebuilt' hrebuilt
    simp [hrebuilt]

theorem readKey_work {rest : Body → Report × Ending} :
    (readKey fails objects key r rest).2 = .work content rebuilt ↔
      fails key .read = none ∧ ∃ body, objects key = some body ∧ (rest body).2 = .work content rebuilt := by
  unfold readKey
  split
  · rename_i e he
    simp [he]
  · rename_i hread
    split
    · rename_i hnone
      simp [hnone]
    · rename_i body hbody
      simp [hread,hbody]

theorem decideKey_work {probe : ImageProbe} {body : Option Body}
    (hbody : ∀ b, body = some b → fails key .read = none ∧ objects key = some b) :
    (decideKey pil fails objects key probe body r).2 = .work content rebuilt ↔
      fails key .exists = none ∧ fails key .read = none ∧ objects key = some content ∧
      (deliveryMaxEdge < probe.longEdge ∨ objects (thumbKey key) = none) ∧
      rebuildStoredImage pil content (decide (deliveryMaxEdge < probe.longEdge))
        (objects (thumbKey key)).isNone = .ok rebuilt := by
  unfold decideKey
  simp only
  split
  · rename_i e he
    simp [he]
  · rename_i hexists
    have hneeded : (!decide (deliveryMaxEdge < probe.longEdge) && !(objects (thumbKey key)).isNone) = true ↔
        ¬(deliveryMaxEdge < probe.longEdge ∨ objects (thumbKey key) = none) := by
      simp [not_or,Option.isSome_iff_ne_none]
    split
    · rename_i hnothing
      simp [hneeded.mp hnothing]
    · rename_i hsome
      rw [hneeded,not_not] at hsome
      cases body with
      | some b =>
        obtain ⟨hread,hobject⟩ := hbody b rfl
        simp only [rebuildKey_work,hexists,hread,hobject,hsome,true_and,Option.some.injEq]
        constructor
        · rintro ⟨rfl,hrebuilt⟩
          exact ⟨rfl,hrebuilt⟩
        · rintro ⟨rfl,hrebuilt⟩
          exact ⟨rfl,hrebuilt⟩
      | none =>
        simp only [readKey_work,rebuildKey_work,hexists,hsome,true_and]
        constructor
        · rintro ⟨hread,b,hobject,rfl,hrebuilt⟩
          exact ⟨hread,hobject,hrebuilt⟩
        · rintro ⟨hread,hobject,hrebuilt⟩
          exact ⟨hread,content,hobject,rfl,hrebuilt⟩

theorem probed_eq_some {body : Body} {probe : ImageProbe} : probed pil body = some probe ↔
    probeImage pil (body.take headReadBytes) = .ok probe ∨
      (probeImage pil (body.take headReadBytes) = .error .unreadable ∧ headReadBytes < body.length ∧
        probeImage pil body = .ok probe) := by
  unfold probed
  split
  · rename_i probe' hprobe
    simp [hprobe]
  · rename_i hprobe
    split
    · rename_i hshort
      simp [hprobe,hshort]
    · rename_i hlong
      cases hwhole : probeImage pil body with
      | error e => simp [hprobe,Except.toOption]
      | ok probe' => simp [hprobe,Except.toOption,not_le.mp hlong]
  · rename_i e hunreadable hprobe
    simp only [hprobe]
    simpa using fun he => absurd he hunreadable

theorem work_of_examine (h : (examine pil fails objects key r).2 = .work content rebuilt) :
    Work pil fails objects key content rebuilt := by
  unfold examine at h
  split at h
  · cases h
  · rename_i hhead
    split at h
    · cases h
    · rename_i body hbody
      split at h
      · cases h
      · cases h
      · rename_i hunreadable
        split at h
        · cases h
        · rename_i hshort
          -- the whole object decides
          obtain ⟨hread,b,hb,h⟩ := readKey_work.mp h
          rw [hbody] at hb
          cases hb
          split at h
          · cases h
          · cases h
          · cases h
          · rename_i probe hprobe
            obtain ⟨hfound,_,hobject,hneeded,hrebuilt⟩ := (decideKey_work fun _ hb =>
              ⟨hread,by rw [← hb]; exact hbody⟩).mp h
            rw [hbody] at hobject
            cases hobject
            have hlong : headReadBytes < content.length := by
              rw [List.length_take] at hshort
              omega
            exact ⟨hhead,hread,hfound,hbody,probe,probed_eq_some.mpr (.inr ⟨hunreadable,hlong,hprobe⟩),
              hneeded,hrebuilt⟩
      · rename_i probe hprobe
        obtain ⟨hfound,hread,hobject,hneeded,hrebuilt⟩ := (decideKey_work (by simp)).mp h
        rw [hbody] at hobject
        cases hobject
        exact ⟨hhead,hread,hfound,hbody,probe,probed_eq_some.mpr (.inl hprobe),hneeded,hrebuilt⟩

theorem examine_of_work (h : Work pil fails objects key content rebuilt) :
    (examine pil fails objects key r).2 = .work content rebuilt := by
  obtain ⟨hhead,hread,hfound,hobject,probe,hprobe,hneeded,hrebuilt⟩ := h
  unfold examine
  simp only [hhead,hobject]
  rcases probed_eq_some.mp hprobe with hfront | ⟨hunreadable,hlong,hwhole⟩
  · simp only [hfront]
    exact (decideKey_work (by simp)).mpr ⟨hfound,hread,hobject,hneeded,hrebuilt⟩
  · have hshort : ¬content.length ≤ (content.take headReadBytes).length := by
      rw [List.length_take]
      omega
    simp only [hunreadable,if_neg hshort]
    refine readKey_work.mpr ⟨hread,content,hobject,?_⟩
    simp only [hwhole]
    refine (decideKey_work fun _ hb => ⟨hread,?_⟩).mpr ⟨hfound,hread,hobject,hneeded,hrebuilt⟩
    rw [← hb]
    exact hobject

theorem examine_work : (examine pil fails objects key r).2 = .work content rebuilt ↔
    Work pil fails objects key content rebuilt := ⟨work_of_examine,examine_of_work⟩

end Taken

end Recompress
end Broadcaster
