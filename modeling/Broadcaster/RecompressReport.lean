import Broadcaster.Recompress
import Mathlib.Algebra.BigOperators.Group.List.Basic

/-!
# The report of a run that compresses attachments anew

What is said to have been saved is counted in two steps with a write between
them. The report is true as long as that write does not raise, whatever else
does.
-/

namespace Broadcaster
namespace Recompress

open AdEditor (Key)
open FirstOccurrences Python StoredImages
open UploadKeys (thumbKey thumbKeyPrefix)

def size (objects : Objects) (key : Key) : ℕ := (objects key).elim 0 List.length

def totalSize (objects : Objects) (keys : List Key) : ℕ := (keys.map (size objects)).sum

def Report.balance (r : Report) : ℤ := r.bytesBefore-r.bytesAfter

def isThumbKey (key : Key) : Bool := thumbKeyPrefix.toList.isPrefixOf key.toList

def thumbBytes (puts : List Put) : ℕ := ((puts.filter fun p => isThumbKey p.key).map fun p => p.content.length).sum

theorem thumbBytes_append (ps qs : List Put) : thumbBytes (ps ++ qs) = thumbBytes ps+thumbBytes qs := by
  simp [thumbBytes]

def WritesOriginal (pil : Pillow) (fails : Failures) (objects : Objects) (key : Key) : Prop :=
  ∃ content rebuilt delivery, Work pil fails objects key content rebuilt ∧
    rebuilt.delivery = some delivery ∧ delivery.length < content.length

/-- A key that `collect_attachment_keys` may return. -/
structure Original (key : Key) : Prop where
  ne_empty : key ≠ ""
  not_thumb : isThumbKey key = false

section Writes

variable {pil : Pillow} {fails : Failures} {objects : Objects} {key key' : Key} {s s' : State} {content : Body}
  {rebuilt : RebuiltImage} {sizeAfter : ℕ} {raised : Option Raised}

theorem thumbKey_original (h : Original key) : thumbKey key = thumbKeyPrefix ++ key := by
  have hnothumb : ¬thumbKeyPrefix.toList.isPrefixOf key.toList = true := by
    rw [← isThumbKey,h.not_thumb]
    exact Bool.false_ne_true
  rw [thumbKey,if_neg h.ne_empty,if_neg hnothumb]

theorem isThumbKey_thumbKey (h : Original key) : isThumbKey (thumbKey key) = true := by
  rw [thumbKey_original h,isThumbKey,String.toList_append,List.isPrefixOf_iff_prefix]
  exact List.prefix_append _ _

theorem thumbKey_ne (h : Original key) (h' : Original key') : key ≠ thumbKey key' := by
  intro he
  have hthumb := isThumbKey_thumbKey h'
  rw [← he,h.not_thumb] at hthumb
  cases hthumb

theorem thumbKey_inj (h : Original key) (h' : Original key') (he : thumbKey key = thumbKey key') : key = key' := by
  rw [thumbKey_original h,thumbKey_original h'] at he
  exact String.append_right_inj thumbKeyPrefix |>.mp he

structure ThumbWritten (key : Key) (sizeAfter : ℕ) (s s' : State) : Prop where
  before : s'.report.bytesBefore = s.report.bytesBefore
  after : s'.report.bytesAfter = s.report.bytesAfter+sizeAfter
  notShrunk : s'.report.notShrunk = s.report.notShrunk
  errors : s'.report.errors = s.report.errors
  skips : s'.report.skips = s.report.skips
  others : ∀ k, k ≠ thumbKey key → s'.objects k = s.objects k
  puts : ∃ thumbs, s'.puts = s.puts ++ thumbs ∧ (∀ p ∈ thumbs, p.key = thumbKey key) ∧
    s'.report.thumbBytesAdded = s.report.thumbBytesAdded+(thumbs.map fun p => p.content.length).sum

theorem writeThumbnail_written (h : writeThumbnail fails key true rebuilt sizeAfter s = (s',raised)) :
    ThumbWritten key sizeAfter s s' := by
  unfold writeThumbnail at h
  simp only [if_true] at h
  split at h
  · cases h
    exact ⟨rfl,rfl,rfl,rfl,rfl,fun _ _ => rfl,[],by simp⟩
  · rename_i thumbnail _
    split at h
    · cases h
      exact ⟨rfl,rfl,rfl,rfl,rfl,fun _ _ => rfl,[],by simp⟩
    · cases h
      refine ⟨rfl,rfl,rfl,rfl,rfl,fun k hk => Function.update_of_ne hk _ _,
        [⟨thumbKey key,thumbnail,rebuilt.contentType⟩],rfl,by simp,by simp [State.put]⟩

/-- The four ways through `writeOriginal` in a run with writes. -/
inductive OriginalWritten (fails : Failures) (key : Key) (content : Body) (rebuilt : RebuiltImage) (s s' : State)
    (raised : Option Raised) : Prop
  | none (hdelivery : rebuilt.delivery = none)
      (hthumb : ∃ t, t.objects = s.objects ∧ t.puts = s.puts ∧
        t.report = { s.report with
          processed := s.report.processed+1, bytesBefore := s.report.bytesBefore+content.length } ∧
        ThumbWritten key content.length t s')
  | notShrunk (delivery : Body) (hdelivery : rebuilt.delivery = some delivery)
      (hlarge : ¬delivery.length < content.length)
      (hthumb : ∃ t, t.objects = s.objects ∧ t.puts = s.puts ∧
        t.report = { s.report with
          processed := s.report.processed+1, bytesBefore := s.report.bytesBefore+content.length,
          notShrunk := s.report.notShrunk+1 } ∧
        ThumbWritten key content.length t s')
  | written (delivery : Body) (hdelivery : rebuilt.delivery = some delivery)
      (hsmaller : delivery.length < content.length) (hput : fails key .putOriginal = .none)
      (hthumb : ∃ t, t.objects = Function.update s.objects key (some delivery) ∧
        t.puts = s.puts ++ [⟨key,delivery,rebuilt.contentType⟩] ∧
        t.report = { s.report with
          processed := s.report.processed+1, bytesBefore := s.report.bytesBefore+content.length } ∧
        ThumbWritten key delivery.length t s')
  | refused (delivery : Body) (hdelivery : rebuilt.delivery = some delivery)
      (hsmaller : delivery.length < content.length) (hput : fails key .putOriginal ≠ .none)
      (hraised : raised ≠ .none)
      (hstate : s' = { s with report := { s.report with
        processed := s.report.processed+1, bytesBefore := s.report.bytesBefore+content.length } })

theorem writeOriginal_written (h : writeOriginal fails key true content rebuilt s = (s',raised)) :
    OriginalWritten fails key content rebuilt s s' raised := by
  unfold writeOriginal at h
  simp only [if_true] at h
  split at h
  · rename_i hdelivery
    refine .none hdelivery ⟨_,?_,?_,?_,writeThumbnail_written h⟩ <;> rfl
  · rename_i delivery hdelivery
    split at h
    · rename_i hsmaller
      split at h
      · rename_i e hput
        cases h
        exact .refused delivery hdelivery hsmaller (by simp [hput]) (by simp) rfl
      · rename_i hput
        exact .written delivery hdelivery hsmaller hput ⟨_,rfl,rfl,rfl,writeThumbnail_written h⟩
    · rename_i hlarge
      refine .notShrunk delivery hdelivery hlarge ⟨_,?_,?_,?_,writeThumbnail_written h⟩ <;> rfl

/-- What the work on one key does in a run with writes. -/
structure KeyEffect (pil : Pillow) (fails : Failures) (key : Key) (s s' : State) : Prop where
  others : ∀ k, k ≠ key → k ≠ thumbKey key → s'.objects k = s.objects k
  balance : ∃ lost : ℕ, s'.report.balance =
      s.report.balance+((size s.objects key : ℤ)-size s'.objects key)+lost ∧
    (lost = 0 ↔ (WritesOriginal pil fails s.objects key → fails key .putOriginal = none))
  thumbs : s'.report.thumbBytesAdded+thumbBytes s.puts = s.report.thumbBytesAdded+thumbBytes s'.puts
  accounted : s'.puts = s.puts → Accounted key s.report s'.report

theorem Work.unique {content' : Body} {rebuilt' : RebuiltImage} (h : Work pil fails objects key content rebuilt)
    (h' : Work pil fails objects key content' rebuilt') : content' = content ∧ rebuilt' = rebuilt := by
  have he := examine_work (r:=Report.empty).mpr h
  rw [examine_work.mpr h'] at he
  cases he
  exact ⟨rfl,rfl⟩

theorem keyEffect_untouched {r : Report} (hnot : ∀ content rebuilt, ¬Work pil fails s.objects key content rebuilt)
    (hbytes : SameBytes s.report r) (haccounted : Accounted key s.report r) :
    KeyEffect pil fails key s { s with report := r } where
  others := fun _ _ _ => rfl
  balance := by
    refine ⟨0,?_,fun _ => ?_,fun _ => rfl⟩
    · simp [Report.balance,hbytes.bytesBefore,hbytes.bytesAfter]
    · rintro ⟨content,rebuilt,_,hwork,_⟩
      exact absurd hwork (hnot content rebuilt)
  thumbs := by
    rw [hbytes.thumbBytesAdded]
  accounted := fun _ => haccounted

theorem ThumbWritten.thumbs (hkey : Original key) (h : ThumbWritten key sizeAfter s s') :
    s'.report.thumbBytesAdded+thumbBytes s.puts = s.report.thumbBytesAdded+thumbBytes s'.puts := by
  obtain ⟨thumbs,hputs,hthumbs,hbytes⟩ := h.puts
  have hall : thumbs.filter (fun p => isThumbKey p.key) = thumbs := by
    refine List.filter_eq_self.mpr fun p hp => ?_
    rw [hthumbs p hp]
    exact isThumbKey_thumbKey hkey
  rw [hputs,thumbBytes_append,hbytes,thumbBytes,thumbBytes,hall]
  omega

/-- The state with the error of the report, if something has been raised. -/
def State.ended (s : State) (key : Key) : Option Raised → State
  | none => s
  | some e => s.error key e

theorem ended_objects (s : State) (key : Key) (raised : Option Raised) : (s.ended key raised).objects = s.objects := by
  cases raised <;> rfl

theorem ended_puts (s : State) (key : Key) (raised : Option Raised) : (s.ended key raised).puts = s.puts := by
  cases raised <;> rfl

theorem ended_sameBytes (s : State) (key : Key) (raised : Option Raised) :
    SameBytes s.report (s.ended key raised).report := by
  cases raised <;> exact ⟨rfl,rfl,rfl⟩

theorem ended_notShrunk (s : State) (key : Key) (raised : Option Raised) :
    (s.ended key raised).report.notShrunk = s.report.notShrunk := by
  cases raised <;> rfl

theorem ended_skips (s : State) (key : Key) (raised : Option Raised) :
    (s.ended key raised).report.skips = s.report.skips := by
  cases raised <;> rfl

theorem ended_errors (s : State) (key : Key) (h : raised ≠ none) :
    ∃ message, (s.ended key raised).report.errors = s.report.errors ++ [(key,message)] := by
  cases raised with
  | none => exact absurd rfl h
  | some e => exact ⟨e.text,rfl⟩

theorem processKey_eq (pil : Pillow) (fails : Failures) (apply : Bool) (s : State) (key : Key) :
    processKey pil fails apply s key =
      match examine pil fails s.objects key { s.report with scanned := s.report.scanned+1 } with
      | (report,.returned) => { s with report := report }
      | (report,.raised e) => { s with report := report }.ended key (some e)
      | (report,.work content rebuilt) =>
        (writeOriginal fails key apply content rebuilt { s with report := report }).1.ended key
          (writeOriginal fails key apply content rebuilt { s with report := report }).2 := by
  unfold processKey
  simp only
  generalize examine pil fails s.objects key { s.report with scanned := s.report.scanned+1 } = out
  obtain ⟨report,ending⟩ := out
  cases ending with
  | returned => rfl
  | raised e => rfl
  | work content rebuilt =>
    simp only
    generalize writeOriginal fails key apply content rebuilt { s with report := report } = written
    obtain ⟨s₁,raised⟩ := written
    cases raised <;> rfl

theorem ThumbWritten.own_object (hkey : Original key) (h : ThumbWritten key sizeAfter s s') :
    s'.objects key = s.objects key :=
  h.others key (thumbKey_ne hkey hkey)

theorem size_some {body : Body} (h : objects key = some body) : size objects key = body.length := by
  rw [size,h]
  rfl

theorem kept_balance {r : Report} {t : State} (hkey : Original key) (hnoted : Noted s.report r)
    (hobject : s.objects key = some content) (hthumb : ThumbWritten key content.length t s')
    (hobjects : t.objects = s.objects) (hbefore : t.report.bytesBefore = r.bytesBefore+content.length)
    (hafter : t.report.bytesAfter = r.bytesAfter) :
    s'.report.balance = s.report.balance+((size s.objects key : ℤ)-size s'.objects key)+(0 : ℕ) := by
  have hsize : size s'.objects key = size s.objects key := by
    rw [size,size,hthumb.own_object hkey,hobjects]
  rw [Report.balance,hthumb.before,hthumb.after,hbefore,hafter,hsize,size_some hobject]
  simp only [Report.balance,hnoted.bytesBefore,hnoted.bytesAfter]
  omega

theorem written_balance (hkey : Original key) {r : Report} (hwork : Work pil fails s.objects key content rebuilt)
    (hnoted : Noted s.report r) (h : OriginalWritten fails key content rebuilt { s with report := r } s' raised) :
    ∃ lost : ℕ, s'.report.balance =
        s.report.balance+((size s.objects key : ℤ)-size s'.objects key)+lost ∧
      (lost = 0 ↔ (WritesOriginal pil fails s.objects key → fails key .putOriginal = none)) := by
  have hsize := size_some hwork.object
  cases h with
  | none hdelivery hthumb =>
    obtain ⟨t,hobjects,_,hreport,hthumb⟩ := hthumb
    refine ⟨0,?_,fun _ => ?_,fun _ => rfl⟩
    · exact kept_balance hkey hnoted hwork.object hthumb hobjects (by rw [hreport]) (by rw [hreport])
    · rintro ⟨content',rebuilt',delivery,hwork',hsome,_⟩
      rw [(hwork.unique hwork').2,hdelivery] at hsome
      cases hsome
  | notShrunk delivery hdelivery hlarge hthumb =>
    obtain ⟨t,hobjects,_,hreport,hthumb⟩ := hthumb
    refine ⟨0,?_,fun _ => ?_,fun _ => rfl⟩
    · exact kept_balance hkey hnoted hwork.object hthumb hobjects (by rw [hreport]) (by rw [hreport])
    · rintro ⟨content',rebuilt',delivery',hwork',hsome,hsmaller⟩
      obtain ⟨rfl,rfl⟩ := hwork.unique hwork'
      rw [hdelivery] at hsome
      cases hsome
      exact absurd hsmaller hlarge
  | written delivery hdelivery hsmaller hput hthumb =>
    obtain ⟨t,hobjects,_,hreport,hthumb⟩ := hthumb
    refine ⟨0,?_,fun _ _ => hput,fun _ => rfl⟩
    have hsize' : size s'.objects key = delivery.length := by
      refine size_some ?_
      rw [hthumb.own_object hkey,hobjects,Function.update_self]
    rw [Report.balance,hthumb.before,hthumb.after,hreport,hsize',hsize]
    simp only [Report.balance,hnoted.bytesBefore,hnoted.bytesAfter]
    omega
  | refused delivery hdelivery hsmaller hput _ hstate =>
    refine ⟨content.length,?_,fun hzero => ?_,fun hput' => ?_⟩
    · rw [hstate]
      simp only [Report.balance,hnoted.bytesBefore,hnoted.bytesAfter]
      omega
    · omega
    · exact absurd (hput' ⟨content,rebuilt,delivery,hwork,hdelivery,hsmaller⟩) hput

theorem written_thumbs (hkey : Original key) {r : Report} (hnoted : Noted s.report r)
    (h : OriginalWritten fails key content rebuilt { s with report := r } s' raised) :
    s'.report.thumbBytesAdded+thumbBytes s.puts = s.report.thumbBytesAdded+thumbBytes s'.puts := by
  cases h with
  | none _ hthumb =>
    obtain ⟨t,_,hputs,hreport,hthumb⟩ := hthumb
    have hthumbs := hthumb.thumbs hkey
    rw [hputs,hreport] at hthumbs
    simpa only [hnoted.thumbBytesAdded] using hthumbs
  | notShrunk _ _ _ hthumb =>
    obtain ⟨t,_,hputs,hreport,hthumb⟩ := hthumb
    have hthumbs := hthumb.thumbs hkey
    rw [hputs,hreport] at hthumbs
    simpa only [hnoted.thumbBytesAdded] using hthumbs
  | written delivery _ _ _ hthumb =>
    obtain ⟨t,_,hputs,hreport,hthumb⟩ := hthumb
    have hthumbs := hthumb.thumbs hkey
    have horiginal : thumbBytes [⟨key,delivery,rebuilt.contentType⟩] = 0 := by
      simp [thumbBytes,hkey.not_thumb]
    rw [hputs,hreport,thumbBytes_append,horiginal,Nat.add_zero] at hthumbs
    simpa only [hnoted.thumbBytesAdded] using hthumbs
  | refused _ _ _ _ _ hstate =>
    rw [hstate]
    simp only [hnoted.thumbBytesAdded]

theorem written_others {r : Report}
    (h : OriginalWritten fails key content rebuilt { s with report := r } s' raised) {k : Key} (hk : k ≠ key)
    (hthumbKey : k ≠ thumbKey key) : s'.objects k = s.objects k := by
  cases h with
  | none _ hthumb =>
    obtain ⟨t,hobjects,_,_,hthumb⟩ := hthumb
    rw [hthumb.others k hthumbKey,hobjects]
  | notShrunk _ _ _ hthumb =>
    obtain ⟨t,hobjects,_,_,hthumb⟩ := hthumb
    rw [hthumb.others k hthumbKey,hobjects]
  | written _ _ _ _ hthumb =>
    obtain ⟨t,hobjects,_,_,hthumb⟩ := hthumb
    rw [hthumb.others k hthumbKey,hobjects,Function.update_of_ne hk]
  | refused _ _ _ _ _ hstate => rw [hstate]

/-- Where nothing has been written, the rebuilt object was skipped, did not shrink or ended in an error. -/
theorem written_accounted {r : Report} (hnoted : Noted s.report r)
    (hskip : rebuilt.delivery = none → ∃ reason, s.report.skips reason < r.skips reason)
    (h : OriginalWritten fails key content rebuilt { s with report := r } s' raised) (hputs : s'.puts = s.puts) :
    Accounted key s.report (s'.ended key raised).report := by
  cases h with
  | none hdelivery hthumb =>
    obtain ⟨t,_,_,hreport,hthumb⟩ := hthumb
    refine Or.inr (Or.inl ?_)
    rw [ended_skips,hthumb.skips,hreport]
    exact hskip hdelivery
  | notShrunk _ _ _ hthumb =>
    obtain ⟨t,_,_,hreport,hthumb⟩ := hthumb
    refine Or.inr (Or.inr ?_)
    rw [ended_notShrunk,hthumb.notShrunk,hreport,← hnoted.notShrunk]
    exact Nat.lt_succ_self _
  | written _ _ _ _ hthumb =>
    obtain ⟨t,_,htputs,_,hthumb⟩ := hthumb
    obtain ⟨thumbs,hthumbs,_⟩ := hthumb.puts
    rw [hthumbs,htputs] at hputs
    have hlength := congrArg List.length hputs
    simp at hlength
  | refused _ _ _ _ hraised hstate =>
    obtain ⟨message,herrors⟩ := ended_errors s' key hraised
    refine Or.inl ⟨message,?_⟩
    rw [herrors,hstate,← hnoted.errors]

theorem processKey_effect (pil : Pillow) (fails : Failures) (hkey : Original key) (s : State) :
    KeyEffect pil fails key s (processKey pil fails true s key) := by
  have hscanned : Noted s.report { s.report with scanned := s.report.scanned+1 } :=
    ⟨rfl,rfl,rfl,rfl,rfl,fun _ => Nat.le_refl _⟩
  have hlegal : Legal key s.report (examine pil fails s.objects key _) := examine_legal hscanned
  have hwork : ∀ content rebuilt, _ ↔ Work pil fails s.objects key content rebuilt := fun content rebuilt =>
    examine_work (r := { s.report with scanned := s.report.scanned+1 })
  rw [processKey_eq]
  generalize examine pil fails s.objects key { s.report with scanned := s.report.scanned+1 } = out at *
  obtain ⟨r,ending⟩ := out
  cases ending with
  | returned =>
    obtain ⟨hbytes,haccounted⟩ := hlegal
    exact keyEffect_untouched (fun content rebuilt h => by cases (hwork content rebuilt).mpr h) hbytes haccounted
  | raised e =>
    refine keyEffect_untouched (r := r.error key e.text)
      (fun content rebuilt h => by cases (hwork content rebuilt).mpr h) ?_ (Or.inl ⟨e.text,?_⟩)
    · exact ⟨hlegal.bytesBefore,hlegal.bytesAfter,hlegal.thumbBytesAdded⟩
    · rw [← hlegal.errors]
      rfl
  | work content rebuilt =>
    obtain ⟨hnoted,hskip⟩ := hlegal
    have hw : Work pil fails s.objects key content rebuilt := (hwork content rebuilt).mp rfl
    simp only
    generalize hwrite : writeOriginal fails key true content rebuilt { s with report := r } = written
    obtain ⟨s₁,raised⟩ := written
    have h := writeOriginal_written hwrite
    have hbytes := ended_sameBytes s₁ key raised
    refine ⟨fun k hk hthumb => ?_,?_,?_,?_⟩
    · rw [ended_objects]
      exact written_others h hk hthumb
    · rw [ended_objects]
      unfold Report.balance
      rw [hbytes.bytesBefore,hbytes.bytesAfter]
      exact written_balance hkey hw hnoted h
    · rw [ended_puts,hbytes.thumbBytesAdded]
      exact written_thumbs hkey hnoted h
    · rw [ended_puts]
      exact written_accounted hnoted hskip h

end Writes

section Runs

variable {pil : Pillow} {fails : Failures} {objects objects' : Objects} {key : Key}
  {keys before after : List Key} {s : State} {images : List Json}

theorem collected_nodup (images : List Json) : (collectAttachmentKeys images).Nodup := by
  have h : ((collectAttachmentKeys images).filterMap some).Nodup := keys_firsts_nodup [] _
  rwa [List.filterMap_some] at h

theorem collected_original (hnothumb : ∀ key ∈ collectAttachmentKeys images, isThumbKey key = false)
    (h : key ∈ collectAttachmentKeys images) : Original key := by
  refine ⟨?_,hnothumb key h⟩
  obtain ⟨value,_,hvalue⟩ := List.mem_filterMap.mp ((firsts_sublist _ _).subset h)
  rintro rfl
  unfold attachmentKey at hvalue
  split at hvalue
  · split at hvalue
    · cases hvalue
    · rename_i hne
      exact hne (Option.some.inj hvalue)
  · cases hvalue

theorem work_congr {content : Body} {rebuilt : RebuiltImage} (hkey : objects' key = objects key)
    (hthumb : objects' (thumbKey key) = objects (thumbKey key)) :
    Work pil fails objects' key content rebuilt ↔ Work pil fails objects key content rebuilt := by
  constructor
  · rintro ⟨hhead,hread,hfound,hobject,hrebuilds⟩
    rw [hthumb] at hrebuilds
    exact ⟨hhead,hread,hfound,hkey ▸ hobject,hrebuilds⟩
  · rintro ⟨hhead,hread,hfound,hobject,hrebuilds⟩
    rw [← hthumb] at hrebuilds
    exact ⟨hhead,hread,hfound,hkey.trans hobject,hrebuilds⟩

theorem writesOriginal_congr (hkey : objects' key = objects key)
    (hthumb : objects' (thumbKey key) = objects (thumbKey key)) :
    WritesOriginal pil fails objects' key ↔ WritesOriginal pil fails objects key := by
  simp only [WritesOriginal,work_congr hkey hthumb]

theorem processKey_others (pil : Pillow) (fails : Failures) {key' : Key} (s : State) (hkey : Original key)
    (hkey' : Original key') (hne : key' ≠ key) :
    (processKey pil fails true s key).objects key' = s.objects key' ∧
      (processKey pil fails true s key).objects (thumbKey key') = s.objects (thumbKey key') := by
  have h := (processKey_effect pil fails hkey s).others
  exact ⟨h key' hne (thumbKey_ne hkey' hkey),h (thumbKey key') (thumbKey_ne hkey hkey').symm
    fun he => hne (thumbKey_inj hkey' hkey he)⟩

theorem processKeys_others (pil : Pillow) (fails : Failures) (s : State) (hkeys : ∀ k ∈ keys, Original k)
    (hkey : Original key) (hnot : key ∉ keys) :
    (processKeys pil fails true keys s).objects key = s.objects key ∧
      (processKeys pil fails true keys s).objects (thumbKey key) = s.objects (thumbKey key) := by
  induction keys generalizing s with
  | nil => exact ⟨rfl,rfl⟩
  | cons k keys ih =>
    rw [List.mem_cons,not_or] at hnot
    obtain ⟨hobject,hthumb⟩ := processKey_others pil fails s (hkeys k (by simp)) hkey hnot.1
    obtain ⟨hobject',hthumb'⟩ := ih (processKey pil fails true s k)
      (fun k hk => hkeys k (List.mem_cons_of_mem _ hk)) hnot.2
    exact ⟨hobject'.trans hobject,hthumb'.trans hthumb⟩

/-- The report never says less than what has been saved, and exactly that if no `put` of an original raises. -/
theorem processKeys_balance (pil : Pillow) (fails : Failures) (hkeys : ∀ k ∈ keys, Original k) (hnodup : keys.Nodup) :
    ∃ lost : ℕ, (processKeys pil fails true keys s).report.balance = s.report.balance +
        ((totalSize s.objects keys : ℤ)-totalSize (processKeys pil fails true keys s).objects keys)+lost ∧
      (lost = 0 ↔ ∀ k ∈ keys, WritesOriginal pil fails s.objects k → fails k .putOriginal = none) := by
  induction keys generalizing s with
  | nil => exact ⟨0,by simp [processKeys,totalSize],by simp⟩
  | cons k keys ih =>
    have hk := hkeys k (by simp)
    have hrest : ∀ k ∈ keys, Original k := fun k h => hkeys k (List.mem_cons_of_mem _ h)
    rw [List.nodup_cons] at hnodup
    obtain ⟨lost,hbalance,hlost⟩ := (processKey_effect pil fails hk s).balance
    obtain ⟨lost',hbalance',hlost'⟩ := ih (s := processKey pil fails true s k) hrest hnodup.2
    have hcons : processKeys pil fails true (k::keys) s =
        processKeys pil fails true keys (processKey pil fails true s k) := rfl
    have hsame : ∀ k' ∈ keys, (processKey pil fails true s k).objects k' = s.objects k' ∧
        (processKey pil fails true s k).objects (thumbKey k') = s.objects (thumbKey k') := fun k' hk' =>
      processKey_others pil fails s hk (hrest k' hk') fun he => hnodup.1 (he ▸ hk')
    have hsize : size (processKeys pil fails true (k::keys) s).objects k =
        size (processKey pil fails true s k).objects k := by
      rw [size,size,hcons,(processKeys_others pil fails _ hrest hk hnodup.1).1]
    have htotal : totalSize (processKey pil fails true s k).objects keys = totalSize s.objects keys := by
      refine congrArg List.sum (List.map_congr_left fun k' hk' => ?_)
      rw [size,size,(hsame k' hk').1]
    refine ⟨lost+lost',?_,?_⟩
    · rw [htotal,hbalance] at hbalance'
      rw [← hcons] at hbalance'
      simp only [totalSize,List.map_cons,List.sum_cons,hsize,Nat.cast_add] at hbalance' ⊢
      omega
    · rw [List.forall_mem_cons,← hlost,Nat.add_eq_zero_iff,hlost']
      refine and_congr_right fun _ => forall₂_congr fun k' hk' => ?_
      rw [writesOriginal_congr (hsame k' hk').1 (hsame k' hk').2]

theorem processKeys_thumbs (pil : Pillow) (fails : Failures) (hkeys : ∀ k ∈ keys, Original k) :
    (processKeys pil fails true keys s).report.thumbBytesAdded+thumbBytes s.puts =
      s.report.thumbBytesAdded+thumbBytes (processKeys pil fails true keys s).puts := by
  induction keys generalizing s with
  | nil => rfl
  | cons k keys ih =>
    have hstep := (processKey_effect pil fails (hkeys k (by simp)) s).thumbs
    have hrest := ih (s := processKey pil fails true s k) fun k h => hkeys k (List.mem_cons_of_mem _ h)
    have hcons : processKeys pil fails true (k::keys) s =
        processKeys pil fails true keys (processKey pil fails true s k) := rfl
    rw [hcons]
    omega

structure TellsTheTruth (pil : Pillow) (fails : Failures) (images : List Json) (objects : Objects) : Prop where
  saved : ((recompressAttachments pil fails true images objects).report.bytesBefore : ℤ)-
      (recompressAttachments pil fails true images objects).report.bytesAfter =
    (totalSize objects (collectAttachmentKeys images) : ℤ)-
      totalSize (recompressAttachments pil fails true images objects).objects (collectAttachmentKeys images)
  thumbs : (recompressAttachments pil fails true images objects).report.thumbBytesAdded =
    thumbBytes (recompressAttachments pil fails true images objects).puts
  accounted : ∀ before key after, collectAttachmentKeys images = before ++ key::after →
    ∀ s s', s = processKeys pil fails true before ⟨objects,[],Report.empty⟩ → s' = processKey pil fails true s key →
      s'.puts = s.puts → Accounted key s.report s'.report

/-- The report is true exactly if no `put` of an original raises that the run comes to: its object has been
read without a failure, its long edge is over the limit and its delivery is smaller. -/
theorem report_tells_the_truth_iff (hnothumb : ∀ key ∈ collectAttachmentKeys images, isThumbKey key = false) :
    TellsTheTruth pil fails images objects ↔
      ∀ key ∈ collectAttachmentKeys images, WritesOriginal pil fails objects key →
        fails key .putOriginal = none := by
  have hkeys : ∀ key ∈ collectAttachmentKeys images, Original key := fun key h => collected_original hnothumb h
  obtain ⟨lost,hbalance,hlost⟩ := processKeys_balance pil fails
    (s := ⟨objects,[],Report.empty⟩) hkeys (collected_nodup images)
  have hthumbs := processKeys_thumbs pil fails (s := ⟨objects,[],Report.empty⟩) hkeys
  simp only [Report.balance] at hbalance
  rw [← hlost]
  constructor
  · intro h
    have hsaved := h.saved
    unfold recompressAttachments at hsaved
    simp only [Report.empty] at hbalance hsaved
    omega
  · intro hzero
    refine ⟨?_,?_,?_⟩
    · unfold recompressAttachments
      simp only [Report.empty] at hbalance ⊢
      omega
    · unfold recompressAttachments
      simpa [thumbBytes,Report.empty] using hthumbs
    · rintro before key after hsplit s s' rfl rfl hputs
      have hkey : Original key := hkeys key (by rw [hsplit]; simp)
      exact (processKey_effect pil fails hkey _).accounted hputs

end Runs

/-- An image library that saves an image as one byte, and for which a longer object is a JPEG of 3000 by 2000
pixels. -/
def oneByteJpegs : Pillow where
  File := Body
  Image := ℕ × ℕ
  openFile := .ok
  format := fun _ => some "JPEG"
  fileSize := fun body => if body.length ≤ 1 then (1920,1280) else (3000,2000)
  draft := fun body _ => .ok body
  exifTranspose := fun _ => .ok (3000,2000)
  size := id
  mode := fun _ => "RGB"
  bands := fun _ => ["R","G","B"]
  transparency := fun _ => false
  convert := fun image _ => .ok image
  alphaMin := fun _ => .ok 255
  pasteOnWhite := .ok
  resize := fun _ size => .ok size
  save := fun _ _ _ => .ok [0]

def oneAttachment : List Json := [.arr [.str "7/a.jpg"]]

def oneObject : Objects := fun key => if key = "7/a.jpg" then some [1,2] else none

theorem oneAttachment_originals : ∀ key ∈ collectAttachmentKeys oneAttachment, isThumbKey key = false := by
  intro key hkey
  have hall : collectAttachmentKeys oneAttachment = ["7/a.jpg"] := rfl
  rw [hall,List.mem_singleton] at hkey
  rw [hkey]
  decide

theorem report_tells_the_truth_without_failures :
    TellsTheTruth oneByteJpegs (fun _ _ => none) oneAttachment oneObject := by
  exact (report_tells_the_truth_iff oneAttachment_originals).mpr fun _ _ _ => rfl

/-- The `put` of the original raises, and the report says that two bytes have been saved. -/
theorem report_lies_after_failed_put : ¬∀ (pil : Pillow) (fails : Failures) (images : List Json) (objects : Objects),
    (∀ key ∈ collectAttachmentKeys images, isThumbKey key = false) → TellsTheTruth pil fails images objects := by
  intro hall
  have hsaved := (hall oneByteJpegs
    (fun _ call => if call = .putOriginal then some ⟨"ClientError","SlowDown"⟩ else none)
    oneAttachment oneObject oneAttachment_originals).saved
  revert hsaved
  decide

end Recompress
end Broadcaster
