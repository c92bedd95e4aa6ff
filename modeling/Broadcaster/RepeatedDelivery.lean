import Broadcaster.AccountWorker
import Mathlib.Data.List.Nodup
import Mathlib.Data.List.Range

/-!
# What a retried WhatsApp task delivers again

`sendMessage` of `wa_worker/index.js` sends the images of a task one by one and
then the caption, and stops at the first failure. A retry starts again with the
first image.
-/

namespace Broadcaster
namespace AccountWorker

open Python

/-- `ad_text || ''`; the dispatcher writes a text or null -/
def Task.caption (t : Task) : String :=
  match t.data.adText with
  | .str s => s
  | _ => ""

/-- `ad_images || []` -/
def Task.images (t : Task) : List Json :=
  match t.data.adImages with
  | .arr xs => xs
  | _ => []

/-- What an attempt finds behind an image: the errors of its download or of its file. -/
structure Source where
  download : Option String
  fileExists : Bool
  read : Option String

inductive Load
  | loaded
  | missing
  | failed (message : String)
  deriving DecidableEq

/-- A call of `sock.sendMessage`; one that fails may have delivered the message nevertheless. -/
inductive Send
  | sent
  | failed (message : String) (delivered : Bool)
  deriving DecidableEq

def Send.delivers : Send → Bool
  | sent => true
  | failed _ delivered => delivered

/-- What one attempt meets: the session, and for every image its source and its send. -/
structure Outcomes where
  session : Bool
  source : ℕ → Source
  image : ℕ → Send
  text : Send

inductive Message
  | image (i : ℕ) (withCaption : Bool)
  | text
  deriving DecidableEq

def loadedUnless : Option String → Load
  | none => .loaded
  | some message => .failed message

def load (img : Json) (source : Source) : Load :=
  match img with
  | .str url =>
    if "http://".toList.isPrefixOf url.toList || "https://".toList.isPrefixOf url.toList then
      loadedUnless source.download
    else if source.fileExists then loadedUnless source.read
    else .missing
  | .null => .failed "Cannot read properties of null (reading 'startsWith')"
  | _ => .failed "img.startsWith is not a function"

def sendImages (o : Outcomes) (withCaption : Bool) : List (Json × ℕ) → List Message × Option String
  | [] => ([],none)
  | (img,i)::rest =>
    match load img (o.source i) with
    | .failed message => ([],some message)
    | .missing => sendImages o withCaption rest
    | .loaded =>
      match o.image i with
      | .failed message delivered => (if delivered then [.image i withCaption] else [],some message)
      | .sent => (.image i withCaption :: (sendImages o withCaption rest).1,
          (sendImages o withCaption rest).2)

def sendText (o : Outcomes) : List Message × Option String :=
  match o.text with
  | .sent => ([.text],none)
  | .failed message delivered => (if delivered then [.text] else [],some message)

def sendMessage (t : Task) (o : Outcomes) : List Message × Option String :=
  if !o.session then ([],some "WhatsApp session not available")
  else if t.images.isEmpty then sendText o
  else
    let sent := sendImages o (t.images.length = 1 && t.caption ≠ "") t.images.zipIdx
    match sent.2 with
    | some message => (sent.1,some message)
    | none =>
      if 1 < t.images.length && t.caption ≠ "" then (sent.1 ++ (sendText o).1,(sendText o).2)
      else (sent.1,none)

/-- The attempts that `processTask` makes of all those that could be made. -/
def attemptsMade (m : Messenger) (t : Task) : List (ℤ × Outcomes) → List Outcomes
  | [] => []
  | (now,o)::rest =>
    match afterSend m t now (sendMessage t o).2 with
    | .retry t' => o :: attemptsMade m t' rest
    | _ => [o]

def deliveries (m : Messenger) (t : Task) (attempts : List (ℤ × Outcomes)) : List Message :=
  (attemptsMade m t attempts).flatMap fun o => (sendMessage t o).1

inductive Item
  | image (i : ℕ)
  | caption
  deriving DecidableEq

def Item.isIn : Item → Message → Bool
  | .image j, .image i _ => i = j
  | .caption, .image _ withCaption => withCaption
  | .image _, .text => false
  | .caption, .text => true

def Outcomes.passes (o : Outcomes) (p : Json × ℕ) : Bool :=
  match load p.1 (o.source p.2) with
  | .failed _ => false
  | .missing => true
  | .loaded => o.image p.2 = .sent

def Outcomes.delivers (o : Outcomes) (p : Json × ℕ) : Bool :=
  load p.1 (o.source p.2) = .loaded && (o.image p.2).delivers

def Through (o : Outcomes) (ps : List (Json × ℕ)) (j : ℕ) : Prop :=
  ∃ before img after, ps = before ++ (img,j) :: after ∧ (∀ p ∈ before, o.passes p = true) ∧
    o.delivers (img,j) = true

def GetsThrough (t : Task) (o : Outcomes) : Item → Prop
  | .image j => o.session = true ∧ Through o t.images.zipIdx j
  | .caption => o.session = true ∧
    match t.images with
    | [] => o.text.delivers = true
    | [img] => t.caption ≠ "" ∧ o.delivers (img,0) = true
    | _ => t.caption ≠ "" ∧ (∀ p ∈ t.images.zipIdx, o.passes p = true) ∧ o.text.delivers = true

variable {m : Messenger} {t : Task} {o : Outcomes}

theorem sendText_messages (o : Outcomes) : (sendText o).1 = if o.text.delivers then [.text] else [] := by
  unfold sendText
  cases o.text with
  | sent => rfl
  | failed message delivered => cases delivered <;> rfl

theorem sendText_error (o : Outcomes) : (sendText o).2 = none ↔ o.text = .sent := by
  unfold sendText
  cases o.text <;> simp

theorem sendImages_sublist (withCaption : Bool) (ps : List (Json × ℕ)) :
    (sendImages o withCaption ps).1.Sublist (ps.map fun p => Message.image p.2 withCaption) := by
  induction ps with
  | nil => exact List.Sublist.refl _
  | cons p rest ih =>
    obtain ⟨img,i⟩ := p
    simp only [sendImages,List.map_cons]
    cases load img (o.source i) with
    | failed message => exact List.nil_sublist _
    | missing => exact ih.cons _
    | loaded =>
      cases o.image i with
      | sent => exact ih.cons_cons _
      | failed message delivered =>
        cases delivered with
        | false => exact List.nil_sublist _
        | true => exact (List.nil_sublist _).cons_cons _

theorem sendImages_error (withCaption : Bool) (ps : List (Json × ℕ)) :
    (sendImages o withCaption ps).2 = none ↔ ∀ p ∈ ps, o.passes p = true := by
  induction ps with
  | nil => simp [sendImages]
  | cons p rest ih =>
    obtain ⟨img,i⟩ := p
    rw [List.forall_mem_cons,← ih]
    simp only [sendImages,Outcomes.passes]
    cases load img (o.source i) with
    | failed message => simp
    | missing => simp
    | loaded => cases o.image i <;> simp

theorem through_cons (p : Json × ℕ) (rest : List (Json × ℕ)) (j : ℕ) :
    Through o (p :: rest) j ↔
      (p.2 = j ∧ o.delivers p = true) ∨ (o.passes p = true ∧ Through o rest j) := by
  constructor
  · rintro ⟨before,img,after,he,hbefore,hdelivers⟩
    cases before with
    | nil =>
      obtain ⟨rfl,rfl⟩ := List.cons.inj he
      exact .inl ⟨rfl,hdelivers⟩
    | cons q before =>
      obtain ⟨rfl,hrest⟩ := List.cons.inj he
      obtain ⟨hq,hbefore⟩ := List.forall_mem_cons.mp hbefore
      exact .inr ⟨hq,before,img,after,hrest,hbefore,hdelivers⟩
  · rintro (⟨rfl,hdelivers⟩ | ⟨hp,before,img,after,rfl,hbefore,hdelivers⟩)
    · exact ⟨[],p.1,rest,rfl,by simp,hdelivers⟩
    · exact ⟨p::before,img,after,rfl,List.forall_mem_cons.mpr ⟨hp,hbefore⟩,hdelivers⟩

theorem sendImages_image (withCaption : Bool) (ps : List (Json × ℕ)) (j : ℕ) :
    (∃ message ∈ (sendImages o withCaption ps).1, (Item.image j).isIn message = true) ↔
      Through o ps j := by
  induction ps with
  | nil => simp [sendImages,Through]
  | cons p rest ih =>
    obtain ⟨img,i⟩ := p
    rw [through_cons,← ih]
    simp only [sendImages,Outcomes.passes,Outcomes.delivers]
    cases load img (o.source i) with
    | failed message => simp
    | missing => simp
    | loaded =>
      cases o.image i with
      | sent => simp [Send.delivers,Item.isIn]
      | failed message delivered => cases delivered <;> simp [Send.delivers,Item.isIn]

theorem sendImages_single (withCaption : Bool) (p : Json × ℕ) :
    (sendImages o withCaption [p]).1 = if o.delivers p then [.image p.2 withCaption] else [] := by
  obtain ⟨img,i⟩ := p
  simp only [sendImages]
  cases hload : load img (o.source i) with
  | failed message => simp [Outcomes.delivers,hload]
  | missing => simp [Outcomes.delivers,hload]
  | loaded =>
    cases hsend : o.image i with
    | sent => simp [Outcomes.delivers,hload,hsend,Send.delivers]
    | failed message delivered =>
      cases delivered <;> simp [Outcomes.delivers,hload,hsend,Send.delivers]

theorem sendImages_no_caption (ps : List (Json × ℕ)) :
    ¬ ∃ message ∈ (sendImages o false ps).1, Item.caption.isIn message = true := by
  rintro ⟨message,hmem,hin⟩
  obtain ⟨p,_,rfl⟩ := List.mem_map.mp ((sendImages_sublist false ps).subset hmem)
  cases hin

theorem sendMessage_images (hsession : o.session = true) (himages : t.images ≠ []) :
    (sendMessage t o).1 =
      (sendImages o (t.images.length = 1 && t.caption ≠ "") t.images.zipIdx).1 ++
        if (∀ p ∈ t.images.zipIdx, o.passes p = true) ∧ 1 < t.images.length ∧ t.caption ≠ "" then
          (sendText o).1 else [] := by
  unfold sendMessage
  have hpassed := sendImages_error (o := o) (t.images.length = 1 && t.caption ≠ "") t.images.zipIdx
  rw [if_neg (by simp [hsession]),if_neg (by simpa using himages)]
  simp only
  cases he : (sendImages o (t.images.length = 1 && t.caption ≠ "") t.images.zipIdx).2 with
  | some message =>
    rw [he] at hpassed
    have hstopped : ¬ ∀ p ∈ t.images.zipIdx, o.passes p = true := by
      intro h
      cases hpassed.mpr h
    simp only
    rw [if_neg (c := _ ∧ _) (fun h => hstopped h.1),List.append_nil]
  | none =>
    have hall := hpassed.mp he
    simp only
    by_cases hcaption : 1 < t.images.length ∧ t.caption ≠ ""
    · rw [if_pos (by simpa using hcaption),if_pos ⟨hall,hcaption⟩]
    · rw [if_neg (by simpa using hcaption),if_neg (fun h => hcaption h.2),List.append_nil]

theorem sendText_image (o : Outcomes) (j : ℕ) :
    ¬ ∃ message ∈ (sendText o).1, (Item.image j).isIn message = true := by
  rw [sendText_messages]
  split <;> simp [Item.isIn]

theorem sendText_caption (o : Outcomes) :
    (∃ message ∈ (sendText o).1, Item.caption.isIn message = true) ↔ o.text.delivers = true := by
  rw [sendText_messages]
  split
  · rename_i h
    simp [Item.isIn,h]
  · rename_i h
    simp [h]

theorem exists_mem_append {α : Type} {p : α → Prop} {xs ys : List α} :
    (∃ a ∈ xs ++ ys, p a) ↔ (∃ a ∈ xs, p a) ∨ ∃ a ∈ ys, p a := by
  simp only [List.mem_append,or_and_right,exists_or]

theorem sendMessage_image (t : Task) (hsession : o.session = true) (j : ℕ) :
    (∃ message ∈ (sendMessage t o).1, (Item.image j).isIn message = true) ↔
      Through o t.images.zipIdx j := by
  by_cases himages : t.images = []
  · have hmessages : (sendMessage t o).1 = (sendText o).1 := by
      simp [sendMessage,hsession,himages]
    rw [hmessages,himages]
    refine iff_of_false (sendText_image o j) ?_
    rintro ⟨before,img,after,he,_⟩
    cases before <;> cases he
  · rw [sendMessage_images hsession himages,exists_mem_append,sendImages_image]
    apply or_iff_left
    split
    · exact sendText_image o j
    · simp

theorem sendMessage_caption (t : Task) (hsession : o.session = true) :
    (∃ message ∈ (sendMessage t o).1, Item.caption.isIn message = true) ↔
      match t.images with
      | [] => o.text.delivers = true
      | [img] => t.caption ≠ "" ∧ o.delivers (img,0) = true
      | _ => t.caption ≠ "" ∧ (∀ p ∈ t.images.zipIdx, o.passes p = true) ∧ o.text.delivers = true := by
  match himages : t.images with
  | [] =>
    have hmessages : (sendMessage t o).1 = (sendText o).1 := by
      simp [sendMessage,hsession,himages]
    rw [hmessages,sendText_caption]
  | [img] =>
    rw [sendMessage_images hsession (by simp [himages])]
    simp only [himages,List.length_singleton,List.zipIdx_singleton,sendImages_single]
    by_cases hcaption : t.caption = "" <;> by_cases hdelivers : o.delivers (img,0) = true <;>
      simp [hcaption,hdelivers,Item.isIn]
  | img::img'::rest =>
    have hlength : 1 < t.images.length := by
      simp [himages]
    have hsingle : (decide (t.images.length = 1) && decide (t.caption ≠ "")) = false := by
      simp [Nat.ne_of_gt hlength]
    rw [sendMessage_images hsession (by simp [himages]),hsingle,exists_mem_append]
    rw [or_iff_right (sendImages_no_caption _)]
    by_cases hsent : (∀ p ∈ t.images.zipIdx, o.passes p = true) ∧ 1 < t.images.length ∧ t.caption ≠ ""
    · rw [if_pos hsent,sendText_caption]
      rw [himages] at hsent
      exact ⟨fun h => ⟨hsent.2.2,hsent.1,h⟩,fun h => h.2.2⟩
    · rw [if_neg hsent]
      refine iff_of_false (by simp) ?_
      rintro ⟨hcaption,hall,_⟩
      exact hsent ⟨himages ▸ hall,hlength,hcaption⟩

/-- What an attempt delivers can be told from what it meets. -/
theorem delivers_iff_getsThrough (t : Task) (o : Outcomes) (x : Item) :
    (∃ message ∈ (sendMessage t o).1, x.isIn message = true) ↔ GetsThrough t o x := by
  cases hsession : o.session with
  | false =>
    have hnone : ¬ GetsThrough t o x := by
      cases x <;> simp [GetsThrough,hsession]
    refine iff_of_false ?_ hnone
    simp [sendMessage,hsession]
  | true =>
    cases x with
    | image j =>
      rw [sendMessage_image t hsession]
      exact (and_iff_right hsession).symm
    | caption =>
      rw [sendMessage_caption t hsession]
      exact (and_iff_right hsession).symm

/-- What an attempt without failures sends. -/
def allMessages (t : Task) : List Message :=
  if t.images.isEmpty then [.text]
  else t.images.zipIdx.map (fun p => .image p.2 (t.images.length = 1 && t.caption ≠ "")) ++
    if 1 < t.images.length ∧ t.caption ≠ "" then [.text] else []

theorem sendText_sublist (o : Outcomes) : (sendText o).1.Sublist [.text] := by
  rw [sendText_messages]
  split
  · exact List.Sublist.refl _
  · exact List.nil_sublist _

theorem sendMessage_sublist (t : Task) (o : Outcomes) : (sendMessage t o).1.Sublist (allMessages t) := by
  cases hsession : o.session with
  | false =>
    simp only [sendMessage,hsession,Bool.not_false,if_true]
    exact List.nil_sublist _
  | true =>
    by_cases himages : t.images = []
    · simp only [sendMessage,allMessages,hsession,himages,List.isEmpty_nil,if_true,Bool.not_true]
      exact sendText_sublist o
    · have hall : allMessages t = _ := if_neg (by simpa using himages)
      rw [sendMessage_images hsession himages,hall]
      refine List.Sublist.append (sendImages_sublist _ _) ?_
      split
      · rename_i h
        rw [if_pos h.2]
        exact sendText_sublist o
      · exact List.nil_sublist _

theorem countP_image_map (withCaption : Bool) (ps : List (Json × ℕ)) (j : ℕ) :
    (ps.map fun p => Message.image p.2 withCaption).countP (Item.image j).isIn =
      (ps.map Prod.snd).count j := by
  rw [List.count,List.countP_map,List.countP_map]
  apply List.countP_congr
  intro p _
  simp [Item.isIn]

theorem allMessages_once (t : Task) (x : Item) : (allMessages t).countP x.isIn ≤ 1 := by
  unfold allMessages
  match himages : t.images with
  | [] => cases x <;> simp [Item.isIn]
  | img::rest =>
    rw [if_neg (by simp),List.countP_append]
    cases x with
    | image j =>
      have htext : (if 1 < (img::rest).length ∧ t.caption ≠ "" then [Message.text] else []).countP
          (Item.image j).isIn = 0 := by
        split <;> simp [Item.isIn]
      rw [countP_image_map,htext,Nat.add_zero,List.zipIdx_map_snd]
      exact List.nodup_iff_count_le_one.mp (List.nodup_range' ..) j
    | caption =>
      cases rest with
      | nil => by_cases hcaption : t.caption = "" <;> simp [Item.isIn,hcaption]
      | cons img' rest =>
        have hnone : ((img::img'::rest).zipIdx.map fun p =>
            Message.image p.2 ((img::img'::rest).length = 1 && t.caption ≠ "")).countP
            Item.caption.isIn = 0 := by
          simp [List.countP_eq_zero,Item.isIn]
        rw [hnone,Nat.zero_add]
        split <;> simp [Item.isIn]

theorem sendMessage_once (t : Task) (o : Outcomes) (x : Item) : (sendMessage t o).1.countP x.isIn ≤ 1 :=
  ((sendMessage_sublist t o).countP_le).trans (allMessages_once t x)

theorem countP_flatMap_le_one {α β : Type} (f : α → List β) (p : β → Bool) (xs : List α)
    (hone : ∀ a, (f a).countP p ≤ 1) :
    (xs.flatMap f).countP p ≤ 1 ↔
      xs.Pairwise fun a b => ¬ ((∃ c ∈ f a, p c = true) ∧ ∃ c ∈ f b, p c = true) := by
  induction xs with
  | nil => simp
  | cons a xs ih =>
    rw [List.flatMap_cons,List.countP_append,List.pairwise_cons,← ih]
    by_cases ha : ∃ c ∈ f a, p c = true
    · have hcount : (f a).countP p = 1 :=
        Nat.le_antisymm (hone a) (List.countP_pos_iff.mpr ha)
      have hrest : (xs.flatMap f).countP p = 0 ↔ ∀ b ∈ xs, ¬ ∃ c ∈ f b, p c = true := by
        rw [List.countP_eq_zero]
        constructor
        · rintro h b hb ⟨c,hc,hp⟩
          exact h c (List.mem_flatMap.mpr ⟨b,hb,hc⟩) hp
        · intro h c hc hp
          obtain ⟨b,hb,hc⟩ := List.mem_flatMap.mp hc
          exact h b hb ⟨c,hc,hp⟩
      simp only [ha,true_and,← hrest,hcount]
      omega
    · have hcount : (f a).countP p = 0 := by
        rw [List.countP_eq_zero]
        exact fun c hc hp => ha ⟨c,hc,hp⟩
      simp [ha,hcount]

theorem afterSend_retry {t' : Task} {now : ℤ} {error : Option String} (h : afterSend m t now error = .retry t') :
    error ≠ none ∧ t'.data = t.data := by
  cases error with
  | none => cases h
  | some message =>
    refine ⟨by simp,?_⟩
    rcases afterSend_cases t now message with ⟨_,hpc⟩ | ⟨_,_,_,hpc⟩ | ⟨_,_,_,hpc⟩
    · rw [hpc] at h
      cases h
    all_goals
      rw [hpc] at h
      cases h
      rfl

theorem sendMessage_data {t' : Task} (h : t'.data = t.data) (o : Outcomes) :
    sendMessage t' o = sendMessage t o := by
  have himages : t'.images = t.images := by
    unfold Task.images
    rw [h]
  have hcaption : t'.caption = t.caption := by
    unfold Task.caption
    rw [h]
  simp only [sendMessage,himages,hcaption]

theorem attemptsMade_failed (t : Task) (attempts : List (ℤ × Outcomes)) :
    (attemptsMade m t attempts).Pairwise fun earlier _ => (sendMessage t earlier).2 ≠ none := by
  induction attempts generalizing t with
  | nil => exact List.Pairwise.nil
  | cons attempt rest ih =>
    obtain ⟨now,o⟩ := attempt
    simp only [attemptsMade]
    split
    · rename_i t' hretry
      obtain ⟨herror,hdata⟩ := afterSend_retry hretry
      rw [List.pairwise_cons]
      refine ⟨fun _ _ => herror,?_⟩
      have hrest := ih t'
      simp only [sendMessage_data hdata] at hrest
      exact hrest
    · exact List.pairwise_singleton _ _

theorem attemptsMade_subset (t : Task) (attempts : List (ℤ × Outcomes)) :
    attemptsMade m t attempts ⊆ attempts.map Prod.snd := by
  induction attempts generalizing t with
  | nil => exact List.Subset.refl _
  | cons attempt rest ih =>
    obtain ⟨now,o⟩ := attempt
    simp only [attemptsMade,List.map_cons]
    split
    · exact List.cons_subset_cons _ (ih _)
    · exact List.cons_subset_cons _ (List.nil_subset _)

/-- A send that fails has delivered nothing. -/
def Outcomes.Certain (o : Outcomes) : Prop :=
  (∀ i, (o.image i).delivers = true → o.image i = .sent) ∧ (o.text.delivers = true → o.text = .sent)

/-- With at most one image there is nothing left to fail after a delivery. -/
theorem error_of_getsThrough (hlength : t.images.length ≤ 1) (ho : o.Certain) {x : Item}
    (h : GetsThrough t o x) : (sendMessage t o).2 = none := by
  match himages : t.images with
  | [] =>
    cases x with
    | image j =>
      obtain ⟨_,before,_,_,he,_⟩ := h
      rw [himages] at he
      cases before <;> cases he
    | caption =>
      obtain ⟨hsession,hdelivers⟩ := h
      simp only [himages] at hdelivers
      simpa [sendMessage,hsession,himages] using (sendText_error o).mpr (ho.2 hdelivers)
  | [img] =>
    have hdelivers : o.session = true ∧ o.delivers (img,0) = true := by
      cases x with
      | image j =>
        obtain ⟨hsession,hthrough⟩ := h
        rw [himages,List.zipIdx_singleton,through_cons] at hthrough
        rcases hthrough with ⟨_,hdelivers⟩ | ⟨_,before,_,_,he,_⟩
        · exact ⟨hsession,hdelivers⟩
        · cases before <;> cases he
      | caption =>
        obtain ⟨hsession,hcaption⟩ := h
        simp only [himages] at hcaption
        exact ⟨hsession,hcaption.2⟩
    obtain ⟨hsession,hdelivers⟩ := hdelivers
    simp only [Outcomes.delivers,Bool.and_eq_true,decide_eq_true_eq] at hdelivers
    have hsent := ho.1 0 hdelivers.2
    simp [sendMessage,hsession,himages,sendImages,hdelivers.1,hsent]
  | img::img'::rest =>
    rw [himages] at hlength
    simp at hlength

/-- Over the life of a task an item is delivered at most once exactly if no two attempts get through
to it; this is so if there is at most one image and a send that fails has delivered nothing. -/
theorem delivered_once_iff (idle : ℤ) (t : Task) (attempts : List (ℤ × Outcomes)) (x : Item) :
    ((deliveries (waWorker idle) t attempts).countP x.isIn ≤ 1 ↔
      (attemptsMade (waWorker idle) t attempts).Pairwise fun earlier later =>
        ¬ (GetsThrough t earlier x ∧ GetsThrough t later x)) ∧
    (t.images.length ≤ 1 → (∀ o ∈ attemptsMade (waWorker idle) t attempts, o.Certain) →
      (deliveries (waWorker idle) t attempts).countP x.isIn ≤ 1) := by
  have hiff : (deliveries (waWorker idle) t attempts).countP x.isIn ≤ 1 ↔
      (attemptsMade (waWorker idle) t attempts).Pairwise fun earlier later =>
        ¬ (GetsThrough t earlier x ∧ GetsThrough t later x) := by
    unfold deliveries
    rw [countP_flatMap_le_one _ _ _ fun o => sendMessage_once t o x]
    simp only [delivers_iff_getsThrough]
  refine ⟨hiff,fun hlength hcertain => hiff.mpr ?_⟩
  have hfailed := attemptsMade_failed (m := waWorker idle) t attempts
  refine List.Pairwise.imp_of_mem ?_ hfailed
  rintro earlier later hmem _ herror ⟨hearlier,_⟩
  exact herror (error_of_getsThrough hlength (hcertain earlier hmem) hearlier)

def pictureTask (images : List Json) : Task where
  data := ⟨.int 1,.int 1,.int 2,.int 3,.int 4,.int 5,.str "ad",.str "text",.arr images,.str "group",.str "g@g.us"⟩
  retryCount := none
  delayUntil := none

def fetched : Source where
  download := none
  fileExists := false
  read := none

def attemptWith (i : ℕ) (send : Send) : Outcomes where
  session := true
  source := fun _ => fetched
  image := fun j => if j = i then send else .sent
  text := .sent

theorem attemptWith_certain (i : ℕ) (message : String) : (attemptWith i (.failed message false)).Certain := by
  refine ⟨fun j hj => ?_,fun _ => rfl⟩
  by_cases hi : j = i
  · simp [attemptWith,hi,Send.delivers] at hj
  · simp [attemptWith,hi]

/-- A single image that gets through with the second attempt. -/
theorem delivered_once_single : (deliveries (waWorker 300) (pictureTask [.str "https://a"])
    [(5,attemptWith 0 (.failed "Timed Out" false)),(60005,attemptWith 1 (.failed "Timed Out" false))]).countP
    (Item.image 0).isIn ≤ 1 := by
  refine (delivered_once_iff 300 _ _ (.image 0)).2 (by decide) ?_
  intro o ho
  have hmade : o = attemptWith 0 (.failed "Timed Out" false) ∨ o = attemptWith 1 (.failed "Timed Out" false) := by
    have hsub := attemptsMade_subset _ _ ho
    simpa using hsub
  rcases hmade with rfl | rfl
  · exact attemptWith_certain 0 _
  · exact attemptWith_certain 1 _

/-- The first of two images is delivered by the attempt that fails with the second, and again by the next. -/
theorem image_delivered_twice : ¬ ∀ (t : Task) (attempts : List (ℤ × Outcomes)) (x : Item),
    (deliveries (waWorker 300) t attempts).countP x.isIn ≤ 1 := by
  intro hall
  have hone := hall (pictureTask [.str "https://a",.str "https://b"])
    [(5,attemptWith 1 (.failed "Timed Out" false)),(60005,attemptWith 1 .sent)] (.image 0)
  exact absurd hone (by decide)

end AccountWorker
end Broadcaster
