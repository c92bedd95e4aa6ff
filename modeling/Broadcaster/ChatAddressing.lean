import Broadcaster.BrokenSchedule
import Broadcaster.OkResults
import Broadcaster.ResyncRefinement
import Broadcaster.RetryChecks
import Broadcaster.TaskLife

/-!
# To which chat a message goes

The resync stores the id that the messenger gives to a chat as a text. The
planner copies it into a task, the dispatcher writes the task into the queue of
the account, and the worker of the account sends to it: WhatsApp to the text
itself, MAX to the number that `int()` reads in it. Where the text is empty,
MAX sends to the number of the row instead.
-/

namespace Broadcaster
namespace ChatAddressing

open Python Scheduling AccountWorker
open GroupResync (GroupRow)
open RetryChecks (Queue queueOf dispatchSendTasks)

/-- A row of the table, and a task of it that a run of the planner has put into a queue. -/
structure HandedOver (groups : Store GroupRow) (row : GroupRow) (task : DispatchTask) (queue : Queue) : Prop where
  row : groups.find task.groupId = some row
  queued : ∃ env w schedules now due schedules' tasks, w.group = (groups.map GroupRow.forget).find ∧
    Selects schedules now due ∧ collectDueSchedules env w schedules now due = .ok (schedules',tasks) ∧
    task ∈ (dispatchSendTasks tasks).1 queue

def orNull {α : Type} (f : α → Json) (value : Option α) : Json := value.elim .null f

/-- The element that `dispatch_send_tasks` appends to the queue, as the worker reads it. -/
def payload (taskId : String) (task : DispatchTask) : Task where
  data :=
    { taskId := .str taskId
      accountId := .int task.accountId
      adId := .int task.adId
      groupId := .int task.groupId
      scheduleId := orNull (fun i : ℕ => .int i) task.scheduleId
      userId := orNull (fun i : ℕ => .int i) task.userId
      adTitle := orNull .str task.adTitle
      adText := orNull .str task.adText
      adImages := orNull Json.ofStrings task.adImages
      groupName := orNull .str task.groupName
      groupExternalId := orNull .str task.groupExternalId }
  retryCount := none
  delayUntil := none

structure Delivery (Chat Content : Type) where
  account : ℕ
  chat : Chat
  content : Content

def sendTo {Chat Content : Type} (account : ℕ) (chat : Chat) (sent : List Content × Option String) :
    List (Delivery Chat Content) × Option String :=
  (sent.1.map fun content => ⟨account,chat,content⟩,sent.2)

/-- `sendMessage` of the worker of the account; the chat is `group_external_id`. -/
def waSendTo (account : ℕ) (t : Task) (o : Outcomes) : List (Delivery Json Message) × Option String :=
  sendTo account t.data.groupExternalId (sendMessage t o)

/-- `send_message` of the worker of the account; nothing is sent when `int()` has raised. -/
def maxSendTo (account : ℕ) (t : Task) (o : MaxOutcomes) : List (Delivery (Option ℤ) MaxMessage) × Option String :=
  sendTo account (maxGroupId t).toOption.join (maxSendMessage t .null o)

/-- Every message goes to a chat of this name, in the session of the account. When there is no such chat, none is
sent and the task fails. -/
structure GoesToItsChat {O Chat Content : Type} (m : Messenger)
    (send : Task → O → List (Delivery Chat Content) × Option String) (t : Task) (account : ℕ)
    (named : Chat → Prop) (attempts : List (ℤ × O)) : Prop where
  addressed : ∀ d ∈ (life m send t attempts).1, d.account = account ∧ named d.chat
  refused : (¬ ∃ chat, named chat) → (life m send t attempts).1 = [] ∧ EndsInFailure m send t attempts

/-- A chat of WhatsApp is the text itself, if it can be used as an id. -/
def WaChat (usable : String → Bool) (externalId : String) (chat : Json) : Prop :=
  chat = .str externalId ∧ usable externalId = true

/-- A chat of MAX is a number, and `reads` tells which text names it. -/
def MaxChat (reads : String → ℤ → Prop) (externalId : String) (chat : Option ℤ) : Prop :=
  ∃ n, chat = some n ∧ reads externalId n

def Rejects (o : Outcomes) : Prop :=
  (∀ i, ∃ message, o.image i = .failed message false) ∧ ∃ message, o.text = .failed message false

def isUrl (img : String) : Bool :=
  "http://".toList.isPrefixOf img.toList || "https://".toList.isPrefixOf img.toList

def isFile : Json → Bool
  | .str img => !isUrl img
  | _ => false

def OnlyFiles (t : Task) : Prop :=
  t.images ≠ [] ∧ (∀ img ∈ t.images, isFile img = true) ∧ (t.images.length = 1 ∨ t.caption = "")

variable {groups : Store GroupRow} {row : GroupRow} {task : DispatchTask} {queue : Queue} {account : ℕ}
  {t : Task}

theorem mem_batch {env : Environment} {w : World} {r : ℕ × Schedule} (h : task ∈ batch env w r) :
    ∃ adId ad group accountId account, w.group task.groupId = some group ∧
      task = buildDispatchTask env adId ad task.groupId group accountId account (some r.1) := by
  unfold batch at h
  cases hs : senderOf w r.2 with
  | none => simp [hs] at h
  | some sender =>
    simp only [hs] at h
    split at h
    · obtain ⟨groupId,_,htask⟩ := List.mem_filterMap.mp h
      obtain ⟨group,hgroup,hactive⟩ := Option.bind_eq_some_iff.mp htask
      split at hactive
      · have he := Option.some.inj hactive
        subst he
        exact ⟨_,_,group,_,_,hgroup,rfl⟩
      · cases hactive
    · cases h

theorem HandedOver.built (h : HandedOver groups row task queue) : queueOf task = some queue ∧
    ∃ env adId ad accountId account scheduleId,
      task = buildDispatchTask env adId ad task.groupId row.forget accountId account scheduleId := by
  obtain ⟨env,w,schedules,now,due,schedules',tasks,hw,hsel,hrun,hmem⟩ := h.queued
  obtain ⟨htask,hqueue⟩ := List.mem_filter.mp hmem
  rw [(runResult_of_checkSchedules hsel hrun).dispatched] at htask
  obtain ⟨r,_,hr⟩ := List.mem_flatMap.mp htask
  obtain ⟨adId,ad,group,accountId,account,hgroup,hbuilt⟩ := mem_batch hr
  have hforget : (groups.map GroupRow.forget).find task.groupId = some row.forget := by
    obtain ⟨i,hi,hrow⟩ := Store.find_eq_some h.row
    rw [hi,Store.find_natCast]
    simp [Store.map,hrow]
  rw [hw,hforget] at hgroup
  have he := Option.some.inj hgroup
  rw [← he] at hbuilt
  exact ⟨of_decide_eq_true hqueue,env,adId,ad,accountId,account,_,hbuilt⟩

structure Carries (t : Task) (row : GroupRow) (groupId : ℤ) : Prop where
  externalId : t.data.groupExternalId = .str row.groupExternalId
  groupId : t.data.groupId = .int groupId
  adText : ∃ text, t.data.adText = .str text
  adImages : ∃ images, t.data.adImages = .arr images
  fresh : t.retries = 0

theorem carries_build (taskId : String) (env : Environment) (adId : ℕ) (ad : Ad) (groupId : ℤ) (row : GroupRow)
    (accountId : ℕ) {sender : MessengerAccount} (scheduleId : Option ℕ)
    (htype : sender.type = "wa" ∨ sender.type = "max") :
    Carries (payload taskId (buildDispatchTask env adId ad groupId row.forget accountId sender scheduleId)) row
      groupId := by
  simp only [buildDispatchTask,if_pos htype]
  exact ⟨rfl,rfl,⟨_,rfl⟩,⟨_,rfl⟩,rfl⟩

theorem HandedOver.carries (h : HandedOver groups row task queue) (taskId : String)
    (htype : task.type = "wa" ∨ task.type = "max") :
    Carries (payload taskId task) row task.groupId := by
  obtain ⟨_,env,adId,ad,accountId,sender,scheduleId,hbuilt⟩ := h.built
  have hsender : task.type = sender.type := congrArg DispatchTask.type hbuilt
  have hcarries := carries_build taskId env adId ad task.groupId row accountId scheduleId (hsender ▸ htype)
  rw [← hbuilt] at hcarries
  exact hcarries

theorem queueOf_cases (h : queueOf task = some queue) : queue = .telegram ∨
    (task.type = "wa" ∧ queue = .wa task.accountId) ∨ (task.type = "max" ∧ queue = .max task.accountId) := by
  unfold queueOf at h
  split at h
  · exact .inl (Option.some.inj h).symm
  · split at h
    · rename_i htype
      exact .inr (.inl ⟨htype,(Option.some.inj h).symm⟩)
    · split at h
      · rename_i htype
        exact .inr (.inr ⟨htype,(Option.some.inj h).symm⟩)
      · cases h

theorem HandedOver.wa (h : HandedOver groups row task (.wa account)) (taskId : String) :
    task.accountId = account ∧ Carries (payload taskId task) row task.groupId := by
  rcases queueOf_cases h.built.1 with he | ⟨htype,he⟩ | ⟨_,he⟩
  · cases he
  · exact ⟨(Queue.wa.inj he).symm,h.carries taskId (.inl htype)⟩
  · cases he

theorem HandedOver.max (h : HandedOver groups row task (.max account)) (taskId : String) :
    task.accountId = account ∧ Carries (payload taskId task) row task.groupId := by
  rcases queueOf_cases h.built.1 with he | ⟨_,he⟩ | ⟨htype,he⟩
  · cases he
  · cases he
  · exact ⟨(Queue.max.inj he).symm,h.carries taskId (.inr htype)⟩

section WhatsApp

variable {o : Outcomes} {usable : String → Bool} {idle : ℤ}

theorem readsData_waSendTo (account : ℕ) : ReadsData (waSendTo account) := by
  intro t t' o h
  rw [waSendTo,waSendTo,sendMessage_data h,h]

theorem load_str (img : String) (source : Source) : load (.str img) source =
    if isUrl img then loadedUnless source.download
    else if source.fileExists then loadedUnless source.read else .missing := rfl

theorem load_of_isFile {img : Json} (h : isFile img = true) : load img ⟨none,false,none⟩ = .missing := by
  cases img with
  | str img =>
    simp only [isFile,Bool.not_eq_true'] at h
    simp [load_str,h]
  | _ => cases h

theorem isFile_of_missing {img : Json} {source : Source} (h : load img source = .missing) : isFile img = true := by
  have hunless : ∀ error, loadedUnless error ≠ .missing := by
    intro error
    cases error <;> simp [loadedUnless]
  cases img with
  | str img =>
    rw [load_str] at h
    split at h
    · exact absurd h (hunless _)
    · rename_i hfile
      simpa [isFile] using hfile
  | _ => cases h

theorem sendImages_rejected (h : Rejects o) (withCaption : Bool) (ps : List (Json × ℕ)) :
    (sendImages o withCaption ps).1 = [] := by
  induction ps with
  | nil => rfl
  | cons p rest ih =>
    obtain ⟨img,i⟩ := p
    obtain ⟨message,hfailed⟩ := h.1 i
    simp only [sendImages]
    cases load img (o.source i) with
    | failed _ => rfl
    | missing => exact ih
    | loaded => simp [hfailed]

theorem sendMessage_rejected (h : Rejects o) (t : Task) : (sendMessage t o).1 = [] := by
  have htext : (sendText o).1 = [] := by
    obtain ⟨message,hfailed⟩ := h.2
    simp [sendText,hfailed]
  cases hsession : o.session with
  | false => simp [sendMessage,hsession]
  | true =>
    by_cases himages : t.images = []
    · simpa [sendMessage,hsession,himages] using htext
    · rw [sendMessage_images hsession himages,sendImages_rejected h,htext]
      simp

theorem error_of_rejects (h : Rejects o) (hcall : ¬OnlyFiles t) : (sendMessage t o).2 ≠ none := by
  intro hnone
  have hleft : WaNothingLeft t o := by
    by_contra hleft
    exact (arrives_of_ok hnone hleft).1 (sendMessage_rejected h t)
  obtain ⟨_,himages,hmissing,hcaption⟩ := hleft
  refine hcall ⟨himages,fun img himg => ?_,hcaption⟩
  rw [← List.zipIdx_map_fst 0 t.images] at himg
  obtain ⟨p,hp,rfl⟩ := List.mem_map.mp himg
  exact isFile_of_missing (hmissing p hp)

def nothingToSend : Outcomes where
  session := true
  source := fun _ => ⟨none,false,none⟩
  image := fun _ => .failed "" false
  text := .failed "" false

theorem rejects_nothingToSend : Rejects nothingToSend := ⟨fun _ => ⟨"",rfl⟩,"",rfl⟩

theorem sent_of_onlyFiles (h : OnlyFiles t) : (sendMessage t nothingToSend).2 = none := by
  obtain ⟨himages,hfiles,hcaption⟩ := h
  have hleft : WaNothingLeft t nothingToSend := by
    refine ⟨rfl,himages,fun p hp => load_of_isFile (hfiles p.1 ?_),hcaption⟩
    rw [← List.zipIdx_map_fst 0 t.images]
    exact List.mem_map_of_mem hp
  rw [sendMessage_nothingLeft hleft]

theorem wa_goes_to_its_chat_iff (hcarries : Carries t row task.groupId) :
    (∀ attempts : List (ℤ × Outcomes), (∀ a ∈ attempts, usable row.groupExternalId = false → Rejects a.2) →
      GoesToItsChat (waWorker idle) (waSendTo account) t account (WaChat usable row.groupExternalId) attempts) ↔
    (usable row.groupExternalId = true ∨ ¬OnlyFiles t) := by
  constructor
  · intro hall
    by_contra hcond
    push Not at hcond
    obtain ⟨hunusable,hfiles⟩ := hcond
    have hno : ¬ ∃ chat, WaChat usable row.groupExternalId chat := by
      rintro ⟨chat,_,hchat⟩
      exact hunusable hchat
    have hright := hall [(0,nothingToSend)] fun a ha _ => by
      rw [List.mem_singleton.mp ha]
      exact rejects_nothingToSend
    have hsent : (waSendTo account t nothingToSend).2 = none := sent_of_onlyFiles hfiles
    obtain ⟨r,hlife,hok⟩ := life_of_sent (waWorker idle) 0 hsent []
    have hfail := (hright.refused hno).2.failed r (by rw [hlife])
    rw [hok] at hfail
    cases hfail
  · intro hcond attempts hrejects
    have hnothing : usable row.groupExternalId = false → ∀ a ∈ attempts, (waSendTo account t a.2).1 = [] := by
      intro hunusable a ha
      rw [waSendTo,sendTo,sendMessage_rejected (hrejects a ha hunusable) t,List.map_nil]
    constructor
    · intro d hd
      obtain ⟨a,ha,hmem⟩ := mem_life (readsData_waSendTo account) hd
      have husable : usable row.groupExternalId = true := by
        by_contra hunusable
        rw [hnothing (by simpa using hunusable) a ha] at hmem
        cases hmem
      obtain ⟨content,_,rfl⟩ := List.mem_map.mp hmem
      exact ⟨rfl,hcarries.externalId,husable⟩
    · intro hno
      have hunusable : usable row.groupExternalId = false := by
        by_contra husable
        exact hno ⟨_,rfl,by simpa using husable⟩
      have hcall : ¬OnlyFiles t := hcond.resolve_left (by simp [hunusable])
      refine ⟨?_,endsInFailure (readsData_waSendTo account) hcarries.fresh fun a ha => ?_⟩
      · refine List.eq_nil_iff_forall_not_mem.mpr fun d hd => ?_
        obtain ⟨a,ha,hmem⟩ := mem_life (readsData_waSendTo account) hd
        rw [hnothing hunusable a ha] at hmem
        cases hmem
      · exact error_of_rejects (hrejects a ha hunusable) hcall

end WhatsApp

section Max

variable {o : MaxOutcomes} {idle : ℤ} {rate : ℕ} {reads : String → ℤ → Prop} {chat : Option ℤ}

theorem readsData_maxSendTo (account : ℕ) : ReadsData (maxSendTo account) := by
  intro t t' o h
  have hgroup : maxGroupId t' = maxGroupId t := by
    rw [maxGroupId,maxGroupId,h]
  have himages : maxImages t' .null = maxImages t .null := by
    rw [maxImages,maxImages,h]
  have hmessages : maxSendMessage t' .null o = maxSendMessage t .null o := by
    rw [maxSendMessage,maxSendMessage,hgroup,himages,h]
  rw [maxSendTo,maxSendTo,hgroup,hmessages]

theorem maxGroupId_of_empty (hcarries : Carries t row task.groupId) (h : row.groupExternalId = "") :
    ∃ chat, maxGroupId t = .ok chat := by
  unfold maxGroupId
  rw [hcarries.externalId,hcarries.groupId,h]
  by_cases hzero : task.groupId = 0
  · exact ⟨none,by simp [Json.truthy,hzero]⟩
  · refine ⟨some task.groupId,?_⟩
    simp only [Json.truthy,hzero,ne_eq,not_true_eq_false,not_false_eq_true,decide_true,decide_false,if_true,
      Bool.false_eq_true,if_false,Json.toInt]
    rfl

theorem maxGroupId_eq (hcarries : Carries t row task.groupId) (h : row.groupExternalId ≠ "") :
    maxGroupId t = (Python.int row.groupExternalId.toList).elim (.error .valueError) fun n => .ok (some n) := by
  unfold maxGroupId
  rw [hcarries.externalId]
  simp only [Json.truthy,h,ne_eq,not_false_eq_true,decide_true,if_true,Json.toInt]
  cases Python.int row.groupExternalId.toList with
  | none => rfl
  | some n => rfl

def allSent : MaxOutcomes where
  session := .available
  describe := fun _ => ""
  download := fun _ => true
  send := .sent

theorem maxSendTo_allSent (account : ℕ) (hcarries : Carries t row task.groupId) (hgroup : maxGroupId t = .ok chat) :
    ∃ content, maxSendTo account t allSent = ([⟨account,chat,content⟩],none) := by
  obtain ⟨images,himages⟩ := hcarries.adImages
  have hone : ∃ content, maxSendMessage t .null allSent = ([content],none) := by
    cases images with
    | nil =>
      refine ⟨⟨t.data.adText,[]⟩,?_⟩
      simp [maxSendMessage,hgroup,allSent,maxImages,himages,Json.truthy,maxSend]
    | cons img images =>
      refine ⟨⟨t.data.adText,List.range (img::images).length⟩,?_⟩
      simp [maxSendMessage,hgroup,allSent,maxImages,himages,Json.truthy,Json.iterate,maxSend]
  obtain ⟨content,hcontent⟩ := hone
  refine ⟨content,?_⟩
  rw [maxSendTo,sendTo,hcontent,hgroup]
  rfl

theorem maxSendTo_of_error {e : PyError} (account : ℕ) (hgroup : maxGroupId t = .error e) (o : MaxOutcomes) :
    maxSendTo account t o = ([],some (o.describe e)) := by
  rw [maxSendTo,sendTo,maxSendMessage,hgroup]
  rfl

theorem max_goes_to_its_chat_iff (hempty : ∀ n, ¬reads "" n) (hcarries : Carries t row task.groupId) :
    (∀ attempts : List (ℤ × MaxOutcomes),
      GoesToItsChat (maxWorker idle rate) (maxSendTo account) t account (MaxChat reads row.groupExternalId) attempts) ↔
    row.groupExternalId ≠ "" ∧ ∀ n, Python.int row.groupExternalId.toList = some n → reads row.groupExternalId n := by
  constructor
  · intro hall
    -- what is sent when all goes well goes to a chat of this name
    have hnamed : ∀ chat, maxGroupId t = .ok chat → MaxChat reads row.groupExternalId chat := by
      intro chat hgroup
      obtain ⟨content,hsent⟩ := maxSendTo_allSent account hcarries hgroup
      obtain ⟨r,hlife,_⟩ := life_of_sent (maxWorker idle rate) 0 (congrArg Prod.snd hsent) []
      refine ((hall [(0,allSent)]).addressed ⟨account,chat,content⟩ ?_).2
      rw [hlife,hsent]
      exact List.mem_singleton_self _
    have hne : row.groupExternalId ≠ "" := by
      intro he
      obtain ⟨chat,hgroup⟩ := maxGroupId_of_empty hcarries he
      obtain ⟨n,_,hreads⟩ := hnamed chat hgroup
      rw [he] at hreads
      exact hempty n hreads
    refine ⟨hne,fun n hn => ?_⟩
    obtain ⟨k,hk,hreads⟩ := hnamed (some n) (by rw [maxGroupId_eq hcarries hne,hn]; rfl)
    rw [Option.some.inj hk]
    exact hreads
  · rintro ⟨hne,hreads⟩ attempts
    have hgroup := maxGroupId_eq hcarries hne
    cases hint : Python.int row.groupExternalId.toList with
    | none =>
      rw [hint,Option.elim_none] at hgroup
      have hnothing : (life (maxWorker idle rate) (maxSendTo account) t attempts).1 = [] := by
        refine List.eq_nil_iff_forall_not_mem.mpr fun d hd => ?_
        obtain ⟨a,_,hmem⟩ := mem_life (readsData_maxSendTo account) hd
        rw [maxSendTo_of_error account hgroup a.2] at hmem
        cases hmem
      refine ⟨fun d hd => ?_,fun _ => ⟨hnothing,?_⟩⟩
      · rw [hnothing] at hd
        cases hd
      · refine endsInFailure (readsData_maxSendTo account) hcarries.fresh fun a _ => ?_
        rw [maxSendTo_of_error account hgroup a.2]
        exact Option.some_ne_none _
    | some n =>
      rw [hint,Option.elim_some] at hgroup
      have hchat : MaxChat reads row.groupExternalId (some n) := ⟨n,rfl,hreads n hint⟩
      refine ⟨fun d hd => ?_,fun hno => absurd ⟨_,hchat⟩ hno⟩
      obtain ⟨a,_,hmem⟩ := mem_life (readsData_maxSendTo account) hd
      rw [maxSendTo,sendTo,hgroup] at hmem
      obtain ⟨content,_,rfl⟩ := List.mem_map.mp hmem
      exact ⟨rfl,hchat⟩

end Max

/-- MAX takes the text for the number that `int()` reads in it. -/
def ReadAs (externalId : String) (chat : ℤ) : Prop := Python.int externalId.toList = some chat

/-- The text is what `str()` makes of the number. -/
def WrittenAs (externalId : String) (chat : ℤ) : Prop := externalId = toString chat

theorem not_readAs_empty (n : ℤ) : ¬ReadAs "" n := by
  intro h
  have hnone : Python.int "".toList = none := by decide
  rw [ReadAs,hnone] at h
  cases h

theorem not_writtenAs_empty (n : ℤ) : ¬WrittenAs "" n := fun h => GroupResync.toString_ne_empty n h.symm

/-- Every message goes to the chat of the group, unless WhatsApp has only files to send to what is no chat, or
MAX has no id; an id of MAX that is no text of a number may still be read as one. -/
theorem goes_to_its_chat_iff (taskId : String) (idle : ℤ) (rate : ℕ) (usable : String → Bool) :
    (HandedOver groups row task (.wa account) →
      ((∀ attempts : List (ℤ × Outcomes), (∀ a ∈ attempts, usable row.groupExternalId = false → Rejects a.2) →
        GoesToItsChat (waWorker idle) (waSendTo account) (payload taskId task) task.accountId
          (WaChat usable row.groupExternalId) attempts) ↔
        usable row.groupExternalId = true ∨ ¬OnlyFiles (payload taskId task))) ∧
    (HandedOver groups row task (.max account) →
      ((∀ attempts : List (ℤ × MaxOutcomes),
        GoesToItsChat (maxWorker idle rate) (maxSendTo account) (payload taskId task) task.accountId
          (MaxChat ReadAs row.groupExternalId) attempts) ↔ row.groupExternalId ≠ "") ∧
      ((∀ attempts : List (ℤ × MaxOutcomes),
        GoesToItsChat (maxWorker idle rate) (maxSendTo account) (payload taskId task) task.accountId
          (MaxChat WrittenAs row.groupExternalId) attempts) ↔
        row.groupExternalId ≠ "" ∧ ∀ n, ReadAs row.groupExternalId n → WrittenAs row.groupExternalId n)) := by
  refine ⟨fun h => ?_,fun h => ?_⟩
  · obtain ⟨haccount,hcarries⟩ := h.wa taskId
    rw [haccount]
    exact wa_goes_to_its_chat_iff hcarries
  · obtain ⟨haccount,hcarries⟩ := h.max taskId
    rw [haccount]
    refine ⟨?_,max_goes_to_its_chat_iff not_writtenAs_empty hcarries⟩
    rw [max_goes_to_its_chat_iff not_readAs_empty hcarries]
    exact and_iff_left fun n hn => hn

/-! The first answer of a messenger, a schedule that is due, and the task for the only group. -/

def noGroups : Store GroupRow := ⟨1,fun _ => none,fun _ _ => rfl⟩

def chats (externalId : String) : List Json := [.obj [("id",.str externalId)]]

def resynced (externalId type : String) : Store GroupRow :=
  (GroupResync.applyGroupResync (fun _ => "") ⟨noGroups,.empty _,⟨1,1,none,none⟩⟩ (.arr (chats externalId)) type
    false 0).1.groups

def storedRow (externalId type : String) : GroupRow :=
  GroupResync.newGroup ⟨1,1,none,none⟩ type externalId (GroupResync.cut externalId)

theorem resynced_row {externalId : String} (type : String) (h : externalId.length ≤ ScheduleSystem.externalIdMax) :
    (resynced externalId type).row 1 = some (storedRow externalId type) := by
  have hlong : ¬ScheduleSystem.externalIdMax < externalId.length := by
    omega
  have hanswer : GroupResync.answer (fun _ => "") (chats externalId) = [(externalId,GroupResync.cut externalId)] := by
    have hid : GroupResync.get [("id",Json.str externalId)] "id" = .str externalId := rfl
    have hname : GroupResync.get [("id",Json.str externalId)] "name" = .null := rfl
    simp [GroupResync.answer,GroupResync.usable,GroupResync.str,chats,hid,hname,hlong,Json.truthy]
  have hnone : GroupResync.groupsOf noGroups 1 = [] := by
    decide
  simp only [resynced,GroupResync.applyGroupResync,GroupResync.foldl_resyncItem,hanswer,hnone,List.foldl_cons,
    List.foldl_nil,GroupResync.visit]
  rfl

def publisherOf (type : String) (groups : Store GroupRow) : World where
  user := publisher.user
  ad := publisher.ad
  account := fun _ => some ⟨1,type,"active"⟩
  group := (groups.map GroupRow.forget).find
  checkLimit := publisher.checkLimit

def chatTask (externalId type : String) : DispatchTask :=
  buildDispatchTask utc 1 ⟨1,"title","text",[],"published"⟩ 1 (storedRow externalId type).forget 1
    ⟨1,type,"active"⟩ (some 0)

theorem handedOver_chatTask {externalId type : String} (h : externalId.length ≤ ScheduleSystem.externalIdMax)
    (hqueue : queueOf (chatTask externalId type) = some queue) :
    HandedOver (resynced externalId type) (storedRow externalId type) (chatTask externalId type) queue := by
  have hrow := resynced_row type h
  have hrows : healthyTable.select (isDue 0) = [(0,mondays ["09:00"])] := by decide
  have hcomputed : ∀ r ∈ healthyTable.select (isDue 0), ∃ t, nextRunOf utc r.2 0 = .ok (some t) := by
    intro r hr
    rw [hrows,List.mem_singleton] at hr
    rw [hr]
    exact ScheduleService.exists_computeNextRunAt_iff.mpr wellFormed_mondays
  obtain ⟨schedules',tasks,hrun⟩ : ∃ schedules' tasks, checkSchedules utc
      (publisherOf type (resynced externalId type)) healthyTable 0 (healthyTable.select (isDue 0)) =
        .ok (schedules',tasks) := exists_checkSchedules (List.Perm.refl _) hcomputed
  refine ⟨hrow,utc,_,healthyTable,0,_,schedules',tasks,rfl,List.Perm.refl _,hrun,?_⟩
  have hgroup : (publisherOf type (resynced externalId type)).group 1 = some (storedRow externalId type).forget := by
    have hmap : ((resynced externalId type).map GroupRow.forget).row 1 = some (storedRow externalId type).forget := by
      simp [Store.map,hrow]
    exact hmap
  have htasks : tasks = [chatTask externalId type] := by
    rw [(runResult_of_checkSchedules (List.Perm.refl _) hrun).dispatched,hrows,List.flatMap_singleton]
    have hbatch : batch utc (publisherOf type (resynced externalId type)) (0,mondays ["09:00"]) =
        [(1 : ℤ)].filterMap fun groupId =>
          ((publisherOf type (resynced externalId type)).group groupId).bind fun group =>
            if group.isActive then some (buildDispatchTask utc 1 ⟨1,"title","text",[],"published"⟩ groupId group 1
              ⟨1,type,"active"⟩ (some 0)) else none := rfl
    rw [hbatch,List.filterMap_cons,hgroup]
    rfl
  rw [htasks]
  exact List.mem_filter.mpr ⟨List.mem_singleton_self _,decide_eq_true hqueue⟩

/-- The id of a chat of WhatsApp names a server. -/
def namesServer (externalId : String) : Bool := externalId.toList.contains '@'

/-- A group of each messenger. -/
theorem goes_to_its_chat_usable :
    (∀ attempts : List (ℤ × Outcomes), (∀ a ∈ attempts, namesServer "1@g.us" = false → Rejects a.2) →
      GoesToItsChat (waWorker 300) (waSendTo 1) (payload "task" (chatTask "1@g.us" "wa")) 1
        (WaChat namesServer "1@g.us") attempts) ∧
    (∀ attempts : List (ℤ × MaxOutcomes),
      GoesToItsChat (maxWorker 300 8) (maxSendTo 1) (payload "task" (chatTask "-77" "max")) 1
        (MaxChat ReadAs "-77") attempts) ∧
    ∀ attempts : List (ℤ × MaxOutcomes),
      GoesToItsChat (maxWorker 300 8) (maxSendTo 1) (payload "task" (chatTask "-77" "max")) 1
        (MaxChat WrittenAs "-77") attempts := by
  have hwa : HandedOver (resynced "1@g.us" "wa") (storedRow "1@g.us" "wa") (chatTask "1@g.us" "wa") (.wa 1) :=
    handedOver_chatTask (by decide) rfl
  have hmax : HandedOver (resynced "-77" "max") (storedRow "-77" "max") (chatTask "-77" "max") (.max 1) :=
    handedOver_chatTask (by decide) rfl
  have hwritten : ∀ n, ReadAs "-77" n → WrittenAs "-77" n := by
    intro n hn
    have hread : Python.int "-77".toList = some (-77) := by decide
    rw [ReadAs,hread] at hn
    rw [← Option.some.inj hn]
    rfl
  refine ⟨((goes_to_its_chat_iff "task" 300 8 namesServer).1 hwa).mpr (.inl (by decide)),?_,?_⟩
  · exact ((goes_to_its_chat_iff "task" 300 8 namesServer).2 hmax).1.mpr (by decide)
  · exact ((goes_to_its_chat_iff "task" 300 8 namesServer).2 hmax).2.mpr ⟨by decide,hwritten⟩

/-- MAX has named a chat with an empty id: the message goes to the chat whose number is that of the row. -/
theorem message_goes_to_another_chat :
    (life (maxWorker 300 8) (maxSendTo 1) (payload "task" (chatTask "" "max")) [(0,allSent)]).1.map
      Delivery.chat = [some 1] ∧
    ¬ ∀ (repr : Json → String) (s : GroupResync.State) (fetched : Json) (type : String) (allowFullWipe : Bool)
      (now : ScheduleService.Instant) (row : GroupRow) (task : DispatchTask) (account : ℕ) (taskId : String)
      (idle : ℤ) (rate : ℕ), HandedOver
        (GroupResync.applyGroupResync repr s fetched type allowFullWipe now).1.groups row task (.max account) →
      ∀ attempts : List (ℤ × MaxOutcomes),
        GoesToItsChat (maxWorker idle rate) (maxSendTo account) (payload taskId task) task.accountId
          (MaxChat ReadAs row.groupExternalId) attempts := by
  refine ⟨by decide,fun hall => ?_⟩
  have hmax : HandedOver (resynced "" "max") (storedRow "" "max") (chatTask "" "max") (.max 1) :=
    handedOver_chatTask (by decide) rfl
  have hright := hall _ _ _ _ _ _ _ _ _ "task" 300 8 hmax
  obtain ⟨_,hcarries⟩ := hmax.max "task"
  exact ((max_goes_to_its_chat_iff not_readAs_empty hcarries).mp hright).1 rfl

end ChatAddressing
end Broadcaster
