import Mathlib.Logic.Relation
import Mathlib.Data.List.Perm.Subperm
import Broadcaster.ChatPages
import Broadcaster.Reconciliation

/-!
# Chats of one moment

A server answers with the newest chats up to the marker, so many that they fill
a page. The next marker lies one below the oldest time of the page: a chat of
that same time which found no place on the page is on none of the later ones.
-/

namespace Broadcaster
namespace ChatPages

def Chat.time (chat : Chat) : ℤ :=
  match chat.lastEventTime with
  | .ok timestamp => timestamp
  | .error _ => 0

structure AccountChats where
  chats : List Chat
  distinct : (chats.map Chat.id).Nodup
  named : ∀ chat ∈ chats, chat.id ≠ ""
  dated : ∀ chat ∈ chats, ∃ timestamp, 0 < timestamp ∧ chat.lastEventTime = .ok timestamp

/-- `last_event_time <= marker`; every time without a marker. -/
def upTo (marker : Option ℤ) (chat : Chat) : Bool := marker.all fun m => decide (chat.time ≤ m)

/-- The newest chats up to the marker, at most `K`, in any order; of chats with the same time any may be left out. -/
structure NewestPage (K : ℕ) (chats : List Chat) (marker : Option ℤ) (page : List Chat) : Prop where
  listed : ∀ chat ∈ page, chat ∈ chats ∧ upTo marker chat = true
  nodup : page.Nodup
  length_le : page.length ≤ K
  newest : ∀ chat ∈ chats, upTo marker chat = true → chat ∉ page →
    page.length = K ∧ ∀ c ∈ page, chat.time ≤ c.time

/-- A server that keeps to the contract. No marker is asked for twice in a loop, so that its answer may
depend on the marker alone. -/
structure ChatServer (account : AccountChats) where
  pageSize : ℕ
  pageSize_pos : 0 < pageSize
  page : Option ℤ → List Chat
  newest : ∀ marker, NewestPage pageSize account.chats marker (page marker)

/-- An attempt in an undisturbed session. -/
def ChatServer.attempt {account : AccountChats} (server : ChatServer account) (cached : List Chat) : Attempt where
  connected := true
  chats := cached
  server := fun _ marker => .ok (server.page marker)
  stays := true

/-- The oldest time on a page of the `K` newest chats up to the marker. -/
structure Oldest (K : ℕ) (chats : List Chat) (marker : Option ℤ) (t : ℤ) : Prop where
  taken : ∃ chat ∈ chats, upTo marker chat = true ∧ chat.time = t
  newer : (chats.filter fun chat => upTo marker chat && decide (t < chat.time)).length < K
  full : (∀ chat ∈ chats, upTo marker chat = true → t ≤ chat.time) ∨
    K ≤ (chats.filter fun chat => upTo marker chat && decide (t ≤ chat.time)).length

def NextStart (K : ℕ) (chats : List Chat) (marker marker' : Option ℤ) : Prop :=
  ∃ t, Oldest K chats marker t ∧ marker' = some (t-1)

def PageStart (K : ℕ) (chats : List Chat) : Option ℤ → Prop := Relation.ReflTransGen (NextStart K chats) none

/-- No page ends within the groups of one time: those that it leaves out are in the cache. -/
def Untied {account : AccountChats} (server : ChatServer account) (cached : List Chat) : Prop :=
  ∀ marker t, PageStart server.pageSize account.chats marker → Oldest server.pageSize account.chats marker t →
    ∀ chat ∈ account.chats, chat.isChat = true → chat.time = t →
      chat ∈ server.page marker ∨ ∃ c ∈ cached, c.IsGroup ∧ c.id = chat.id

section PageEnd

variable {K : ℕ} {chats page : List Chat} {marker : Option ℤ} {t t' : ℤ} {chat : Chat}

theorem Oldest.unique (h : Oldest K chats marker t) (h' : Oldest K chats marker t') : t = t' := by
  have hle : ∀ {t t' : ℤ}, Oldest K chats marker t → Oldest K chats marker t' → t' ≤ t := by
    intro t t' h h'
    by_contra hlt
    rcases h'.full with hall | hfull
    · obtain ⟨chat,hmem,hup,htime⟩ := h.taken
      have hge := hall chat hmem hup
      omega
    · -- as many as fit are newer than `t`
      have hsub : (chats.filter fun chat => upTo marker chat && decide (t' ≤ chat.time)).length ≤
          (chats.filter fun chat => upTo marker chat && decide (t < chat.time)).length := by
        apply List.Sublist.length_le
        apply List.monotone_filter_right
        intro chat hchat
        simp only [Bool.and_eq_true,decide_eq_true_eq] at hchat ⊢
        exact ⟨hchat.1,by omega⟩
      have hnewer := h.newer
      omega
  exact le_antisymm (hle h' h) (hle h h')

theorem NewestPage.oldest (h : NewestPage K chats marker page) (hnodup : chats.Nodup) (hmem : chat ∈ page)
    (hleast : ∀ c ∈ page, chat.time ≤ c.time) : Oldest K chats marker chat.time := by
  obtain ⟨hlisted,hup⟩ := h.listed chat hmem
  refine ⟨⟨chat,hlisted,hup,rfl⟩,?_,?_⟩
  · -- the newer ones are all on the page, and `chat` is there too
    have hsub : (chat::chats.filter fun c => upTo marker c && decide (chat.time < c.time)) ⊆ page := by
      intro c hc
      rcases List.mem_cons.mp hc with rfl | hc
      · exact hmem
      · obtain ⟨hc,hnewer⟩ := List.mem_filter.mp hc
        simp only [Bool.and_eq_true,decide_eq_true_eq] at hnewer
        by_contra hout
        have hle := (h.newest c hc hnewer.1 hout).2 chat hmem
        omega
    have hdistinct : (chat::chats.filter fun c => upTo marker c && decide (chat.time < c.time)).Nodup := by
      refine List.nodup_cons.mpr ⟨?_,hnodup.filter _⟩
      intro hself
      simpa using (List.mem_filter.mp hself).2
    have hlength := (List.subperm_of_subset hdistinct hsub).length_le
    rw [List.length_cons] at hlength
    exact lt_of_lt_of_le hlength h.length_le
  · by_cases hall : ∀ c ∈ chats, upTo marker c = true → c ∈ page
    · exact .inl fun c hc hup => hleast c (hall c hc hup)
    · right
      simp only [not_forall] at hall
      obtain ⟨c,hc,hup',hout⟩ := hall
      rw [← (h.newest c hc hup' hout).1]
      refine (List.subperm_of_subset h.nodup ?_).length_le
      intro d hd
      obtain ⟨hd',hup''⟩ := h.listed d hd
      refine List.mem_filter.mpr ⟨hd',?_⟩
      simp only [Bool.and_eq_true,decide_eq_true_eq]
      exact ⟨hup'',hleast d hd⟩

end PageEnd

section Listing

variable {account : AccountChats} {server : ChatServer account} {marker marker' : Option ℤ} {cached : List Chat}
  {chat : Chat} {t m : ℤ}

theorem AccountChats.nodup (account : AccountChats) : account.chats.Nodup := List.Nodup.of_map _ account.distinct

theorem AccountChats.lastEventTime_of_mem (hmem : chat ∈ account.chats) :
    chat.lastEventTime = .ok chat.time ∧ 0 < chat.time := by
  obtain ⟨timestamp,hpos,htime⟩ := account.dated chat hmem
  have hvalue : chat.time = timestamp := by rw [Chat.time,htime]
  rw [hvalue]
  exact ⟨htime,hpos⟩

theorem timestamps_of_dated (page : List Chat) (h : ∀ chat ∈ page, chat ∈ account.chats) :
    timestamps page = .ok (page.map Chat.time) := by
  induction page with
  | nil => rfl
  | cons chat page ih =>
    obtain ⟨htime,hpos⟩ := AccountChats.lastEventTime_of_mem (h chat List.mem_cons_self)
    have hrest := ih fun c hc => h c (List.mem_cons_of_mem _ hc)
    rw [timestamps,htime,hrest]
    simp only [Except.map,if_pos hpos,List.map_cons]

theorem upTo_pred : upTo (some (t-1)) chat = true ↔ chat.time < t := by
  rw [upTo,Option.all_some,decide_eq_true_iff]
  omega

theorem upTo_of_le {c : Chat} (h : upTo marker c = true) (hle : chat.time ≤ c.time) : upTo marker chat = true := by
  cases marker with
  | none => rfl
  | some m =>
    simp only [upTo,Option.all_some,decide_eq_true_iff] at h ⊢
    omega

theorem upTo_of_reached {K : ℕ} {chats : List Chat}
    (hreach : Relation.ReflTransGen (NextStart K chats) marker marker') (h : upTo marker' chat = true) :
    upTo marker chat = true := by
  induction hreach with
  | refl => exact h
  | tail _ hnext ih =>
    obtain ⟨t,holdest,rfl⟩ := hnext
    obtain ⟨c,_,hup,rfl⟩ := holdest.taken
    exact ih (upTo_of_le hup (le_of_lt (upTo_pred.mp h)))

theorem ChatServer.page_end (server : ChatServer account) (hpage : server.page marker ≠ []) :
    ∃ oldest ∈ server.page marker, nextChatMarker (server.page marker) marker = .ok (some (oldest.time-1)) ∧
      Oldest server.pageSize account.chats marker oldest.time ∧
      (∀ chat ∈ server.page marker, oldest.time ≤ chat.time) ∧
      ∀ chat ∈ account.chats, upTo marker chat = true → chat ∉ server.page marker → chat.time ≤ oldest.time := by
  have hnewest := server.newest marker
  have hts := timestamps_of_dated (server.page marker) fun c hc => (hnewest.listed c hc).1
  have hne : (server.page marker).map Chat.time ≠ [] := fun h => hpage (List.map_eq_nil_iff.mp h)
  obtain ⟨t,hmin⟩ := Option.isSome_iff_exists.mp (List.isSome_min?_of_ne_nil hne)
  obtain ⟨htaken,hleast⟩ := List.min?_eq_some_iff.mp hmin
  obtain ⟨chat,hmem,rfl⟩ := List.mem_map.mp htaken
  have hleast' : ∀ c ∈ server.page marker, chat.time ≤ c.time := fun c hc => hleast _ (List.mem_map_of_mem hc)
  refine ⟨chat,hmem,?_,hnewest.oldest account.nodup hmem hleast',hleast',?_⟩
  · have hpos := (AccountChats.lastEventTime_of_mem (hnewest.listed chat hmem).1).2
    have hstep : ¬ (chat.time-1 < 0 ∨ (marker.any fun m => decide (m ≤ chat.time-1)) = true) := by
      rintro (hneg | hback)
      · omega
      · have hup := (hnewest.listed chat hmem).2
        cases marker with
        | none => cases hback
        | some m =>
          simp only [upTo,Option.all_some,Option.any_some,decide_eq_true_iff] at hup hback
          omega
    rw [nextChatMarker,hts]
    simp only [Except.map,nextMarker,hmin,Option.bind_some,if_neg hstep]
  · intro c hc hup hout
    exact (hnewest.newest c hc hup hout).2 chat hmem

theorem ChatServer.page_nil (server : ChatServer account) (hpage : server.page marker = [])
    (hmem : chat ∈ account.chats) : ¬ upTo marker chat = true := by
  intro hup
  have hlength := ((server.newest marker).newest chat hmem hup (by rw [hpage]; exact List.not_mem_nil)).1
  have hpos := server.pageSize_pos
  rw [hpage,List.length_nil] at hlength
  omega

section Run

variable {fuel n : ℕ} {groups : Dict String GroupRecord} {f : Fetches}

theorem ChatServer.turn (h : fetchPages (server.attempt cached).server (fuel+1) n groups marker = some f) :
    (server.page marker = [] ∧ f = ⟨[marker],[],.ok groups⟩) ∨
    ∃ t g groups', Oldest server.pageSize account.chats marker t ∧ (∀ chat ∈ server.page marker, t ≤ chat.time) ∧
      (∀ chat ∈ account.chats, upTo marker chat = true → chat ∉ server.page marker → chat.time ≤ t) ∧
      fetchPages (server.attempt cached).server fuel (n+1) groups' (some (t-1)) = some g ∧
      f = ⟨marker::g.markers,server.page marker::g.pages,g.groups⟩ := by
  rcases fetchPages_succ_cases h with ⟨e,hserver,_⟩ | ⟨hserver,rfl⟩ | ⟨page,hne,hserver,hturn⟩
  · cases hserver
  · exact .inl ⟨Except.ok.inj hserver,rfl⟩
  · rw [← Except.ok.inj hserver] at hne hturn
    obtain ⟨oldest,_,hmarker,holdest,hleast,hout⟩ := server.page_end hne
    rw [hmarker] at hturn
    rcases hturn with ⟨e,hnext,_⟩ | ⟨hnext,_⟩ | ⟨next,g,hnext,hg,rfl⟩
    · cases hnext
    · cases Except.ok.inj hnext
    · rw [← Option.some.inj (Except.ok.inj hnext)] at hg
      exact .inr ⟨oldest.time,g,_,holdest,hleast,hout,hg,rfl⟩

theorem ChatServer.listed_of_fetched (h : fetchPages (server.attempt cached).server fuel n groups marker = some f)
    (hmem : chat ∈ f.pages.flatten) : chat ∈ account.chats ∧ upTo marker chat = true := by
  induction fuel generalizing n groups marker f with
  | zero => cases h
  | succ fuel ih =>
    rcases ChatServer.turn h with ⟨_,rfl⟩ | ⟨t,g,groups',holdest,_,_,hg,rfl⟩
    · exact absurd hmem List.not_mem_nil
    · rcases List.mem_append.mp hmem with hpage | hrest
      · exact (server.newest marker).listed chat hpage
      · obtain ⟨hlisted,hup⟩ := ih hg hrest
        exact ⟨hlisted,upTo_of_reached (.single ⟨t,holdest,rfl⟩) hup⟩

theorem ChatServer.groups_ok (h : fetchPages (server.attempt cached).server fuel n groups marker = some f) :
    ∃ groups', f.groups = .ok groups' := by
  induction fuel generalizing n groups marker f with
  | zero => cases h
  | succ fuel ih =>
    rcases ChatServer.turn h with ⟨_,rfl⟩ | ⟨t,g,groups',_,_,_,hg,rfl⟩
    · exact ⟨groups,rfl⟩
    · obtain ⟨groups'',hgroups⟩ := ih hg
      exact ⟨groups'',hgroups⟩

/-- A chat that is on no page has the oldest time of a page that it found no place on. -/
theorem ChatServer.fetched_or_left_out (h : fetchPages (server.attempt cached).server fuel n groups marker = some f)
    (hmem : chat ∈ account.chats) (hup : upTo marker chat = true) :
    chat ∈ f.pages.flatten ∨
      ∃ marker', Relation.ReflTransGen (NextStart server.pageSize account.chats) marker marker' ∧
        Oldest server.pageSize account.chats marker' chat.time ∧ chat ∉ server.page marker' := by
  induction fuel generalizing n groups marker f with
  | zero => cases h
  | succ fuel ih =>
    rcases ChatServer.turn h with ⟨hnil,rfl⟩ | ⟨t,g,groups',holdest,_,hout,hg,rfl⟩
    · exact absurd hup (server.page_nil hnil hmem)
    · by_cases hpage : chat ∈ server.page marker
      · exact .inl (List.mem_append_left _ hpage)
      · have hle := hout chat hmem hup hpage
        rcases hle.eq_or_lt with heq | hlt
        · exact .inr ⟨marker,.refl,by rwa [heq],hpage⟩
        · rcases ih hg (upTo_pred.mpr hlt) with hrest | ⟨marker',hreach,hleft⟩
          · exact .inl (List.mem_append_right _ hrest)
          · exact .inr ⟨marker',.head ⟨t,holdest,rfl⟩ hreach,hleft⟩

theorem ChatServer.on_page (h : fetchPages (server.attempt cached).server fuel n groups marker = some f)
    (hreach : Relation.ReflTransGen (NextStart server.pageSize account.chats) marker marker')
    (holdest' : Oldest server.pageSize account.chats marker' chat.time) (hmem : chat ∈ f.pages.flatten) :
    chat ∈ server.page marker' := by
  induction fuel generalizing n groups marker f with
  | zero => cases h
  | succ fuel ih =>
    rcases ChatServer.turn h with ⟨_,rfl⟩ | ⟨t,g,groups',holdest,hleast,_,hg,rfl⟩
    · exact absurd hmem List.not_mem_nil
    · rcases hreach.cases_head with rfl | ⟨next,⟨t',ht',rfl⟩,hreach'⟩
      · rcases List.mem_append.mp hmem with hpage | hrest
        · exact hpage
        · -- the later pages are older
          have hup := (ChatServer.listed_of_fetched hg hrest).2
          rw [holdest.unique holdest'] at hup
          exact absurd (upTo_pred.mp hup) (lt_irrefl _)
      · rw [← holdest.unique ht'] at hreach'
        rcases List.mem_append.mp hmem with hpage | hrest
        · -- this page is newer
          obtain ⟨c,_,hup,htime⟩ := holdest'.taken
          have hlt := upTo_pred.mp (upTo_of_reached hreach' hup)
          have hle := hleast chat hpage
          omega
        · exact ih hg hreach' hrest

end Run

end Listing

/-- A server that takes the newest chats in the order of a stable sort. -/
def newestServer (account : AccountChats) (K : ℕ) (hK : 0 < K) : ChatServer account where
  pageSize := K
  pageSize_pos := hK
  page := fun marker => ((account.chats.filter (upTo marker)).mergeSort fun a b => decide (b.time ≤ a.time)).take K
  newest := by
    intro marker
    have hsorted : ((account.chats.filter (upTo marker)).mergeSort fun a b => decide (b.time ≤ a.time)).Pairwise
        fun a b => decide (b.time ≤ a.time) = true := by
      refine List.pairwise_mergeSort ?_ ?_ _
      · intro a b c hab hbc
        simp only [decide_eq_true_eq] at hab hbc ⊢
        omega
      · intro a b
        simp only [Bool.or_eq_true,decide_eq_true_eq]
        omega
    have hperm := List.mergeSort_perm (account.chats.filter (upTo marker)) fun a b => decide (b.time ≤ a.time)
    generalize ((account.chats.filter (upTo marker)).mergeSort fun a b => decide (b.time ≤ a.time)) = sorted at *
    have hmem : ∀ chat, chat ∈ sorted ↔ chat ∈ account.chats ∧ upTo marker chat = true := by
      intro chat
      rw [hperm.mem_iff,List.mem_filter]
    refine ⟨fun chat hchat => (hmem chat).mp (List.mem_of_mem_take hchat),?_,List.length_take_le _ _,?_⟩
    · exact ((hperm.nodup_iff.mpr (account.nodup.filter _)).sublist (List.take_sublist K sorted))
    · intro chat hchat hup hout
      have hdrop : chat ∈ sorted.drop K := by
        have hall := (hmem chat).mpr ⟨hchat,hup⟩
        rw [← List.take_append_drop K sorted] at hall
        exact (List.mem_append.mp hall).resolve_left hout
      have hlength := List.length_pos_of_mem hdrop
      rw [List.length_drop] at hlength
      refine ⟨by rw [List.length_take]; omega,?_⟩
      intro c hc
      rw [← List.take_append_drop K sorted] at hsorted
      exact of_decide_eq_true ((List.pairwise_append.mp hsorted).2.2 c hc chat hdrop)

theorem untied_of_times {account : AccountChats} (server : ChatServer account) (cached : List Chat)
    (htimes : (account.chats.map Chat.time).Nodup) : Untied server cached := by
  rintro marker t - holdest chat hmem - rfl
  obtain ⟨_,_,hup,htime⟩ := holdest.taken
  have hpage : server.page marker ≠ [] := fun hnil => server.page_nil hnil hmem (upTo_of_le hup htime.ge)
  obtain ⟨oldest,hlast,_,holdest',_,_⟩ := server.page_end hpage
  have hsame : oldest = chat :=
    List.inj_on_of_nodup_map htimes ((server.newest marker).listed oldest hlast).1 hmem (holdest'.unique holdest)
  rw [hsame] at hlast
  exact .inl hlast

open Python (Json)
open GroupResync (State DistinctIds Passes usableIds applyGroupResync applyGroupResync_passes reconciled_loopEnd)
open ScheduleSystem (externalIdMax)

def GroupRecord.json (group : GroupRecord) : Json := .obj [("id",.str group.id),("name",.str group.name)]

/-- The list holds every chat of the type CHAT, and a resync with it leaves no mark on a row of one of them. -/
structure ListsAll (account : AccountChats) (records : List GroupRecord) : Prop where
  complete : ∀ chat ∈ account.chats, chat.isChat = true → chat.id ∈ records.map GroupRecord.id
  unmarked : ∀ (repr : Json → String) (s : State) (messengerType : String) (allowFullWipe : Bool)
    (now : ScheduleService.Instant), DistinctIds s.groups s.account.id → ∀ i g,
      (applyGroupResync repr s (.arr (records.map GroupRecord.json)) messengerType allowFullWipe now).1.groups.row i =
        some g →
      g.accountId = s.account.id → g.groupExternalId.length ≤ externalIdMax →
      (∃ chat ∈ account.chats, chat.isChat = true ∧ chat.id = g.groupExternalId) → g.missingSince = none

section Published

variable {account : AccountChats} {server : ChatServer account} {cached : List Chat} {records : List GroupRecord}
  {f : Fetches} {groups : Dict String GroupRecord}

theorem usable_json (repr : Json → String) (group : GroupRecord) (hlength : group.id.length ≤ externalIdMax) :
    GroupResync.usable repr group.json =
      some (group.id,GroupResync.cut (if (Json.str group.name).truthy then group.name else group.id)) := by
  have hid : GroupResync.get [("id",Json.str group.id),("name",Json.str group.name)] "id" = .str group.id := rfl
  have hname : GroupResync.get [("id",Json.str group.id),("name",Json.str group.name)] "name" = .str group.name := rfl
  simp only [GroupRecord.json,GroupResync.usable,hid,hname,GroupResync.str,reduceCtorEq,if_false,
    if_neg (Nat.not_lt.mpr hlength)]

theorem mem_usableIds_json (repr : Json → String) {id : String} (hid : id ∈ records.map GroupRecord.id)
    (hlength : id.length ≤ externalIdMax) : id ∈ usableIds repr (records.map GroupRecord.json) := by
  obtain ⟨group,hmem,rfl⟩ := List.mem_map.mp hid
  exact List.mem_map.mpr ⟨_,List.mem_filterMap.mpr ⟨_,List.mem_map_of_mem hmem,usable_json repr group hlength⟩,rfl⟩

theorem listsAll_of_complete
    (hcomplete : ∀ chat ∈ account.chats, chat.isChat = true → chat.id ∈ records.map GroupRecord.id) :
    ListsAll account records := by
  refine ⟨hcomplete,?_⟩
  rintro repr s messengerType allowFullWipe now hdistinct i g hg ha hlength ⟨chat,hmem,hchat,hid⟩
  have husable := mem_usableIds_json repr (hid ▸ hcomplete chat hmem hchat) hlength
  have hpass : Passes repr s (records.map GroupRecord.json) allowFullWipe := fun _ _ => List.ne_nil_of_mem husable
  rw [applyGroupResync_passes messengerType now hdistinct hpass] at hg
  have hrows := reconciled_loopEnd repr (records.map GroupRecord.json) messengerType now hdistinct
  have hmark := (hrows.marked_iff hg ha).not.mpr (not_not_intro husable)
  exact Option.not_isSome_iff_eq_none.mp hmark

theorem complete_iff_untied (h : PagesOf (server.attempt cached) f) (hgroups : f.groups = .ok groups) :
    (∀ chat ∈ account.chats, chat.isChat = true → chat.id ∈ groups.values.map GroupRecord.id) ↔
      Untied server cached := by
  have hkept := h.kept hgroups
  obtain ⟨fuel,hf⟩ := h
  constructor
  · intro hcomplete marker t hstart holdest chat hmem hchat htime
    obtain ⟨c,hc,hgroup,hid⟩ := (hkept.ids chat.id).mp (hcomplete chat hmem hchat)
    rcases List.mem_append.mp hc with hcached | hfetched
    · exact .inr ⟨c,hcached,hgroup,hid⟩
    · have hlisted := (ChatServer.listed_of_fetched (hf 0) hfetched).1
      have heq : c = chat := List.inj_on_of_nodup_map account.distinct hlisted hmem hid
      rw [heq] at hfetched
      rw [← htime] at holdest
      exact .inl (ChatServer.on_page (hf 0) hstart holdest hfetched)
  · intro huntied chat hmem hchat
    have hgroup : chat.IsGroup := ⟨hchat,account.named chat hmem⟩
    rcases ChatServer.fetched_or_left_out (hf 0) hmem rfl with hfetched | ⟨marker,hstart,holdest,hout⟩
    · exact (hkept.ids chat.id).mpr ⟨chat,List.mem_append_right _ hfetched,hgroup,rfl⟩
    · rcases huntied marker chat.time hstart holdest chat hmem hchat rfl with hpage | ⟨c,hc,hcached⟩
      · exact absurd hpage hout
      · exact (hkept.ids chat.id).mpr ⟨c,List.mem_append_left _ hc,hcached⟩

theorem startGroupSync_ready (server : ChatServer account) (cached : List Chat) : ∃ f groups,
    PagesOf (server.attempt cached) f ∧ f.groups = .ok groups ∧
      ∃ fuel, ∀ more,
        startGroupSync (fuel+more) true (fun _ => server.attempt cached) = some (.ready groups.values) := by
  obtain ⟨fuel,f,hf⟩ := fetchPages_terminates (server.attempt cached).server 0 (groupRecords cached)
  obtain ⟨groups,hgroups⟩ := ChatServer.groups_ok (hf 0)
  refine ⟨f,groups,⟨fuel,hf⟩,hgroups,fuel,?_⟩
  intro more
  have hloop : fetchPages (server.attempt cached).server (fuel+more) 0 (groupRecords (server.attempt cached).chats)
      none = some f := hf more
  have hconnected : (server.attempt cached).connected = true := rfl
  rw [startGroupSync,if_pos rfl,maxAttempts,List.range_succ_eq_map,List.map_cons,syncAttempts,if_pos hconnected,hloop,
    Option.bind_some,hgroups]
  rfl

end Published

/-- The listing is complete exactly when no page ends within the groups of one time. -/
theorem lists_all_iff_untied {account : AccountChats} (server : ChatServer account) (cached : List Chat) :
    ∃ records,
      (∃ fuel, ∀ more, startGroupSync (fuel+more) true (fun _ => server.attempt cached) = some (.ready records)) ∧
        (ListsAll account records ↔ Untied server cached) := by
  obtain ⟨f,groups,hpages,hgroups,hready⟩ := startGroupSync_ready server cached
  have hcomplete := complete_iff_untied hpages hgroups
  exact ⟨groups.values,hready,fun hall => hcomplete.mp hall.complete,
    fun huntied => listsAll_of_complete (hcomplete.mpr huntied)⟩

/-- Two groups, and a chat of another type between them. -/
def seldom : AccountChats where
  chats := [⟨true,"1","Sales",.ok 900⟩,⟨false,"9","Ann",.ok 800⟩,⟨true,"2","Support",.ok 700⟩]
  distinct := by decide
  named := by simp
  dated := by simp

theorem lists_all_iff_untied_seldom : ∃ records,
    (∃ fuel, ∀ more, startGroupSync (fuel+more) true (fun _ => (newestServer seldom 1 Nat.one_pos).attempt []) =
      some (.ready records)) ∧ ListsAll seldom records := by
  obtain ⟨records,hready,hall⟩ := lists_all_iff_untied (newestServer seldom 1 Nat.one_pos) []
  exact ⟨records,hready,hall.mpr (untied_of_times _ _ (by decide))⟩

/-- Two groups with a message of the same moment. -/
def twins : AccountChats where
  chats := [⟨true,"1","Sales",.ok 5⟩,⟨true,"2","Support",.ok 5⟩]
  distinct := by decide
  named := by simp
  dated := by simp

/-- A page of one chat. -/
theorem lists_all_twins : ¬ ∀ (account : AccountChats) (server : ChatServer account) (cached : List Chat), ∃ records,
    (∃ fuel, ∀ more, startGroupSync (fuel+more) true (fun _ => server.attempt cached) = some (.ready records)) ∧
      ListsAll account records := by
  intro hall
  let server := newestServer twins 1 Nat.one_pos
  obtain ⟨records,⟨fuel,hready⟩,hlists⟩ := hall twins server []
  obtain ⟨f,groups,hpages,hgroups,fuel',hready'⟩ := startGroupSync_ready server []
  have hsame := hready fuel'
  rw [Nat.add_comm,hready' fuel] at hsame
  have hrecords : groups.values = records := Outcome.ready.inj (Option.some.inj hsame)
  have huntied := (complete_iff_untied hpages hgroups).mp (hrecords ▸ hlists.complete)
  have holdest : Oldest 1 twins.chats none 5 := ⟨⟨_,List.mem_cons_self,rfl,rfl⟩,by decide,.inl (by decide)⟩
  have hboth : twins.chats ⊆ server.page none := by
    intro chat hmem
    have hgroup : chat.isChat = true ∧ chat.time = 5 := by
      revert chat
      decide
    rcases huntied none 5 .refl holdest chat hmem hgroup.1 hgroup.2 with hpage | ⟨_,hc,_⟩
    · exact hpage
    · exact absurd hc List.not_mem_nil
  have hlength := (List.subperm_of_subset twins.nodup hboth).length_le.trans (server.newest none).length_le
  exact absurd hlength (by decide)

end ChatPages
end Broadcaster
