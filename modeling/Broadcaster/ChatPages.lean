import Mathlib.Data.List.Induction
import Broadcaster.Dict
import Broadcaster.PythonValues

/-!
# The pages of the chat listing

`start_group_sync` of the MAX worker asks for page after page of chats, with a
smaller marker each time, and publishes the groups among them. What the pages
hold is foreign data.
-/

namespace Broadcaster
namespace ChatPages

open Python

structure Chat where
  /-- `type == ChatType.CHAT` -/
  isChat : Bool
  /-- `str(id)`, empty without this attribute -/
  id : String
  title : String
  /-- what `int(last_event_time)` returns or raises -/
  lastEventTime : Except PyError ℤ

structure GroupRecord where
  id : String
  name : String
  deriving DecidableEq

def Chat.record (chat : Chat) : GroupRecord := ⟨chat.id,chat.title⟩

def groupRecords (chats : List Chat) : Dict String GroupRecord :=
  chats.foldl (fun groups chat =>
    if !chat.isChat then groups
    else if chat.id = "" then groups
    else groups.set chat.id chat.record) .empty

/-- The positive timestamps; an error of another kind than these two is not caught. -/
def timestamps : List Chat → Except PyError (List ℤ)
  | [] => .ok []
  | chat::chats =>
    match chat.lastEventTime with
    | .ok timestamp => (timestamps chats).map fun ts => if 0 < timestamp then timestamp::ts else ts
    | .error .typeError | .error .valueError => timestamps chats
    | .error e => .error e

def nextMarker (marker : Option ℤ) (ts : List ℤ) : Option ℤ :=
  ts.min?.bind fun oldest =>
    if oldest-1 < 0 ∨ marker.any fun m => m ≤ oldest-1 then none else some (oldest-1)

def nextChatMarker (chats : List Chat) (marker : Option ℤ) : Except PyError (Option ℤ) :=
  (timestamps chats).map (nextMarker marker)

/-- The answers of `fetch_chats`, by the number of the fetch and its marker; no answer is an empty page. -/
abbrev Server := ℕ → Option ℤ → Except PyError (List Chat)

/-- What the loop has done: the markers that it asked with, the pages that it got, and how it ended. -/
structure Fetches where
  markers : List (Option ℤ)
  pages : List (List Chat)
  groups : Except PyError (Dict String GroupRecord)

/-- The loop over the pages; `none` when the fuel is used up. -/
def fetchPages (server : Server) : ℕ → ℕ → Dict String GroupRecord → Option ℤ → Option Fetches
  | 0,_,_,_ => none
  | fuel+1,n,groups,marker =>
    match server n marker with
    | .error e => some ⟨[marker],[],.error e⟩
    | .ok [] => some ⟨[marker],[],.ok groups⟩
    | .ok (chat::chats) =>
      match nextChatMarker (chat::chats) marker with
      | .error e => some ⟨[marker],[chat::chats],.error e⟩
      | .ok none => some ⟨[marker],[chat::chats],.ok (groups.update (groupRecords (chat::chats)))⟩
      | .ok (some next) =>
        (fetchPages server fuel (n+1) (groups.update (groupRecords (chat::chats))) (some next)).map fun f =>
          ⟨marker::f.markers,(chat::chats)::f.pages,f.groups⟩

def maxAttempts : ℕ := 4

structure Attempt where
  /-- `session and session.is_connected` -/
  connected : Bool
  chats : List Chat
  server : Server
  /-- There is still a session to publish the groups in. -/
  stays : Bool

inductive Outcome
  | skipped
  | aborted
  | ready (groups : List GroupRecord)
  | failed
  deriving DecidableEq

def syncAttempts (fuel : ℕ) : List Attempt → Option Outcome
  | [] => some .failed
  | attempt::attempts =>
    if attempt.connected then
      (fetchPages attempt.server fuel 0 (groupRecords attempt.chats) none).bind fun f =>
        match f.groups with
        | .ok groups => if attempt.stays then some (.ready groups.values) else syncAttempts fuel attempts
        | .error _ => syncAttempts fuel attempts
    else some .aborted

def startGroupSync (fuel : ℕ) (client : Bool) (attempts : ℕ → Attempt) : Option Outcome :=
  if client then syncAttempts fuel ((List.range maxAttempts).map attempts) else some .skipped

section Markers

variable {server : Server} {fuel n : ℕ} {groups : Dict String GroupRecord} {marker : Option ℤ} {chats : List Chat}
  {f : Fetches} {next : ℤ}

theorem nextChatMarker_spec (h : nextChatMarker chats marker = .ok (some next)) :
    0 ≤ next ∧ ∀ m ∈ marker, next < m := by
  unfold nextChatMarker at h
  cases hts : timestamps chats with
  | error e =>
    rw [hts] at h
    cases h
  | ok ts =>
    rw [hts] at h
    have hnext : nextMarker marker ts = some next := Except.ok.inj h
    obtain ⟨oldest,_,hif⟩ := Option.bind_eq_some_iff.mp hnext
    split at hif
    · cases hif
    · rename_i hstep
      obtain ⟨hpos,hless⟩ := not_or.mp hstep
      rw [← Option.some.inj hif]
      refine ⟨Int.not_lt.mp hpos,?_⟩
      rintro m rfl
      by_contra hle
      exact hless (by simpa using Int.not_lt.mp hle)

theorem fetchPages_succ_cases (h : fetchPages server (fuel+1) n groups marker = some f) :
    (∃ e, server n marker = .error e ∧ f = ⟨[marker],[],.error e⟩) ∨
    (server n marker = .ok [] ∧ f = ⟨[marker],[],.ok groups⟩) ∨
    ∃ page, page ≠ [] ∧ server n marker = .ok page ∧
      ((∃ e, nextChatMarker page marker = .error e ∧ f = ⟨[marker],[page],.error e⟩) ∨
      (nextChatMarker page marker = .ok none ∧ f = ⟨[marker],[page],.ok (groups.update (groupRecords page))⟩) ∨
      ∃ next g, nextChatMarker page marker = .ok (some next) ∧
        fetchPages server fuel (n+1) (groups.update (groupRecords page)) (some next) = some g ∧
        f = ⟨marker::g.markers,page::g.pages,g.groups⟩) := by
  rw [fetchPages] at h
  split at h
  · rename_i e hserver
    exact .inl ⟨e,hserver,(Option.some.inj h).symm⟩
  · rename_i hserver
    exact .inr (.inl ⟨hserver,(Option.some.inj h).symm⟩)
  · rename_i chat chats hserver
    refine .inr (.inr ⟨chat::chats,List.cons_ne_nil _ _,hserver,?_⟩)
    split at h
    · rename_i e hnext
      exact .inl ⟨e,hnext,(Option.some.inj h).symm⟩
    · rename_i hnext
      exact .inr (.inl ⟨hnext,(Option.some.inj h).symm⟩)
    · rename_i next hnext
      obtain ⟨g,hg,hf⟩ := Option.map_eq_some_iff.mp h
      exact .inr (.inr ⟨next,g,hnext,hg,hf.symm⟩)

variable (server groups) in
/-- Below a marker there are only finitely many. -/
theorem fetchPages_isSome (hmarker : 0 ≤ next) (hfuel : next.toNat < fuel) :
    (fetchPages server fuel n groups (some next)).isSome = true := by
  induction fuel generalizing n groups next with
  | zero => exact absurd hfuel (Nat.not_lt_zero _)
  | succ fuel ih =>
    rw [fetchPages]
    split
    · rfl
    · rfl
    · split
      · rfl
      · rfl
      · rename_i lower hnext
        obtain ⟨hpos,hless⟩ := nextChatMarker_spec hnext
        have hlower := hless next rfl
        rw [Option.isSome_map]
        exact ih _ hpos (by omega)

theorem fetchPages_mono (h : fetchPages server fuel n groups marker = some f) :
    fetchPages server (fuel+1) n groups marker = some f := by
  induction fuel generalizing n groups marker f with
  | zero => cases h
  | succ fuel ih =>
    rw [fetchPages] at h
    rw [fetchPages]
    split at h
    · exact h
    · exact h
    · split at h
      · exact h
      · exact h
      · obtain ⟨g,hg,hf⟩ := Option.map_eq_some_iff.mp h
        rw [ih hg,← hf]
        rfl

theorem fetchPages_add (more : ℕ) (h : fetchPages server fuel n groups marker = some f) :
    fetchPages server (fuel+more) n groups marker = some f := by
  induction more with
  | zero => exact h
  | succ more ih => exact fetchPages_mono ih

variable (server n groups) in
theorem fetchPages_terminates : ∃ fuel f, ∀ more, fetchPages server (fuel+more) n groups none = some f := by
  have hreturns : ∃ fuel, (fetchPages server fuel n groups none).isSome = true := by
    cases hserver : server n none with
    | error e => exact ⟨1,by rw [fetchPages,hserver]; rfl⟩
    | ok page =>
      cases page with
      | nil => exact ⟨1,by rw [fetchPages,hserver]; rfl⟩
      | cons chat chats =>
        cases hnext : nextChatMarker (chat::chats) none with
        | error e => exact ⟨1,by simp only [fetchPages,hserver,hnext,Option.isSome_some]⟩
        | ok next =>
          cases next with
          | none => exact ⟨1,by simp only [fetchPages,hserver,hnext,Option.isSome_some]⟩
          | some next =>
            have hpos := (nextChatMarker_spec hnext).1
            refine ⟨next.toNat+2,?_⟩
            simp only [fetchPages,hserver,hnext,Option.isSome_map]
            exact fetchPages_isSome server _ hpos (Nat.lt_succ_self _)
  obtain ⟨fuel,hreturns⟩ := hreturns
  obtain ⟨f,hf⟩ := Option.isSome_iff_exists.mp hreturns
  exact ⟨fuel,f,fun more => fetchPages_add more hf⟩

/-- Each marker lies below the one before and none is negative. -/
def Descending (markers : List ℤ) : Prop := markers.Pairwise (fun m m' => m' < m) ∧ ∀ m ∈ markers, 0 ≤ m

theorem fetchPages_markers (h : fetchPages server fuel n groups marker = some f) :
    ∃ rest : List ℤ, f.markers = marker::rest.map some ∧ Descending rest ∧
      ∀ m ∈ marker, ∀ m' ∈ rest, m' < m := by
  induction fuel generalizing n groups marker f with
  | zero => cases h
  | succ fuel ih =>
    have hstop : ∃ rest : List ℤ, [marker] = marker::rest.map some ∧ Descending rest ∧
        ∀ m ∈ marker, ∀ m' ∈ rest, m' < m :=
      ⟨[],rfl,⟨List.Pairwise.nil,fun _ hm => absurd hm List.not_mem_nil⟩,fun _ _ _ hm => absurd hm List.not_mem_nil⟩
    rcases fetchPages_succ_cases h with ⟨e,_,rfl⟩ | ⟨_,rfl⟩ | ⟨page,_,_,⟨e,_,rfl⟩ | ⟨_,rfl⟩ | ⟨next,g,hnext,hg,rfl⟩⟩
    · exact hstop
    · exact hstop
    · exact hstop
    · exact hstop
    · obtain ⟨hpos,hless⟩ := nextChatMarker_spec hnext
      obtain ⟨rest,hmarkers,⟨hpairwise,hnonneg⟩,hbelow⟩ := ih hg
      refine ⟨next::rest,by rw [hmarkers]; rfl,⟨List.pairwise_cons.mpr ⟨hbelow next rfl,hpairwise⟩,?_⟩,?_⟩
      · intro m hm
        rcases List.mem_cons.mp hm with rfl | hm
        · exact hpos
        · exact hnonneg m hm
      · intro m hmarker m' hm
        rcases List.mem_cons.mp hm with rfl | hm
        · exact hless m hmarker
        · exact Int.lt_trans (hbelow next rfl m' hm) (hless m hmarker)

end Markers

/-- A group that is published: a chat of the type CHAT with an id. -/
def Chat.IsGroup (chat : Chat) : Prop := chat.isChat = true ∧ chat.id ≠ ""

instance : DecidablePred Chat.IsGroup := fun chat => inferInstanceAs (Decidable (chat.isChat = true ∧ chat.id ≠ ""))

def latest (id : String) (chats : List Chat) : Option Chat :=
  chats.reverse.find? fun chat => chat.IsGroup ∧ chat.id = id

structure Kept (chats : List Chat) (groups : List GroupRecord) : Prop where
  nodup : (groups.map GroupRecord.id).Nodup
  ids : ∀ id, id ∈ groups.map GroupRecord.id ↔ ∃ chat ∈ chats, chat.IsGroup ∧ chat.id = id
  records : ∀ group ∈ groups, (latest group.id chats).map Chat.record = some group

def Holds (chats : List Chat) (groups : Dict String GroupRecord) : Prop :=
  ∀ id, groups.get id = (latest id chats).map Chat.record

section Groups

variable {server : Server} {fuel n : ℕ} {groups groups' : Dict String GroupRecord} {marker : Option ℤ}
  {chats page : List Chat} {chat : Chat} {f : Fetches} {id : String}

theorem latest_append (chats page : List Chat) : latest id (chats ++ page) = (latest id page).or (latest id chats) := by
  rw [latest,List.reverse_append,List.find?_append]
  rfl

theorem latest_eq_some (h : latest id chats = some chat) : chat ∈ chats ∧ chat.IsGroup ∧ chat.id = id := by
  have hmem := List.mem_reverse.mp (List.mem_of_find?_eq_some h)
  have hgroup := List.find?_some (p := fun chat : Chat => decide (chat.IsGroup ∧ chat.id = id)) h
  exact ⟨hmem,of_decide_eq_true hgroup⟩

theorem latest_isSome (hmem : chat ∈ chats) (hgroup : chat.IsGroup) : (latest chat.id chats).isSome = true := by
  rw [latest,List.find?_isSome]
  exact ⟨chat,List.mem_reverse.mpr hmem,decide_eq_true ⟨hgroup,rfl⟩⟩

theorem latest_singleton : latest id [chat] = if chat.IsGroup ∧ chat.id = id then some chat else none := by
  rw [latest,List.reverse_singleton,List.find?_singleton]
  by_cases h : chat.IsGroup ∧ chat.id = id
  · rw [if_pos h,if_pos (decide_eq_true h)]
  · rw [if_neg h,if_neg (by rwa [decide_eq_true_iff])]

theorem groupRecords_append_singleton (chats : List Chat) (chat : Chat) :
    groupRecords (chats ++ [chat]) =
      if chat.IsGroup then (groupRecords chats).set chat.id chat.record else groupRecords chats := by
  rw [groupRecords,List.foldl_append,List.foldl_cons,List.foldl_nil,← groupRecords]
  by_cases hchat : chat.isChat = true
  · by_cases hid : chat.id = ""
    · rw [if_neg fun h : chat.IsGroup => h.2 hid,if_pos hid,ite_self]
    · rw [if_pos (show chat.IsGroup from ⟨hchat,hid⟩),if_neg hid,hchat]
      rfl
  · rw [if_neg fun h : chat.IsGroup => hchat h.1,Bool.eq_false_iff.mpr hchat]
    rfl

theorem holds_groupRecords (chats : List Chat) : Holds chats (groupRecords chats) := by
  intro id
  induction chats using List.reverseRecOn with
  | nil => rfl
  | append_singleton chats chat ih =>
    rw [groupRecords_append_singleton,latest_append,latest_singleton]
    by_cases hgroup : chat.IsGroup
    · rw [if_pos hgroup,Dict.get_set,ih]
      by_cases hid : id = chat.id
      · rw [if_pos hid,if_pos ⟨hgroup,hid.symm⟩]
        rfl
      · rw [if_neg hid,if_neg fun h => hid h.2.symm]
        rfl
    · rw [if_neg hgroup,if_neg fun h => hgroup h.1,ih]
      rfl

theorem Holds.update (h : Holds chats groups) (page : List Chat) :
    Holds (chats ++ page) (groups.update (groupRecords page)) := by
  intro id
  rw [Dict.get_update,holds_groupRecords page id,h id,latest_append]
  cases latest id page with
  | none => rfl
  | some chat => rfl

theorem Holds.kept (h : Holds chats groups) : Kept chats groups.values := by
  have hkey : ∀ id group, groups.get id = some group → group.id = id := by
    intro id group hget
    rw [h id] at hget
    obtain ⟨chat,hlatest,rfl⟩ := Option.map_eq_some_iff.mp hget
    exact (latest_eq_some hlatest).2.2
  refine ⟨groups.nodup_values hkey,?_,?_⟩
  · intro id
    rw [List.mem_map]
    constructor
    · rintro ⟨group,hmem,rfl⟩
      obtain ⟨id,hget⟩ := groups.mem_values.mp hmem
      rw [hkey id group hget]
      rw [h id] at hget
      obtain ⟨chat,hlatest,_⟩ := Option.map_eq_some_iff.mp hget
      exact ⟨chat,latest_eq_some hlatest⟩
    · rintro ⟨chat,hmem,hgroup,rfl⟩
      obtain ⟨last,hlast⟩ := Option.isSome_iff_exists.mp (latest_isSome hmem hgroup)
      have hget : groups.get chat.id = some last.record := by
        rw [h chat.id,hlast]
        rfl
      exact ⟨last.record,groups.mem_values.mpr ⟨chat.id,hget⟩,hkey _ _ hget⟩
  · intro group hmem
    obtain ⟨id,hget⟩ := groups.mem_values.mp hmem
    rw [hkey id group hget,← h id]
    exact hget

theorem fetchPages_holds (hholds : Holds chats groups) (h : fetchPages server fuel n groups marker = some f)
    (hgroups : f.groups = .ok groups') : Holds (chats ++ f.pages.flatten) groups' := by
  induction fuel generalizing n groups marker chats f with
  | zero => cases h
  | succ fuel ih =>
    rcases fetchPages_succ_cases h with ⟨e,_,rfl⟩ | ⟨_,rfl⟩ | ⟨page,_,_,⟨e,_,rfl⟩ | ⟨_,rfl⟩ | ⟨next,g,_,hg,rfl⟩⟩
    · cases hgroups
    · rw [← Except.ok.inj hgroups]
      simpa using hholds
    · cases hgroups
    · rw [← Except.ok.inj hgroups]
      simpa using hholds.update page
    · have hrest := ih (hholds.update page) hg hgroups
      rwa [List.append_assoc] at hrest

theorem fetchPages_answers (h : fetchPages server fuel n groups marker = some f) (hgroups : f.groups = .ok groups')
    (i : ℕ) (m : Option ℤ) (hm : f.markers[i]? = some m) : server (n+i) m = .ok (f.pages[i]?.getD []) := by
  induction fuel generalizing n groups marker f i with
  | zero => cases h
  | succ fuel ih =>
    have hlast : ∀ {i : ℕ}, [marker][i]? = some m → i = 0 ∧ marker = m := by
      intro i hi
      cases i with
      | zero => exact ⟨rfl,Option.some.inj hi⟩
      | succ i => cases hi
    rcases fetchPages_succ_cases h with
      ⟨e,_,rfl⟩ | ⟨hserver,rfl⟩ | ⟨page,_,hserver,⟨e,_,rfl⟩ | ⟨_,rfl⟩ | ⟨next,g,_,hg,rfl⟩⟩
    · cases hgroups
    · obtain ⟨rfl,rfl⟩ := hlast hm
      exact hserver
    · cases hgroups
    · obtain ⟨rfl,rfl⟩ := hlast hm
      exact hserver
    · cases i with
      | zero =>
        rw [← Option.some.inj hm]
        exact hserver
      | succ i =>
        have hrest := ih hg hgroups i hm
        rw [Nat.add_assoc,Nat.add_comm 1 i] at hrest
        exact hrest

end Groups

def PagesOf (attempt : Attempt) (f : Fetches) : Prop :=
  ∃ fuel, ∀ more, fetchPages attempt.server (fuel+more) 0 (groupRecords attempt.chats) none = some f

section Sync

variable {attempt : Attempt} {f : Fetches} {groups : Dict String GroupRecord}

theorem PagesOf.markers (h : PagesOf attempt f) :
    ∃ rest : List ℤ, f.markers = none::rest.map some ∧ Descending rest := by
  obtain ⟨fuel,hf⟩ := h
  obtain ⟨rest,hmarkers,hdescending,_⟩ := fetchPages_markers (hf 0)
  exact ⟨rest,hmarkers,hdescending⟩

theorem PagesOf.answers (h : PagesOf attempt f) (hgroups : f.groups = .ok groups) (i : ℕ) (m : Option ℤ)
    (hm : f.markers[i]? = some m) : attempt.server i m = .ok (f.pages[i]?.getD []) := by
  obtain ⟨fuel,hf⟩ := h
  have hanswer := fetchPages_answers (hf 0) hgroups i m hm
  rwa [Nat.zero_add] at hanswer

theorem PagesOf.kept (h : PagesOf attempt f) (hgroups : f.groups = .ok groups) :
    Kept (attempt.chats ++ f.pages.flatten) groups.values := by
  obtain ⟨fuel,hf⟩ := h
  exact (fetchPages_holds (holds_groupRecords attempt.chats) (hf 0) hgroups).kept

end Sync

end ChatPages
end Broadcaster
