import Broadcaster.ActiveSchedules

/-!
# The groups of a schedule belong to its account

No foreign key ties `group_ids` to the account of the schedule, or the account
to the owner of the ad. Every entry point checks the triangle before it writes,
and whatever deletes one of its corners takes the rest along.
-/

namespace Broadcaster
namespace ScheduleSystem

open Python ScheduleService ScheduleRules Scheduling ScheduleRoutes SchedulePages

structure OwnedBy (db : Database) (u : ℕ) (s : Schedule) : Prop where
  ad : ∃ ad, db.ads.row s.adId = some ad ∧ ad.userId = u
  account : ∀ a, s.accountId = some a → ∃ account, db.accounts.row a = some account ∧ account.userId = u
  groups : ∀ x ∈ s.groupIds, x < db.groups.size ∧
    ∀ g, db.groups.find x = some g → s.accountId = some g.accountId ∧ g.userId = u

def AllOwned (db : Database) : Prop := ∀ i s, db.schedules.row i = some s → ∃ u, OwnedBy db u s

section Checks

variable {env : Environment} {db db' : Database} {now : Instant} {u : ℕ} {s s' : Schedule}

theorem ownsAd_iff {adId : ℤ} : db.ownsAd u adId = true ↔
    ∃ n : ℕ, adId = n ∧ ∃ ad, db.ads.row n = some ad ∧ ad.userId = u := by
  unfold Database.ownsAd
  rw [Option.any_eq_true]
  constructor
  · rintro ⟨ad,hfind,hu⟩
    obtain ⟨n,hn,hrow⟩ := Store.find_eq_some hfind
    exact ⟨n,hn,ad,hrow,by simpa using hu⟩
  · rintro ⟨n,rfl,ad,hrow,hu⟩
    exact ⟨ad,hrow,by simpa using hu⟩

theorem ownsAccount_iff {accountId : ℤ} : db.ownsAccount u accountId = true ↔
    ∃ n : ℕ, accountId = n ∧ ∃ account, db.accounts.row n = some account ∧ account.userId = u := by
  unfold Database.ownsAccount
  rw [Option.any_eq_true]
  constructor
  · rintro ⟨account,hfind,hu⟩
    obtain ⟨n,hn,hrow⟩ := Store.find_eq_some hfind
    exact ⟨n,hn,account,hrow,by simpa using hu⟩
  · rintro ⟨n,rfl,account,hrow,hu⟩
    exact ⟨account,hrow,by simpa using hu⟩

theorem find_lt {x : ℤ} {g : Group} (h : db.groups.find x = some g) : x < db.groups.size := by
  obtain ⟨n,hn,hrow⟩ := Store.find_eq_some h
  have hlt := Store.row_lt hrow
  omega

theorem groups_of_requested {accountId : Option ℕ} {requested : List ℤ}
    (h : asksForeignGroup db u accountId requested = false) :
    ∀ x ∈ requested, ∃ g, db.groups.find x = some g ∧ accountId = some g.accountId ∧ g.userId = u := by
  intro x hx
  unfold asksForeignGroup at h
  have hall := List.any_eq_false.mp h x hx
  have hmem : x ∈ ownedGroupIds db.groups u accountId requested := by simpa using hall
  unfold ownedGroupIds at hmem
  split at hmem
  · cases hmem
  · obtain ⟨_,hany⟩ := List.mem_filter.mp hmem
    obtain ⟨g,hg,howns⟩ := (Option.any_eq_true ..).mp hany
    rw [Bool.and_eq_true,decide_eq_true_iff,decide_eq_true_iff] at howns
    exact ⟨g,hg,by rw [howns.2],howns.1⟩

theorem groups_of_form {form : ScheduleForm} {x : ℤ} (h : x ∈ (formValues db u form).1) :
    ∃ g, db.groups.find x = some g ∧ form.accountId = some (g.accountId : ℤ) ∧ g.userId = u := by
  unfold formValues at h
  obtain ⟨_,havailable⟩ := List.mem_filter.mp h
  have hmem : x ∈ groupsOfAccount db u form.accountId := List.contains_iff_mem.mp havailable
  unfold groupsOfAccount at hmem
  split at hmem
  · cases hmem
  · rename_i id hid
    obtain ⟨⟨n,g⟩,hselect,hx⟩ := List.mem_map.mp hmem
    obtain ⟨hrow,howns⟩ := Store.mem_select.mp hselect
    rw [Bool.and_eq_true,decide_eq_true_iff,decide_eq_true_iff] at howns
    refine ⟨g,?_,?_,howns.2⟩
    · rw [← hx]
      exact hrow
    · rw [hid,howns.1]

theorem verdict_ok {adId : ℤ} {accountId : Option ℤ} (h : ownershipVerdict db u adId accountId = .ok) :
    db.ownsAd u adId = true ∧ ∀ a, accountId = some a → db.ownsAccount u a = true := by
  unfold ownershipVerdict at h
  split at h
  · cases h
  · split at h
    · cases h
    · rename_i had
      have hads : db.ownsAd u adId = true := by simpa using had
      split at h
      · cases h
      · split at h
        · refine ⟨hads,?_⟩
          intro a ha
          cases ha
        · split at h
          · rename_i id hid haccount
            refine ⟨hads,?_⟩
            intro a ha
            rw [← Option.some.inj ha]
            exact haccount
          · cases h

end Checks

structure SameTargets (s s' : Schedule) : Prop where
  ad : s'.adId = s.adId
  account : s'.accountId = s.accountId
  groups : s'.groupIds = s.groupIds

section Targets

variable {env : Environment} {db db' : Database} {now : Instant} {u : ℕ} {s s' : Schedule}

theorem OwnedBy.of_sameTargets (h : OwnedBy db u s) (hsame : SameTargets s s') : OwnedBy db u s' := by
  refine ⟨?_,?_,?_⟩
  · rw [hsame.ad]
    exact h.ad
  · rw [hsame.account]
    exact h.account
  · rw [hsame.groups,hsame.account]
    exact h.groups

theorem settle_sameTargets {r : Response} (h : settle env now r s = .commit s') : SameTargets s s' := by
  unfold settle at h
  split at h
  · rw [← Decision.commit.inj h]
    exact ⟨rfl,rfl,rfl⟩
  · split at h
    · split at h
      · cases h
      · cases h
      · rw [← Decision.commit.inj h]
        exact ⟨rfl,rfl,rfl⟩
    · rw [← Decision.commit.inj h]
      exact ⟨rfl,rfl,rfl⟩

theorem toggle_sameTargets {r r' : Response} (h : toggle env now r r' s = .commit s') :
    SameTargets s s' := by
  unfold toggle at h
  split at h
  · rw [← Decision.commit.inj h]
    exact ⟨rfl,rfl,rfl⟩
  · split at h
    · cases h
    · split at h
      · cases h
      · cases h
      · rw [← Decision.commit.inj h]
        exact ⟨rfl,rfl,rfl⟩

theorem Loads.owner {i : ℕ} {userId : ℕ} (hs : Loads db userId i s) (h : OwnedBy db u s) : userId = u := by
  obtain ⟨n,hn,ad,hrow,hu⟩ := ownsAd_iff.mp hs.2
  obtain ⟨ad',hrow',hu'⟩ := h.ad
  have hid : s.adId = n := by exact_mod_cast hn
  rw [hid,hrow] at hrow'
  rw [← hu,← hu',Option.some.inj hrow']

theorem ownedBy_create {data : CreateScheduleRequest} {userId : ℕ} (hs : SameTargets data.row s')
    (had : db.ownsAd userId data.adId = true) (haccount : db.ownsAccount userId data.accountId = true)
    (hgroups : asksForeignGroup db userId (some data.accountId.toNat) data.groupIds = false) :
    OwnedBy db userId s' := by
  have hrow : OwnedBy db userId data.row := by
    refine ⟨?_,?_,?_⟩
    · obtain ⟨n,hn,ad,hrow,hu⟩ := ownsAd_iff.mp had
      refine ⟨ad,?_,hu⟩
      show db.ads.row data.adId.toNat = some ad
      rw [hn,Int.toNat_natCast]
      exact hrow
    · intro a ha
      obtain ⟨n,hn,account,hrow,hu⟩ := ownsAccount_iff.mp haccount
      have hid : data.accountId.toNat = a := Option.some.inj ha
      rw [hn,Int.toNat_natCast] at hid
      rw [hid] at hrow
      exact ⟨account,hrow,hu⟩
    · intro x hx
      obtain ⟨g,hg,hid,hu⟩ := groups_of_requested hgroups x hx
      refine ⟨find_lt hg,?_⟩
      intro g' hg'
      rw [← Option.some.inj (hg.symm.trans hg')]
      exact ⟨hid,hu⟩
  exact hrow.of_sameTargets hs

theorem ownedBy_form {form : ScheduleForm} {userId : ℕ} {fallback : String}
    (hverdict : ownershipVerdict db userId form.adId form.accountId = .ok) :
    OwnedBy db userId (assignForm db userId form fallback s) := by
  obtain ⟨had,haccount⟩ := verdict_ok hverdict
  refine ⟨?_,?_,?_⟩
  · obtain ⟨n,hn,ad,hrow,hu⟩ := ownsAd_iff.mp had
    refine ⟨ad,?_,hu⟩
    show db.ads.row form.adId.toNat = some ad
    rw [hn,Int.toNat_natCast]
    exact hrow
  · intro a ha
    obtain ⟨z,hz,hid⟩ := Option.map_eq_some_iff.mp ha
    obtain ⟨n,hn,account,hrow,hu⟩ := ownsAccount_iff.mp (haccount z hz)
    rw [hn,Int.toNat_natCast] at hid
    rw [← hid]
    exact ⟨account,hrow,hu⟩
  · intro x hx
    obtain ⟨g,hg,hid,hu⟩ := groups_of_form hx
    refine ⟨find_lt hg,?_⟩
    intro g' hg'
    rw [← Option.some.inj (hg.symm.trans hg')]
    refine ⟨?_,hu⟩
    show form.accountId.map Int.toNat = some g.accountId
    rw [hid]
    rfl

theorem ownedBy_update {data : UpdateScheduleRequest} {userId i : ℕ} (hs : Loads db userId i s)
    (h : OwnedBy db u s)
    (hd : ScheduleRoutes.updateDecision env db userId data now s = .commit s') : OwnedBy db u s' := by
  have howner := hs.owner h
  unfold ScheduleRoutes.updateDecision at hd
  split at hd
  · cases hd
  · rename_i hforeign
    have hassigned : OwnedBy db u (data.assign s) := by
      cases hg : data.groupIds with
      | none =>
        have hsame : SameTargets s (data.assign s) := by
          refine ⟨rfl,rfl,?_⟩
          show data.groupIds.getD s.groupIds = s.groupIds
          rw [hg]
          rfl
        exact h.of_sameTargets hsame
      | some requested =>
        have hrequested : asksForeignGroup db u s.accountId requested = false := by
          rw [hg,howner] at hforeign
          simpa using hforeign
        refine ⟨h.ad,h.account,?_⟩
        intro x hx
        have hin : x ∈ requested := by
          have hget : x ∈ data.groupIds.getD s.groupIds := hx
          rw [hg] at hget
          exact hget
        obtain ⟨g,hgroup,hid,hu⟩ := groups_of_requested hrequested x hin
        refine ⟨find_lt hgroup,?_⟩
        intro g' hg'
        rw [← Option.some.inj (hgroup.symm.trans hg')]
        exact ⟨hid,hu⟩
    exact hassigned.of_sameTargets (settle_sameTargets hd)

/-- The rows that an operation writes without touching the other tables. -/
theorem owned_of_rowChange {op : Operation} {i : ℕ} (h : RowChange env db now op i s')
    (hall : AllOwned db) (haccount : ∀ userId accountId, op ≠ .deleteAccount userId accountId)
    (hgroup : ∀ userId accountId groupId, op ≠ .deleteGroup userId accountId groupId) :
    ∃ u, OwnedBy db u s' := by
  cases h with
  | same hs => exact hall i s' hs
  | @create userId data nextRun _ _ had hacc hgroups _ =>
    exact ⟨userId,ownedBy_create ⟨rfl,rfl,rfl⟩ had hacc hgroups⟩
  | @createForm userId form user t _ _ hverdict =>
    have hrow : OwnedBy db userId (formRow db userId user form) := ownedBy_form hverdict
    refine ⟨userId,?_⟩
    split
    · exact hrow.of_sameTargets ⟨rfl,rfl,rfl⟩
    · exact hrow
  | update _ hs hd =>
    obtain ⟨u,hu⟩ := hall i _ hs.1
    exact ⟨u,ownedBy_update hs hu hd⟩
  | updateForm _ hs hd =>
    obtain ⟨hverdict,r,hsettle⟩ := settle_of_pageDecision hd
    exact ⟨_,(ownedBy_form hverdict).of_sameTargets (settle_sameTargets hsettle)⟩
  | toggle hs hd =>
    obtain ⟨u,hu⟩ := hall i _ hs.1
    exact ⟨u,hu.of_sameTargets (toggle_sameTargets hd)⟩
  | detach hop _ => exact absurd hop (haccount _ _)
  | ungroup hop _ _ => exact absurd hop (hgroup _ _ _)
  | plan hs _ =>
    obtain ⟨u,hu⟩ := hall i _ hs
    exact ⟨u,hu.of_sameTargets ⟨rfl,rfl,rfl⟩⟩

end Targets

/-- The owners of the groups that were there stay as they were. -/
structure KeepsGroups (groups groups' : Store Group) : Prop where
  size : groups.size ≤ groups'.size
  owners : ∀ i, i < groups.size → ∀ g', groups'.row i = some g' →
    ∃ g, groups.row i = some g ∧ g'.userId = g.userId ∧ g'.accountId = g.accountId

section Tables

variable {env : Environment} {db db' : Database} {now : Instant} {u : ℕ} {s : Schedule}
  {groups groups' groups'' : Store Group}

theorem KeepsGroups.refl (groups : Store Group) : KeepsGroups groups groups :=
  ⟨le_refl _,fun _ _ g' hg' => ⟨g',hg',rfl,rfl⟩⟩

theorem KeepsGroups.trans (h : KeepsGroups groups groups') (h' : KeepsGroups groups' groups'') :
    KeepsGroups groups groups'' := by
  refine ⟨le_trans h.size h'.size,?_⟩
  intro i hi g'' hg''
  obtain ⟨g',hg',hu',ha'⟩ := h'.owners i (lt_of_lt_of_le hi h.size) g'' hg''
  obtain ⟨g,hg,hu,ha⟩ := h.owners i hi g' hg'
  exact ⟨g,hg,hu'.trans hu,ha'.trans ha⟩

theorem keepsGroups_insert (groups : Store Group) (g : Group) : KeepsGroups groups (groups.insert g) := by
  refine ⟨Nat.le_succ _,?_⟩
  intro i hi g' hg'
  rcases Store.row_insert.mp hg' with ⟨he,_⟩ | hold
  · omega
  · exact ⟨g',hold,rfl,rfl⟩

theorem keepsGroups_rewrite {f : ℕ → Group → Option Group}
    (hf : ∀ i g g', f i g = some g' → g'.userId = g.userId ∧ g'.accountId = g.accountId) :
    KeepsGroups groups (groups.rewrite f) := by
  refine ⟨le_refl _,?_⟩
  intro i _ g' hg'
  obtain ⟨g,hg,he⟩ := Option.bind_eq_some_iff.mp hg'
  exact ⟨g,hg,hf i g g' he⟩

theorem keepsGroups_delete (p : ℕ → Group → Bool) : KeepsGroups groups (groups.deleteWhere p) := by
  apply keepsGroups_rewrite
  intro i g g' h
  split at h
  · cases h
  · rw [← Option.some.inj h]
    exact ⟨rfl,rfl⟩

theorem keepsGroups_resyncItem (accountId : ℕ) (account : MessengerAccount)
    (existing : List (ℕ × Group)) (r : Resync) (item : Option FetchedGroup) :
    KeepsGroups r.groups (resyncItem accountId account existing r item).groups := by
  unfold resyncItem
  split
  · exact KeepsGroups.refl _
  · split
    · exact KeepsGroups.refl _
    · split
      · exact KeepsGroups.refl _
      · dsimp only
        split
        · exact keepsGroups_insert _ _
        · apply keepsGroups_rewrite
          intro i g g' h
          rw [← Option.some.inj h]
          split
          · exact ⟨rfl,rfl⟩
          · exact ⟨rfl,rfl⟩

theorem keepsGroups_applyGroupResync (accountId : ℕ) (account : MessengerAccount)
    (fetched : Option (List (Option FetchedGroup))) (allowFullWipe : Bool) :
    KeepsGroups groups (applyGroupResync groups accountId account fetched allowFullWipe now).1 := by
  have hfold : ∀ (items : List (Option FetchedGroup)) (r : Resync), KeepsGroups r.groups
      (items.foldl (resyncItem accountId account (groupsOf groups accountId)) r).groups := by
    intro items
    induction items with
    | nil => exact fun r => KeepsGroups.refl _
    | cons item items ih =>
      intro r
      exact (keepsGroups_resyncItem accountId account _ r item).trans (ih _)
  unfold applyGroupResync
  split
  · exact KeepsGroups.refl _
  · rename_i items
    dsimp only
    split
    · exact hfold items ⟨groups,[],0,0⟩
    · refine (hfold items ⟨groups,[],0,0⟩).trans (keepsGroups_rewrite ?_)
      intro i g g' h
      rw [← Option.some.inj h]
      split
      · exact ⟨rfl,rfl⟩
      · exact ⟨rfl,rfl⟩

theorem OwnedBy.mono (h : OwnedBy db u s)
    (had : ∀ ad, db.ads.row s.adId = some ad →
      ∃ ad', db'.ads.row s.adId = some ad' ∧ ad'.userId = ad.userId)
    (haccount : ∀ a account, s.accountId = some a → db.accounts.row a = some account →
      ∃ account', db'.accounts.row a = some account' ∧ account'.userId = account.userId)
    (hgroups : KeepsGroups db.groups db'.groups) : OwnedBy db' u s := by
  refine ⟨?_,?_,?_⟩
  · obtain ⟨ad,hrow,hu⟩ := h.ad
    obtain ⟨ad',hrow',hu'⟩ := had ad hrow
    exact ⟨ad',hrow',hu'.trans hu⟩
  · intro a ha
    obtain ⟨account,hrow,hu⟩ := h.account a ha
    obtain ⟨account',hrow',hu'⟩ := haccount a account ha hrow
    exact ⟨account',hrow',hu'.trans hu⟩
  · intro x hx
    obtain ⟨hlt,howner⟩ := h.groups x hx
    have hsize := hgroups.size
    refine ⟨by omega,?_⟩
    intro g' hg'
    obtain ⟨n,rfl,hrow'⟩ := Store.find_eq_some hg'
    obtain ⟨g,hrow,hu,ha⟩ := hgroups.owners n (by omega) g' hrow'
    obtain ⟨haccountId,huser⟩ := howner g hrow
    rw [hu,ha]
    exact ⟨haccountId,huser⟩

end Tables

section Histories

variable {env : Environment} {db : Database} {now : Instant}

theorem allOwned_deleteAccount (hall : AllOwned db) (userId : ℕ) (accountId : ℤ) :
    AllOwned (deleteAccount db userId accountId) := by
  unfold deleteAccount
  split
  · exact hall
  · rename_i a account _
    intro i s' hs'
    have hrow : (detachSchedulesFromAccount db.schedules a).row i = some s' := hs'
    obtain ⟨s,hs,he⟩ := Store.row_updateWhere.mp hrow
    obtain ⟨u,hu⟩ := hall i s hs
    refine ⟨u,?_⟩
    split at he
    · rename_i hdetached
      have haccountId : s.accountId = some a := by simpa using hdetached
      rw [← he]
      refine ⟨hu.ad,fun b hb => (Option.some_ne_none b hb.symm).elim,?_⟩
      intro x hx
      obtain ⟨hlt,howner⟩ := hu.groups x hx
      refine ⟨hlt,?_⟩
      intro g hg
      -- the groups of the account have gone with it
      obtain ⟨n,rfl,hgrow⟩ := Store.find_eq_some hg
      obtain ⟨hold,hkept⟩ := Store.row_deleteWhere.mp hgrow
      have hother : g.accountId ≠ a := by simpa using hkept
      have hsame := (howner g hold).1
      rw [haccountId] at hsame
      exact absurd (Option.some.inj hsame).symm hother
    · rename_i hkept
      have hother : s.accountId ≠ some a := by simpa using hkept
      rw [← he]
      refine hu.mono (fun ad had => ⟨ad,had,rfl⟩) ?_ (keepsGroups_delete _)
      intro b account' hb hbrow
      have hne : b ≠ a := by
        intro hba
        rw [hba] at hb
        exact hother hb
      exact ⟨account',Store.row_deleteWhere.mpr ⟨hbrow,by simpa using hne⟩,rfl⟩

theorem allOwned_accountGroupsDelete (hall : AllOwned db) (userId : ℕ) (accountId groupId : ℤ) :
    AllOwned (accountGroupsDelete db userId accountId groupId) := by
  unfold accountGroupsDelete
  split
  · exact hall
  · rename_i g group _
    intro i s' hs'
    have hrow : (removeGroupIds db userId [(g : ℤ)]).row i = some s' := hs'
    obtain ⟨s,hs,he⟩ := Store.row_updateWhere.mp hrow
    obtain ⟨u,hu⟩ := hall i s hs
    have hkept : OwnedBy db u s' := by
      split at he
      · rw [← he]
        exact ⟨hu.ad,hu.account,fun x hx => hu.groups x (List.mem_of_mem_filter hx)⟩
      · rw [← he]
        exact hu
    exact ⟨u,hkept.mono (fun ad had => ⟨ad,had,rfl⟩) (fun _ account _ hb => ⟨account,hb,rfl⟩)
      (keepsGroups_delete _)⟩

theorem allOwned_deleteAd (hall : AllOwned db) (userId : ℕ) (adId : ℤ) :
    AllOwned (deleteAd db userId adId) := by
  unfold deleteAd
  split
  · exact hall
  · rename_i a ad _
    intro i s hs
    obtain ⟨hrow,hother⟩ := Store.row_deleteWhere.mp hs
    have hne : s.adId ≠ a := by simpa using hother
    obtain ⟨u,hu⟩ := hall i s hrow
    refine ⟨u,hu.mono ?_ (fun _ account _ hb => ⟨account,hb,rfl⟩) (KeepsGroups.refl _)⟩
    intro ad' had'
    exact ⟨ad',Store.row_deleteWhere.mpr ⟨had',by simpa using hne⟩,rfl⟩

theorem allOwned_saveAd (hall : AllOwned db) (userId : ℕ) (adId : ℤ) (title text : String)
    (images : List String) (status : String) :
    AllOwned (saveAd db userId adId title text images status) := by
  unfold saveAd
  split
  · exact hall
  · rename_i a ad _
    intro i s hs
    obtain ⟨u,hu⟩ := hall i s hs
    refine ⟨u,hu.mono ?_ (fun _ account _ hb => ⟨account,hb,rfl⟩) (KeepsGroups.refl _)⟩
    intro ad' had'
    refine ⟨_,Store.row_update.mpr ⟨ad',had',rfl⟩,?_⟩
    split
    · rfl
    · rfl

theorem row_insert_of_some {Row : Type} {t : Store Row} {i : ℕ} {r r' : Row} (h : t.row i = some r) :
    (t.insert r').row i = some r := Store.row_insert.mpr (.inr h)

def SameTables (db db' : Database) : Prop :=
  db'.ads = db.ads ∧ db'.accounts = db.accounts ∧ db'.groups = db.groups

theorem sameTables_committed_conclude {db : Database} {i : ℕ} {loaded : Schedule} {done : Response}
    {d : Decision} : SameTables db (committed db (conclude db i loaded done d)) := by
  cases d with
  | commit s =>
    simp only [conclude]
    cases flushRow db.schedules ⟨i,loaded,s⟩ with
    | error e => exact ⟨rfl,rfl,rfl⟩
    | ok schedules => exact ⟨rfl,rfl,rfl⟩
  | refuse r => exact ⟨rfl,rfl,rfl⟩
  | raise e => exact ⟨rfl,rfl,rfl⟩

theorem sameTables_committed_insert {db : Database} {s : Schedule} {done : Response} :
    SameTables db (committed db (insertSchedule db s done)) := by
  unfold insertSchedule
  split
  · exact ⟨rfl,rfl,rfl⟩
  · exact ⟨rfl,rfl,rfl⟩

theorem AllOwned.of_sameTables {db' : Database} (htables : SameTables db db')
    (h : ∀ i s, db'.schedules.row i = some s → ∃ u, OwnedBy db u s) : AllOwned db' := by
  obtain ⟨hads,haccounts,hgroups⟩ := htables
  intro i s hs
  obtain ⟨u,hu⟩ := h i s hs
  refine ⟨u,hu.mono ?_ ?_ ?_⟩
  · rw [hads]
    exact fun ad had => ⟨ad,had,rfl⟩
  · rw [haccounts]
    exact fun _ account _ hb => ⟨account,hb,rfl⟩
  · rw [hgroups]
    exact KeepsGroups.refl _

theorem Edit.sameTables {op : Operation} {db' : Database} (h : Edit env db now op db') :
    SameTables db db' := by
  cases h with
  | unchanged => exact ⟨rfl,rfl,rfl⟩
  | registered users => exact ⟨rfl,rfl,rfl⟩
  | created _ => exact sameTables_committed_insert
  | decided _ _ => exact sameTables_committed_conclude
  | rewritten _ => exact ⟨rfl,rfl,rfl⟩

theorem allOwned_perform (hall : AllOwned db) (op : Operation) : AllOwned (perform env db now op) := by
  have hschedules : op.onSchedules = true → AllOwned (perform env db now op) := by
    intro hop
    refine AllOwned.of_sameTables (edit_of_perform hop).sameTables ?_
    intro i s' hs'
    refine owned_of_rowChange (rowChange_of_perform hs') hall ?_ ?_
    · intro userId accountId he
      rw [he] at hop
      cases hop
    · intro userId accountId groupId he
      rw [he] at hop
      cases hop
  cases op with
  | createAd userId title text images status =>
    intro i s hs
    obtain ⟨u,hu⟩ := hall i s hs
    exact ⟨u,hu.mono (fun ad had => ⟨ad,row_insert_of_some had,rfl⟩)
      (fun _ account _ hb => ⟨account,hb,rfl⟩) (KeepsGroups.refl _)⟩
  | saveAd userId adId title text images status => exact allOwned_saveAd hall userId adId _ _ _ _
  | deleteAd userId adId => exact allOwned_deleteAd hall userId adId
  | createAccount userId type =>
    intro i s hs
    obtain ⟨u,hu⟩ := hall i s hs
    exact ⟨u,hu.mono (fun ad had => ⟨ad,had,rfl⟩)
      (fun _ account _ hb => ⟨account,row_insert_of_some hb,rfl⟩) (KeepsGroups.refl _)⟩
  | accountStatus accountId status =>
    intro i s hs
    obtain ⟨u,hu⟩ := hall i s hs
    refine ⟨u,hu.mono (fun ad had => ⟨ad,had,rfl⟩) ?_ (KeepsGroups.refl _)⟩
    intro b account _ hb
    refine ⟨_,Store.row_update.mpr ⟨account,hb,rfl⟩,?_⟩
    split
    · rfl
    · rfl
  | deleteAccount userId accountId => exact allOwned_deleteAccount hall userId accountId
  | resync accountId fetched allowFullWipe =>
    intro i s hs
    unfold perform resyncAccount at hs ⊢
    simp only at hs ⊢
    split at hs
    · exact hall i s hs
    · obtain ⟨u,hu⟩ := hall i s hs
      exact ⟨u,hu.mono (fun ad had => ⟨ad,had,rfl⟩) (fun _ account _ hb => ⟨account,hb,rfl⟩)
        (keepsGroups_applyGroupResync _ _ _ _)⟩
  | deleteGroup userId accountId groupId => exact allOwned_accountGroupsDelete hall userId accountId groupId
  | _ => exact hschedules rfl

theorem allOwned_of_reaches {C : Database → Instant → Operation → Prop}
    (h : Reaches env C Database.empty db) : AllOwned db := by
  refine h.invariant ?_ ?_
  · intro db now op hall _
    exact allOwned_perform hall op
  · intro i s hs
    cases hs

/-- A task of the planner stays within one user and one account. -/
theorem owner_of_mem_batch {checkLimit : ℕ → Bool × String} {i : ℕ} {s : Schedule} {task : DispatchTask}
    {u : ℕ} (hu : OwnedBy db u s) (h : task ∈ batch env (worldOf db checkLimit) (i,s)) :
    ∃ ad account g, db.ads.row task.adId = some ad ∧ db.accounts.row task.accountId = some account ∧
      db.groups.find task.groupId = some g ∧ ad.userId = u ∧ account.userId = u ∧
      g.accountId = task.accountId ∧ g.userId = u := by
  unfold batch at h
  split at h
  · cases h
  · rename_i sender hsender
    split at h
    · obtain ⟨x,hx,hbuilt⟩ := List.mem_filterMap.mp h
      obtain ⟨g,hg,htask⟩ := Option.bind_eq_some_iff.mp hbuilt
      have hgroup : db.groups.find x = some g := hg
      obtain ⟨haccountId,hgu⟩ := (hu.groups x hx).2 g hgroup
      split at htask
      · have he := Option.some.inj htask
        unfold senderOf at hsender
        simp only at hsender
        split at hsender
        · rename_i ad a had ha
          split at hsender
          · rename_i account haccount
            split at hsender
            · cases hsender
            · have hse := Option.some.inj hsender
              obtain ⟨ad',had',hadu⟩ := hu.ad
              obtain ⟨account',hb,hbu⟩ := hu.account a ha
              rw [← he,← hse]
              have hadrow : db.ads.row s.adId = some ad := had
              have harow : db.accounts.row a = some account := haccount
              rw [hadrow] at had'
              rw [harow] at hb
              rw [ha] at haccountId
              refine ⟨ad,account,g,hadrow,harow,hgroup,?_,?_,(Option.some.inj haccountId).symm,hgu⟩
              · rw [Option.some.inj had']
                exact hadu
              · rw [Option.some.inj hb]
                exact hbu
          · cases hsender
        · cases hsender
      · cases htask
    · cases h

/-- After any operations of any users, from the empty database on: a group in `group_ids` is a
group of the account of the schedule and of the owner of its ad, and a run of the planner sends
from that account to its groups. -/
theorem groups_match_account (h : Reaches env anyOperation Database.empty db) :
    (∀ i s, db.schedules.row i = some s → ∀ x ∈ s.groupIds, ∀ g, db.groups.find x = some g →
      ∃ ad account, db.ads.row s.adId = some ad ∧ s.accountId = some g.accountId ∧
        db.accounts.row g.accountId = some account ∧ g.userId = account.userId ∧
        g.userId = ad.userId) ∧
    ∀ now checkLimit due schedules tasks, Selects db.schedules now due →
      Scheduling.checkSchedules env (worldOf db checkLimit) db.schedules now due = .ok (schedules,tasks) →
      ∀ task ∈ tasks, ∃ ad account g, db.ads.row task.adId = some ad ∧
        db.accounts.row task.accountId = some account ∧ db.groups.find task.groupId = some g ∧
        account.userId = ad.userId ∧ g.accountId = task.accountId ∧ g.userId = ad.userId := by
  have hall := allOwned_of_reaches h
  refine ⟨?_,?_⟩
  · intro i s hs x hx g hg
    obtain ⟨u,hu⟩ := hall i s hs
    obtain ⟨haccountId,hgu⟩ := (hu.groups x hx).2 g hg
    obtain ⟨ad,had,hadu⟩ := hu.ad
    obtain ⟨account,haccount,hau⟩ := hu.account g.accountId haccountId
    exact ⟨ad,account,had,haccountId,haccount,hgu.trans hau.symm,hgu.trans hadu.symm⟩
  · intro now checkLimit due schedules tasks hsel hrun task htask
    have hresult := runResult_of_checkSchedules hsel hrun
    rw [hresult.dispatched] at htask
    obtain ⟨⟨i,s⟩,hmem,hbatch⟩ := List.mem_flatMap.mp htask
    obtain ⟨u,hu⟩ := hall i s (hsel.mem_iff.mp hmem).1
    obtain ⟨ad,account,g,had,haccount,hg,hadu,hau,haccountId,hgu⟩ := owner_of_mem_batch hu hbatch
    exact ⟨ad,account,g,had,haccount,hg,hau.trans hadu.symm,haccountId,hgu.trans hadu.symm⟩

end Histories

/-! A user with an ad and an account, whose groups the resync has found. -/

def firstSteps : List Operation :=
  [.registerUser "UTC",.registerUser "UTC",.createAd 1 "a" "t" [] "published",
   .createAd 1 "b" "t" [] "published",.createAccount 1 "wa",.createAccount 1 "wa",
   .resync 1 (some [some ⟨some "x",none⟩,some ⟨some "y",some "why"⟩]) false,
   .createSchedule 1 ⟨1,1,[1],[0],["09:00"],"UTC"⟩]

def history (env : Environment) (ops : List Operation) : Database :=
  ops.foldl (fun db op => perform env db 0 op) Database.empty

theorem reaches_history (env : Environment) (ops : List Operation) :
    Reaches env anyOperation Database.empty (history env ops) := by
  have hfold : ∀ (ops : List Operation) (db : Database),
      Reaches env anyOperation db (ops.foldl (fun db op => perform env db 0 op) db) := by
    intro ops
    induction ops with
    | nil => exact fun db => Relation.ReflTransGen.refl
    | cons op ops ih => exact fun db => Relation.ReflTransGen.head ⟨0,op,trivial,rfl⟩ (ih _)
  exact hfold ops Database.empty

theorem groups_match_account_firstSteps :
    ((history utc firstSteps).schedules.row 0).map Schedule.groupIds = some [1] ∧
    ∀ s, (history utc firstSteps).schedules.row 0 = some s → ∀ g,
      (history utc firstSteps).groups.find 1 = some g → s.accountId = some g.accountId := by
  have hrow : ((history utc firstSteps).schedules.row 0).map Schedule.groupIds = some [1] := by decide
  refine ⟨hrow,?_⟩
  intro s hs g hg
  have hids : s.groupIds = [1] := by
    rw [hs] at hrow
    exact Option.some.inj hrow
  have hmem : (1 : ℤ) ∈ s.groupIds := by
    rw [hids]
    exact List.mem_singleton_self 1
  obtain ⟨_,_,_,haccount,_⟩ := (groups_match_account (reaches_history utc firstSteps)).1 0 s
    hs 1 hmem g hg
  exact haccount

end ScheduleSystem
end Broadcaster
