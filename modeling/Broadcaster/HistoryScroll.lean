import Broadcaster.OffsetPages
import Broadcaster.SendAnalytics

/-!
# Scrolling through the history

The first page comes from `history_list`, every further portion from
`history_partial` with the offset that the page before it has named. Each is a
query of its own, ordered by the time of sending and by nothing else; the
records of one batch carry the time of one transaction.
-/

namespace Broadcaster
namespace HistoryScroll

open ScheduleService SendAnalytics OffsetPages

def pageSize : ℕ := 30

structure Page where
  logs : List Row
  hasNext : Bool
  nextOffset : ℕ

/-- The query has asked for one row more than the page takes. -/
def historyList (size offset : ℕ) (rows : List Row) : Page :=
  let logs := rows.take size
  ⟨logs,decide (size < rows.length),offset+logs.length⟩

def historyPartial (offset limit : ℕ) (rows : List Row) : Page :=
  ⟨rows.take limit,decide (limit < rows.length),offset+limit⟩

/-- `limit: int = Query(PAGE_SIZE, ge=1, le=100)` -/
def limitAccepted (limit : ℕ) : Bool := 1 ≤ limit && limit ≤ 100

/-- One reader of an unchanging journal; request `k` is made at the time `now k`. -/
structure Visit where
  journal : Journal
  userId : ℕ
  filters : Filters
  tz : Zone
  now : ℕ → Instant

namespace Visit

def matching (v : Visit) (k : ℕ) : List Row :=
  applyHistoryFilters v.filters v.tz (v.now k) (v.journal.recordsOf v.userId)

/-- `ORDER BY sent_at DESC OFFSET offset LIMIT limit + 1` -/
def Returns (v : Visit) (k offset limit : ℕ) (rows : List Row) : Prop :=
  Answer Row.sentAt (v.matching k) offset (limit+1) rows

end Visit

/-- The portions from request `k` on; `last` is the number of the last request. -/
inductive Portions (v : Visit) (limit : ℕ) : ℕ → ℕ → ℕ → List Row → Prop
  | last {k offset : ℕ} {rows : List Row} (hrows : v.Returns k offset limit rows)
      (hend : (historyPartial offset limit rows).hasNext = false) :
      Portions v limit k offset k (historyPartial offset limit rows).logs
  | more {k offset last : ℕ} {rows shown : List Row} (hrows : v.Returns k offset limit rows)
      (hnext : (historyPartial offset limit rows).hasNext = true)
      (hrest : Portions v limit (k+1) (historyPartial offset limit rows).nextOffset last shown) :
      Portions v limit k offset last ((historyPartial offset limit rows).logs ++ shown)

inductive Scroll (v : Visit) (size : ℕ) : ℕ → List Row → Prop
  | last {rows : List Row} (hrows : v.Returns 0 0 size rows)
      (hend : (historyList size 0 rows).hasNext = false) : Scroll v size 0 (historyList size 0 rows).logs
  | more {last : ℕ} {rows shown : List Row} (hrows : v.Returns 0 0 size rows)
      (hnext : (historyList size 0 rows).hasNext = true)
      (hrest : Portions v size 1 (historyList size 0 rows).nextOffset last shown) :
      Scroll v size last ((historyList size 0 rows).logs ++ shown)

section Scrolling

variable {v : Visit} {size k offset last : ℕ} {shown : List Row}

theorem scroll_of_portions (h : Portions v size k offset last shown) (hoffset : offset = k*size) :
    OffsetPages.Scroll Row.sentAt v.matching size k last shown := by
  induction h with
  | last hrows hend =>
    subst hoffset
    exact .last hrows (Nat.le_of_not_lt (of_decide_eq_false hend))
  | more hrows hnext _ ih =>
    subst hoffset
    exact .more hrows (of_decide_eq_true hnext) (ih (Nat.succ_mul _ _).symm)

theorem portions_of_scroll (h : OffsetPages.Scroll Row.sentAt v.matching size k last shown) :
    Portions v size k (k*size) last shown := by
  induction h with
  | last hrows hend => exact .last hrows (decide_eq_false (Nat.not_lt_of_le hend))
  | @more k last rows shown hrows hnext _ ih =>
    refine .more hrows (decide_eq_true hnext) ?_
    rw [Nat.succ_mul] at ih
    exact ih

theorem scroll_iff : Scroll v size last shown ↔
    OffsetPages.Scroll Row.sentAt v.matching size 0 last shown := by
  constructor
  · intro h
    cases h with
    | last hrows hend =>
      refine .last ?_ (Nat.le_of_not_lt (of_decide_eq_false hend))
      rwa [Nat.zero_mul]
    | @more _ rows shown hrows hnext hrest =>
      have hlt : size < rows.length := of_decide_eq_true hnext
      refine .more ?_ hlt (scroll_of_portions hrest ?_)
      · rwa [Nat.zero_mul]
      · simp only [historyList,List.length_take]
        omega
  · intro h
    generalize hk : 0 = k at h
    cases h with
    | last hrows hend =>
      subst hk
      rw [Nat.zero_mul] at hrows
      exact .last hrows (decide_eq_false (Nat.not_lt_of_le hend))
    | @more _ _ rows shown hrows hnext hrest =>
      subst hk
      rw [Nat.zero_mul] at hrows
      refine .more hrows (decide_eq_true hnext) ?_
      have hoffset : (historyList size 0 rows).nextOffset = (0+1)*size := by
        simp only [historyList,List.length_take]
        omega
      rw [hoffset]
      exact portions_of_scroll hrest

/-- The records that all requests choose from; only the bound of the period moves. -/
def Visit.base (v : Visit) : List Row := (v.journal.recordsOf v.userId).filter v.filters.keeps

theorem nodup_base (v : Visit) : v.base.Nodup := by
  refine List.Nodup.filter _ ?_
  refine List.Nodup.of_map (fun r : Row => r.1.1) ?_
  have hids : (v.journal.recordsOf v.userId).map (fun r : Row => r.1.1) =
      (v.journal.logs.select fun log => log.userId = v.userId).map Prod.fst := by
    unfold Journal.recordsOf
    rw [List.map_map]
    rfl
  rw [hids]
  exact Store.select_ids_nodup _ _

theorem upper_atOrAfter (cutoff : Option Instant) : Upper Row.sentAt (atOrAfter cutoff) := by
  intro a b hle ha
  cases cutoff with
  | none => rfl
  | some c => exact decide_eq_true (Int.le_trans (of_decide_eq_true ha) hle)

end Scrolling

/-- Scrolling shows each record that all its requests select exactly once, whatever order the database
chooses among records of one moment, if and only if no such records lie on both sides of a page's end. -/
theorem scroll_shows_each_once_iff (v : Visit) {size : ℕ} (hsize : limitAccepted size = true) :
    (∀ last shown, Scroll v size last shown →
      shown.Nodup ∧ ∀ r, (∀ k, k ≤ last → r ∈ v.matching k) → r ∈ shown) ↔
    ∀ k, 0 < k → (∀ j, j < k → (j+1)*size < (v.matching j).length) →
      ¬∃ t, ((v.matching k).countP fun r => t < Row.sentAt r) < k*size ∧
        k*size < (v.matching k).countP fun r => t ≤ Row.sentAt r := by
  have hpos : 0 < size := by
    simp only [limitAccepted,Bool.and_eq_true,decide_eq_true_eq] at hsize
    omega
  have hiff := scroll_once_iff hpos (nodup_base v)
    (p := fun k => atOrAfter (periodCutoff v.filters.period v.tz (v.now k))) fun k => upper_atOrAfter _
  simp only [scroll_iff]
  exact hiff

def visitOf (logs : Store SendLog) : Visit := ⟨⟨logs,Store.empty Group⟩,1,⟨none,none,none,none⟩,Zone.fixed 0,fun _ => 200⟩

def batch : Visit :=
  visitOf ((List.range 31).foldl (fun logs _ => logs.insert ⟨1,none,"ok",some "wa",100⟩) (Store.empty SendLog))

/-- The end of the first page lies within the batch: a record may be shown before it and after it. -/
theorem scroll_shows_each_once_batch : ¬∀ (v : Visit) (size : ℕ), limitAccepted size = true →
    ∀ last shown, Scroll v size last shown →
      shown.Nodup ∧ ∀ r, (∀ k, k ≤ last → r ∈ v.matching k) → r ∈ shown := by
  intro hall
  have htie : Straddles Row.sentAt (batch.matching 1) (1*pageSize) :=
    ⟨100,by decide +kernel,by decide +kernel⟩
  have hasked : Asked batch.matching pageSize 1 := by
    intro j hj
    obtain rfl : j = 0 := by omega
    decide +kernel
  obtain ⟨last,shown,hscroll,htwice⟩ := exists_twice batch.base
    (fun k => atOrAfter (periodCutoff none batch.tz (batch.now k))) (by decide)
    (fun k => upper_atOrAfter _) hasked htie
  exact htwice (hall batch pageSize (by decide) last shown (scroll_iff.mpr hscroll)).1

def apart : Visit :=
  visitOf ([100,110,120].foldl (fun logs t => logs.insert ⟨1,none,"ok",some "wa",t⟩) (Store.empty SendLog))

/-- Two records to a page, and nothing of one moment: all three are shown, each once. -/
theorem scroll_shows_each_once_apart : (apart.matching 0).length = 3 ∧
    ∀ last shown, Scroll apart 2 last shown →
      shown.Nodup ∧ ∀ r, (∀ k, k ≤ last → r ∈ apart.matching k) → r ∈ shown := by
  refine ⟨by decide,(scroll_shows_each_once_iff apart (by decide)).mpr ?_⟩
  intro k hk hasked htie
  have hone : k = 1 := by
    by_contra hne
    exact absurd (hasked 1 (by omega)) (by decide)
  subst hone
  have hordered : Ordered Row.sentAt (apart.matching 1) (apart.matching 1).reverse :=
    ⟨List.reverse_perm _,by decide⟩
  obtain ⟨front,x,y,back,hsplit,hlen,hxy⟩ := hordered.straddles_iff.mp htie
  obtain ⟨a,rfl⟩ := List.length_eq_one_iff.mp (show front.length = 1 by omega)
  have hrows : (apart.matching 1).reverse = [((2,⟨1,none,"ok",some "wa",120⟩),none),
      ((1,⟨1,none,"ok",some "wa",110⟩),none),((0,⟨1,none,"ok",some "wa",100⟩),none)] := by
    decide
  rw [hrows] at hsplit
  cases hsplit
  exact absurd hxy (by decide)

end HistoryScroll
end Broadcaster
