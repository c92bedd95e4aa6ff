import Broadcaster.Csv
import Broadcaster.OffsetPages
import Broadcaster.SendAnalytics

/-!
# The file of the history

`history_export` counts the records first and then streams them, one chunk for
each record. What the code of the answer says has been sent before the stream
can fail, so that a file that breaks off says so in its last record.
-/

namespace Broadcaster
namespace HistoryExport

open ScheduleService SendAnalytics

def exportHeader : List String :=
  ["Время","Канал","Аккаунт","Группа","Заголовок объявления","Статус","Ошибка","Идентификатор задачи"]

def exportDelimiter : Char := ';'

def exportBom : Char := Char.ofNat 0xfeff

def exportRowCap : ℕ := 50000

def exportTruncatedMarker : String := "ВЫГРУЗКА ОБОРВАНА — ФАЙЛ НЕПОЛНЫЙ"

def dangerousPrefixes : List Char := ['=','+',Char.ofNat 0x2d,'@','\t','\r']

def executes (cell : List Char) : Bool := cell.head?.any dangerousPrefixes.contains

/-- `export_cell`; an integer comes as its digits. -/
def exportCell : Option String → List Char
  | none => []
  | some text => if executes text.toList then '\''::text.toList else text.toList

def messengerLabel (messengerType : String) : String :=
  (([("tg_user","Telegram"),("wa","WhatsApp"),("max","MAX")] : List (String × String)).lookup messengerType).getD
    messengerType

def statusLabel (status : String) : String :=
  (([("ok","Успешно"),("fail","Ошибка"),("account_disconnected","Аккаунт отключён")] :
    List (String × String)).lookup status).getD status

structure Snapshot where
  groupName : Option String
  adTitle : Option String
  errorMessage : Option String
  taskId : Option String

/-- What the request meets: the journal with the texts of its records, the filters, and the times at
which the records are counted and selected. `format` is the clock of the user. -/
structure Request where
  journal : Journal
  snapshot : ℕ → Snapshot
  userId : ℕ
  filters : Filters
  tz : Zone
  format : Instant → String
  countedAt : Instant
  selectedAt : Instant

namespace Request

variable (r : Request)

def exportRow (row : Row) : List (List Char) :=
  let texts := r.snapshot row.1.1
  [exportCell (some (r.format (Row.sentAt row))),
   exportCell ((Row.log row).messengerType.map messengerLabel),
   exportCell (row.2.map fun group => toString group.accountId),
   exportCell texts.groupName,
   exportCell texts.adTitle,
   exportCell (some (statusLabel (Row.log row).status)),
   exportCell texts.errorMessage,
   exportCell texts.taskId]

def matching : List Row := applyHistoryFilters r.filters r.tz r.selectedAt (r.journal.recordsOf r.userId)

end Request

/-- What the database delivers: records in the order of the query, until it fails or is through. -/
structure Delivery where
  rows : List Row
  failed : Bool

/-- `ORDER BY sent_at DESC` -/
structure Request.Delivers (r : Request) (d : Delivery) : Prop where
  ordered : ∃ l, OffsetPages.Ordered Row.sentAt r.matching l ∧ d.rows <+: l ∧ (d.failed = false → d.rows = l)

def writeRow (fields : List (List Char)) : List Char := Csv.writeRow exportDelimiter fields

def body (r : Request) (d : Delivery) : List (List Char) :=
  (exportBom::writeRow (exportHeader.map String.toList))::d.rows.map (fun row => writeRow (r.exportRow row))
    ++if d.failed then [writeRow [exportTruncatedMarker.toList]] else []

inductive Answer
  | tooMany
  | file (chunks : List (List Char))

def historyExport (r : Request) (d : Delivery) : Answer :=
  if exportRowCap < historyCount r.journal r.userId r.filters r.tz r.countedAt then .tooMany
  else .file (body r d)

theorem exportCell_safe (value : Option String) : executes (exportCell value) = false := by
  cases value with
  | none => rfl
  | some text =>
    by_cases h : executes text.toList = true
    · -- the quote in front keeps the text from being a formula
      have hquote : executes ('\''::text.toList) = false := rfl
      simp [exportCell,h,hquote]
    · simp [exportCell,h]

theorem exportRow_safe (r : Request) (row : Row) :
    (r.exportRow row).length = 8 ∧ ∀ cell ∈ r.exportRow row, executes cell = false := by
  refine ⟨rfl,?_⟩
  simp [Request.exportRow,exportCell_safe]

theorem proper_delimiter : Csv.Proper exportDelimiter := ⟨by decide,by decide⟩

def records (r : Request) (d : Delivery) : List (List (List Char)) :=
  exportHeader.map String.toList::d.rows.map r.exportRow
    ++if d.failed then [[exportTruncatedMarker.toList]] else []

theorem flatten_body (r : Request) (d : Delivery) :
    (body r d).flatten = exportBom::(records r d).flatMap writeRow := by
  unfold body records
  cases d.failed <;> simp [List.flatMap,Function.comp_def]

theorem records_ne_nil (r : Request) (d : Delivery) : ∀ row ∈ records r d, row ≠ [] := by
  intro row hrow
  rcases List.mem_append.mp hrow with hrow | hrow
  · rcases List.mem_cons.mp hrow with rfl | hrow
    · exact List.cons_ne_nil _ _
    · obtain ⟨_,_,rfl⟩ := List.mem_map.mp hrow
      exact List.cons_ne_nil _ _
  · cases hfailed : d.failed with
    | false => simp [hfailed] at hrow
    | true =>
      rw [hfailed,if_pos rfl,List.mem_singleton] at hrow
      exact hrow ▸ List.cons_ne_nil _ _

/-- The mark of a broken file has one field, every other record has eight. -/
theorem marker_mem_iff (r : Request) (d : Delivery) :
    [exportTruncatedMarker.toList] ∈ records r d ↔ d.failed = true := by
  unfold records
  rw [List.mem_append]
  constructor
  · rintro (h | h)
    · have hlength : ∀ row ∈ exportHeader.map String.toList::d.rows.map r.exportRow, row.length = 8 := by
        refine List.forall_mem_cons.mpr ⟨rfl,fun row hrow => ?_⟩
        obtain ⟨row,_,rfl⟩ := List.mem_map.mp hrow
        rfl
      exact absurd (hlength _ h) (by simp)
    · cases hfailed : d.failed with
      | false => simp [hfailed] at h
      | true => rfl
  · intro hfailed
    rw [hfailed,if_pos rfl]
    exact .inr (.head _)

/-- An exported file, read as the table it is written as, is its header and one record for each
delivered entry, in the order of the query, whatever characters the texts hold. No cell begins a
formula. The last record is the mark of a broken file exactly when the stream has failed; otherwise
the file has all the entries that the filters select. -/
theorem export_reads_back {r : Request} {d : Delivery} {chunks : List (List Char)}
    (hdelivers : r.Delivers d) (hfile : historyExport r d = .file chunks) :
    (∃ text, chunks.flatten = exportBom::text ∧ Csv.read exportDelimiter text = some (records r d)) ∧
    (∀ row ∈ d.rows, ∀ cell ∈ r.exportRow row, executes cell = false) ∧
    ([exportTruncatedMarker.toList] ∈ records r d ↔ d.failed = true) ∧
    (d.failed = false → d.rows.Perm r.matching ∧
      d.rows.Pairwise fun newer older => Row.sentAt older ≤ Row.sentAt newer) := by
  obtain ⟨l,hordered,_,hall⟩ := hdelivers.ordered
  unfold historyExport at hfile
  split at hfile
  · cases hfile
  cases hfile
  refine ⟨⟨_,flatten_body r d,Csv.read_write proper_delimiter (records_ne_nil r d)⟩,
    fun row _ => (exportRow_safe r row).2,marker_mem_iff r d,fun hfailed => ?_⟩
  rw [hall hfailed]
  exact ⟨hordered.perm,hordered.sorted⟩

/-- A failed send of a group that is gone; the reason would be a formula of two cells and two lines. -/
def oneFailure : Request where
  journal := ⟨(Store.empty SendLog).insert ⟨1,some 9,"fail",some "wa",5⟩,.empty Group⟩
  snapshot := fun _ => ⟨some "Market",some "Sale",some "=1+1;\"\n",none⟩
  userId := 1
  filters := ⟨none,none,none,none⟩
  tz := Zone.fixed 0
  format := fun _ => "2026-09-01 10:00"
  countedAt := 6
  selectedAt := 7

theorem export_reads_back_failure : ∃ row chunks, oneFailure.matching = [row] ∧
    historyExport oneFailure ⟨[row],false⟩ = .file chunks ∧
    (∃ text, chunks.flatten = exportBom::text ∧
      Csv.read exportDelimiter text = some (records oneFailure ⟨[row],false⟩)) ∧
    ∀ record ∈ [row], ∀ cell ∈ oneFailure.exportRow record, executes cell = false := by
  have hmatching : oneFailure.matching = [((0,⟨1,some 9,"fail",some "wa",5⟩),none)] := rfl
  have hfile : historyExport oneFailure ⟨[((0,⟨1,some 9,"fail",some "wa",5⟩),none)],false⟩
      = .file (body oneFailure ⟨[((0,⟨1,some 9,"fail",some "wa",5⟩),none)],false⟩) := rfl
  have hdelivers : oneFailure.Delivers ⟨[((0,⟨1,some 9,"fail",some "wa",5⟩),none)],false⟩ :=
    ⟨_,⟨.of_eq hmatching.symm,List.pairwise_singleton _ _⟩,List.prefix_refl _,fun _ => rfl⟩
  obtain ⟨htext,hsafe,_⟩ := export_reads_back hdelivers hfile
  exact ⟨_,_,hmatching,hfile,htext,hsafe⟩

end HistoryExport
end Broadcaster
