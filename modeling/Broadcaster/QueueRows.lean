import Broadcaster.DropTask
import Mathlib.Algebra.Order.Field.Rat
import Mathlib.Tactic.Linarith

/-!
# The rows of the queue screen

A body that has been read becomes a row: waiting, to be repeated, or delayed
until a moment. Moments are seconds since 1970, taken as exact numbers. The
WhatsApp worker writes its delay in milliseconds, the MAX worker in seconds.
-/

namespace Broadcaster
namespace QueueRows

open OpsState Python

inductive Channel
  | wa | max
  deriving DecidableEq

inductive State
  | waiting | delayed | retrying
  deriving DecidableEq

inductive Number
  | finite (q : ℚ)
  | infinity (negative : Bool)
  | nan

/-- The integers from here on round to no finite double. -/
def floatBound : ℤ := 2^1024-2^970

section

variable (floatOfStr : String → Option Number)

/-- `float(value)`; `floatOfStr` is what it makes of a string. -/
def toFloat : Value → Except PyError Number
  | .bool b => .ok (.finite (if b then 1 else 0))
  | .int n => if -floatBound < n ∧ n < floatBound then .ok (.finite n) else .error .overflowError
  | .float q => .ok (.finite q)
  | .infinity negative => .ok (.infinity negative)
  | .nan => .ok .nan
  | .str s => (floatOfStr s).elim (.error .valueError) .ok
  | _ => .error .typeError

def toInt : Value → Except PyError ℤ
  | .bool b => .ok (if b then 1 else 0)
  | .int n => .ok n
  | .float q => .ok (q.num.tdiv q.den)
  | .infinity _ => .error .overflowError
  | .nan => .error .valueError
  | .str s => (Python.int s.toList).elim (.error .valueError) .ok
  | _ => .error .typeError

/-- The first of January of year 1 and of year 10000 -/
def minMoment : ℚ := -62135596800
def maxMoment : ℚ := 253402300800

/-- `datetime.fromtimestamp(seconds, tz=timezone.utc)` -/
def fromTimestamp : Number → Except PyError ℚ
  | .finite q => if minMoment ≤ q ∧ q < maxMoment then .ok q else .error .valueError
  | .infinity _ => .error .overflowError
  | .nan => .error .valueError

def Number.thousandth : Number → Number
  | .finite q => .finite (q/1000)
  | x => x

def parseDelayUntil (raw : Option Value) (channel : Channel) : Except PyError (Option ℚ) :=
  match raw with
  | none | some .null => .ok none
  | some raw =>
    match toFloat floatOfStr raw with
    | .error .typeError | .error .valueError => .ok none
    | .error e => .error e
    | .ok value =>
      let seconds := if channel = .wa then value.thousandth else value
      match fromTimestamp seconds with
      | .ok moment => .ok (some moment)
      | .error .overflowError | .error .osError | .error .valueError => .ok none
      | .error e => .error e

/-- `_retry_count`, 0 where it is missing or no number -/
def retriesOf (raw : Option Value) : Except PyError ℤ :=
  match toInt (raw.getD (.int 0)) with
  | .ok n => .ok n
  | .error .typeError | .error .valueError => .ok 0
  | .error e => .error e

structure QueueRow where
  taskId : Option Value
  state : State
  delayUntil : Option ℚ
  retries : ℤ
  adTitle : Option Value
  groupName : Option Value

def queueRowState (channel : Channel) (now : ℚ) (task : Body) : Except PyError QueueRow := do
  let retries ← retriesOf (task.get "_retry_count")
  let delay ← parseDelayUntil floatOfStr (task.get "_delay_until") channel
  let until_ := delay.filter fun moment => now < moment
  let state := if until_.isSome then .delayed else if retries ≠ 0 then .retrying else .waiting
  return ⟨task.get "task_id",state,until_,retries,task.get "ad_title",task.get "group_name"⟩

structure Rows where
  rows : List QueueRow
  capped : Bool

def queueRows (tasks : List Body) (channel : Channel) (now : ℚ) : Except PyError Rows := do
  let rows ← (tasks.take queueRowCap).mapM (queueRowState floatOfStr channel now)
  return ⟨rows,queueRowCap < tasks.length⟩

end

/-- The clock of the worker ticks so many times a second. -/
def Channel.unit : Channel → ℚ
  | .wa => 1000
  | .max => 1

/-- The popped body goes back to the end of the queue: `delay_until and now < delay_until`. -/
def putsBack (channel : Channel) (now : ℚ) (delayUntil : Option ℚ) : Bool :=
  delayUntil.any fun d => d ≠ 0 && now*channel.unit < d

/-- Bodies as the dispatcher and the workers write them: without a delay, or with a number on the clock of the
channel; JavaScript writes an infinite number as `null`. -/
inductive Written (body : Body) : Option ℚ → Prop
  | fresh (h : body.get "_delay_until" = none) : Written body none
  | null (h : body.get "_delay_until" = some .null) : Written body none
  | int {n : ℤ} (h : body.get "_delay_until" = some (.int n)) (hpos : 0 < n) : Written body (some n)
  | float {q : ℚ} (h : body.get "_delay_until" = some (.float q)) (hpos : 0 < q) : Written body (some q)

section Row

variable {floatOfStr : String → Option Number} {channel : Channel} {now : ℚ} {body : Body} {row : QueueRow}

/-- The numbers that are converted are none that the conversion refuses with an uncaught error. -/
structure Convertible (body : Body) : Prop where
  retries : ∀ negative, body.get "_retry_count" ≠ some (.infinity negative)
  delay : ∀ n, body.get "_delay_until" = some (.int n) → -floatBound < n ∧ n < floatBound

theorem retriesOf_isOk (raw : Option Value) :
    (∃ n, retriesOf raw = .ok n) ↔ ∀ negative, raw ≠ some (.infinity negative) := by
  cases raw with
  | none => simp [retriesOf,toInt]
  | some v =>
    cases v with
    | infinity negative =>
      simp [retriesOf,toInt]
    | str s =>
      cases hs : Python.int s.toList <;> simp [retriesOf,toInt,hs]
    | _ => simp [retriesOf,toInt]

theorem seconds_finite (q : ℚ) :
    (if channel = .wa then (Number.finite q).thousandth else .finite q) = .finite (q/channel.unit) := by
  cases channel with
  | wa => rfl
  | max => simp [Channel.unit]

theorem parseDelayUntil_of_number {v : Value} {x : Number} (hv : v ≠ .null) (hx : toFloat floatOfStr v = .ok x) :
    parseDelayUntil floatOfStr (some v) channel =
      .ok (fromTimestamp (if channel = .wa then x.thousandth else x)).toOption := by
  have hraw : parseDelayUntil floatOfStr (some v) channel =
      match fromTimestamp (if channel = .wa then x.thousandth else x) with
      | .ok moment => .ok (some moment)
      | .error .overflowError | .error .osError | .error .valueError => .ok none
      | .error e => .error e := by
    cases v <;> simp_all [parseDelayUntil]
  rw [hraw]
  generalize (if channel = .wa then x.thousandth else x) = seconds
  cases seconds with
  | finite q =>
    by_cases hq : minMoment ≤ q ∧ q < maxMoment
    · simp [fromTimestamp,hq,Except.toOption]
    · simp [fromTimestamp,hq,Except.toOption]
  | infinity negative => rfl
  | nan => rfl

theorem parseDelayUntil_of_toFloat (channel : Channel) {v : Value} {x : Number} (hv : v ≠ .null)
    (hx : toFloat floatOfStr v = .ok x) : ∃ delay, parseDelayUntil floatOfStr (some v) channel = .ok delay :=
  ⟨_,parseDelayUntil_of_number hv hx⟩

theorem parseDelayUntil_finite {v : Value} {q : ℚ} (hv : v ≠ .null) (hq : toFloat floatOfStr v = .ok (.finite q)) :
    parseDelayUntil floatOfStr (some v) channel =
      .ok (if minMoment ≤ q/channel.unit ∧ q/channel.unit < maxMoment then some (q/channel.unit) else none) := by
  rw [parseDelayUntil_of_number hv hq,seconds_finite]
  by_cases h : minMoment ≤ q/channel.unit ∧ q/channel.unit < maxMoment
  · simp [fromTimestamp,h,Except.toOption]
  · simp [fromTimestamp,h,Except.toOption]

theorem parseDelayUntil_isOk (raw : Option Value) : (∃ delay, parseDelayUntil floatOfStr raw channel = .ok delay) ↔
    ∀ n, raw = some (.int n) → -floatBound < n ∧ n < floatBound := by
  cases raw with
  | none => simp [parseDelayUntil]
  | some v =>
    cases v with
    | null => simp [parseDelayUntil]
    | bool b => simpa using parseDelayUntil_of_toFloat channel (v := .bool b) (by simp) rfl
    | int n =>
      by_cases hn : -floatBound < n ∧ n < floatBound
      · have hx : toFloat floatOfStr (.int n) = .ok (.finite n) := by
          simp [toFloat,hn]
        simpa [hn] using parseDelayUntil_of_toFloat channel (by simp) hx
      · simp [parseDelayUntil,toFloat,hn]
    | float q => simpa using parseDelayUntil_of_toFloat channel (v := .float q) (by simp) rfl
    | infinity negative => simpa using parseDelayUntil_of_toFloat channel (v := .infinity negative) (by simp) rfl
    | nan => simpa using parseDelayUntil_of_toFloat channel (v := .nan) (by simp) rfl
    | str s =>
      cases hs : floatOfStr s with
      | none => simp [parseDelayUntil,toFloat,hs]
      | some x =>
        have hx : toFloat floatOfStr (.str s) = .ok x := by
          simp [toFloat,hs]
        simpa using parseDelayUntil_of_toFloat channel (by simp) hx
    | arr xs => simp [parseDelayUntil,toFloat]
    | obj fields => simp [parseDelayUntil,toFloat]

theorem queueRowState_isOk :
    (∃ row, queueRowState floatOfStr channel now body = .ok row) ↔ Convertible body := by
  have hconvertible : Convertible body ↔ (∃ n, retriesOf (body.get "_retry_count") = .ok n) ∧
      ∃ delay, parseDelayUntil floatOfStr (body.get "_delay_until") channel = .ok delay := by
    rw [retriesOf_isOk,parseDelayUntil_isOk]
    exact ⟨fun h => ⟨h.retries,h.delay⟩,fun h => ⟨h.1,h.2⟩⟩
  rw [hconvertible]
  unfold queueRowState
  cases retriesOf (body.get "_retry_count") with
  | error e => simp [bind,Except.bind]
  | ok n =>
    cases parseDelayUntil floatOfStr (body.get "_delay_until") channel with
    | error e => simp [bind,Except.bind]
    | ok delay => simp [bind,Except.bind,pure,Except.pure]

theorem queueRowState_delayed {delay : Option ℚ} (h : queueRowState floatOfStr channel now body = .ok row)
    (hdelay : parseDelayUntil floatOfStr (body.get "_delay_until") channel = .ok delay) :
    row.state = .delayed ↔ ∃ moment, delay = some moment ∧ now < moment := by
  unfold queueRowState at h
  cases hn : retriesOf (body.get "_retry_count") with
  | error e => simp [hn,bind,Except.bind] at h
  | ok n =>
    simp only [hn,hdelay,bind,Except.bind,pure,Except.pure,Except.ok.injEq] at h
    rw [← h]
    cases delay with
    | none => simp; split_ifs <;> simp
    | some moment =>
      by_cases hnow : now < moment
      · simp [hnow]
      · simp [hnow]; split_ifs <;> simp

theorem Channel.unit_pos (channel : Channel) : 0 < channel.unit := by
  cases channel <;> norm_num [Channel.unit]

/-- The screen reads the delay of the worker on the worker's clock. -/
theorem parseDelayUntil_written {q : ℚ} (hbody : Convertible body) (h : Written body (some q)) : 0 < q ∧
    parseDelayUntil floatOfStr (body.get "_delay_until") channel =
      .ok (if q/channel.unit < maxMoment then some (q/channel.unit) else none) := by
  have hrange : 0 < q → minMoment ≤ q/channel.unit := by
    intro hpos
    have : 0 < q/channel.unit := div_pos hpos channel.unit_pos
    unfold minMoment
    linarith
  cases h with
  | @int n h hpos =>
    have hq : (0 : ℚ) < n := by
      exact_mod_cast hpos
    have hx : toFloat floatOfStr (.int n) = .ok (.finite n) := by
      simp [toFloat,hbody.delay n h]
    refine ⟨hq,?_⟩
    rw [h,parseDelayUntil_finite (by simp) hx]
    simp [hrange hq]
  | float h hpos =>
    refine ⟨hpos,?_⟩
    rw [h,parseDelayUntil_finite (by simp) rfl]
    simp [hrange hpos]

theorem delayed_iff_putsBack {d : Option ℚ} (h : queueRowState floatOfStr channel now body = .ok row)
    (hd : Written body d) (hnow : now < maxMoment) : (row.state = .delayed ↔ putsBack channel now d = true) ↔
      ∀ q, d = some q → q/channel.unit < maxMoment := by
  cases d with
  | none =>
    have hdelay : parseDelayUntil floatOfStr (body.get "_delay_until") channel = .ok none := by
      cases hd with
      | fresh hget => rw [hget]; rfl
      | null hget => rw [hget]; rfl
    simp [queueRowState_delayed h hdelay,putsBack]
  | some q =>
    obtain ⟨hpos,hdelay⟩ := parseDelayUntil_written (queueRowState_isOk.mp ⟨row,h⟩) hd
    have hback : putsBack channel now (some q) = true ↔ now < q/channel.unit := by
      simp [putsBack,hpos.ne',lt_div_iff₀ channel.unit_pos]
    rw [queueRowState_delayed h hdelay,hback]
    by_cases hq : q/channel.unit < maxMoment
    · simp [hq]
    · -- not shown as delayed, but the worker waits for it
      have : now < q/channel.unit := hnow.trans_le (not_lt.mp hq)
      simp [hq,this]

end Row

section Screen

variable {Raw : Type} (loads : Loads Raw) (floatOfStr : String → Option Number) (queue : List Raw)
  (channel : Channel) (now : ℚ)

def Honest : Prop :=
  ∃ page rows, queuePage loads queue queueReadLimit = .ok page ∧ queueRows floatOfStr page.tasks channel now = .ok rows ∧
    List.Forall₂ (fun body row => queueRowState floatOfStr channel now body = .ok row ∧
        ∀ d, Written body d → (row.state = .delayed ↔ putsBack channel now d = true))
      ((queue.filterMap (bodyOf loads)).take queueRowCap) rows.rows ∧
    page.unreadable = (queue.take queueReadLimit).countP (fun raw => (bodyOf loads raw).isNone) ∧
    (rows.rows.length+page.unreadable < queue.length → rows.capped = true)

def shown : List Body := ((queue.take queueReadLimit).filterMap (bodyOf loads)).take queueRowCap

/-- Nothing among what is read is nested too deeply, no number is too large, no delay lies beyond the calendar, and
a queue with more elements than are read starts with readable ones. -/
structure Clean : Prop where
  decodes : ∀ raw ∈ queue.take queueReadLimit, Decodes loads raw
  convertible : ∀ body ∈ shown loads queue, Convertible body
  calendar : ∀ body ∈ shown loads queue, ∀ q, Written body (some q) → q/channel.unit < maxMoment
  readable : queueReadLimit < queue.length → ∀ raw ∈ queue.take queueReadLimit, bodyOf loads raw ≠ none

variable {loads floatOfStr queue channel now}

theorem queueRows_eq_ok {tasks : List Body} {rows : Rows} : queueRows floatOfStr tasks channel now = .ok rows ↔
    List.Forall₂ (fun body row => queueRowState floatOfStr channel now body = .ok row) (tasks.take queueRowCap) rows.rows ∧
      rows.capped = decide (queueRowCap < tasks.length) := by
  rw [← mapM_eq_ok]
  unfold queueRows
  cases hrows : (tasks.take queueRowCap).mapM (queueRowState floatOfStr channel now) with
  | error e => simp [bind,Except.bind]
  | ok all =>
    obtain ⟨rows,capped⟩ := rows
    simp only [bind,Except.bind,pure,Except.pure,Except.ok.injEq,Rows.mk.injEq]
    exact and_congr_right fun _ => eq_comm

theorem length_readable_add (loads : Loads Raw) (raws : List Raw) : (raws.filterMap (bodyOf loads)).length+
    raws.countP (fun raw => (bodyOf loads raw).isNone) = raws.length := by
  rw [List.length_filterMap_eq_countP,List.length_eq_countP_add_countP (fun raw => (bodyOf loads raw).isSome)]
  congr 2
  funext raw
  cases bodyOf loads raw <;> rfl

theorem length_shown (loads : Loads Raw) (queue : List Raw) : (shown loads queue).length =
    min queueRowCap ((queue.take queueReadLimit).filterMap (bodyOf loads)).length := by
  simp [shown]

/-- What is missing on the screen is announced just where a longer queue starts with readable elements only. -/
theorem capped_iff_readable : ((shown loads queue).length+
      (queue.take queueReadLimit).countP (fun raw => (bodyOf loads raw).isNone) < queue.length →
        queueRowCap < ((queue.take queueReadLimit).filterMap (bodyOf loads)).length) ↔
    (queueReadLimit < queue.length → ∀ raw ∈ queue.take queueReadLimit, bodyOf loads raw ≠ none) := by
  have hread := length_readable_add loads (queue.take queueReadLimit)
  have hnone : (∀ raw ∈ queue.take queueReadLimit, bodyOf loads raw ≠ none) ↔
      (queue.take queueReadLimit).countP (fun raw => (bodyOf loads raw).isNone) = 0 := by
    simp [List.countP_eq_zero]
  rw [hnone,length_shown]
  rw [List.length_take] at hread
  unfold queueReadLimit queueRowCap at *
  omega

theorem shown_of_readable (h : queueReadLimit < queue.length →
    ∀ raw ∈ queue.take queueReadLimit, bodyOf loads raw ≠ none) :
    shown loads queue = (queue.filterMap (bodyOf loads)).take queueRowCap := by
  by_cases hlong : queueReadLimit < queue.length
  · have hcapped := capped_iff_readable.mpr h
    have hread := length_readable_add loads (queue.take queueReadLimit)
    have hmany : queueRowCap ≤ ((queue.take queueReadLimit).filterMap (bodyOf loads)).length := by
      have hnone : (queue.take queueReadLimit).countP (fun raw => (bodyOf loads raw).isNone) = 0 := by
        simpa [List.countP_eq_zero] using h hlong
      rw [hnone,List.length_take] at hread
      unfold queueReadLimit queueRowCap at *
      omega
    have hsplit : queue.filterMap (bodyOf loads) = (queue.take queueReadLimit).filterMap (bodyOf loads) ++
        (queue.drop queueReadLimit).filterMap (bodyOf loads) := by
      rw [← List.filterMap_append,List.take_append_drop]
    rw [hsplit,List.take_append_of_le_length hmany,shown]
  · rw [shown,List.take_of_length_le (not_lt.mp hlong)]

theorem honest_iff : Honest loads floatOfStr queue channel now ↔
    (∀ raw ∈ queue.take queueReadLimit, Decodes loads raw) ∧
      (∀ body ∈ shown loads queue, ∃ row, queueRowState floatOfStr channel now body = .ok row ∧
        ∀ d, Written body d → (row.state = .delayed ↔ putsBack channel now d = true)) ∧
      (queueReadLimit < queue.length → ∀ raw ∈ queue.take queueReadLimit, bodyOf loads raw ≠ none) := by
  constructor
  · rintro ⟨page,rows,hpage,hrows,hhonest,-,hcapped⟩
    obtain ⟨hdecodes,rfl⟩ := queuePage_eq_ok.mp hpage
    obtain ⟨hforall,hcap⟩ := queueRows_eq_ok.mp hrows
    have hreadable : queueReadLimit < queue.length → ∀ raw ∈ queue.take queueReadLimit, bodyOf loads raw ≠ none := by
      rw [← capped_iff_readable]
      intro hlt
      rw [show (shown loads queue).length = rows.rows.length from hforall.length_eq] at hlt
      exact of_decide_eq_true (hcap.symm.trans (hcapped hlt))
    refine ⟨hdecodes,?_,hreadable⟩
    rw [shown_of_readable hreadable]
    exact exists_forall₂_iff.mp ⟨_,hhonest⟩
  · rintro ⟨hdecodes,hshown,hreadable⟩
    obtain ⟨rows,hrows⟩ := exists_forall₂_iff.mpr hshown
    have hlength : (shown loads queue).length = rows.length := hrows.length_eq
    refine ⟨_,⟨rows,_⟩,queuePage_eq_ok.mpr ⟨hdecodes,rfl⟩,queueRows_eq_ok.mpr ⟨?_,rfl⟩,?_,rfl,?_⟩
    · exact hrows.imp fun _ _ h => h.1
    · rw [← shown_of_readable hreadable]
      exact hrows
    · intro hlt
      rw [← hlength] at hlt
      exact decide_eq_true (capped_iff_readable.mpr hreadable hlt)

theorem queue_screen_honest_iff (hnow : now < maxMoment) :
    Honest loads floatOfStr queue channel now ↔ Clean loads queue channel := by
  rw [honest_iff]
  constructor
  · rintro ⟨hdecodes,hshown,hreadable⟩
    refine ⟨hdecodes,fun body hbody => ?_,fun body hbody q hq => ?_,hreadable⟩
    · obtain ⟨row,hrow,-⟩ := hshown body hbody
      exact queueRowState_isOk.mp ⟨row,hrow⟩
    · obtain ⟨row,hrow,hdelayed⟩ := hshown body hbody
      exact (delayed_iff_putsBack hrow hq hnow).mp (hdelayed _ hq) q rfl
  · intro h
    refine ⟨h.decodes,fun body hbody => ?_,h.readable⟩
    obtain ⟨row,hrow⟩ := queueRowState_isOk.mpr (h.convertible body hbody)
    refine ⟨row,hrow,fun d hd => (delayed_iff_putsBack hrow hd hnow).mpr ?_⟩
    rintro q rfl
    exact h.calendar body hbody q hd

end Screen

def delayedTask : String := "\x7b\"task_id\": \"7\", \"_delay_until\": 1700000000000\x7d"

def loadsDelayed : Loads String := fun raw =>
  if raw = delayedTask then .ok (.obj [("task_id",.str "7"),("_delay_until",.int 1700000000000)]) else .error .valueError

/-- Garbage and a task that waits for a second. -/
theorem queue_screen_honest_second : Honest loadsDelayed (fun _ => none) ["x",delayedTask] .wa 1699999999 := by
  have hshown : shown loadsDelayed ["x",delayedTask] = [[("task_id",.str "7"),("_delay_until",.int 1700000000000)]] := by
    have hx : bodyOf loadsDelayed "x" = none := by
      simp [bodyOf,decodeTask,loadsDelayed,delayedTask]
    have htask : bodyOf loadsDelayed delayedTask = some [("task_id",.str "7"),("_delay_until",.int 1700000000000)] := by
      simp [bodyOf,decodeTask,loadsDelayed]
    simp [shown,queueReadLimit,queueRowCap,hx,htask]
  have hretries : Body.get [("task_id",.str "7"),("_delay_until",.int 1700000000000)] "_retry_count" = none := rfl
  have hdelay : Body.get [("task_id",.str "7"),("_delay_until",.int 1700000000000)] "_delay_until" =
      some (.int 1700000000000) := rfl
  refine (queue_screen_honest_iff (by norm_num [maxMoment])).mpr ⟨?_,?_,?_,?_⟩
  · intro raw _ e
    simp only [decodeTask,loadsDelayed]
    split_ifs <;> simp
  · rw [hshown]
    simp only [List.mem_singleton,forall_eq]
    constructor
    · intro negative
      simp [hretries]
    · intro n hn
      obtain rfl : 1700000000000 = n := by
        simpa [hdelay] using hn
      decide +kernel
  · rw [hshown]
    simp only [List.mem_singleton,forall_eq]
    intro q hq
    have heq : (1700000000000 : ℚ) = q := by
      cases hq with
      | @int n h hpos =>
        have : 1700000000000 = n := by
          simpa [hdelay] using h
        exact_mod_cast this
      | float h hpos => simp [hdelay] at h
    rw [← heq]
    norm_num [Channel.unit,maxMoment]
  · intro hlong
    simp [queueReadLimit,queueRowCap] at hlong

/-- Garbage in front of 51 tasks: 50 are shown, the last is neither shown nor announced. -/
theorem queue_screen_hides_the_last : ¬∀ (queue : List (List Char)) (channel : Channel) (now : ℚ), now < maxMoment →
    Honest DropTask.loadsNamed (fun _ => none) queue channel now := by
  intro h
  have hhonest := h ("x".toList::(List.range 51).map DropTask.named) .wa 0 (by norm_num [maxMoment])
  exact (honest_iff.mp hhonest).2.2 (by decide) "x".toList (by simp [queueReadLimit]) (by decide +kernel)

end QueueRows
end Broadcaster
