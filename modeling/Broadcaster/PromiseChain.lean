import Mathlib.Data.List.Nodup
import Mathlib.Data.Nat.Notation
import Mathlib.Logic.Function.Basic

/-!
# Locks made of chained promises

A lock keeps the promise of the last call of each key. A new call is chained to
that promise and takes its place in the table: its section starts when the
promise in front of it has settled, whether fulfilled or rejected. Once a
section has settled, a callback takes its promise out of the table, if it still
is the last one. Calls are numbered, and `log` lists them in the order in which
they entered.
-/

namespace Broadcaster
namespace PromiseChain

inductive Phase
  | absent
  /-- Chained to the promise of a call, or to a resolved promise. -/
  | waiting (prev : Option ℕ)
  | running
  | settled
  | cleaned
  deriving DecidableEq

namespace Phase

def isSettled : Phase → Bool
  | .settled => true
  | .cleaned => true
  | _ => false

def hasStarted : Phase → Bool
  | .absent => false
  | .waiting _ => false
  | _ => true

/-- Nothing keeps the call from its section any more. -/
def hasTurn : Phase → Bool
  | .waiting none => true
  | p => p.hasStarted

def rank : Phase → ℕ
  | .absent => 0
  | .waiting _ => 1
  | .running => 2
  | .settled => 3
  | .cleaned => 4

theorem hasStarted_iff (p : Phase) : p.hasStarted = true ↔ 2 ≤ p.rank := by
  cases p <;> simp [hasStarted,rank]

theorem isSettled_iff (p : Phase) : p.isSettled = true ↔ 3 ≤ p.rank := by
  cases p <;> simp [isSettled,rank]

theorem eq_absent_iff (p : Phase) : p = .absent ↔ p.rank = 0 := by
  cases p <;> simp [rank]

theorem eq_running_iff (p : Phase) : p = .running ↔ p.rank = 2 := by
  cases p <;> simp [rank]

theorem hasTurn_of_hasStarted {p : Phase} (h : p.hasStarted = true) : p.hasTurn = true := by
  cases p with
  | absent => cases h
  | waiting prev => cases h
  | running => rfl
  | settled => rfl
  | cleaned => rfl

theorem hasStarted_of_isSettled {p : Phase} (h : p.isSettled = true) : p.hasStarted = true := by
  rw [isSettled_iff] at h
  rw [hasStarted_iff]
  omega

end Phase

structure Lock (Key : Type) where
  tail : Key → Option ℕ
  phase : ℕ → Phase
  log : List ℕ

namespace Lock

variable {Key : Type}

def new : Lock Key := ⟨fun _ => none,fun _ => .absent,[]⟩

def setPhase (l : Lock Key) (i : ℕ) (p : Phase) : Lock Key :=
  { l with phase := Function.update l.phase i p }

/-- The promise in front of a call has settled. -/
def ready (l : Lock Key) (prev : Option ℕ) : Bool := prev.all fun p => (l.phase p).isSettled

def start (l : Lock Key) (i : ℕ) : Option (Lock Key) :=
  match l.phase i with
  | .waiting prev => if l.ready prev then some (l.setPhase i .running) else none
  | _ => none

def settle (l : Lock Key) (i : ℕ) : Option (Lock Key) :=
  if l.phase i = .running then some (l.setPhase i .settled) else none

section Keyed

variable [DecidableEq Key] (key : ℕ → Key)

def entered (l : Lock Key) (i : ℕ) : Lock Key where
  tail := Function.update l.tail (key i) (some i)
  phase := Function.update l.phase i (.waiting (l.tail (key i)))
  log := l.log++[i]

def enter (l : Lock Key) (i : ℕ) : Option (Lock Key) :=
  if l.phase i = .absent then some (l.entered key i) else none

def dropTail (l : Lock Key) (k : Key) : Lock Key := { l with tail := Function.update l.tail k none }

/-- The callback takes out its own promise only. -/
def released (l : Lock Key) (i : ℕ) : Lock Key :=
  (if l.tail (key i) = some i then l.dropTail (key i) else l).setPhase i .cleaned

def clean (l : Lock Key) (i : ℕ) : Option (Lock Key) :=
  if l.phase i = .settled then some (l.released key i) else none

end Keyed

variable {l l' : Lock Key} {i j : ℕ}

theorem enter_eq_some [DecidableEq Key] {key : ℕ → Key} :
    l.enter key i = some l' ↔ l.phase i = .absent ∧ l' = l.entered key i := by
  unfold enter
  split
  · rename_i h
    simp [h,eq_comm]
  · rename_i h
    simp [h]

theorem start_eq_some : l.start i = some l' ↔
    ∃ prev, l.phase i = .waiting prev ∧ l.ready prev = true ∧ l' = l.setPhase i .running := by
  unfold start
  constructor
  · intro h
    split at h
    · rename_i prev hphase
      split at h
      · rename_i hready
        exact ⟨prev,hphase,hready,(Option.some.inj h).symm⟩
      · cases h
    · cases h
  · rintro ⟨prev,hphase,hready,rfl⟩
    simp only [hphase,hready,if_true]

theorem settle_eq_some : l.settle i = some l' ↔ l.phase i = .running ∧ l' = l.setPhase i .settled := by
  unfold settle
  split
  · rename_i h
    simp [h,eq_comm]
  · rename_i h
    simp [h]

@[simp] theorem setPhase_tail (p : Phase) : (l.setPhase i p).tail = l.tail := rfl

@[simp] theorem setPhase_log (p : Phase) : (l.setPhase i p).log = l.log := rfl

@[simp] theorem setPhase_self (p : Phase) : (l.setPhase i p).phase i = p := Function.update_self ..

theorem setPhase_of_ne (p : Phase) (h : j ≠ i) : (l.setPhase i p).phase j = l.phase j :=
  Function.update_of_ne h ..

section Keyed

variable [DecidableEq Key] {key : ℕ → Key}

@[simp] theorem entered_log : (l.entered key i).log = l.log++[i] := rfl

@[simp] theorem entered_phase_self : (l.entered key i).phase i = .waiting (l.tail (key i)) :=
  Function.update_self ..

theorem entered_phase_of_ne (h : j ≠ i) : (l.entered key i).phase j = l.phase j :=
  Function.update_of_ne h ..

@[simp] theorem entered_tail_self : (l.entered key i).tail (key i) = some i := Function.update_self ..

theorem entered_tail_of_ne {k : Key} (h : k ≠ key i) : (l.entered key i).tail k = l.tail k :=
  Function.update_of_ne h ..

@[simp] theorem dropTail_log (k : Key) : (l.dropTail k).log = l.log := rfl

@[simp] theorem dropTail_phase (k : Key) : (l.dropTail k).phase = l.phase := rfl

@[simp] theorem released_log : (l.released key i).log = l.log := by
  unfold released
  split <;> rfl

@[simp] theorem released_phase_self : (l.released key i).phase i = .cleaned := setPhase_self _

theorem released_phase_of_ne (h : j ≠ i) : (l.released key i).phase j = l.phase j := by
  unfold released
  rw [setPhase_of_ne _ h]
  split <;> rfl

theorem clean_eq_some : l.clean key i = some l' ↔ l.phase i = .settled ∧ l' = l.released key i := by
  unfold clean
  split
  · rename_i h
    simp [h,eq_comm]
  · rename_i h
    simp [h]

end Keyed

def Advances (l l' : Lock Key) (i n : ℕ) : Prop :=
  (l.phase i).rank = n ∧ (l'.phase i).rank = n+1 ∧ ∀ j, j ≠ i → l'.phase j = l.phase j

theorem advances_start (h : l.start i = some l') : Advances l l' i 1 := by
  obtain ⟨prev,hphase,_,rfl⟩ := start_eq_some.mp h
  exact ⟨by simp [hphase,Phase.rank],by simp [Phase.rank],fun j hj => setPhase_of_ne _ hj⟩

theorem advances_settle (h : l.settle i = some l') : Advances l l' i 2 := by
  obtain ⟨hphase,rfl⟩ := settle_eq_some.mp h
  exact ⟨by simp [hphase,Phase.rank],by simp [Phase.rank],fun j hj => setPhase_of_ne _ hj⟩

theorem advances_enter [DecidableEq Key] {key : ℕ → Key} (h : l.enter key i = some l') :
    Advances l l' i 0 := by
  obtain ⟨hphase,rfl⟩ := enter_eq_some.mp h
  exact ⟨by simp [hphase,Phase.rank],by simp [Phase.rank],fun j hj => entered_phase_of_ne hj⟩

theorem advances_clean [DecidableEq Key] {key : ℕ → Key} (h : l.clean key i = some l') :
    Advances l l' i 3 := by
  obtain ⟨hphase,rfl⟩ := clean_eq_some.mp h
  exact ⟨by simp [hphase,Phase.rank],by simp [Phase.rank],fun j hj => released_phase_of_ne hj⟩

theorem Advances.rank_le {n : ℕ} (h : Advances l l' i n) (j : ℕ) :
    (l.phase j).rank ≤ (l'.phase j).rank := by
  obtain ⟨hold,hnew,hother⟩ := h
  by_cases hj : j = i
  · subst hj
    omega
  · exact Nat.le_of_eq (congrArg Phase.rank (hother j hj).symm)

theorem log_start (h : l.start i = some l') : l'.log = l.log := by
  obtain ⟨_,_,_,rfl⟩ := start_eq_some.mp h
  rfl

theorem log_settle (h : l.settle i = some l') : l'.log = l.log := by
  obtain ⟨_,rfl⟩ := settle_eq_some.mp h
  rfl

theorem log_clean [DecidableEq Key] {key : ℕ → Key} (h : l.clean key i = some l') : l'.log = l.log := by
  obtain ⟨_,rfl⟩ := clean_eq_some.mp h
  exact released_log

def Before (l : Lock Key) (i j : ℕ) : Prop := j ∈ l.log ∧ l.log.idxOf i < l.log.idxOf j

theorem Before.mem_left (h : l.Before i j) : i ∈ l.log := by
  have hj := List.idxOf_lt_length_iff.mpr h.1
  exact List.idxOf_lt_length_iff.mp (Nat.lt_trans h.2 hj)

theorem before_congr {a : Lock Key} (h : a.log = l.log) : a.Before i j ↔ l.Before i j := by
  unfold Before
  rw [h]

theorem before_append {a : Lock Key} {n : ℕ} (h : a.log = l.log++[n]) (hn : n ∉ l.log) :
    a.Before i j ↔ l.Before i j ∨ i ∈ l.log ∧ j = n := by
  unfold Before
  rw [h]
  have hlast : (l.log++[n]).idxOf n = l.log.length := by
    rw [List.idxOf_append_of_notMem hn,List.idxOf_cons_self,Nat.add_zero]
  have hsame : ∀ m, m ∈ l.log → (l.log++[n]).idxOf m = l.log.idxOf m := fun m hm =>
    List.idxOf_append_of_mem hm
  constructor
  · rintro ⟨hj,hlt⟩
    have hi : i ∈ l.log := by
      by_contra hi
      have hge : l.log.length ≤ (l.log++[n]).idxOf i := by
        rw [List.idxOf_append_of_notMem hi]
        omega
      rcases List.mem_append.mp hj with hj | hj
      · have := List.idxOf_lt_length_iff.mpr hj
        rw [hsame j hj] at hlt
        omega
      · rw [List.mem_singleton.mp hj,hlast] at hlt
        omega
    rcases List.mem_append.mp hj with hj | hj
    · rw [hsame i hi,hsame j hj] at hlt
      exact .inl ⟨hj,hlt⟩
    · exact .inr ⟨hi,List.mem_singleton.mp hj⟩
  · rintro (⟨hj,hlt⟩ | ⟨hi,rfl⟩)
    · have hi : i ∈ l.log := Before.mem_left ⟨hj,hlt⟩
      rw [hsame i hi,hsame j hj]
      exact ⟨List.mem_append_left _ hj,hlt⟩
    · refine ⟨List.mem_append_right _ (List.mem_singleton_self j),?_⟩
      rw [hsame i hi,hlast]
      exact List.idxOf_lt_length_iff.mpr hi

theorem before_of_split {pre post : List ℕ} (hnodup : l.log.Nodup) (hlog : l.log = pre++i::post)
    (hj : j ∈ post) : l.Before i j := by
  rw [hlog] at hnodup
  obtain ⟨_,hrest,hdisjoint⟩ := List.nodup_append.mp hnodup
  have hi : i ∉ pre := fun hi => hdisjoint i hi i List.mem_cons_self rfl
  have hjpre : j ∉ pre := fun hjp => hdisjoint j hjp j (List.mem_cons_of_mem i hj) rfl
  have hji : i ≠ j := by
    rintro rfl
    exact (List.nodup_cons.mp hrest).1 hj
  refine ⟨by simp [hlog,hj],?_⟩
  rw [hlog,List.idxOf_append_of_notMem hi,List.idxOf_append_of_notMem hjpre,List.idxOf_cons_self,
    List.idxOf_cons_ne _ hji]
  omega

variable {key : ℕ → Key}

/-- Sections of one key take turns in the order of entering, and the table leads to the last call. -/
structure Sound (key : ℕ → Key) (l : Lock Key) : Prop where
  nodup : l.log.Nodup
  entered : ∀ i, i ∈ l.log ↔ l.phase i ≠ .absent
  turn : ∀ i j, key i = key j → l.Before i j → (l.phase j).hasTurn = true → (l.phase i).isSettled = true
  chained : ∀ j p, l.phase j = .waiting (some p) → key p = key j ∧ l.Before p j ∧
    ∀ i, key i = key j → l.Before i j → i = p ∨ l.Before i p
  last : ∀ k t, l.tail k = some t → key t = k ∧ t ∈ l.log ∧ l.phase t ≠ .cleaned ∧
    ∀ i ∈ l.log, key i = k → i = t ∨ l.Before i t
  empty : ∀ k, l.tail k = none → ∀ i ∈ l.log, key i = k → (l.phase i).isSettled = true

namespace Sound

theorem new (key : ℕ → Key) : Sound key Lock.new where
  nodup := List.nodup_nil
  entered i := by simp [Lock.new]
  turn i j hkey h := absurd h.1 List.not_mem_nil
  chained j p h := nomatch h
  last k t h := nomatch h
  empty k h i hi := absurd hi List.not_mem_nil

theorem setPhase (h : Sound key l) {p : Phase} (hi : i ∈ l.log) (hp : p.hasStarted = true)
    (hturn : ∀ j, key j = key i → l.Before j i → (l.phase j).isSettled = true)
    (hsettled : (l.phase i).isSettled = true → p.isSettled = true)
    (hclean : p = .cleaned → l.tail (key i) ≠ some i) :
    Sound key (l.setPhase i p) := by
  have hkeeps : ∀ j, (l.phase j).isSettled = true → ((l.setPhase i p).phase j).isSettled = true := by
    intro j hj
    by_cases he : j = i
    · subst he
      rw [setPhase_self]
      exact hsettled hj
    · rwa [setPhase_of_ne p he]
  have habsent : p ≠ .absent := by
    rintro rfl
    cases hp
  refine ⟨h.nodup,?_,?_,?_,?_,?_⟩
  · intro j
    by_cases he : j = i
    · subst he
      rw [setPhase_self]
      exact ⟨fun _ => habsent,fun _ => hi⟩
    · rw [setPhase_of_ne p he]
      exact h.entered j
  · intro a b hkey hab hb
    rw [before_congr (setPhase_log p)] at hab
    by_cases he : b = i
    · subst he
      exact hkeeps a (hturn a hkey hab)
    · rw [setPhase_of_ne p he] at hb
      exact hkeeps a (h.turn a b hkey hab hb)
  · intro b q hb
    simp only [before_congr (setPhase_log p)]
    by_cases he : b = i
    · subst he
      rw [setPhase_self] at hb
      rw [hb] at hp
      cases hp
    · rw [setPhase_of_ne p he] at hb
      exact h.chained b q hb
  · intro k t ht
    obtain ⟨hkey,hmem,hphase,hlast⟩ := h.last k t ht
    simp only [before_congr (setPhase_log p)]
    refine ⟨hkey,hmem,?_,hlast⟩
    by_cases he : t = i
    · subst he
      rw [setPhase_self]
      rintro rfl
      exact hclean rfl (by rwa [hkey])
    · rwa [setPhase_of_ne p he]
  · intro k hk j hj hkey
    exact hkeeps j (h.empty k hk j hj hkey)

theorem start (h : Sound key l) (hstart : l.start i = some l') : Sound key l' := by
  obtain ⟨prev,hphase,hready,rfl⟩ := start_eq_some.mp hstart
  have hi : i ∈ l.log := (h.entered i).mpr (by simp [hphase])
  refine h.setPhase hi rfl ?_ (by simp [hphase,Phase.isSettled]) (by simp)
  intro j hkey hj
  cases prev with
  | none => exact h.turn j i hkey hj (by simp [hphase,Phase.hasTurn])
  | some p =>
    have hp : (l.phase p).isSettled = true := hready
    obtain ⟨hpkey,_,hbetween⟩ := h.chained i p hphase
    rcases hbetween j hkey hj with rfl | hjp
    · exact hp
    · exact h.turn j p (hkey.trans hpkey.symm) hjp
        (Phase.hasTurn_of_hasStarted (Phase.hasStarted_of_isSettled hp))

theorem settle (h : Sound key l) (hsettle : l.settle i = some l') : Sound key l' := by
  obtain ⟨hphase,rfl⟩ := settle_eq_some.mp hsettle
  have hi : i ∈ l.log := (h.entered i).mpr (by simp [hphase])
  refine h.setPhase hi rfl ?_ (fun _ => rfl) (by simp)
  intro j hkey hj
  exact h.turn j i hkey hj (by simp [hphase,Phase.hasTurn,Phase.hasStarted])

section Keyed

variable [DecidableEq Key]

theorem enter (h : Sound key l) (henter : l.enter key i = some l') : Sound key l' := by
  obtain ⟨hphase,rfl⟩ := enter_eq_some.mp henter
  have hi : i ∉ l.log := by simp [h.entered,hphase]
  have hother : ∀ j, j ∈ l.log → j ≠ i := by
    rintro j hj rfl
    exact hi hj
  have hbefore : ∀ {a b}, (l.entered key i).Before a b ↔ l.Before a b ∨ a ∈ l.log ∧ b = i :=
    before_append entered_log hi
  refine ⟨?_,?_,?_,?_,?_,?_⟩
  · rw [entered_log,List.nodup_append]
    refine ⟨h.nodup,List.nodup_singleton i,?_⟩
    intro a ha b hb
    rw [List.mem_singleton.mp hb]
    exact hother a ha
  · intro j
    by_cases hj : j = i
    · subst hj
      simp
    · rw [entered_phase_of_ne hj,← h.entered]
      simp [hj]
  · intro a b hkey hab hb
    rcases hbefore.mp hab with hab | ⟨ha,rfl⟩
    · rw [entered_phase_of_ne (hother b hab.1)] at hb
      rw [entered_phase_of_ne (hother a hab.mem_left)]
      exact h.turn a b hkey hab hb
    · rw [entered_phase_self] at hb
      rw [entered_phase_of_ne (hother a ha)]
      cases htail : l.tail (key b) with
      | none => exact h.empty (key b) htail a ha hkey
      | some t =>
        rw [htail] at hb
        cases hb
  · intro b p hb
    by_cases hj : b = i
    · subst hj
      rw [entered_phase_self] at hb
      obtain ⟨hpkey,hp,_,hlast⟩ := h.last (key b) p (Phase.waiting.inj hb)
      refine ⟨hpkey,hbefore.mpr (.inr ⟨hp,rfl⟩),?_⟩
      intro a hkey ha
      rcases hbefore.mp ha with ha | ⟨ha,_⟩
      · exact absurd ha.1 hi
      · exact (hlast a ha hkey).imp_right fun hap => hbefore.mpr (.inl hap)
    · rw [entered_phase_of_ne hj] at hb
      obtain ⟨hpkey,hp,hbetween⟩ := h.chained b p hb
      refine ⟨hpkey,hbefore.mpr (.inl hp),?_⟩
      intro a hkey ha
      rcases hbefore.mp ha with ha | ⟨_,hbi⟩
      · exact (hbetween a hkey ha).imp_right fun hap => hbefore.mpr (.inl hap)
      · exact absurd hbi hj
  · intro k t ht
    by_cases hk : k = key i
    · subst hk
      rw [entered_tail_self] at ht
      cases ht
      refine ⟨rfl,by simp,by simp,?_⟩
      intro a ha _
      rcases List.mem_append.mp ha with ha | ha
      · exact .inr (hbefore.mpr (.inr ⟨ha,rfl⟩))
      · exact .inl (List.mem_singleton.mp ha)
    · rw [entered_tail_of_ne hk] at ht
      obtain ⟨hkey,hmem,hnot,hlast⟩ := h.last k t ht
      refine ⟨hkey,List.mem_append_left _ hmem,by rwa [entered_phase_of_ne (hother t hmem)],?_⟩
      intro a ha hakey
      rcases List.mem_append.mp ha with ha | ha
      · exact (hlast a ha hakey).imp_right fun hat => hbefore.mpr (.inl hat)
      · rw [List.mem_singleton.mp ha] at hakey
        exact absurd hakey.symm hk
  · intro k hk a ha hakey
    have hki : k ≠ key i := by
      rintro rfl
      rw [entered_tail_self] at hk
      cases hk
    rw [entered_tail_of_ne hki] at hk
    rcases List.mem_append.mp ha with ha | ha
    · rw [entered_phase_of_ne (hother a ha)]
      exact h.empty k hk a ha hakey
    · rw [List.mem_singleton.mp ha] at hakey
      exact absurd hakey.symm hki

theorem dropTail (h : Sound key l) (ht : l.tail (key i) = some i) (hi : (l.phase i).isSettled = true) :
    Sound key (l.dropTail (key i)) := by
  obtain ⟨_,_,_,hlast⟩ := h.last (key i) i ht
  have hbefore : ∀ {a b}, (l.dropTail (key i)).Before a b ↔ l.Before a b := before_congr rfl
  refine ⟨h.nodup,h.entered,?_,?_,?_,?_⟩
  · intro a b hkey hab
    exact h.turn a b hkey (hbefore.mp hab)
  · intro b p hb
    simpa only [hbefore,dropTail_phase] using h.chained b p hb
  · intro k t hk
    have hne : k ≠ key i := by
      rintro rfl
      cases (Function.update_self ..).symm.trans hk
    simpa only [hbefore,dropTail_log,dropTail_phase] using h.last k t ((Function.update_of_ne hne ..).symm.trans hk)
  · intro k hk a ha hakey
    by_cases hne : k = key i
    · subst hne
      rcases hlast a ha hakey with rfl | hai
      · exact hi
      · exact h.turn a i hakey hai (Phase.hasTurn_of_hasStarted (Phase.hasStarted_of_isSettled hi))
    · exact h.empty k ((Function.update_of_ne hne ..).symm.trans hk) a ha hakey

theorem clean (h : Sound key l) (hclean : l.clean key i = some l') : Sound key l' := by
  obtain ⟨hphase,rfl⟩ := clean_eq_some.mp hclean
  have hi : i ∈ l.log := (h.entered i).mpr (by simp [hphase])
  have hsettled : (l.phase i).isSettled = true := by simp [hphase,Phase.isSettled]
  have hturn : ∀ j, key j = key i → l.Before j i → (l.phase j).isSettled = true := fun j hkey hj =>
    h.turn j i hkey hj (Phase.hasTurn_of_hasStarted (Phase.hasStarted_of_isSettled hsettled))
  unfold released
  split
  · rename_i ht
    refine (h.dropTail ht hsettled).setPhase hi rfl ?_ (fun _ => rfl) ?_
    · intro j hkey hj
      exact hturn j hkey ((before_congr rfl).mp hj)
    · intro _ hsome
      cases (Function.update_self ..).symm.trans hsome
  · rename_i ht
    exact h.setPhase hi rfl hturn (fun _ => rfl) fun _ => ht

end Keyed

/-- As long as a call of a key has not settled, a section of the key is open or can be opened. -/
theorem some_turn (h : Sound key l) (hi : i ∈ l.log) (hunsettled : (l.phase i).isSettled = false) :
    ∃ j, key j = key i ∧ (l.phase j = .running ∨ (l.start j).isSome) := by
  -- the first call of the key that has not settled; induction on its place
  induction hn : l.log.idxOf i using Nat.strongRecOn generalizing i with
  | _ n ih =>
    subst hn
    by_cases hearlier : ∃ j, key j = key i ∧ l.Before j i ∧ (l.phase j).isSettled = false
    · obtain ⟨j,hkey,hj,hjun⟩ := hearlier
      obtain ⟨m,hm,hturn⟩ := ih _ hj.2 hj.mem_left hjun rfl
      exact ⟨m,hm.trans hkey,hturn⟩
    · have hbefore : ∀ j, key j = key i → l.Before j i → (l.phase j).isSettled = true := by
        intro j hkey hj
        by_contra hnot
        exact hearlier ⟨j,hkey,hj,by simpa using hnot⟩
      refine ⟨i,rfl,?_⟩
      cases hphase : l.phase i with
      | absent => exact absurd hphase ((h.entered i).mp hi)
      | running => exact .inl rfl
      | settled => simp [hphase,Phase.isSettled] at hunsettled
      | cleaned => simp [hphase,Phase.isSettled] at hunsettled
      | waiting prev =>
        refine .inr (Option.isSome_iff_exists.mpr ⟨_,start_eq_some.mpr ⟨prev,hphase,?_,rfl⟩⟩)
        cases prev with
        | none => rfl
        | some p =>
          obtain ⟨hpkey,hp,_⟩ := h.chained i p hphase
          exact hbefore p hpkey hp

theorem tail_eq_none (h : Sound key l) (hall : ∀ i ∈ l.log, l.phase i = .cleaned) (k : Key) :
    l.tail k = none := by
  cases ht : l.tail k with
  | none => rfl
  | some t =>
    obtain ⟨_,hmem,hnot,_⟩ := h.last k t ht
    exact absurd (hall t hmem) hnot

end Sound

section Work

variable [DecidableEq Key] {Work : Type} {done : List (ℕ × Work)}

/-- The work done for a key is that of its calls one after the other, in the order of entering. -/
def InTurns (key : ℕ → Key) (l : Lock Key) (done : List (ℕ × Work)) : Prop :=
  ∀ k, done.filter (fun w => key w.1 = k) =
    (l.log.filter fun i => key i = k).flatMap fun i => done.filter fun w => w.1 = i

theorem inTurns_nil (key : ℕ → Key) (l : Lock Key) : InTurns key l ([] : List (ℕ × Work)) := by
  intro k
  simp

theorem InTurns.congr {a : Lock Key} (h : InTurns key l done) (hlog : a.log = l.log) : InTurns key a done := by
  unfold InTurns
  rwa [hlog]

theorem InTurns.enter {a : Lock Key} (h : InTurns key l done) (hlog : a.log = l.log++[i])
    (hnone : ∀ w ∈ done, w.1 ≠ i) : InTurns key a done := by
  intro k
  have hempty : done.filter (fun w => w.1 = i) = [] :=
    List.filter_eq_nil_iff.mpr fun w hw => by simpa using hnone w hw
  rw [h k,hlog,List.filter_append,List.flatMap_append]
  by_cases hk : key i = k
  · simp [hk,hempty]
  · simp [hk]

theorem InTurns.append (h : InTurns key l done) (hsound : Sound key l) (hi : l.phase i = .running)
    (hstarted : ∀ w ∈ done, (l.phase w.1).hasStarted = true) (x : Work) :
    InTurns key l (done++[(i,x)]) := by
  intro k
  have hother : ∀ j, j ≠ i → (done++[(i,x)]).filter (fun w => w.1 = j) = done.filter (fun w => w.1 = j) := by
    intro j hj
    simp [List.filter_append,hj.symm]
  by_cases hk : key i = k
  · obtain ⟨pre,post,hlog⟩ := List.append_of_mem ((hsound.entered i).mpr (by simp [hi]))
    have hnodup : (pre++i::post).Nodup := hlog ▸ hsound.nodup
    obtain ⟨_,hrest,hdisjoint⟩ := List.nodup_append.mp hnodup
    have hpre : ∀ j ∈ pre.filter fun j => key j = k,
        (done++[(i,x)]).filter (fun w => w.1 = j) = done.filter (fun w => w.1 = j) := fun j hj =>
      hother j (hdisjoint j (List.mem_of_mem_filter hj) i List.mem_cons_self)
    -- whoever entered later waits for the open section, so there is no work of theirs
    have hlater : ∀ j ∈ post.filter fun j => key j = k, done.filter (fun w => w.1 = j) = [] := by
      intro j hj
      obtain ⟨hj,hkey⟩ := List.mem_filter.mp hj
      refine List.filter_eq_nil_iff.mpr fun w hw hwj => ?_
      have hturn := Phase.hasTurn_of_hasStarted (hstarted w hw)
      rw [of_decide_eq_true hwj] at hturn
      have hsettled := hsound.turn i j (hk.trans (of_decide_eq_true hkey).symm)
        (before_of_split hsound.nodup hlog hj) hturn
      rw [hi] at hsettled
      cases hsettled
    have hpost : ∀ j ∈ post.filter fun j => key j = k, (done++[(i,x)]).filter (fun w => w.1 = j) = [] := by
      intro j hj
      rw [hother j fun he => (List.nodup_cons.mp hrest).1 (he ▸ List.mem_of_mem_filter hj)]
      exact hlater j hj
    have hsplit : l.log.filter (fun j => key j = k) =
        pre.filter (fun j => key j = k)++i::post.filter fun j => key j = k := by
      rw [hlog,List.filter_append,List.filter_cons_of_pos (by simpa using hk)]
    have hdone := h k
    rw [hsplit,List.flatMap_append,List.flatMap_cons] at hdone ⊢
    rw [List.flatMap_eq_nil_iff.mpr hlater,List.append_nil] at hdone
    rw [List.flatMap_eq_nil_iff.mpr hpost,List.append_nil,List.flatMap_congr hpre,List.filter_append,hdone]
    simp [hk]
  · have hsame : ∀ j ∈ l.log.filter fun j => key j = k,
        (done++[(i,x)]).filter (fun w => w.1 = j) = done.filter (fun w => w.1 = j) := by
      intro j hj
      refine hother j ?_
      rintro rfl
      exact hk (of_decide_eq_true (List.mem_filter.mp hj).2)
    rw [List.flatMap_congr hsame,List.filter_append,h k]
    simp [hk]

end Work

end Lock

end PromiseChain
end Broadcaster
