import Broadcaster.QrSessions

/-!
# Calls on the QR sessions of others

Calls of one user on sessions of other users are told apart by a predicate on
the process numbers. A run with such calls is compared with the run of the
other processes alone, which makes the same moves.
-/

namespace Broadcaster
namespace QrSessions

open Interleaving

inductive Call
  | getQrStatus | refreshQr | submit2fa | completeAuth
  deriving DecidableEq

def Call.begin (k : Call) (x user : ℕ) : Pc :=
  match k with
  | .getQrStatus => .getQrStatus x user
  | .refreshQr => .refreshQr x user
  | .submit2fa => .submit2fa x user
  | .completeAuth => .completeAuth x user

inductive Answer
  | status (reply : Reply)
  | refreshed (done : Bool)
  | signedIn (sessionString : String)
  | completed (sessionString : Option String)
  | raised
  deriving DecidableEq

def Pc.answer : Pc → Option Answer
  | .replied reply => some (.status reply)
  | .refreshed done => some (.refreshed done)
  | .signedIn sessionString => some (.signedIn sessionString)
  | .completed _ _ sessionString => some (.completed sessionString)
  | .raised => some .raised
  | _ => none

/-- The answer of a call on an id that the registry does not have for the caller. -/
def Call.unknown : Call → Answer
  | .getQrStatus => .status .gone
  | .refreshQr => .refreshed false
  | .submit2fa => .raised
  | .completeAuth => .completed none

variable {db db' : Db} {pc pc' : Pc} {inp : Input} {x y user : ℕ} {s : QrAuthState} {k : Call}

theorem owned_eq_none (h : ∀ s, db.sessions[x]? = some s → s.userId ≠ user) : db.owned x user = none := by
  cases howned : db.owned x user with
  | none => rfl
  | some s =>
    obtain ⟨hs,_,huser⟩ := owned_eq_some.mp howned
    exact absurd huser (h s hs)

/-- A call that finds nothing of the caller's ends at once and leaves no trace. -/
theorem step_of_unowned (k : Call) (inp : Input) (h : db.owned x user = none) :
    ∃ pc', step db (k.begin x user) inp = some (db,pc') ∧ pc'.answer = some k.unknown := by
  cases k with
  | getQrStatus => exact ⟨.replied .gone,by simp [Call.begin,step,getQrStatus,h],rfl⟩
  | refreshQr => exact ⟨.refreshed false,by simp [Call.begin,step,h],rfl⟩
  | submit2fa => exact ⟨.raised,by simp [Call.begin,step,h],rfl⟩
  | completeAuth => exact ⟨.completed x user none,by simp [Call.begin,step,h],rfl⟩

/-- What the call answers when it begins in `db`; none when it has not come to an answer. -/
def Call.reply (k : Call) (db : Db) (x user : ℕ) (inp : Input) : Option Answer :=
  (step db (k.begin x user) inp).bind fun r => r.2.answer

theorem reply_of_unowned (h : db.owned x user = none) : k.reply db x user inp = some k.unknown := by
  obtain ⟨pc',hs,hanswer⟩ := step_of_unowned k inp h
  simp only [Call.reply,hs,Option.bind_some,hanswer]

theorem step_of_answered {r : Answer} (h : pc.answer = some r) : step db pc inp = none := by
  cases pc with
  | replied reply => rfl
  | refreshed done => rfl
  | signedIn sessionString => rfl
  | completed x user sessionString => rfl
  | raised => rfl
  | _ => cases h

/-- The extra processes are calls of the user, each on a session that is not the user's own in `c`. -/
def Foreign (a c : Config Db Pc) (extra : ℕ → Bool) (user : ℕ) : Prop :=
  ∀ i, extra i = true → ∃ k x, a.pc i = Call.begin k x user ∧
    ∀ s, c.db.sessions[x]? = some s → s.userId ≠ user

def Unknown (a b : Config Db Pc) (extra : ℕ → Bool) (user : ℕ) : Prop :=
  ∀ i k x, extra i = true → a.pc i = Call.begin k x user →
    b.pc i = k.begin x user ∨ (b.pc i).answer = some k.unknown

theorem Call.begin_inj {k' : Call} {x' user' : ℕ} (h : k.begin x user = k'.begin x' user') :
    k = k' ∧ x = x' := by
  cases k <;> cases k' <;> cases h <;> exact ⟨rfl,rfl⟩

theorem owned_before {a b c : Config Db Pc} {extra : ℕ → Bool} {i : ℕ} (hf : Foreign a c extra user)
    (hbc : Reaches machine anyMove b c) (hi : extra i = true) (ha : a.pc i = k.begin x user) :
    b.db.owned x user = none := by
  obtain ⟨k',x',ha',hforeign⟩ := hf i hi
  obtain ⟨rfl,rfl⟩ := Call.begin_inj (ha.symm.trans ha')
  refine owned_eq_none fun s hs huser => ?_
  obtain ⟨s',hs',huser'⟩ := owner_of_reaches hbc ⟨s,hs,huser⟩
  exact hforeign s' hs' huser'

/-- One move: an extra call changes nothing but itself, and the others leave it alone. -/
theorem Unknown.next {a b b' c : Config Db Pc} {m : Move Input} {extra : ℕ → Bool}
    (hu : Unknown a b extra user) (hf : Foreign a c extra user) (hm : next machine b m = some b')
    (hbc : Reaches machine anyMove b c) :
    (extra m.1 = true → b'.db = b.db) ∧ Unknown a b' extra user := by
  obtain ⟨db,pc,hs,rfl⟩ := next_eq_some.mp hm
  have hmover : ∀ k x, extra m.1 = true → a.pc m.1 = Call.begin k x user →
      db = b.db ∧ pc.answer = some k.unknown := by
    intro k x hextra ha
    rcases hu m.1 k x hextra ha with hbegin | hanswer
    · obtain ⟨pc',hs',hanswer⟩ :=
        step_of_unowned k m.2 (owned_before hf hbc hextra ha)
      have hs : step b.db (b.pc m.1) m.2 = some (db,pc) := hs
      rw [hbegin,hs'] at hs
      cases hs
      exact ⟨rfl,hanswer⟩
    · have hended : step b.db (b.pc m.1) m.2 = none := step_of_answered hanswer
      have hs : step b.db (b.pc m.1) m.2 = some (db,pc) := hs
      rw [hended] at hs
      cases hs
  refine ⟨fun hextra => ?_,fun i k x hi ha => ?_⟩
  · obtain ⟨k,x,ha,_⟩ := hf m.1 hextra
    exact (hmover k x hextra ha).1
  · by_cases him : i = m.1
    · subst him
      right
      simpa using (hmover k x hi ha).2
    · simpa [Function.update_of_ne him] using hu i k x hi ha

theorem unknown_of_reaches {a b c : Config Db Pc} {extra : ℕ → Bool} (hf : Foreign a c extra user)
    (hab : Reaches machine anyMove a b) (hbc : Reaches machine anyMove b c) : Unknown a b extra user := by
  refine hab.invariant (I := fun d => Reaches machine anyMove d c → Unknown a d extra user) ?_ ?_ hbc
  · intro d m d' hd _ hm hrest
    have hdc : Reaches machine anyMove d c := Reaches.head ⟨m,trivial,hm⟩ hrest
    exact ((hd hdc).next hf hm hdc).2
  · intro _ i k x _ ha
    exact .inl ha

/-- Without the calls of one user on sessions of others all the other processes make the same moves, with
the same answers and the same sessions in the end; and each such call is answered like a call on an id that
does not exist. -/
theorem foreign_calls_do_not_interfere {a c : Config Db Pc} {extra : ℕ → Bool} {ms : List (Move Input)}
    (hrun : exec machine anyMove a ms = some c) (hf : Foreign a c extra user) :
    (∃ c', exec machine anyMove (a.erase extra .raised) (ms.filter fun m => !extra m.1) = some c' ∧
      c'.db = c.db ∧ ∀ i, extra i = false → c'.pc i = c.pc i) ∧
    ∀ i k x, extra i = true → a.pc i = Call.begin k x user → c.pc i ≠ k.begin x user →
      (c.pc i).answer.isSome = true ∧ ∀ (db : Db) (y : ℕ) (inp : Input), db.sessions[y]? = none →
        k.reply db y user inp = (c.pc i).answer := by
  refine ⟨⟨c.erase extra .raised,exec_erase hrun ?_,rfl,fun i => c.erase_of_kept .raised⟩,
    fun i k x hi ha hmoved => ?_⟩
  · intro b m b' hab hm hrest hextra
    have hbc : Reaches machine anyMove b c := Reaches.head ⟨m,trivial,hm⟩ hrest
    exact ((unknown_of_reaches hf hab hbc).next hf hm hbc).1 hextra
  · have hunknown := unknown_of_reaches hf (reaches_of_exec hrun) (Reaches.refl c)
    have hanswer := (hunknown i k x hi ha).resolve_left hmoved
    refine ⟨by rw [hanswer]; rfl,fun db y inp hy => ?_⟩
    rw [hanswer]
    refine reply_of_unowned (owned_eq_none fun s hs => ?_)
    rw [hy] at hs
    cases hs

/-- User 7 logs in; user 8 calls each of the four functions on that session. -/
def strangerCalls : Config Db Pc where
  db := ⟨[]⟩
  pc := fun
    | 0 => .startQrAuth 7
    | 1 => .waitForQr 0
    | 2 => .completeAuth 0 7
    | 3 => Call.begin .getQrStatus 0 8
    | 4 => Call.begin .refreshQr 0 8
    | 5 => Call.begin .submit2fa 0 8
    | 6 => Call.begin .completeAuth 0 8
    | _ => .raised

def ofStranger (i : ℕ) : Bool := 3 ≤ i && i ≤ 6

/-- User 8 asks before the session is there, while it waits and when it has been scanned. -/
def strangerMoves : List (Move Input) :=
  [atSecond 0 0,atSecond 0 0,atSecond 0 3,atSecond 0 0,atSecond 0 1,atSecond 5 4,atSecond 10 1,
    atSecond 11 5,atSecond 12 6,atSecond 13 2,atSecond 13 2]

theorem foreign_strangerCalls (c : Config Db Pc) (h : c.db.sessions.map QrAuthState.userId = [7]) :
    Foreign strangerCalls c ofStranger 8 := by
  intro i hi
  have howner : ∀ s, c.db.sessions[0]? = some s → s.userId ≠ 8 := by
    intro s hs huser
    have hmem : s.userId ∈ c.db.sessions.map QrAuthState.userId :=
      List.mem_map_of_mem (List.mem_of_getElem? hs)
    rw [h,huser] at hmem
    simp at hmem
  rcases i with _ | _ | _ | _ | _ | _ | _ | i
  · cases hi
  · cases hi
  · cases hi
  · exact ⟨.getQrStatus,0,rfl,howner⟩
  · exact ⟨.refreshQr,0,rfl,howner⟩
  · exact ⟨.submit2fa,0,rfl,howner⟩
  · exact ⟨.completeAuth,0,rfl,howner⟩
  · simp only [ofStranger,Bool.and_eq_true,decide_eq_true_eq] at hi
    omega

theorem foreign_calls_do_not_interfere_run :
    ∃ c, exec machine anyMove strangerCalls strangerMoves = some c ∧
      (c.pc 2 = .completed 0 7 (some "session") ∧ c.pc 6 = .completed 0 8 none) ∧
      ∃ c', exec machine anyMove (strangerCalls.erase ofStranger .raised)
        (strangerMoves.filter fun m => !ofStranger m.1) = some c' ∧ c'.db = c.db ∧ c'.pc 2 = c.pc 2 := by
  have hsome : ((exec machine anyMove strangerCalls strangerMoves).any fun c =>
      c.db.sessions.map QrAuthState.userId = [7] && c.pc 2 = .completed 0 7 (some "session") &&
        c.pc 6 = .completed 0 8 none) = true := by decide
  cases hrun : exec machine anyMove strangerCalls strangerMoves with
  | none => simp [hrun] at hsome
  | some c =>
    simp only [hrun,Option.any_some,Bool.and_eq_true,decide_eq_true_eq] at hsome
    obtain ⟨⟨howner,htaken⟩,hrefused⟩ := hsome
    obtain ⟨⟨c',hc',hdb,hpc⟩,_⟩ :=
      foreign_calls_do_not_interfere hrun (foreign_strangerCalls c howner)
    exact ⟨c,rfl,⟨htaken,hrefused⟩,c',hc',hdb,hpc 2 rfl⟩

end QrSessions
end Broadcaster
