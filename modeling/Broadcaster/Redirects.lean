import Broadcaster.Urls

/-!
# Where a response may send the browser

Local addresses, with the code of a notice or without one, and the address of
the payment page. What is refused raises a `ValueError`.
-/

namespace Broadcaster
namespace Redirects

open Urls

inductive Refusal
  | notLocal | backslash | control | notAscii | notSplit | scheme | userinfo | port | host
  deriving DecidableEq

def isControl (c : Char) : Bool := c.toNat < 0x20 || c.toNat = 0x7f

def isAscii (c : Char) : Bool := c.toNat < 0x80

def localPath (value : String) : Except Refusal String :=
  if !(['/'].isPrefixOf value.toList) || ['/','/'].isPrefixOf value.toList then .error .notLocal
  else if '\\' ∈ value.toList then .error .backslash
  else if value.toList.any isControl then .error .control
  else if !value.toList.all isAscii then .error .notAscii
  else .ok value

def yookassaConfirmationHosts : List String := ["yoomoney.ru"]

def confirmationUrl (value : String) : Except Refusal String :=
  if value.toList.any isControl then .error .control
  else if !value.toList.all isAscii then .error .notAscii
  else if '\\' ∈ value.toList then .error .backslash
  else
    match urlsplit value.toList with
    | none => .error .notSplit
    | some parts =>
      if parts.scheme ≠ "https".toList then .error .scheme
      else if '@' ∈ parts.netloc then .error .userinfo
      else
        match parts.port with
        | none => .error .notSplit
        | some (some _) => .error .port
        | some none =>
          if parts.hostname ∉ yookassaConfirmationHosts.map (fun host => some host.toList) then .error .host
          else .ok value

def noticeQueryKey : String := "notice"

def noticeCodes : List String :=
  ["retry_queued","retry_gone","retry_access_closed","retry_busy","payment_failed","payment_disabled",
   "payment_pending","worker_no_container","worker_restart_failed","queue_drop_removed","queue_drop_missing",
   "queue_drop_unavailable","queue_drop_no_queue","schedule_account_gone","schedule_ad_missing",
   "schedule_values_out_of_domain","password_reset_done","profile_saved","impersonation_forbidden"]

def withNotice (redirect : String) : Option String → Except Refusal String
  | none => localPath redirect
  | some notice =>
    let (beforeAnchor,found,anchor) := partition '#' redirect.toList
    let separator := if '?' ∈ beforeAnchor then '&' else '?'
    localPath (String.ofList (beforeAnchor ++ separator::(noticeQueryKey.toList ++ '='::notice.toList) ++
      ((if found then ['#'] else []) ++ anchor)))

def pathOf (address : String) : List Char := (partition '?' (partition '#' address.toList).1).1

def paramsOf (address : String) : List (List UInt8 × List UInt8) :=
  parseQsl (partition '?' (partition '#' address.toList).1).2.2

def anchorOf (address : String) : Option (List Char) :=
  let (_,found,anchor) := partition '#' address.toList
  if found then some anchor else none

def encode (text : String) : List UInt8 := text.toList.flatMap String.utf8EncodeChar

def noticeCount (address : String) : ℕ := (paramsOf address).countP fun p => p.1 = encode noticeQueryKey

section Confirmation

variable {u v : String}

/-- The address is `https` to a host of the set and to no other, for the parser of the server and for a browser. -/
structure Confirmation (u : String) : Prop where
  direct : ∃ host ∈ yookassaConfirmationHosts, Direct "https".toList host.toList u.toList ∧
    browserHost u.toList = host.toList
  clean : ∀ c ∈ u.toList, 0x20 ≤ c.toNat ∧ c.toNat < 0x7f ∧ c ≠ '\\'

theorem clean_iff_checks {cs : List Char} : (∀ c ∈ cs, 0x20 ≤ c.toNat ∧ c.toNat < 0x7f ∧ c ≠ '\\') ↔
    ¬cs.any isControl = true ∧ cs.all isAscii = true ∧ '\\' ∉ cs := by
  simp only [List.any_eq_true,List.all_eq_true,isControl,isAscii,Bool.or_eq_true,decide_eq_true_eq,not_exists,
    not_and,not_or]
  constructor
  · intro h
    refine ⟨fun c hc => ?_,fun c hc => ?_,fun hmem => (h _ hmem).2.2 rfl⟩
    · have := h c hc
      omega
    · have := h c hc
      omega
  · rintro ⟨hcontrol,hascii,hslash⟩ c hc
    have := hcontrol c hc
    have := hascii c hc
    refine ⟨by omega,by omega,?_⟩
    rintro rfl
    exact hslash hc

theorem confirmationUrl_ok (h : confirmationUrl u = .ok v) : v = u ∧ Confirmation u := by
  unfold confirmationUrl at h
  split_ifs at h with hcontrol hascii hslash
  have hclean := clean_iff_checks.mpr ⟨hcontrol,by simpa using hascii,hslash⟩
  have hcontrols : ∀ c ∈ u.toList, 0x20 ≤ c.toNat := fun c hc => (hclean c hc).1
  cases hparts : urlsplit u.toList with
  | none => simp [hparts] at h
  | some parts =>
    simp only [hparts] at h
    split_ifs at h with hscheme hat hhost
    · cases hport : parts.port with
      | none => simp [hport] at h
      | some port =>
        cases port with
        | some n => simp [hport] at h
        | none =>
          obtain ⟨host,hmem,hhostname⟩ := List.mem_map.mp hhost
          have hnames : ∀ host ∈ yookassaConfirmationHosts, host.toList ≠ [] ∧ host.toList.head? ≠ some 'v' ∧
              hostMarks.all (fun c => c ∉ host.toList) = true := by
            decide
          obtain ⟨hne,hv,hall⟩ := hnames host hmem
          have hmarks : ∀ c ∈ hostMarks, c ∉ host.toList := List.all_iff_forall_prop.mp hall
          have hscheme' : ∀ c ∈ hostMarks, c ∉ "https".toList := List.all_iff_forall_prop.mp (by decide)
          have hdirect : Direct "https".toList host.toList u.toList :=
            direct_of_urlsplit hparts hcontrols (not_not.mp hscheme) (by decide) hhostname.symm hmarks hv hat hport
          have hbrowser := browserHost_of_direct hdirect hcontrols hscheme' (by decide) hmarks hne
          rw [hport] at h
          exact ⟨(Except.ok.inj h).symm,⟨host,hmem,hdirect,hbrowser⟩,hclean⟩
    · split at h <;> cases h

end Confirmation

section Local

variable {p u code : String}

structure Local (cs : List Char) : Prop where
  slash : ∃ rest, cs = '/'::rest ∧ rest.head? ≠ some '/'
  clean : ∀ c ∈ cs, 0x20 ≤ c.toNat ∧ c.toNat < 0x7f ∧ c ≠ '\\'

theorem slash_iff_prefix {cs : List Char} : (∃ rest, cs = '/'::rest ∧ rest.head? ≠ some '/') ↔
    ['/'].isPrefixOf cs = true ∧ ¬['/','/'].isPrefixOf cs = true := by
  cases cs with
  | nil => simp
  | cons c cs =>
    cases cs with
    | nil => simp [List.isPrefixOf,beq_iff_eq,@eq_comm _ c]
    | cons d ds =>
      simp only [List.isPrefixOf,Bool.and_true,Bool.and_eq_true,beq_iff_eq,List.cons.injEq]
      constructor
      · rintro ⟨rest,⟨rfl,rfl⟩,hhead⟩
        exact ⟨rfl,fun h => hhead (by rw [← h.2]; rfl)⟩
      · rintro ⟨rfl,hnot⟩
        exact ⟨d::ds,⟨rfl,rfl⟩,fun hhead => hnot ⟨rfl,by simpa using hhead.symm⟩⟩

theorem localPath_eq_ok : localPath p = .ok u ↔ u = p ∧ Local p.toList := by
  have hlocal : Local p.toList ↔ (['/'].isPrefixOf p.toList = true ∧ ¬['/','/'].isPrefixOf p.toList = true) ∧
      ¬p.toList.any isControl = true ∧ p.toList.all isAscii = true ∧ '\\' ∉ p.toList := by
    rw [← slash_iff_prefix,← clean_iff_checks]
    exact ⟨fun h => ⟨h.slash,h.clean⟩,fun h => ⟨h.1,h.2⟩⟩
  rw [hlocal,localPath]
  split_ifs with hslash hback hcontrol hascii
  · simp only [Bool.or_eq_true,Bool.not_eq_true'] at hslash
    refine iff_of_false (by simp) ?_
    rintro ⟨-,⟨hfirst,hsecond⟩,-⟩
    exact hslash.elim (fun h => by simp [h] at hfirst) hsecond
  · exact iff_of_false (by simp) fun h => h.2.2.2.2 hback
  · exact iff_of_false (by simp) fun h => h.2.2.1 hcontrol
  · exact iff_of_false (by simp) fun h => by simp [h.2.2.2.1] at hascii
  · simp only [Bool.or_eq_true,Bool.not_eq_true',not_or,Bool.not_eq_false] at hslash
    simp only [Except.ok.injEq]
    exact ⟨fun h => ⟨h.symm,hslash,hcontrol,by simpa using hascii,hback⟩,fun h => h.1.symm⟩

structure PlainCode (code : String) : Prop where
  clean : ∀ c ∈ code.toList, 0x20 ≤ c.toNat ∧ c.toNat < 0x7f ∧ c ≠ '\\'
  marks : ∀ c ∈ ['#','&','+','%'], c ∉ code.toList

theorem plainCode_iff_all : PlainCode code ↔
    code.toList.all (fun c => 0x20 ≤ c.toNat ∧ c.toNat < 0x7f ∧ c ≠ '\\') = true ∧
      ['#','&','+','%'].all (fun c => c ∉ code.toList) = true := by
  rw [List.all_iff_forall_prop,List.all_iff_forall_prop]
  exact ⟨fun h => ⟨h.clean,h.marks⟩,fun h => ⟨h.1,h.2⟩⟩

instance : Decidable (PlainCode code) := decidable_of_iff' _ plainCode_iff_all

theorem plainCode_noticeQueryKey : PlainCode noticeQueryKey := by
  decide

theorem plainCode_of_mem (h : code ∈ noticeCodes) : PlainCode code := by
  have hall : ∀ code ∈ noticeCodes, PlainCode code := by
    decide +kernel
  exact hall code h

/-- The address is still local, and nothing of it is lost; the notice is the last of the parameters. -/
structure Noticed (p code u : String) : Prop where
  accepted : localPath u = .ok u
  path : pathOf u = pathOf p
  anchor : anchorOf u = anchorOf p
  params : paramsOf u = paramsOf p ++ [(encode noticeQueryKey,encode code)]

def parameter (code : String) : List Char := noticeQueryKey.toList ++ '='::code.toList

theorem PlainCode.parameter (h : PlainCode code) :
    (∀ c ∈ parameter code, 0x20 ≤ c.toNat ∧ c.toNat < 0x7f ∧ c ≠ '\\') ∧ '#' ∉ parameter code ∧
      '&' ∉ parameter code := by
  have hkey := plainCode_noticeQueryKey
  unfold Redirects.parameter
  refine ⟨?_,?_,?_⟩
  · intro c hc
    obtain hc | hc := List.mem_append.mp hc
    · exact hkey.clean c hc
    · obtain rfl | hc := List.mem_cons.mp hc
      · decide
      · exact h.clean c hc
  · simpa [hkey.marks '#' (by decide)] using h.marks '#' (by decide)
  · simpa [hkey.marks '&' (by decide)] using h.marks '&' (by decide)

theorem parseQsl_parameter (h : PlainCode code) :
    parseQsl (parameter code) = [(encode noticeQueryKey,encode code)] := by
  have hpair := parseQsl_pair noticeQueryKey.toList code.toList (by decide) h.parameter.2.2
  rw [unquotePlus_of_plain (by decide) (by decide),
    unquotePlus_of_plain (h.marks '+' (by decide)) (h.marks '%' (by decide))] at hpair
  exact hpair

/-- The separator begins a query, or goes on with the one that is there. -/
theorem partition_separator (before piece : List Char) :
    (partition '?' (before ++ (if '?' ∈ before then '&' else '?')::piece)).1 = (partition '?' before).1 ∧
      parseQsl (partition '?' (before ++ (if '?' ∈ before then '&' else '?')::piece)).2.2 =
        parseQsl (partition '?' before).2.2 ++ parseQsl piece := by
  by_cases h : '?' ∈ before
  · obtain ⟨path,query,rfl,hpath⟩ := List.eq_append_cons_of_mem h
    rw [if_pos h,List.append_assoc,List.cons_append,partition_append hpath,partition_append hpath]
    exact ⟨rfl,parseQsl_append query piece⟩
  · rw [if_neg h,partition_append h,partition_of_notMem h]
    exact ⟨rfl,rfl⟩

/-- Nothing before the anchor is replaced, so the address still begins with one slash. -/
theorem Local.insert {before piece after : List Char} (h : Local (before ++ after)) (hanchor : after.head? ≠ some '/')
    (hpiece : ∀ c ∈ piece, 0x20 ≤ c.toNat ∧ c.toNat < 0x7f ∧ c ≠ '\\') (hhead : piece.head?.any (· ≠ '/') = true) :
    Local (before ++ (piece ++ after)) := by
  refine ⟨?_,?_⟩
  · obtain ⟨rest,hrest,hsecond⟩ := h.slash
    cases before with
    | nil =>
      rw [List.nil_append] at hrest
      exact absurd (by rw [hrest]; rfl) hanchor
    | cons c cs =>
      obtain ⟨rfl,rfl⟩ := List.cons.inj hrest
      refine ⟨cs ++ (piece ++ after),rfl,?_⟩
      cases cs with
      | nil =>
        cases piece with
        | nil => simp at hhead
        | cons d ds => simpa using hhead
      | cons d ds => simpa using hsecond
  · intro c hc
    simp only [List.mem_append] at hc
    obtain hc | hc | hc := hc
    · exact h.clean c (List.mem_append_left _ hc)
    · exact hpiece c hc
    · exact h.clean c (List.mem_append_right _ hc)

theorem anchor_head (cs : List Char) :
    ((if (partition '#' cs).2.1 then ['#'] else []) ++ (partition '#' cs).2.2).head? ≠ some '/' := by
  by_cases hmem : '#' ∈ cs
  · obtain ⟨before,after,rfl,hbefore⟩ := List.eq_append_cons_of_mem hmem
    rw [partition_append hbefore]
    simp
  · rw [partition_of_notMem hmem]
    simp

theorem separator_clean (before : List Char) {c : Char} (hc : c = if '?' ∈ before then '&' else '?') :
    (0x20 ≤ c.toNat ∧ c.toNat < 0x7f ∧ c ≠ '\\') ∧ c ≠ '#' ∧ c ≠ '/' := by
  split_ifs at hc
  · subst hc
    decide
  · subst hc
    decide

theorem withNotice_noticed (hp : localPath p = .ok p) (hcode : PlainCode code) :
    ∃ u, withNotice p (some code) = .ok u ∧ Noticed p code u := by
  obtain ⟨hclean,hhash,-⟩ := hcode.parameter
  obtain ⟨hnone,hparts⟩ := partition_spec '#' p.toList
  have hlocal := (localPath_eq_ok.mp hp).2
  let separator := if '?' ∈ (partition '#' p.toList).1 then '&' else '?'
  obtain ⟨hseparator,hnohash,hnoslash⟩ := separator_clean (partition '#' p.toList).1 (c := separator) rfl
  let u := String.ofList ((partition '#' p.toList).1 ++ separator::parameter code ++
    ((if (partition '#' p.toList).2.1 then ['#'] else []) ++ (partition '#' p.toList).2.2))
  have hpiece : '#' ∉ (partition '#' p.toList).1 ++ separator::parameter code := by
    rw [List.mem_append,List.mem_cons,not_or,not_or]
    exact ⟨hnone,hnohash.symm,hhash⟩
  have hsplit : partition '#' u.toList =
      ((partition '#' p.toList).1 ++ separator::parameter code,(partition '#' p.toList).2) := by
    rw [String.toList_ofList]
    exact partition_replace hpiece p.toList
  have haccepted : localPath u = .ok u := by
    rw [localPath_eq_ok,String.toList_ofList,List.append_assoc]
    rw [hparts] at hlocal
    refine ⟨rfl,hlocal.insert (anchor_head p.toList) ?_ ?_⟩
    · exact List.forall_mem_cons.mpr ⟨hseparator,hclean⟩
    · simpa using hnoslash
  refine ⟨u,haccepted,haccepted,?_,?_,?_⟩
  · rw [pathOf,hsplit]
    exact (partition_separator _ _).1
  · rw [anchorOf,hsplit]
    rfl
  · rw [paramsOf,hsplit,← parseQsl_parameter hcode]
    exact (partition_separator _ _).2

theorem Noticed.count (h : Noticed p code u) : noticeCount u = noticeCount p+1 := by
  rw [noticeCount,h.params,List.countP_append]
  simp [noticeCount]

/-- Whatever is accepted as the address of the payment page leads there, and a notice that is added to a local address
leaves it what it is. -/
theorem redirects_go_only_where_they_may (u v p code : String) (hu : confirmationUrl u = .ok v)
    (hp : localPath p = .ok p) (hcode : code ∈ noticeCodes) : v = u ∧ Confirmation u ∧
      ∃ q, withNotice p (some code) = .ok q ∧ Noticed p code q ∧ noticeCount q = noticeCount p+1 := by
  obtain ⟨heq,hconfirmation⟩ := confirmationUrl_ok hu
  obtain ⟨q,hq,hnoticed⟩ := withNotice_noticed hp (plainCode_of_mem hcode)
  exact ⟨heq,hconfirmation,q,hq,hnoticed,hnoticed.count⟩

theorem redirects_go_only_where_they_may_schedule :
    Confirmation "  HTTPS://yoomoney.ru:/checkout?orderId=1" ∧
      withNotice "/ads/5/edit?sched=7#sched-7" (some "profile_saved") =
        .ok "/ads/5/edit?sched=7&notice=profile_saved#sched-7" ∧
      Noticed "/ads/5/edit?sched=7#sched-7" "profile_saved" "/ads/5/edit?sched=7&notice=profile_saved#sched-7" := by
  obtain ⟨-,hconfirmation,q,hq,hnoticed,-⟩ := redirects_go_only_where_they_may
    "  HTTPS://yoomoney.ru:/checkout?orderId=1" "  HTTPS://yoomoney.ru:/checkout?orderId=1"
    "/ads/5/edit?sched=7#sched-7" "profile_saved" (by decide +kernel) (by decide +kernel) (by decide)
  have haddress : withNotice "/ads/5/edit?sched=7#sched-7" (some "profile_saved") =
      .ok "/ads/5/edit?sched=7&notice=profile_saved#sched-7" := by
    decide +kernel
  obtain rfl := Except.ok.inj (hq.symm.trans haddress)
  exact ⟨hconfirmation,haddress,hnoticed⟩

/-- A local address that carries a notice already gets a second one. -/
theorem notice_added_twice : ¬∀ p code, localPath p = .ok p → code ∈ noticeCodes →
    ∃ u, withNotice p (some code) = .ok u ∧ noticeCount u = 1 := by
  intro h
  obtain ⟨u,hu,hcount⟩ := h "/history?notice=retry_busy" "retry_queued" (by decide +kernel) (by decide)
  have haddress : withNotice "/history?notice=retry_busy" (some "retry_queued") =
      .ok "/history?notice=retry_busy&notice=retry_queued" := by
    decide +kernel
  obtain rfl := Except.ok.inj (hu.symm.trans haddress)
  exact absurd hcount (by decide +kernel)

end Local

end Redirects
end Broadcaster
