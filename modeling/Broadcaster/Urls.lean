import Mathlib.Data.Bool.AllAny
import Mathlib.Data.List.Basic
import Mathlib.Data.List.TakeWhile
import Mathlib.Data.Nat.Notation

/-!
# Addresses

`urllib.parse.urlsplit` on ASCII addresses, the parameters of a query as a
server reads them, and the host to which a browser goes.
-/

namespace Broadcaster
namespace Urls

/-- `text.partition(sep)`: what stands before the first separator, whether there is one, and what follows it. -/
def partition (sep : Char) (cs : List Char) : List Char × Bool × List Char :=
  match cs.dropWhile (· ≠ sep) with
  | [] => (cs,false,[])
  | _::after => (cs.takeWhile (· ≠ sep),true,after)

/-- `text.rpartition(sep)[2]` -/
def afterLast (sep : Char) (cs : List Char) : List Char := (cs.reverse.takeWhile (· ≠ sep)).reverse

/-- `text.lower()` of ASCII -/
def lower (cs : List Char) : List Char := cs.map Char.toLower

def isHex (c : Char) : Bool := c.isDigit || ('a' ≤ c && c ≤ 'f') || ('A' ≤ c && c ≤ 'F')

/-- `IPv4Address._parse_octet` -/
def isOctet (cs : List Char) : Bool :=
  cs ≠ [] && cs.all Char.isDigit && cs.length ≤ 3 && (cs = ['0'] || cs.head? ≠ some '0') &&
    cs.foldl (fun n c => 10*n+(c.toNat-48)) 0 ≤ 255

def isIPv4 (cs : List Char) : Bool := (cs.splitOn '.').length = 4 && (cs.splitOn '.').all isOctet

def isHextet (cs : List Char) : Bool := cs ≠ [] && cs.all isHex && cs.length ≤ 4

/-- The parts between the colons: with one gap `::`, or eight of them. -/
def areHextets (parts : List (List Char)) : Bool :=
  let gaps := (List.range parts.length).filter fun i => 0 < i ∧ i+1 < parts.length ∧ parts[i]? = some []
  match gaps with
  | [] => parts.length = 8 && parts.all isHextet
  | [i] =>
    let hi := if parts.head? = some [] then i-1 else i
    let lo := if parts.getLast? = some [] then parts.length-i-2 else parts.length-i-1
    (parts.head? ≠ some [] || hi = 0) && (parts.getLast? ≠ some [] || lo = 0) && hi+lo < 8 &&
      (parts.take hi).all isHextet && (parts.drop (parts.length-lo)).all isHextet
  | _ => false

/-- `IPv6Address(text)` raises no error. -/
def isIPv6 (cs : List Char) : Bool :=
  let (address,found,scope) := partition '%' cs
  let parts := address.splitOn ':'
  let last := parts.getLastD []
  let parts' := if '.' ∈ last then parts.dropLast ++ [['0'],['0']] else parts
  '/' ∉ cs && (!found || (scope ≠ [] && '%' ∉ scope)) && 3 ≤ parts.length &&
    ('.' ∉ last || isIPv4 last) && parts'.length ≤ 9 && areHextets parts'

def checkBracketedHost : List Char → Bool
  | 'v'::cs =>
    let (version,found,address) := partition '.' cs
    version ≠ [] && version.all isHex && found && address ≠ [] && '\n' ∉ address
  | hostname => isIPv6 hostname

def checkBracketedNetloc (netloc : List Char) : Bool :=
  let (before,found,bracketed) := partition '[' (afterLast '@' netloc)
  if found then
    let (hostname,_,port) := partition ']' bracketed
    before = [] && (port = [] || port.head? = some ':') && checkBracketedHost hostname
  else checkBracketedHost (partition ':' (afterLast '@' netloc)).1

structure SplitResult where
  scheme : List Char
  netloc : List Char
  path : List Char
  query : List Char
  fragment : List Char

def c0OrSpace (c : Char) : Bool := c.toNat ≤ 0x20

def schemeChar (c : Char) : Bool := c.isAlphanum || c = '+' || c = '-' || c = '.'

/-- Neither `/` nor `?` nor `#` -/
def inNetloc (c : Char) : Bool := c ≠ '/' && c ≠ '?' && c ≠ '#'

def splitScheme (url : List Char) : List Char × List Char :=
  let (scheme,found,rest) := partition ':' url
  if found ∧ scheme.head?.any Char.isAlpha ∧ scheme.all schemeChar then (lower scheme,rest) else ([],url)

/-- `urlsplit(url)`; `none` is a `ValueError`. -/
def urlsplit (url : List Char) : Option SplitResult :=
  let url := (url.dropWhile c0OrSpace).filter fun c => c ≠ '\t' && c ≠ '\r' && c ≠ '\n'
  let (scheme,url) := splitScheme url
  let netloc := if ['/','/'].isPrefixOf url then (url.drop 2).takeWhile inNetloc else []
  let url := if ['/','/'].isPrefixOf url then (url.drop 2).dropWhile inNetloc else url
  let (url',_,fragment) := partition '#' url
  let (path,_,query) := partition '?' url'
  if decide ('[' ∈ netloc) ≠ decide (']' ∈ netloc) then none
  else if '[' ∈ netloc ∧ !checkBracketedNetloc netloc then none
  else some ⟨scheme,netloc,path,query,fragment⟩

def hostinfo (netloc : List Char) : List Char × List Char :=
  let (_,found,bracketed) := partition '[' (afterLast '@' netloc)
  if found then
    let (hostname,_,port) := partition ']' bracketed
    (hostname,(partition ':' port).2.2)
  else
    let (hostname,_,port) := partition ':' (afterLast '@' netloc)
    (hostname,port)

def SplitResult.hostname (r : SplitResult) : Option (List Char) :=
  let hostname := (hostinfo r.netloc).1
  if hostname = [] then none
  else
    let (hostname,percent,zone) := partition '%' hostname
    some (lower hostname ++ (if percent then '%'::zone else []))

/-- The outer `none` is a `ValueError`. -/
def SplitResult.port (r : SplitResult) : Option (Option ℕ) :=
  let port := (hostinfo r.netloc).2
  if port = [] then some none
  else if port.all Char.isDigit then
    let n := port.foldl (fun n c => 10*n+(c.toNat-48)) 0
    if n ≤ 65535 then some (some n) else none
  else none

def hexValue (c : Char) : Option ℕ :=
  if c.isDigit then some (c.toNat-48)
  else if 'a' ≤ c ∧ c ≤ 'f' then some (c.toNat-87)
  else if 'A' ≤ c ∧ c ≤ 'F' then some (c.toNat-55)
  else none

/-- The bytes of `unquote_plus(text)` -/
def unquotePlus : List Char → List UInt8
  | [] => []
  | '+'::cs => 32::unquotePlus cs
  | '%'::a::b::cs =>
    match hexValue a, hexValue b with
    | some m, some n => UInt8.ofNat (16*m+n)::unquotePlus cs
    | _, _ => 37::unquotePlus (a::b::cs)
  | c::cs => String.utf8EncodeChar c ++ unquotePlus cs

/-- `parse_qsl(query, keep_blank_values=True)` -/
def parseQsl (query : List Char) : List (List UInt8 × List UInt8) :=
  ((query.splitOn '&').filter (· ≠ [])).map fun piece =>
    let (name,_,value) := partition '=' piece
    (unquotePlus name,unquotePlus value)

/-- The host ends at the first colon outside of brackets. -/
def hostPart : Bool → List Char → List Char
  | _, [] => []
  | inside, c::cs =>
    if c = ':' ∧ !inside then [] else c::hostPart ((inside || c = '[') && c ≠ ']') cs

/-- The host of an address with a scheme that has one: slashes of both kinds are skipped, then the authority reaches
to the next of them, a question mark or a hash, and what stands before its last `@` is no host. -/
def browserHost (url : List Char) : List Char :=
  let url := ((url.dropWhile c0OrSpace).reverse.dropWhile c0OrSpace).reverse.filter fun c =>
    c ≠ '\t' && c ≠ '\r' && c ≠ '\n'
  let rest := (partition ':' url).2.2.dropWhile fun c => c = '/' || c = '\\'
  lower (hostPart false (afterLast '@' (rest.takeWhile fun c => inNetloc c && c ≠ '\\')))

section Parts

variable {sep : Char} {cs before after : List Char}

theorem partition_of_notMem (h : sep ∉ cs) : partition sep cs = (cs,false,[]) := by
  have hdrop : cs.dropWhile (· ≠ sep) = [] := by
    rw [List.dropWhile_eq_nil_iff]
    intro c hc
    exact decide_eq_true fun heq => h (heq ▸ hc)
  simp only [partition,hdrop]

theorem partition_append (h : sep ∉ before) : partition sep (before ++ sep::after) = (before,true,after) := by
  have hbefore : ∀ c ∈ before, decide (c ≠ sep) = true := by
    intro c hc
    exact decide_eq_true fun heq => h (heq ▸ hc)
  have hdrop : (before ++ sep::after).dropWhile (· ≠ sep) = sep::after := by
    rw [List.dropWhile_append_of_pos hbefore]
    simp
  have htake : (before ++ sep::after).takeWhile (· ≠ sep) = before := by
    rw [List.takeWhile_append_of_pos hbefore]
    simp
  simp only [partition,hdrop,htake]

theorem partition_spec (sep : Char) (cs : List Char) : sep ∉ (partition sep cs).1 ∧
    cs = (partition sep cs).1 ++ ((if (partition sep cs).2.1 then [sep] else []) ++ (partition sep cs).2.2) := by
  by_cases hsep : sep ∈ cs
  · obtain ⟨before,after,rfl,hbefore⟩ := List.eq_append_cons_of_mem hsep
    rw [partition_append hbefore]
    exact ⟨hbefore,rfl⟩
  · rw [partition_of_notMem hsep]
    exact ⟨hsep,by simp⟩

theorem partition_replace (h : sep ∉ before) (cs : List Char) : partition sep
    (before ++ ((if (partition sep cs).2.1 then [sep] else []) ++ (partition sep cs).2.2)) =
      (before,(partition sep cs).2) := by
  by_cases hsep : sep ∈ cs
  · obtain ⟨front,after,rfl,hfront⟩ := List.eq_append_cons_of_mem hsep
    rw [partition_append hfront]
    exact partition_append h
  · rw [partition_of_notMem hsep]
    simpa using partition_of_notMem h

theorem mem_of_mem_partition {c : Char} (h : c ∈ (partition sep cs).1) : c ∈ cs := by
  by_cases hsep : sep ∈ cs
  · obtain ⟨before,after,rfl,hbefore⟩ := List.eq_append_cons_of_mem hsep
    rw [partition_append hbefore] at h
    exact List.mem_append_left _ h
  · rwa [partition_of_notMem hsep] at h

theorem afterLast_of_notMem (h : sep ∉ cs) : afterLast sep cs = cs := by
  have hall : ∀ c ∈ cs.reverse, decide (c ≠ sep) = true := by
    intro c hc
    exact decide_eq_true fun heq => h (heq ▸ List.mem_reverse.mp hc)
  rw [afterLast,List.takeWhile_eq_self_iff.mpr hall,List.reverse_reverse]

theorem not_mem_of_lower (hsep : sep.toLower = sep) (h : sep ∉ lower cs) : sep ∉ cs :=
  fun hmem => h (hsep ▸ List.mem_map_of_mem hmem)

end Parts

section Parameters

theorem unquotePlus_of_plain {cs : List Char} (hplus : '+' ∉ cs) (hpercent : '%' ∉ cs) :
    unquotePlus cs = cs.flatMap String.utf8EncodeChar := by
  induction cs with
  | nil => rfl
  | cons c cs ih =>
    rw [List.mem_cons,not_or] at hplus hpercent
    rw [List.flatMap_cons,← ih hplus.2 hpercent.2,unquotePlus]
    · exact Ne.symm hplus.1
    · intro a b rest heq
      exact absurd heq.symm hpercent.1

theorem parseQsl_append (query piece : List Char) :
    parseQsl (query ++ '&'::piece) = parseQsl query ++ parseQsl piece := by
  rw [parseQsl,List.splitOn_append_cons_self,List.filter_append,List.map_append]
  rfl

theorem parseQsl_pair (name value : List Char) (hname : '=' ∉ name) (hamp : '&' ∉ name ++ '='::value) :
    parseQsl (name ++ '='::value) = [(unquotePlus name,unquotePlus value)] := by
  rw [parseQsl,List.splitOn_eq_singleton hamp]
  simp [partition_append hname]

end Parameters

def hostMarks : List Char := [':','[',']','@','/','\\','?','#',' ','%']

/-- After spaces the scheme, `//`, the host and perhaps a colon, and then the end or a path, a query or an anchor -/
inductive Direct (scheme host : List Char) : List Char → Prop
  | mk (n : ℕ) {s h colon tail : List Char} (hscheme : lower s = scheme) (hhost : lower h = host)
      (hcolon : colon = [] ∨ colon = [':']) (htail : tail.head?.all (fun c => !inNetloc c) = true) :
      Direct scheme host (List.replicate n ' ' ++ (s ++ ':' :: '/' :: '/' :: (h ++ (colon ++ tail))))

section Split

variable {url scheme host : List Char} {r : SplitResult}

theorem colon_mem_of_isIPv6 {cs : List Char} (h : isIPv6 cs = true) : ':' ∈ cs := by
  by_contra hcolon
  have haddress : ':' ∉ (partition '%' cs).1 := fun hmem => hcolon (mem_of_mem_partition hmem)
  have hparts := List.splitOn_eq_singleton haddress
  simp [isIPv6,hparts] at h

theorem lower_of_hostname (h : r.hostname = some host) (hpercent : '%' ∉ host) :
    lower (hostinfo r.netloc).1 = host ∧ (hostinfo r.netloc).1 ≠ [] := by
  unfold SplitResult.hostname at h
  by_cases hne : (hostinfo r.netloc).1 = []
  · simp [hne] at h
  · refine ⟨?_,hne⟩
    simp only [hne,if_false,Option.some.injEq] at h
    by_cases hmem : '%' ∈ (hostinfo r.netloc).1
    · obtain ⟨before,zone,heq,hbefore⟩ := List.eq_append_cons_of_mem hmem
      rw [heq,partition_append hbefore] at h
      exact absurd (h ▸ List.mem_append_right _ List.mem_cons_self) hpercent
    · rw [partition_of_notMem hmem] at h
      simpa using h

/-- In brackets stands an IPv6 address or one of a later version: no name. -/
theorem no_bracket {netloc : List Char} (hcheck : checkBracketedNetloc netloc = true) (hat : '@' ∉ netloc)
    (hcolon : ':' ∉ (hostinfo netloc).1) (hv : (hostinfo netloc).1.head? ≠ some 'v') : '[' ∉ netloc := by
  intro hmem
  obtain ⟨before,bracketed,rfl,hbefore⟩ := List.eq_append_cons_of_mem hmem
  rw [checkBracketedNetloc,afterLast_of_notMem hat,partition_append hbefore] at hcheck
  rw [hostinfo,afterLast_of_notMem hat,partition_append hbefore] at hcolon hv
  simp only [if_true,Bool.and_eq_true] at hcheck hcolon hv
  have hhost := hcheck.2
  unfold checkBracketedHost at hhost
  split at hhost
  · next hcs => exact hv (by rw [hcs]; rfl)
  · exact hcolon (colon_mem_of_isIPv6 hhost)

theorem hostinfo_of_plain {netloc : List Char} (hat : '@' ∉ netloc) (hbracket : '[' ∉ netloc)
    (hport : (hostinfo netloc).2 = []) :
    ∃ colon, (colon = [] ∨ colon = [':']) ∧ netloc = (hostinfo netloc).1 ++ colon := by
  rw [hostinfo,afterLast_of_notMem hat,partition_of_notMem hbracket] at hport ⊢
  simp only [Bool.false_eq_true,if_false] at hport ⊢
  by_cases hcolon : ':' ∈ netloc
  · obtain ⟨before,after,rfl,hbefore⟩ := List.eq_append_cons_of_mem hcolon
    rw [partition_append hbefore] at hport ⊢
    simp only at hport
    exact ⟨[':'],.inr rfl,by rw [hport]⟩
  · rw [partition_of_notMem hcolon]
    exact ⟨[],.inl rfl,by simp⟩

theorem port_none (h : r.port = some none) : (hostinfo r.netloc).2 = [] := by
  unfold SplitResult.port at h
  by_contra hne
  simp only [hne,if_false] at h
  split_ifs at h
  cases h

theorem dropWhile_spaces (hcontrol : ∀ c ∈ url, 0x20 ≤ c.toNat) :
    ∃ n, url = List.replicate n ' ' ++ url.dropWhile c0OrSpace := by
  have hspaces : url.takeWhile c0OrSpace = List.replicate (url.takeWhile c0OrSpace).length ' ' := by
    rw [List.eq_replicate_iff]
    refine ⟨rfl,fun c hc => ?_⟩
    have hspace : c0OrSpace c = true := List.mem_takeWhile_imp hc
    have hle : c.toNat ≤ 0x20 := of_decide_eq_true hspace
    have hge := hcontrol c ((List.takeWhile_sublist _).subset hc)
    have heq : c.toNat = 0x20 := by
      omega
    rw [← Char.ofNat_toNat c,heq]
  refine ⟨(url.takeWhile c0OrSpace).length,?_⟩
  rw [← hspaces,List.takeWhile_append_dropWhile]

theorem filter_controls {cs : List Char} (hcontrol : ∀ c ∈ cs, 0x20 ≤ c.toNat) :
    cs.filter (fun c => c ≠ '\t' && c ≠ '\r' && c ≠ '\n') = cs := by
  rw [List.filter_eq_self]
  intro c hc
  have hge := hcontrol c hc
  simp only [Bool.and_eq_true,decide_eq_true_eq]
  refine ⟨⟨?_,?_⟩,?_⟩ <;> rintro rfl <;> exact absurd hge (by decide)

theorem splitScheme_cases (h : (splitScheme url).1 ≠ []) :
    ∃ s, url = s ++ ':'::(splitScheme url).2 ∧ (splitScheme url).1 = lower s := by
  unfold splitScheme at *
  by_cases hcolon : ':' ∈ url
  · obtain ⟨s,rest,rfl,hs⟩ := List.eq_append_cons_of_mem hcolon
    rw [partition_append hs] at h ⊢
    simp only at h ⊢
    split_ifs at h ⊢ with hscheme
    · exact ⟨s,rfl,rfl⟩
    · exact absurd rfl h
  · rw [partition_of_notMem hcolon] at h
    simp at h

theorem urlsplit_some (h : urlsplit url = some r) (hcontrol : ∀ c ∈ url, 0x20 ≤ c.toNat) :
    r.scheme = (splitScheme (url.dropWhile c0OrSpace)).1 ∧
      (r.netloc ≠ [] → (splitScheme (url.dropWhile c0OrSpace)).2 = '/' :: '/' :: (r.netloc ++
        (((splitScheme (url.dropWhile c0OrSpace)).2.drop 2).dropWhile inNetloc))) ∧
      ('[' ∈ r.netloc → checkBracketedNetloc r.netloc = true) := by
  have hcontrol' : ∀ c ∈ url.dropWhile c0OrSpace, 0x20 ≤ c.toNat :=
    fun c hc => hcontrol c ((List.dropWhile_sublist _).subset hc)
  unfold urlsplit at h
  simp only [filter_controls hcontrol'] at h
  generalize splitScheme (url.dropWhile c0OrSpace) = split at h ⊢
  obtain ⟨scheme,rest⟩ := split
  by_cases hslashes : ['/','/'].isPrefixOf rest = true
  · simp only [hslashes,if_true] at h
    split_ifs at h with hbrackets hcheck
    obtain ⟨after,hrest⟩ := List.isPrefixOf_iff_prefix.mp hslashes
    obtain rfl := Option.some.inj h
    refine ⟨rfl,fun _ => ?_,fun hmem => ?_⟩
    · simp [← hrest]
    · simpa [hmem] using hcheck
  · simp only [hslashes,Bool.false_eq_true,if_false] at h
    split_ifs at h with hbrackets hcheck
    obtain rfl := Option.some.inj h
    exact ⟨rfl,fun hne => absurd rfl hne,fun hmem => absurd hmem (by simp)⟩

theorem direct_of_urlsplit (h : urlsplit url = some r) (hcontrol : ∀ c ∈ url, 0x20 ≤ c.toNat)
    (hscheme : r.scheme = scheme) (hne : scheme ≠ []) (hhost : r.hostname = some host)
    (hmarks : ∀ c ∈ hostMarks, c ∉ host) (hv : host.head? ≠ some 'v') (hat : '@' ∉ r.netloc)
    (hport : r.port = some none) : Direct scheme host url := by
  obtain ⟨n,hurl⟩ := dropWhile_spaces hcontrol
  obtain ⟨hsplit,hnetloc,hcheck⟩ := urlsplit_some h hcontrol
  obtain ⟨hlower,hhostne⟩ := lower_of_hostname hhost (hmarks '%' (by decide))
  obtain ⟨s,hs,hlowers⟩ := splitScheme_cases (hsplit ▸ hscheme ▸ hne)
  have hbracket : '[' ∉ r.netloc := by
    intro hmem
    refine no_bracket (hcheck hmem) hat ?_ ?_ hmem
    · exact not_mem_of_lower rfl (hlower ▸ hmarks ':' (by decide))
    · intro hhead
      refine hv ?_
      rw [← hlower,lower,List.head?_map,hhead]
      rfl
  obtain ⟨colon,hcolon,hparts⟩ := hostinfo_of_plain hat hbracket (port_none hport)
  have hnetne : r.netloc ≠ [] := by
    rw [hparts]
    simp [hhostne]
  rw [hurl,hs,hnetloc hnetne,hparts,List.append_assoc]
  refine .mk n (hlowers ▸ hsplit ▸ hscheme) hlower hcolon ?_
  have hdrop := List.head?_dropWhile_not inNetloc ((splitScheme (url.dropWhile c0OrSpace)).2.drop 2)
  cases hhead : (((splitScheme (url.dropWhile c0OrSpace)).2.drop 2).dropWhile inNetloc).head? with
  | none => rfl
  | some c =>
    rw [hhead] at hdrop
    simpa using hdrop

theorem stripFront_append {p : Char → Bool} {space : Char} (hspace : p space = true) (n : ℕ) {cs : List Char}
    (hne : cs ≠ []) (hcs : ∀ c ∈ cs, p c = false) (rest : List Char) :
    (List.replicate n space ++ (cs ++ rest)).dropWhile p = cs ++ rest := by
  rw [List.dropWhile_append_of_pos fun c hc => List.eq_of_mem_replicate hc ▸ hspace]
  cases cs with
  | nil => exact absurd rfl hne
  | cons c cs => simp [hcs c List.mem_cons_self]

theorem stripEnd_append {p : Char → Bool} (before after : List Char) {cs : List Char} (hne : cs ≠ [])
    (hcs : ∀ c ∈ cs, p c = false) : ((before ++ (cs ++ after)).reverse.dropWhile p).reverse =
      before ++ (cs ++ (after.reverse.dropWhile p).reverse) := by
  obtain ⟨init,c,rfl⟩ := (List.eq_nil_or_concat cs).resolve_left hne
  have hc : p c = false := hcs c (by simp)
  have hreverse : (before ++ (init.concat c ++ after)).reverse = after.reverse ++ c::(before ++ init).reverse := by
    simp
  rw [hreverse,List.dropWhile_append]
  split_ifs with hempty
  · rw [List.isEmpty_iff] at hempty
    simp [hempty,hc]
  · simp

theorem stripEnd_prefix (p : Char → Bool) (cs : List Char) : (cs.reverse.dropWhile p).reverse <+: cs := by
  rw [← List.reverse_suffix,List.reverse_reverse]
  exact List.dropWhile_suffix p

theorem hostPart_append {h colon : List Char} (hcolon : colon = [] ∨ colon = [':']) (hh : ':' ∉ h) (hb : '[' ∉ h) :
    hostPart false (h ++ colon) = h := by
  induction h with
  | nil =>
    obtain rfl | rfl := hcolon
    · rfl
    · rfl
  | cons c cs ih =>
    rw [List.mem_cons,not_or] at hh hb
    rw [List.cons_append,hostPart]
    simp [Ne.symm hh.1,Ne.symm hb.1,ih hh.2 hb.2]

theorem takeWhile_authority {h tail : List Char} {p : Char → Bool} (hh : ∀ c ∈ h, p c = true)
    (htail : tail.head?.all (fun c => !p c) = true) : (h ++ tail).takeWhile p = h := by
  rw [List.takeWhile_append_of_pos hh]
  cases tail with
  | nil => simp
  | cons c cs =>
    have hc : p c = false := by
      simpa using htail
    simp [hc]

theorem not_c0OrSpace {c : Char} (hc : 0x20 ≤ c.toNat) (hne : c ≠ ' ') : c0OrSpace c = false := by
  refine decide_eq_false fun hle => hne ?_
  have heq : c.toNat = 0x20 := Nat.le_antisymm hle hc
  rw [← Char.ofNat_toNat c,heq]

theorem authority_chars {h colon : List Char} (hh : ∀ c ∈ hostMarks, c ∉ h) (hcolon : colon = [] ∨ colon = [':'])
    (hcontrol : ∀ c ∈ h, 0x20 ≤ c.toNat) :
    ∀ c ∈ h ++ colon, c0OrSpace c = false ∧ (inNetloc c && c ≠ '\\') = true ∧ c ≠ '@' := by
  intro c hc
  obtain hc | hc := List.mem_append.mp hc
  · have hother : ∀ d ∈ hostMarks, c ≠ d := by
      rintro d hd rfl
      exact hh c hd hc
    refine ⟨not_c0OrSpace (hcontrol c hc) (hother ' ' (by decide)),?_,hother '@' (by decide)⟩
    simp [inNetloc,hother '/' (by decide),hother '?' (by decide),hother '#' (by decide),hother '\\' (by decide)]
  · obtain rfl | rfl := hcolon
    · cases hc
    · obtain rfl := List.mem_singleton.mp hc
      decide

theorem head_of_stripped {tail : List Char} (htail : tail.head?.all (fun c => !inNetloc c) = true) :
    (tail.reverse.dropWhile c0OrSpace).reverse.head?.all (fun c => !(inNetloc c && c ≠ '\\')) = true := by
  obtain ⟨rest,hrest⟩ := stripEnd_prefix c0OrSpace tail
  generalize (tail.reverse.dropWhile c0OrSpace).reverse = kept at hrest
  cases kept with
  | nil => rfl
  | cons c cs =>
    have hc : inNetloc c = false := by
      simpa [← hrest] using htail
    simp [hc]

theorem skip_slashes {cs : List Char} (hne : cs ≠ []) (hcs : ∀ c ∈ cs, (inNetloc c && c ≠ '\\') = true)
    (rest : List Char) : ('/' :: '/' :: (cs ++ rest)).dropWhile (fun c => c = '/' || c = '\\') = cs ++ rest := by
  cases cs with
  | nil => exact absurd rfl hne
  | cons c cs =>
    have hc := hcs c List.mem_cons_self
    simp only [inNetloc,Bool.and_eq_true,decide_eq_true_eq] at hc
    simp [hc.1.1.1,hc.2]

theorem hostMarks_toLower : ∀ c ∈ hostMarks, c.toLower = c := List.all_iff_forall_prop.mp (by decide)

theorem lower_ne_nil {cs : List Char} (h : lower cs ≠ []) : cs ≠ [] := by
  rintro rfl
  exact h rfl

theorem browserHost_of_direct (h : Direct scheme host url) (hcontrol : ∀ c ∈ url, 0x20 ≤ c.toNat)
    (hscheme : ∀ c ∈ hostMarks, c ∉ scheme) (hne : scheme ≠ []) (hmarks : ∀ c ∈ hostMarks, c ∉ host)
    (hnehost : host ≠ []) : browserHost url = host := by
  cases h with
  | @mk n s h colon tail hs hh hcolon htail =>
    subst hs hh
    have hsmarks : ∀ c ∈ hostMarks, c ∉ s := fun c hc => not_mem_of_lower (hostMarks_toLower c hc) (hscheme c hc)
    have hhmarks : ∀ c ∈ hostMarks, c ∉ h := fun c hc => not_mem_of_lower (hostMarks_toLower c hc) (hmarks c hc)
    have hauthority := authority_chars hhmarks hcolon fun c hc => hcontrol c (by simp [hc])
    have hnotempty : h ++ colon ≠ [] := by
      simp [lower_ne_nil hnehost]
    have hschemechars : ∀ c ∈ s, c0OrSpace c = false := by
      intro c hc
      refine not_c0OrSpace (hcontrol c (by simp [hc])) ?_
      rintro rfl
      exact hsmarks ' ' (by decide) hc
    -- the spaces in front go, and those at the end, where the host and the colon stay
    have hfront := stripFront_append (p := c0OrSpace) (show c0OrSpace ' ' = true from rfl) n (lower_ne_nil hne) hschemechars
      (':' :: '/' :: '/' :: (h ++ (colon ++ tail)))
    have hend : ((s ++ ':' :: '/' :: '/' :: (h ++ (colon ++ tail))).reverse.dropWhile c0OrSpace).reverse =
        s ++ ':' :: '/' :: '/' :: ((h ++ colon) ++ (tail.reverse.dropWhile c0OrSpace).reverse) := by
      have hstrip := stripEnd_append (s ++ [':','/','/']) tail hnotempty fun c hc => (hauthority c hc).1
      simpa using hstrip
    have hkept := head_of_stripped htail
    obtain ⟨rest,hrest⟩ := stripEnd_prefix c0OrSpace tail
    generalize (tail.reverse.dropWhile c0OrSpace).reverse = kept at hend hkept hrest
    have hcontrols : ∀ c ∈ s ++ ':' :: '/' :: '/' :: ((h ++ colon) ++ kept), 0x20 ≤ c.toNat := by
      intro c hc
      refine hcontrol c (List.mem_append_right _ ?_)
      simp only [← hrest,List.mem_append,List.mem_cons] at hc ⊢
      tauto
    unfold browserHost
    simp only [hfront,hend,filter_controls hcontrols,partition_append (hsmarks ':' (by decide)),
      skip_slashes hnotempty (fun c hc => (hauthority c hc).2.1) kept]
    rw [takeWhile_authority (fun c hc => (hauthority c hc).2.1) hkept,
      afterLast_of_notMem fun hmem => (hauthority '@' hmem).2.2 rfl,
      hostPart_append hcolon (hhmarks ':' (by decide)) (hhmarks '[' (by decide))]

end Split

end Urls
end Broadcaster
