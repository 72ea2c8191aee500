import AsmFlow.Http.Response

/-!
# The policy of provider URLs

`af_cfg_url_check` cuts the host out of a URL by hand and classifies it. What may be reached
without TLS is stated here by the grammar of the authority, and the two are compared.
-/

namespace AsmFlow.Config

open Http (ascii)

/-! ## Addresses -/

structure Ipv4 where
  a : UInt8
  b : UInt8
  c : UInt8
  d : UInt8
  deriving DecidableEq, Repr

structure Ipv6 where
  bytes : List UInt8
  length : bytes.length = 16
  deriving DecidableEq

/-- 127.0.0.1. -/
def Ipv4.loopback : Ipv4 := ⟨127, 0, 0, 1⟩

/-- ::1. -/
def Ipv6.loopback : Ipv6 := ⟨List.replicate 15 0 ++ [1], by decide⟩

/-- 10/8, 172.16/12, 192.168/16 and 169.254/16. -/
def Ipv4.Local (v : Ipv4) : Prop :=
  v.a = 10 ∨ (v.a = 172 ∧ v.b.toNat / 16 = 1) ∨ (v.a = 192 ∧ v.b = 168) ∨ (v.a = 169 ∧ v.b = 254)

/-- fc00::/7 and fe80::/10. -/
def Ipv6.Local (v : Ipv6) : Prop :=
  (v.bytes.getD 0 0).toNat / 2 = 126 ∨
    (v.bytes.getD 0 0 = 254 ∧ (v.bytes.getD 1 0).toNat / 64 = 2)

def isDigit (b : UInt8) : Bool := decide (48 ≤ b ∧ b ≤ 57)

def isHexDigit (b : UInt8) : Bool :=
  isDigit b || decide (65 ≤ b ∧ b ≤ 70) || decide (97 ≤ b ∧ b ≤ 102)

/-- `inet_pton`: dotted decimals for one family, groups of hexadecimal digits between colons
for the other, of which the last two may be dotted decimals. -/
structure InetPton where
  ipv4 : Bytes → Option Ipv4
  ipv6 : Bytes → Option Ipv6
  ipv4_text : ∀ s v, ipv4 s = some v → s.length ≤ 15 ∧ 46 ∈ s ∧ ∀ b ∈ s, isDigit b ∨ b = 46
  ipv6_text : ∀ s v, ipv6 s = some v →
    s.length ≤ 45 ∧ 58 ∈ s ∧ ∀ b ∈ s, isHexDigit b ∨ b = 58 ∨ b = 46
  ipv4_loopback : ipv4 (ascii "127.0.0.1") = some .loopback
  ipv6_loopback : ipv6 (ascii "::1") = some .loopback

/-! ## The check -/

inductive HostClass
  | other
  | loopback
  | local_
  deriving DecidableEq, Repr

/-- `af_cfg_is_loopback_host` -/
def isLoopbackHost (s : Bytes) : Bool :=
  if s.length = 9 then s == ascii "127.0.0.1" || s == ascii "localhost"
  else s.length == 3 && s == ascii "::1"

/-- `.classified_ipv4` -/
def classifyIpv4 (v : Ipv4) : HostClass :=
  if v.a = 127 ∧ v.b = 0 ∧ v.c = 0 ∧ v.d = 1 then .loopback
  else if v.a = 10 then .local_
  else if v.a = 172 then
    if v.b < 16 then .other else if v.b ≤ 31 then .local_ else .other
  else if v.a = 192 then
    if v.b = 168 then .local_ else .other
  else if v.a = 169 then
    if v.b = 254 then .local_ else .other
  else .other

/-- The address as two words, and `.ipv6_ranges`. -/
def classifyIpv6 (v : Ipv6) : HostClass :=
  if v.bytes.take 8 = List.replicate 8 0 ∧ v.bytes.drop 8 = [0, 0, 0, 0, 0, 0, 0, 1] then .loopback
  else if v.bytes.getD 0 0 &&& 0xFE = 0xFC then .local_
  else if v.bytes.getD 0 0 = 0xFE ∧ v.bytes.getD 1 0 &&& 0xC0 = 0x80 then .local_
  else .other

/-- `.host_unwrapped` -/
def InetPton.classify (p : InetPton) (host : Bytes) : HostClass :=
  if isLoopbackHost host then .loopback
  else if 45 < host.length then .other
  else
    match p.ipv4 host with
    | some v => classifyIpv4 v
    | none =>
      match p.ipv6 host with
      | some v => classifyIpv6 v
      | none => .other

/-- `.charscan` -/
def urlByte (b : UInt8) : Bool := decide (0x21 ≤ b ∧ b ≤ 0x7E ∧ b ≠ 35)

/-- `.find_end`: the authority, unless there is user information in it. -/
def findEnd : Bytes → Option Bytes
  | [] => some []
  | b :: bs =>
    if b = 47 ∨ b = 63 then some []
    else if b = 64 then none
    else (findEnd bs).map (b :: ·)

/-- `.port_scan`, backwards from an index. -/
def portScan (authority : Bytes) : ℕ → Bytes
  | 0 => authority
  | n + 1 =>
    if authority.getD n 0 = 93 then authority
    else if authority.getD n 0 = 58 then authority.take n
    else portScan authority n

/-- The authority without a port. -/
def hostPart (authority : Bytes) : Bytes := portScan authority authority.length

/-- The host without a pair of brackets. -/
def unwrap (host : Bytes) : Bytes :=
  if 2 ≤ host.length ∧ host.getD 0 0 = 91 ∧ host.getD (host.length - 1) 0 = 93 then
    (host.drop 1).take (host.length - 2)
  else host

/-- `af_cfg_url_check`: whether the host is the loopback, or why the URL is refused. -/
def urlCheck (p : InetPton) (url : Bytes) (allowLocal : Bool) : Except Status Bool :=
  if url = [] then .error .invalid
  else if ¬ url.all urlByte then .error .cfgUrl
  else if ¬ (ascii "https://" <+: url) ∧ ¬ (ascii "http://" <+: url) then .error .cfgUrl
  else
    match findEnd (url.drop (if ascii "https://" <+: url then 8 else 7)) with
    | none => .error .cfgUrl
    | some authority =>
      if authority = [] then .error .cfgUrl
      else if hostPart authority = [] then .error .cfgUrl
      else if unwrap (hostPart authority) = [] then .error .cfgUrl
      else
        let host := p.classify (unwrap (hostPart authority))
        if ascii "https://" <+: url then .ok (host == .loopback)
        else if host = .loopback then .ok true
        else if host ≠ .local_ then .error .cfgUrl
        else if allowLocal = false then .error .cfgUrl
        else .ok false

/-! ## The policy -/

inductive Scheme
  | http
  | https
  deriving DecidableEq, Repr

def Scheme.text : Scheme → Bytes
  | http => ascii "http://"
  | https => ascii "https://"

/-- The URL is a scheme and an authority, and a path or a query behind them. -/
def Reads (url : Bytes) (scheme : Scheme) (authority : Bytes) : Prop :=
  ∃ rest, url = scheme.text ++ (authority ++ rest) ∧ (∀ b ∈ authority, b ≠ 47 ∧ b ≠ 63) ∧
    (rest = [] ∨ ∃ b bs, rest = b :: bs ∧ (b = 47 ∨ b = 63))

/-- No colon and no closing bracket. -/
def Unmarked (s : Bytes) : Prop := ∀ b ∈ s, b ≠ 58 ∧ b ≠ 93

/-- Nothing, or a port alone, or a pair of brackets with nothing in it. -/
def Hostless (authority : Bytes) : Prop :=
  authority = [] ∨ authority = [91, 93] ∨
    ∃ port, Unmarked port ∧ (authority = 58 :: port ∨ authority = 91 :: 93 :: 58 :: port)

/-- `authority = host [ ":" port ]`, with `port = *DIGIT`. -/
def HostOf (authority host : Bytes) : Prop :=
  authority = host ∨ ∃ port, (∀ b ∈ port, isDigit b) ∧ authority = host ++ 58 :: port

section Hosts

variable (p : InetPton) (allowLocal : Bool)

/-- The name, or an IPv4 address, that may be reached without TLS. -/
def Simple (host : Bytes) : Prop :=
  host = ascii "localhost" ∨
    ∃ v, p.ipv4 host = some v ∧ (v = .loopback ∨ allowLocal = true ∧ v.Local)

/-- An IPv6 address that may be reached without TLS. -/
def Six (text : Bytes) : Prop :=
  ∃ v, p.ipv6 text = some v ∧ (v = .loopback ∨ allowLocal = true ∧ v.Local)

/-- A host of the grammar that may be reached without TLS. -/
def PlainHost (host : Bytes) : Prop :=
  Simple p allowLocal host ∨ ∃ text, host = 91 :: (text ++ [93]) ∧ Six p allowLocal text

/-- The URLs that a provider may have. -/
def UrlPolicy (url : Bytes) : Prop :=
  (∀ b ∈ url, 0x21 ≤ b ∧ b ≤ 0x7E ∧ b ≠ 35) ∧
    ∃ scheme authority, Reads url scheme authority ∧ 64 ∉ authority ∧ ¬ Hostless authority ∧
      (scheme = .http → ∃ host, HostOf authority host ∧ PlainHost p allowLocal host)

/-- An authority that is not of the grammar, around a host that may be reached without TLS: an
IPv6 address without its brackets in front of a port, another host in brackets, or a port that
is no number. -/
def LooseAuthority (authority : Bytes) : Prop :=
  (∃ text port, Unmarked port ∧ authority = text ++ 58 :: port ∧ Six p allowLocal text) ∨
    (∃ text, Simple p allowLocal text ∧ (authority = 91 :: (text ++ [93]) ∨
      ∃ port, Unmarked port ∧ authority = 91 :: (text ++ [93]) ++ 58 :: port)) ∨
    ∃ host port, Unmarked port ∧ (∃ b ∈ port, isDigit b = false) ∧
      authority = host ++ 58 :: port ∧ PlainHost p allowLocal host

/-- A URL with such an authority that would be reached without TLS. -/
def Loose (url : Bytes) : Prop :=
  (∀ b ∈ url, 0x21 ≤ b ∧ b ≤ 0x7E ∧ b ≠ 35) ∧
    ∃ authority, Reads url .http authority ∧ 64 ∉ authority ∧ LooseAuthority p allowLocal authority

end Hosts

/-! ## Classes -/

theorem mask_unique_local (x : UInt8) : x &&& 0xFE = 0xFC ↔ x.toNat / 2 = 126 := by
  obtain ⟨⟨x⟩⟩ := x
  revert x
  decide +kernel

theorem mask_link_local (x : UInt8) : x &&& 0xC0 = 0x80 ↔ x.toNat / 64 = 2 := by
  obtain ⟨⟨x⟩⟩ := x
  revert x
  decide +kernel

theorem classifyIpv4_loopback_iff (v : Ipv4) : classifyIpv4 v = .loopback ↔ v = .loopback := by
  obtain ⟨a, b, c, d⟩ := v
  simp only [classifyIpv4, Ipv4.loopback, Ipv4.mk.injEq]
  split_ifs with h <;> simp [h]

theorem classifyIpv4_local_iff (v : Ipv4) : classifyIpv4 v = .local_ ↔ v.Local := by
  obtain ⟨a, b, c, d⟩ := v
  simp only [classifyIpv4, Ipv4.Local]
  split_ifs with h1 h2 h3 h4 h5 h6 h7 h8 h9 <;>
    simp_all [UInt8.lt_iff_toNat_lt, UInt8.le_iff_toNat_le] <;> omega

theorem classifyIpv6_loopback_iff (v : Ipv6) : classifyIpv6 v = .loopback ↔ v = .loopback := by
  have heq : v = .loopback ↔ v.bytes.take 8 = List.replicate 8 0 ∧
      v.bytes.drop 8 = [0, 0, 0, 0, 0, 0, 0, 1] := by
    constructor
    · rintro rfl
      decide
    · rintro ⟨htake, hdrop⟩
      obtain ⟨bytes, hlen⟩ := v
      have hbytes : bytes = List.replicate 15 0 ++ [1] := by
        rw [← List.take_append_drop 8 bytes, htake, hdrop]
        rfl
      subst hbytes
      rfl
  rw [heq]
  unfold classifyIpv6
  split_ifs with h
  · exact iff_of_true rfl h
  all_goals exact iff_of_false (by decide) h

theorem classifyIpv6_local_iff (v : Ipv6) : classifyIpv6 v = .local_ ↔ v.Local := by
  unfold classifyIpv6 Ipv6.Local
  simp only [mask_unique_local, mask_link_local]
  split_ifs with hloop hunique hlink
  · refine iff_of_false (by decide) ?_
    have hfirst : v.bytes.getD 0 0 = 0 := by
      rw [← List.take_append_drop 8 v.bytes, hloop.1]
      rfl
    rw [hfirst]
    rintro (h | ⟨h, -⟩)
    · exact absurd h (by decide)
    · exact absurd h (by decide)
  · exact iff_of_true rfl (Or.inl hunique)
  · exact iff_of_true rfl (Or.inr hlink)
  · exact iff_of_false (by decide) (not_or.mpr ⟨hunique, hlink⟩)

section Classify

variable {p : InetPton} {allowLocal : Bool} {x : Bytes}

theorem isLoopbackHost_iff : isLoopbackHost x = true ↔
    x = ascii "127.0.0.1" ∨ x = ascii "localhost" ∨ x = ascii "::1" := by
  unfold isLoopbackHost
  split_ifs with h
  · have hshort : x ≠ ascii "::1" := by
      rintro rfl
      exact absurd h (by decide)
    simp [hshort]
  · have hfirst : x ≠ ascii "127.0.0.1" := by
      rintro rfl
      exact absurd h (by decide)
    have hname : x ≠ ascii "localhost" := by
      rintro rfl
      exact absurd h (by decide)
    simp only [hfirst, hname, false_or, Bool.and_eq_true, beq_iff_eq]
    exact ⟨fun hx => hx.2, fun hx => ⟨by rw [hx]; rfl, hx⟩⟩

/-- A host without a colon or a bracket. -/
theorem Simple.unmarked (h : Simple p allowLocal x) : x ≠ [] ∧ 91 ∉ x ∧ Unmarked x := by
  rcases h with rfl | ⟨v, hv, -⟩
  · refine ⟨by decide, by decide, ?_⟩
    unfold Unmarked
    decide +kernel
  · obtain ⟨-, hdot, htext⟩ := p.ipv4_text x v hv
    refine ⟨List.ne_nil_of_mem hdot, fun hmem => ?_, fun b hb => ?_⟩
    · rcases htext _ hmem with h | h <;> exact absurd h (by decide)
    · constructor
      · rintro rfl
        rcases htext _ hb with h | h <;> exact absurd h (by decide)
      · rintro rfl
        rcases htext _ hb with h | h <;> exact absurd h (by decide)

theorem Six.text (h : Six p allowLocal x) : 58 ∈ x ∧ 91 ∉ x ∧ 93 ∉ x := by
  obtain ⟨v, hv, -⟩ := h
  obtain ⟨-, hcolon, htext⟩ := p.ipv6_text x v hv
  refine ⟨hcolon, fun hmem => ?_, fun hmem => ?_⟩
  · rcases htext _ hmem with h | h | h <;> exact absurd h (by decide)
  · rcases htext _ hmem with h | h | h <;> exact absurd h (by decide)

/-- What the check lets through without TLS, by the hosts it may be. -/
theorem permits_iff : (p.classify x = .loopback ∨ (p.classify x = .local_ ∧ allowLocal = true)) ↔
    Simple p allowLocal x ∨ Six p allowLocal x := by
  by_cases hloop : isLoopbackHost x = true
  · refine iff_of_true (Or.inl (by rw [InetPton.classify, if_pos hloop])) ?_
    rcases isLoopbackHost_iff.mp hloop with rfl | rfl | rfl
    · exact Or.inl (Or.inr ⟨_, p.ipv4_loopback, Or.inl rfl⟩)
    · exact Or.inl (Or.inl rfl)
    · exact Or.inr ⟨_, p.ipv6_loopback, Or.inl rfl⟩
  have hname : x ≠ ascii "localhost" := fun h => hloop (isLoopbackHost_iff.mpr (Or.inr (Or.inl h)))
  by_cases hlong : 45 < x.length
  · rw [InetPton.classify, if_neg hloop, if_pos hlong]
    refine iff_of_false (by simp) ?_
    rintro ((h | ⟨v, hv, -⟩) | ⟨v, hv, -⟩)
    · exact hname h
    · have := (p.ipv4_text x v hv).1
      omega
    · have := (p.ipv6_text x v hv).1
      omega
  rw [InetPton.classify, if_neg hloop, if_neg hlong]
  cases hfour : p.ipv4 x with
  | some v =>
    have hsix : ¬ Six p allowLocal x := by
      intro h
      have hsimple := (p.ipv4_text x v hfour).2.2 58 h.text.1
      rcases hsimple with h | h <;> exact absurd h (by decide)
    dsimp only
    rw [classifyIpv4_loopback_iff, classifyIpv4_local_iff]
    simp only [Simple, hname, hfour, hsix, Option.some.injEq, exists_eq_left', false_or, or_false,
      and_comm]
  | none =>
    have hsimple : ¬ Simple p allowLocal x := by
      rintro (h | ⟨v, hv, -⟩)
      · exact hname h
      · rw [hfour] at hv
        cases hv
    dsimp only
    cases hsix : p.ipv6 x with
    | some v =>
      dsimp only
      rw [classifyIpv6_loopback_iff, classifyIpv6_local_iff]
      simp only [Six, hsix, hsimple, Option.some.injEq, exists_eq_left', false_or, and_comm]
    | none =>
      refine iff_of_false (by simp) ?_
      rintro (h | ⟨v, hv, -⟩)
      · exact hsimple h
      · rw [hsix] at hv
        cases hv

end Classify

/-! ## The cut -/

theorem findEnd_eq_some {s authority : Bytes} : findEnd s = some authority ↔
    ∃ rest, s = authority ++ rest ∧ (∀ b ∈ authority, b ≠ 47 ∧ b ≠ 63) ∧ 64 ∉ authority ∧
      (rest = [] ∨ ∃ b bs, rest = b :: bs ∧ (b = 47 ∨ b = 63)) := by
  induction s generalizing authority with
  | nil =>
    constructor
    · intro h
      obtain rfl := Option.some.inj h
      exact ⟨[], rfl, by simp, by simp, Or.inl rfl⟩
    · rintro ⟨rest, h, -⟩
      rw [(List.append_eq_nil_iff.mp h.symm).1]
      rfl
  | cons b bs ih =>
    rw [findEnd]
    split_ifs with hend huser
    · constructor
      · intro h
        obtain rfl := Option.some.inj h
        exact ⟨b :: bs, rfl, by simp, by simp, Or.inr ⟨b, bs, rfl, hend⟩⟩
      · rintro ⟨rest, h, hclean, -⟩
        cases authority with
        | nil => rfl
        | cons a as =>
          obtain ⟨rfl, -⟩ := List.cons.inj h
          have := hclean b List.mem_cons_self
          exact absurd hend (by simp [this])
    · refine iff_of_false (by simp) ?_
      rintro ⟨rest, h, hclean, hnone, hrest⟩
      cases authority with
      | nil =>
        rcases hrest with rfl | ⟨b', bs', rfl, hb⟩
        · cases h
        · obtain ⟨rfl, -⟩ := List.cons.inj h
          exact hend hb
      | cons a as =>
        obtain ⟨rfl, -⟩ := List.cons.inj h
        exact hnone (by simp [huser])
    · rw [Option.map_eq_some_iff]
      constructor
      · rintro ⟨as, has, rfl⟩
        obtain ⟨rest, rfl, hclean, hnone, hrest⟩ := ih.mp has
        refine ⟨rest, rfl, ?_, ?_, hrest⟩
        · intro c hc
          rcases List.mem_cons.mp hc with rfl | hc
          · exact not_or.mp hend
          · exact hclean c hc
        · simp [hnone, Ne.symm huser]
      · rintro ⟨rest, h, hclean, hnone, hrest⟩
        cases authority with
        | nil =>
          rcases hrest with rfl | ⟨b', bs', rfl, hb⟩
          · cases h
          · obtain ⟨rfl, -⟩ := List.cons.inj h
            exact absurd hb hend
        | cons a as =>
          obtain ⟨rfl, hbs⟩ := List.cons.inj h
          refine ⟨as, ih.mpr ⟨rest, hbs, fun c hc => hclean c (List.mem_cons_of_mem _ hc), ?_, hrest⟩,
            rfl⟩
          exact fun hmem => hnone (List.mem_cons_of_mem _ hmem)

theorem portScan_spec (pre suf : Bytes) (hsuf : Unmarked suf) :
    (Unmarked (pre ++ suf) ∧ portScan (pre ++ suf) pre.length = pre ++ suf) ∨
      (∃ h port, pre ++ suf = h ++ 93 :: port ∧ Unmarked port ∧
        portScan (pre ++ suf) pre.length = pre ++ suf) ∨
      ∃ h port, pre ++ suf = h ++ 58 :: port ∧ Unmarked port ∧
        portScan (pre ++ suf) pre.length = h := by
  induction pre using List.reverseRecOn generalizing suf with
  | nil => exact Or.inl ⟨hsuf, rfl⟩
  | append_singleton pre b ih =>
    have hget : (pre ++ [b] ++ suf).getD pre.length 0 = b := by simp
    rw [List.length_append, List.length_singleton, portScan, hget]
    by_cases hclose : b = 93
    · rw [if_pos hclose, hclose]
      exact Or.inr (Or.inl ⟨pre, suf, by simp, hsuf, rfl⟩)
    rw [if_neg hclose]
    by_cases hcolon : b = 58
    · rw [if_pos hcolon, hcolon]
      exact Or.inr (Or.inr ⟨pre, suf, by simp, hsuf, by simp⟩)
    rw [if_neg hcolon, List.append_assoc, List.singleton_append]
    refine ih (b :: suf) fun c hc => ?_
    rcases List.mem_cons.mp hc with rfl | hc
    · exact ⟨hcolon, hclose⟩
    · exact hsuf c hc

/-- The three ways a host is cut out. -/
theorem hostPart_cases (a : Bytes) :
    (Unmarked a ∧ hostPart a = a) ∨
      (∃ h port, a = h ++ 93 :: port ∧ Unmarked port ∧ hostPart a = a) ∨
      ∃ h port, a = h ++ 58 :: port ∧ Unmarked port ∧ hostPart a = h := by
  have h := portScan_spec a [] (by simp [Unmarked])
  simpa [hostPart] using h

/-- Where the last mark is, is decided by the text. -/
theorem last_mark {h h' port port' : Bytes} {m m' : UInt8} (hm : m = 58 ∨ m = 93)
    (hm' : m' = 58 ∨ m' = 93) (hport : Unmarked port) (hport' : Unmarked port')
    (heq : h ++ m :: port = h' ++ m' :: port') : h = h' ∧ m = m' ∧ port = port' := by
  have hmarked {q : Bytes} {c : UInt8} (hc : c = 58 ∨ c = 93) (hq : Unmarked q) : c ∉ q := by
    intro hmem
    have := hq c hmem
    rcases hc with rfl | rfl
    · exact this.1 rfl
    · exact this.2 rfl
  rcases List.append_eq_append_iff.mp heq with ⟨mid, rfl, hmid⟩ | ⟨mid, rfl, hmid⟩
  · cases mid with
    | nil =>
      obtain ⟨rfl, rfl⟩ := List.cons.inj hmid
      exact ⟨by simp, rfl, rfl⟩
    | cons c mid =>
      obtain ⟨rfl, rfl⟩ := List.cons.inj hmid
      exact absurd (by simp) (hmarked hm' hport)
  · cases mid with
    | nil =>
      obtain ⟨rfl, rfl⟩ := List.cons.inj hmid
      exact ⟨by simp, rfl, rfl⟩
    | cons c mid =>
      obtain ⟨rfl, rfl⟩ := List.cons.inj hmid
      exact absurd (by simp) (hmarked hm hport')

theorem not_unmarked {h port : Bytes} {m : UInt8} (hm : m = 58 ∨ m = 93) :
    ¬ Unmarked (h ++ m :: port) := by
  intro hclean
  have := hclean m (by simp)
  rcases hm with rfl | rfl
  · exact this.1 rfl
  · exact this.2 rfl

theorem hostPart_port {h port : Bytes} (hport : Unmarked port) : hostPart (h ++ 58 :: port) = h := by
  rcases hostPart_cases (h ++ 58 :: port) with ⟨hclean, -⟩ | ⟨h', port', heq, hport', -⟩ |
    ⟨h', port', heq, hport', hcut⟩
  · exact absurd hclean (not_unmarked (Or.inl rfl))
  · have := (last_mark (Or.inl rfl) (Or.inr rfl) hport hport' heq).2.1
    exact absurd this (by decide)
  · rw [hcut]
    exact (last_mark (Or.inl rfl) (Or.inl rfl) hport hport' heq).1.symm

theorem hostPart_close {h port : Bytes} (hport : Unmarked port) :
    hostPart (h ++ 93 :: port) = h ++ 93 :: port := by
  rcases hostPart_cases (h ++ 93 :: port) with ⟨-, hcut⟩ | ⟨-, -, -, -, hcut⟩ |
    ⟨h', port', heq, hport', -⟩
  · exact hcut
  · exact hcut
  · have := (last_mark (Or.inr rfl) (Or.inl rfl) hport hport' heq).2.1
    exact absurd this (by decide)

theorem hostPart_unmarked {h : Bytes} (hclean : Unmarked h) : hostPart h = h := by
  rcases hostPart_cases h with ⟨-, hcut⟩ | ⟨-, -, -, -, hcut⟩ | ⟨h', port', rfl, -, -⟩
  · exact hcut
  · exact hcut
  · exact absurd hclean (not_unmarked (Or.inl rfl))

theorem unwrap_brackets (t : Bytes) : unwrap (91 :: (t ++ [93])) = t := by
  have hlen : (91 :: (t ++ [93])).length = t.length + 2 := by simp
  have hlast : (91 :: (t ++ [93])).getD ((91 :: (t ++ [93])).length - 1) 0 = 93 := by
    rw [hlen, Nat.add_sub_assoc (by decide), List.getD_cons_succ]
    simp
  unfold unwrap
  rw [if_pos ⟨by omega, rfl, hlast⟩, hlen]
  simp

theorem unwrap_cases (h : Bytes) :
    (∃ t, h = 91 :: (t ++ [93]) ∧ unwrap h = t) ∨
      ((¬ ∃ t, h = 91 :: (t ++ [93])) ∧ unwrap h = h) := by
  by_cases hwrapped : ∃ t, h = 91 :: (t ++ [93])
  · obtain ⟨t, rfl⟩ := hwrapped
    exact Or.inl ⟨t, rfl, unwrap_brackets t⟩
  · refine Or.inr ⟨hwrapped, ?_⟩
    unfold unwrap
    split_ifs with hpair
    · obtain ⟨hlen, hfirst, hlast⟩ := hpair
      refine absurd ?_ hwrapped
      cases h with
      | nil => exact absurd hlen (by decide)
      | cons b bs =>
        rcases List.eq_nil_or_concat bs with rfl | ⟨t, c, rfl⟩
        · exact absurd hlen (by simp)
        · refine ⟨t, ?_⟩
          have hb : b = 91 := hfirst
          have hc : c = 93 := by simpa [List.concat_eq_append] using hlast
          rw [hb, hc, List.concat_eq_append]
    · rfl

theorem unwrap_of_notMem {x : Bytes} (h : 91 ∉ x) : unwrap x = x := by
  rcases unwrap_cases x with ⟨t, rfl, -⟩ | ⟨-, hsame⟩
  · exact absurd List.mem_cons_self h
  · exact hsame

theorem hostless_iff (a : Bytes) :
    Hostless a ↔ a = [] ∨ hostPart a = [] ∨ unwrap (hostPart a) = [] := by
  constructor
  · rintro (rfl | rfl | ⟨port, hport, rfl | rfl⟩)
    · exact Or.inl rfl
    · exact Or.inr (Or.inr (by decide))
    · exact Or.inr (Or.inl (hostPart_port (h := []) hport))
    · refine Or.inr (Or.inr ?_)
      have hcut : hostPart ([91, 93] ++ 58 :: port) = [91, 93] := hostPart_port hport
      rw [List.cons_append, List.cons_append, List.nil_append] at hcut
      rw [hcut]
      rfl
  · rintro (rfl | hcut | hinner)
    · exact Or.inl rfl
    · rcases hostPart_cases a with ⟨-, hsame⟩ | ⟨-, -, -, -, hsame⟩ | ⟨h, port, rfl, hport, hsame⟩
      · exact Or.inl (hsame.symm.trans hcut)
      · exact Or.inl (hsame.symm.trans hcut)
      · obtain rfl : h = [] := hsame.symm.trans hcut
        exact Or.inr (Or.inr ⟨port, hport, Or.inl rfl⟩)
    · rcases unwrap_cases (hostPart a) with ⟨t, hpair, ht⟩ | ⟨-, hsame⟩
      · obtain rfl : t = [] := ht.symm.trans hinner
        rcases hostPart_cases a with ⟨-, hsame⟩ | ⟨-, -, -, -, hsame⟩ |
          ⟨h, port, rfl, hport, hsame⟩
        · exact Or.inr (Or.inl (hsame.symm.trans hpair))
        · exact Or.inr (Or.inl (hsame.symm.trans hpair))
        · obtain rfl : h = [91, 93] := hsame.symm.trans hpair
          exact Or.inr (Or.inr ⟨port, hport, Or.inr rfl⟩)
      · rw [hsame] at hinner
        rcases hostPart_cases a with ⟨-, hcut⟩ | ⟨-, -, -, -, hcut⟩ | ⟨h, port, rfl, hport, hcut⟩
        · exact Or.inl (hcut.symm.trans hinner)
        · exact Or.inl (hcut.symm.trans hinner)
        · obtain rfl : h = [] := hcut.symm.trans hinner
          exact Or.inr (Or.inr ⟨port, hport, Or.inl rfl⟩)

/-! ## Hosts of the grammar, and the others -/

section Authority

variable {p : InetPton} {allowLocal : Bool} {a host : Bytes}

theorem unmarked_digits {port : Bytes} (h : ∀ b ∈ port, isDigit b) : Unmarked port := by
  intro b hb
  have hdigit := h b hb
  constructor
  · rintro rfl
    exact absurd hdigit (by decide)
  · rintro rfl
    exact absurd hdigit (by decide)

theorem brackets_eq (t port : Bytes) : 91 :: (t ++ [93]) ++ 58 :: port =
    (91 :: t) ++ 93 :: 58 :: port := by simp

theorem PlainHost.permits (h : PlainHost p allowLocal host) :
    Simple p allowLocal (unwrap host) ∨ Six p allowLocal (unwrap host) := by
  rcases h with hsimple | ⟨t, rfl, hsix⟩
  · rw [unwrap_of_notMem hsimple.unmarked.2.1]
    exact Or.inl hsimple
  · rw [unwrap_brackets]
    exact Or.inr hsix

theorem PlainHost.hostPart_eq (h : PlainHost p allowLocal host) : hostPart host = host := by
  rcases h with hsimple | ⟨t, rfl, -⟩
  · exact hostPart_unmarked hsimple.unmarked.2.2
  · exact @hostPart_close (91 :: t) [] (by simp [Unmarked])

/-- A host of the grammar is cut out, and what is behind it is its port. -/
theorem HostOf.cut (h : HostOf a host) (hplain : PlainHost p allowLocal host) :
    hostPart a = host ∧ ∀ port, a = host ++ 58 :: port → ∀ b ∈ port, isDigit b := by
  rcases h with rfl | ⟨port, hdigits, rfl⟩
  · refine ⟨hplain.hostPart_eq, fun port heq => ?_⟩
    have := congrArg List.length heq
    simp at this
  · refine ⟨hostPart_port (unmarked_digits hdigits), fun port' heq => ?_⟩
    obtain rfl := (List.cons.inj (List.append_cancel_left heq)).2
    exact hdigits

/-- A cut-out host of the grammar stands in an authority of the grammar, or in front of a port
that is no number. -/
theorem PlainHost.authority (h : PlainHost p allowLocal (hostPart a)) :
    (∃ host, HostOf a host ∧ PlainHost p allowLocal host) ∨ LooseAuthority p allowLocal a := by
  rcases hostPart_cases a with ⟨-, hcut⟩ | ⟨-, -, -, -, hcut⟩ | ⟨x, port, heq, hport, hcut⟩
  · exact Or.inl ⟨_, Or.inl hcut.symm, h⟩
  · exact Or.inl ⟨_, Or.inl hcut.symm, h⟩
  · rw [hcut] at h
    by_cases hdigits : ∀ b ∈ port, isDigit b
    · exact Or.inl ⟨x, Or.inr ⟨port, hdigits, heq⟩, h⟩
    · push Not at hdigits
      obtain ⟨b, hb, hnot⟩ := hdigits
      exact Or.inr (Or.inr (Or.inr ⟨x, port, hport, ⟨b, hb, by simpa using hnot⟩, heq, h⟩))

/-- The authorities that are let through without TLS. -/
theorem authority_permits_iff :
    (Simple p allowLocal (unwrap (hostPart a)) ∨ Six p allowLocal (unwrap (hostPart a))) ↔
      (∃ host, HostOf a host ∧ PlainHost p allowLocal host) ∨ LooseAuthority p allowLocal a := by
  constructor
  · intro h
    rcases unwrap_cases (hostPart a) with ⟨t, hpair, ht⟩ | ⟨-, hsame⟩
    · rw [ht] at h
      rcases h with hsimple | hsix
      · rcases hostPart_cases a with ⟨-, hcut⟩ | ⟨-, -, -, -, hcut⟩ | ⟨x, port, heq, hport, hcut⟩
        · exact Or.inr (Or.inr (Or.inl ⟨t, hsimple, Or.inl (hcut.symm.trans hpair)⟩))
        · exact Or.inr (Or.inr (Or.inl ⟨t, hsimple, Or.inl (hcut.symm.trans hpair)⟩))
        · obtain rfl := hcut.symm.trans hpair
          exact Or.inr (Or.inr (Or.inl ⟨t, hsimple, Or.inr ⟨port, hport, heq⟩⟩))
      · exact PlainHost.authority (Or.inr ⟨t, hpair, hsix⟩)
    · rw [hsame] at h
      rcases h with hsimple | hsix
      · exact PlainHost.authority (Or.inl hsimple)
      · obtain ⟨hcolon, -, hclose⟩ := hsix.text
        rcases hostPart_cases a with ⟨hclean, hcut⟩ | ⟨x, port, heq, -, hcut⟩ |
          ⟨x, port, heq, hport, hcut⟩
        · rw [hcut] at hcolon
          exact absurd rfl (hclean 58 hcolon).1
        · rw [hcut, heq] at hclose
          exact absurd (by simp) hclose
        · rw [hcut] at hsix
          exact Or.inr (Or.inl ⟨x, port, hport, heq, hsix⟩)
  · rintro (⟨host, hof, hplain⟩ | ⟨t, port, hport, rfl, hsix⟩ | ⟨t, hsimple, hform⟩ |
      ⟨host, port, hport, -, rfl, hplain⟩)
    · rw [(hof.cut hplain).1]
      exact hplain.permits
    · rw [hostPart_port hport, unwrap_of_notMem hsix.text.2.1]
      exact Or.inr hsix
    · have hcut : hostPart a = 91 :: (t ++ [93]) := by
        rcases hform with rfl | ⟨port, hport, rfl⟩
        · exact @hostPart_close (91 :: t) [] (by simp [Unmarked])
        · exact hostPart_port hport
      rw [hcut, unwrap_brackets]
      exact Or.inl hsimple
    · rw [hostPart_port hport]
      exact hplain.permits

/-- No authority is both. -/
theorem LooseAuthority.not_plain (h : LooseAuthority p allowLocal a) :
    ¬ ∃ host, HostOf a host ∧ PlainHost p allowLocal host := by
  rintro ⟨host, hof, hplain⟩
  obtain ⟨hcut, hdigits⟩ := hof.cut hplain
  rcases h with ⟨t, port, hport, rfl, hsix⟩ | ⟨t, hsimple, hform⟩ |
    ⟨x, port, hport, ⟨b, hb, hnot⟩, rfl, -⟩
  · rw [hostPart_port hport] at hcut
    subst hcut
    rcases hplain with hsimple | ⟨t', rfl, -⟩
    · exact (hsimple.unmarked.2.2 58 hsix.text.1).1 rfl
    · exact hsix.text.2.1 List.mem_cons_self
  · have hpair : hostPart a = 91 :: (t ++ [93]) := by
      rcases hform with rfl | ⟨port, hport, rfl⟩
      · exact @hostPart_close (91 :: t) [] (by simp [Unmarked])
      · exact hostPart_port hport
    obtain rfl := hcut.symm.trans hpair
    rcases hplain with hwrapped | ⟨t', heq, hsix⟩
    · exact hwrapped.unmarked.2.1 List.mem_cons_self
    · obtain rfl : t = t' := by simpa using heq
      exact (hsimple.unmarked.2.2 58 hsix.text.1).1 rfl
  · rw [hostPart_port hport] at hcut
    subst hcut
    rw [hdigits port rfl b hb] at hnot
    cases hnot

end Authority

/-! ## What is accepted -/

section Accepted

variable {p : InetPton} {allowLocal : Bool} {url : Bytes}

theorem scheme_unique (h : ascii "https://" <+: url) : ¬ ascii "http://" <+: url := by
  rintro ⟨t, ht⟩
  obtain ⟨s, hs⟩ := h
  have hbyte : (58 : UInt8) = 115 := congrArg (fun l => l.getD 4 0) (ht.trans hs.symm)
  exact absurd hbyte (by decide)

theorem findEnd_drop_iff {scheme : Scheme} (h : scheme.text <+: url) (authority : Bytes) :
    findEnd (url.drop scheme.text.length) = some authority ↔
      Reads url scheme authority ∧ 64 ∉ authority := by
  obtain ⟨s, rfl⟩ := h
  rw [List.drop_left, findEnd_eq_some]
  constructor
  · rintro ⟨rest, rfl, hclean, hnone, hrest⟩
    exact ⟨⟨rest, rfl, hclean, hrest⟩, hnone⟩
  · rintro ⟨⟨rest, heq, hclean, hrest⟩, hnone⟩
    exact ⟨rest, List.append_cancel_left heq, hclean, hnone, hrest⟩

theorem Reads.scheme {scheme : Scheme} {authority : Bytes} (h : Reads url scheme authority) :
    scheme.text <+: url := by
  obtain ⟨rest, rfl, -⟩ := h
  exact List.prefix_append _ _

/-- The check, by the authority it reads. -/
theorem urlCheck_accepts_iff : (∃ b, urlCheck p url allowLocal = .ok b) ↔
    (∀ b ∈ url, 0x21 ≤ b ∧ b ≤ 0x7E ∧ b ≠ 35) ∧
      ∃ scheme authority, Reads url scheme authority ∧ 64 ∉ authority ∧ ¬ Hostless authority ∧
        (scheme = .http → Simple p allowLocal (unwrap (hostPart authority)) ∨
          Six p allowLocal (unwrap (hostPart authority))) := by
  have hbytes : url.all urlByte = true ↔ ∀ b ∈ url, 0x21 ≤ b ∧ b ≤ 0x7E ∧ b ≠ 35 := by
    simp [urlByte]
  unfold urlCheck
  by_cases hnil : url = []
  · subst hnil
    refine iff_of_false (by simp) ?_
    rintro ⟨-, scheme, authority, ⟨rest, heq, -⟩, -⟩
    cases scheme <;> cases heq
  rw [if_neg hnil]
  by_cases hprint : url.all urlByte = true
  swap
  · rw [if_pos hprint]
    exact iff_of_false (by simp) fun h => hprint (hbytes.mpr h.1)
  rw [if_neg (not_not.mpr hprint)]
  have hprint' := hbytes.mp hprint
  by_cases hs : ascii "https://" <+: url
  · have hend := findEnd_drop_iff (show Scheme.https.text <+: url from hs)
    have hlen : Scheme.https.text.length = 8 := by decide
    have hscheme {scheme : Scheme} {authority : Bytes} (h : Reads url scheme authority) :
        scheme = .https := by
      cases scheme with
      | http => exact absurd h.scheme (scheme_unique hs)
      | https => rfl
    simp only [hlen] at hend
    rw [if_neg (by simp [hs]), if_pos hs]
    cases hread : findEnd (url.drop 8) with
    | none =>
      refine iff_of_false (by simp) ?_
      rintro ⟨-, scheme, authority, hreads, huser, -⟩
      obtain rfl := hscheme hreads
      rw [(hend authority).mpr ⟨hreads, huser⟩] at hread
      cases hread
    | some authority =>
      obtain ⟨hreads, huser⟩ := (hend authority).mp hread
      have hhost : (∃ b, (if authority = [] then .error .cfgUrl
          else if hostPart authority = [] then .error .cfgUrl
          else if unwrap (hostPart authority) = [] then .error .cfgUrl
          else .ok (p.classify (unwrap (hostPart authority)) == .loopback) :
            Except Status Bool) = .ok b) ↔ ¬ Hostless authority := by
        rw [hostless_iff]
        split_ifs with h1 h2 h3 <;> simp [*]
      simp only [if_pos hs]
      rw [hhost]
      constructor
      · exact fun h => ⟨hprint', .https, authority, hreads, huser, h, fun h => by cases h⟩
      · rintro ⟨-, scheme, authority', hreads', huser', h, -⟩
        obtain rfl := hscheme hreads'
        rw [(hend authority').mpr ⟨hreads', huser'⟩] at hread
        rwa [← Option.some.inj hread]
  · by_cases hh : ascii "http://" <+: url
    · have hend := findEnd_drop_iff (show Scheme.http.text <+: url from hh)
      have hlen : Scheme.http.text.length = 7 := by decide
      have hscheme {scheme : Scheme} {authority : Bytes} (h : Reads url scheme authority) :
          scheme = .http := by
        cases scheme with
        | http => rfl
        | https => exact absurd h.scheme hs
      simp only [hlen] at hend
      rw [if_neg (by simp [hh]), if_neg hs]
      cases hread : findEnd (url.drop 7) with
      | none =>
        refine iff_of_false (by simp) ?_
        rintro ⟨-, scheme, authority, hreads, huser, -⟩
        obtain rfl := hscheme hreads
        rw [(hend authority).mpr ⟨hreads, huser⟩] at hread
        cases hread
      | some authority =>
        obtain ⟨hreads, huser⟩ := (hend authority).mp hread
        have hhost : (∃ b, (if authority = [] then .error .cfgUrl
            else if hostPart authority = [] then .error .cfgUrl
            else if unwrap (hostPart authority) = [] then .error .cfgUrl
            else if p.classify (unwrap (hostPart authority)) = .loopback then .ok true
            else if p.classify (unwrap (hostPart authority)) ≠ .local_ then .error .cfgUrl
            else if allowLocal = false then .error .cfgUrl
            else .ok false : Except Status Bool) = .ok b) ↔ ¬ Hostless authority ∧
              (Simple p allowLocal (unwrap (hostPart authority)) ∨
                Six p allowLocal (unwrap (hostPart authority))) := by
          rw [hostless_iff, ← permits_iff]
          split_ifs with h1 h2 h3 h4 h5 h6 <;> simp_all
        simp only [if_neg hs]
        rw [hhost]
        constructor
        · exact fun h => ⟨hprint', .http, authority, hreads, huser, h.1, fun _ => h.2⟩
        · rintro ⟨-, scheme, authority', hreads', huser', h, hpermits⟩
          obtain rfl := hscheme hreads'
          rw [(hend authority').mpr ⟨hreads', huser'⟩] at hread
          rw [← Option.some.inj hread]
          exact ⟨h, hpermits rfl⟩
    · rw [if_pos ⟨hs, hh⟩]
      refine iff_of_false (by simp) ?_
      rintro ⟨-, scheme, authority, hreads, -⟩
      cases scheme with
      | http => exact hh hreads.scheme
      | https => exact hs hreads.scheme

theorem Hostless.not_permits {authority : Bytes} (h : Hostless authority) :
    ¬ (Simple p allowLocal (unwrap (hostPart authority)) ∨
      Six p allowLocal (unwrap (hostPart authority))) := by
  have hempty : unwrap (hostPart authority) = [] := by
    rcases (hostless_iff authority).mp h with rfl | hcut | hinner
    · decide
    · rw [hcut]
      decide
    · exact hinner
  rw [hempty]
  rintro (hsimple | hsix)
  · exact hsimple.unmarked.1 rfl
  · exact absurd hsix.text.1 List.not_mem_nil

/-- **A URL is accepted exactly if the policy allows it, but for the plain URLs whose authority
is not of the grammar.** -/
theorem urlCheck_exact_iff (p : InetPton) (allowLocal : Bool) (url : Bytes) :
    ((∃ b, urlCheck p url allowLocal = .ok b) ↔ UrlPolicy p allowLocal url) ↔
      ¬ Loose p allowLocal url := by
  rw [urlCheck_accepts_iff]
  constructor
  · rintro hsame ⟨hprint, authority, hreads, huser, hloose⟩
    have hpermits := authority_permits_iff.mpr (Or.inr hloose)
    obtain ⟨-, scheme, authority', hreads', huser', -, hplain⟩ := hsame.mp
      ⟨hprint, .http, authority, hreads, huser, fun h => h.not_permits hpermits, fun _ => hpermits⟩
    cases scheme with
    | https => exact scheme_unique hreads'.scheme hreads.scheme
    | http =>
      have hread := (findEnd_drop_iff hreads.scheme authority).mpr ⟨hreads, huser⟩
      rw [(findEnd_drop_iff hreads.scheme authority').mpr ⟨hreads', huser'⟩] at hread
      obtain rfl := Option.some.inj hread
      exact hloose.not_plain (hplain rfl)
  · intro hstrict
    constructor
    · rintro ⟨hprint, scheme, authority, hreads, huser, hhost, hpermits⟩
      refine ⟨hprint, scheme, authority, hreads, huser, hhost, ?_⟩
      rintro rfl
      rcases authority_permits_iff.mp (hpermits rfl) with hplain | hloose
      · exact hplain
      · exact absurd ⟨hprint, authority, hreads, huser, hloose⟩ hstrict
    · rintro ⟨hprint, scheme, authority, hreads, huser, hhost, hplain⟩
      exact ⟨hprint, scheme, authority, hreads, huser, hhost,
        fun h => authority_permits_iff.mpr (Or.inl (hplain h))⟩

/-- `inet_pton`, as far as the loopback addresses. -/
def InetPton.loopbackOnly : InetPton where
  ipv4 s := if s = ascii "127.0.0.1" then some .loopback else none
  ipv6 s := if s = ascii "::1" then some .loopback else none
  ipv4_text := by
    intro s v h
    obtain rfl : s = ascii "127.0.0.1" := by
      by_contra hne
      rw [if_neg hne] at h
      cases h
    decide +kernel
  ipv6_text := by
    intro s v h
    obtain rfl : s = ascii "::1" := by
      by_contra hne
      rw [if_neg hne] at h
      cases h
    decide +kernel
  ipv4_loopback := by rw [if_pos rfl]
  ipv6_loopback := by rw [if_pos rfl]

/-- `http://[localhost]/` is accepted. -/
theorem urlCheck_brackets : ¬ ∀ (p : InetPton) (allowLocal : Bool) (url : Bytes),
    ((∃ b, urlCheck p url allowLocal = .ok b) ↔ UrlPolicy p allowLocal url) := by
  intro h
  have haccepts : ∃ b, urlCheck .loopbackOnly (ascii "http://[localhost]/") false = .ok b :=
    ⟨true, by decide⟩
  obtain ⟨-, scheme, authority, hreads, huser, -, hplain⟩ := (h _ _ _).mp haccepts
  have hhttp : ascii "http://" <+: ascii "http://[localhost]/" := by decide
  cases scheme with
  | https => exact scheme_unique hreads.scheme hhttp
  | http =>
    have hread := (findEnd_drop_iff hreads.scheme authority).mpr ⟨hreads, huser⟩
    obtain rfl : ascii "[localhost]" = authority := Option.some.inj hread
    refine LooseAuthority.not_plain ?_ (hplain rfl)
    exact Or.inr (Or.inl ⟨ascii "localhost", Or.inl rfl, Or.inl rfl⟩)

end Accepted

end AsmFlow.Config
