import Discode.Library.IpAddress

/-!
# Texts of IP addresses

`ipaddress.ip_address` on a text of code points, and the one text of the unspecified IPv4 address.
-/

set_option autoImplicit false

namespace IpAddress

deriving instance DecidableEq for IP

/-! ## IPv4 -/

def isDecimal (c : ℕ) : Bool := 0x30 ≤ c && c ≤ 0x39

/-- `int(s, 10)` of a text of digits. -/
def decimal (s : List ℕ) : ℕ := s.foldl (fun n c ↦ n * 10 + (c - 0x30)) 0

/-- `_parse_octet`. -/
def parseOctet (s : List ℕ) : Option ℕ :=
  if s = [] then none
  else if ¬ s.all isDecimal then none
  else if 3 < s.length then none
  else if s ≠ [0x30] ∧ s.head? = some 0x30 then none
  else if 255 < decimal s then none
  else some (decimal s)

/-- `IPv4Address`. -/
def parseIPv4 (s : List ℕ) : Option IPv4 :=
  match s.splitOn 0x2e with
  | [a, b, c, d] => do
      let a ← parseOctet a
      let b ← parseOctet b
      let c ← parseOctet c
      let d ← parseOctet d
      return BitVec.ofNat 32 (((a * 256 + b) * 256 + c) * 256 + d)
  | _ => none

/-! ## IPv6 -/

def hexDigit? (c : ℕ) : Option ℕ :=
  if 0x30 ≤ c ∧ c ≤ 0x39 then some (c - 0x30)
  else if 0x41 ≤ c ∧ c ≤ 0x46 then some (c - 0x37)
  else if 0x61 ≤ c ∧ c ≤ 0x66 then some (c - 0x57)
  else none

/-- `_parse_hextet`. -/
def parseHextet (s : List ℕ) : Option ℕ :=
  if s = [] ∨ 4 < s.length then none
  else s.foldlM (fun n c ↦ (hexDigit? c).map (n * 16 + ·)) 0

/-- `'%x' % n`. -/
def hexText (n : ℕ) : List ℕ := (Nat.toDigits 16 n).map Char.toNat

/-- An IPv4 suffix as two hextets. -/
def convertSuffix (parts : List (List ℕ)) : Option (List (List ℕ)) := do
  let last ← parts.getLast?
  if 0x2e ∈ last then
    let ip ← parseIPv4 last
    return parts.dropLast ++ [hexText (ip.toNat / 65536), hexText (ip.toNat % 65536)]
  return parts

/-- The hextets read on behind `n`. -/
def readHextets (n : ℕ) (parts : List (List ℕ)) : Option ℕ :=
  parts.foldlM (fun n part ↦ (parseHextet part).map (n * 65536 + ·)) n

/-- The parts on one side of `::`, less the empty one if that is the end of the text. -/
def sideParts (parts : List (List ℕ)) (atEnd : Bool) : Option (List (List ℕ)) :=
  if ¬ atEnd then some parts
  else if parts.length = 1 then some []
  else none

/-- `_ip_int_from_string` behind the split. -/
def readParts (parts : List (List ℕ)) : Option ℕ := do
  if 9 < parts.length then none
  let inner := parts.tail.dropLast
  if 1 < inner.count [] then none
  if [] ∈ inner then
    let skip := inner.idxOf [] + 1
    let high ← sideParts (parts.take skip) (parts.head? = some [])
    let low ← sideParts (parts.drop (skip + 1)) (parts.getLast? = some [])
    if 8 ≤ high.length + low.length then none
    let n ← readHextets 0 high
    readHextets (n * 65536 ^ (8 - (high.length + low.length))) low
  else
    if parts.length ≠ 8 then none
    readHextets 0 parts

/-- `_split_scope_id`, without the scope. -/
def dropScope (s : List ℕ) : Option (List ℕ) :=
  match s.dropWhile (· ≠ 0x25) with
  | [] => some s
  | _ :: scope => if scope = [] ∨ 0x25 ∈ scope then none else some (s.takeWhile (· ≠ 0x25))

/-- `IPv6Address`. -/
def parseIPv6 (s : List ℕ) : Option IPv6 := do
  if 0x2f ∈ s then none
  let addr ← dropScope s
  let parts := addr.splitOn 0x3a
  if parts.length < 3 then none
  let parts ← convertSuffix parts
  let n ← readParts parts
  return BitVec.ofNat 128 n

/-- `ipaddress.ip_address`. -/
def ipAddress (s : List ℕ) : Option IP :=
  match parseIPv4 s with
  | some ip => some (.v4 ip)
  | none => (parseIPv6 s).map .v6

example : ipAddress ("fe80::1:a00:1%eth0".toList.map Char.toNat) =
    some (.v6 0xfe80000000000000000000010a000001) := by decide +kernel

example : ipAddress ("::ffff:10.0.0.1".toList.map Char.toNat) = some (.v6 0xffff0a000001) := by
  decide +kernel

/-! ## The unspecified IPv4 address -/

theorem le_foldl_decimal (s : List ℕ) : ∀ n, n ≤ s.foldl (fun n c ↦ n * 10 + (c - 0x30)) n := by
  induction s with
  | nil => exact fun n ↦ le_rfl
  | cons c s ih =>
      intro n
      have hstep : n ≤ n * 10 + (c - 0x30) := by omega
      exact hstep.trans (ih _)

theorem parseOctet_le {s : List ℕ} {n : ℕ} (h : parseOctet s = some n) : n ≤ 255 := by
  unfold parseOctet at h
  split_ifs at h with hempty hdigits hlong hzero hlarge
  cases h
  omega

theorem parseOctet_zero {s : List ℕ} (h : parseOctet s = some 0) : s = [0x30] := by
  by_contra hne
  unfold parseOctet at h
  split_ifs at h with hempty hdigits hlong hzero hlarge
  obtain ⟨c, t, rfl⟩ := List.exists_cons_of_ne_nil hempty
  have hc : c ≠ 0x30 := fun hc ↦ hzero ⟨hne, by rw [hc]; rfl⟩
  have hdigit : isDecimal c = true := List.all_eq_true.mp hdigits c List.mem_cons_self
  have hlow : 0x30 ≤ c := by
    simp [isDecimal] at hdigit
    exact hdigit.1
  have hvalue : 0 * 10 + (c - 0x30) ≤ decimal (c :: t) := le_foldl_decimal t _
  have hdecimal : decimal (c :: t) = 0 := Option.some.inj h
  omega

/-- Leading zeros are refused, so that one text denotes `0.0.0.0`. -/
theorem parseIPv4_zero {s : List ℕ} (h : parseIPv4 s = some 0) :
    s = [0x30, 0x2e, 0x30, 0x2e, 0x30, 0x2e, 0x30] := by
  have hjoin : [0x2e].intercalate (s.splitOn 0x2e) = s := List.intercalate_splitOn 0x2e
  unfold parseIPv4 at h
  split at h
  · rename_i a b c d hsplit
    simp only [Option.bind_eq_bind, Option.bind_eq_some_iff] at h
    obtain ⟨na, ha, nb, hb, nc, hc, nd, hd, hvalue⟩ := h
    have hna := parseOctet_le ha
    have hnb := parseOctet_le hb
    have hnc := parseOctet_le hc
    have hnd := parseOctet_le hd
    have hzero : ((na * 256 + nb) * 256 + nc) * 256 + nd = 0 := by
      have hnat := congrArg BitVec.toNat (Option.some.inj hvalue)
      rw [BitVec.toNat_ofNat, Nat.mod_eq_of_lt (by omega)] at hnat
      exact hnat
    obtain rfl : na = 0 := by omega
    obtain rfl : nb = 0 := by omega
    obtain rfl : nc = 0 := by omega
    obtain rfl : nd = 0 := by omega
    rw [hsplit, parseOctet_zero ha, parseOctet_zero hb, parseOctet_zero hc,
      parseOctet_zero hd] at hjoin
    exact hjoin.symm
  · cases h

theorem ipAddress_v4_zero {s : List ℕ} (h : ipAddress s = some (.v4 0)) :
    s = [0x30, 0x2e, 0x30, 0x2e, 0x30, 0x2e, 0x30] := by
  unfold ipAddress at h
  split at h
  · rename_i ip hip
    cases h
    exact parseIPv4_zero hip
  · obtain ⟨_, _, hv6⟩ := Option.map_eq_some_iff.mp h
    cases hv6

/-! ## Local addresses are private -/

namespace IPv4

variable {ip : IPv4}

theorem isPrivate_of_mem {n : Network 32} (hn : n ∈ privateNetworks)
    (h : n.contains ip = true) (hother : ip.toNat / 2 ^ 8 ≠ 0xc00000) : isPrivate ip = true := by
  have hin : inSome privateNetworks ip = true := List.any_eq_true.mpr ⟨n, hn, h⟩
  have hout : inSome privateExceptions ip = false := by
    simp only [inSome, privateExceptions, List.any_cons, List.any_nil, Network.contains, net4,
      Bool.or_eq_false_iff, beq_eq_false_iff_ne]
    norm_num at hother ⊢
    omega
  simp [isPrivate, hin, hout]

theorem isPrivate_of_loopback (h : isLoopback ip = true) : isPrivate ip = true := by
  refine isPrivate_of_mem (n := net4 127 0 0 0 8) (by simp [privateNetworks]) h ?_
  have hnet := beq_iff_eq.mp h
  norm_num [net4] at hnet ⊢
  omega

theorem isPrivate_of_linkLocal (h : isLinkLocal ip = true) : isPrivate ip = true := by
  refine isPrivate_of_mem (n := net4 169 254 0 0 16) (by simp [privateNetworks]) h ?_
  have hnet := beq_iff_eq.mp h
  norm_num [net4] at hnet ⊢
  omega

theorem isPrivate_of_unspecified (h : isUnspecified ip = true) : isPrivate ip = true := by
  rw [beq_iff_eq.mp h]
  decide

theorem not_isGlobal_of_private (h : isPrivate ip = true) : isGlobal ip = false := by
  simp [isGlobal, h]

end IPv4

namespace IPv6

variable {ip : IPv6}

/-- A mapped address has a property because the IPv4 address has it. -/
theorem isPrivate_of {p4 : IPv4 → Bool} {own : Bool} (hmapped : ∀ ip4, p4 ip4 = true →
    IPv4.isPrivate ip4 = true)
    (hown : own = true → (inSome privateNetworks ip && !inSome privateExceptions ip) = true)
    (h : orMapped p4 own ip = true) : isPrivate ip = true := by
  unfold isPrivate orMapped at *
  split at h
  · exact hmapped _ h
  · exact hown h

theorem isPrivate_of_loopback (h : isLoopback ip = true) : isPrivate ip = true := by
  refine isPrivate_of (fun _ ↦ IPv4.isPrivate_of_loopback) (fun hown ↦ ?_) h
  rw [beq_iff_eq.mp hown]
  decide

theorem isPrivate_of_unspecified (h : isUnspecified ip = true) : isPrivate ip = true := by
  refine isPrivate_of (fun _ ↦ IPv4.isPrivate_of_unspecified) (fun hown ↦ ?_) h
  rw [beq_iff_eq.mp hown]
  decide

theorem isPrivate_of_linkLocal (h : isLinkLocal ip = true) : isPrivate ip = true := by
  refine isPrivate_of (fun _ ↦ IPv4.isPrivate_of_linkLocal) (fun hown ↦ ?_) h
  have hin : inSome privateNetworks ip = true :=
    List.any_eq_true.mpr ⟨net6 0xfe80 0 0 0 10, by simp [privateNetworks], hown⟩
  have hnet := beq_iff_eq.mp hown
  have hout : inSome privateExceptions ip = false := by
    simp only [inSome, privateExceptions, List.any_cons, List.any_nil, Network.contains, net6,
      Bool.or_eq_false_iff, beq_eq_false_iff_ne]
    norm_num [net6] at hnet ⊢
    omega
  simp [hin, hout]

theorem not_isGlobal_of_private (h : isPrivate ip = true) : isGlobal ip = false := by
  unfold isGlobal orMapped
  split
  · rename_i ip4 hmapped
    rw [isPrivate, orMapped, hmapped] at h
    exact IPv4.not_isGlobal_of_private h
  · rw [h]
    rfl

end IPv6

namespace IP

variable {ip : IP}

theorem isPrivate_of_local
    (h : ip.isLoopback = true ∨ ip.isPrivate = true ∨ ip.isLinkLocal = true) :
    ip.isPrivate = true := by
  cases ip with
  | v4 ip =>
      rcases h with h | h | h
      · exact IPv4.isPrivate_of_loopback h
      · exact h
      · exact IPv4.isPrivate_of_linkLocal h
  | v6 ip =>
      rcases h with h | h | h
      · exact IPv6.isPrivate_of_loopback h
      · exact h
      · exact IPv6.isPrivate_of_linkLocal h

theorem isPrivate_of_unspecified (h : ip.isUnspecified = true) : ip.isPrivate = true := by
  cases ip with
  | v4 ip => exact IPv4.isPrivate_of_unspecified h
  | v6 ip => exact IPv6.isPrivate_of_unspecified h

theorem not_isGlobal_of_private (h : ip.isPrivate = true) : ip.isGlobal = false := by
  cases ip with
  | v4 ip => exact IPv4.not_isGlobal_of_private h
  | v6 ip => exact IPv6.not_isGlobal_of_private h

end IP

end IpAddress
