import Mathlib.Data.Nat.Notation
import Mathlib.Tactic.NormNum
import Mathlib.Tactic.FinCases

/-!
# IP addresses

The classification of addresses in CPython's `ipaddress`, and the forms in which an IPv6 address
carries an IPv4 address.
-/

set_option autoImplicit false

namespace IpAddress

abbrev IPv4 := BitVec 32

abbrev IPv6 := BitVec 128

structure Network (w : ℕ) where
  address : ℕ
  length : ℕ

/-- `ip in network`. -/
def Network.contains {w : ℕ} (n : Network w) (ip : BitVec w) : Bool :=
  ip.toNat / 2 ^ (w - n.length) == n.address / 2 ^ (w - n.length)

/-- `a.b.c.d/length`. -/
def net4 (a b c d length : ℕ) : Network 32 := ⟨((a * 256 + b) * 256 + c) * 256 + d, length⟩

/-- `a:b:c::d/length`. -/
def net6 (a b c d length : ℕ) : Network 128 := ⟨((a * 65536 + b) * 65536 + c) * 2 ^ 80 + d, length⟩

def inSome {w : ℕ} (networks : List (Network w)) (ip : BitVec w) : Bool :=
  networks.any fun n ↦ n.contains ip

namespace IPv4

def privateNetworks : List (Network 32) :=
  [net4 0 0 0 0 8, net4 10 0 0 0 8, net4 127 0 0 0 8, net4 169 254 0 0 16, net4 172 16 0 0 12,
    net4 192 0 0 0 24, net4 192 0 0 170 31, net4 192 0 2 0 24, net4 192 168 0 0 16,
    net4 198 18 0 0 15, net4 198 51 100 0 24, net4 203 0 113 0 24, net4 240 0 0 0 4,
    net4 255 255 255 255 32]

def privateExceptions : List (Network 32) := [net4 192 0 0 9 32, net4 192 0 0 10 32]

/-- Shared address space. -/
def publicNetwork : Network 32 := net4 100 64 0 0 10

def isPrivate (ip : IPv4) : Bool := inSome privateNetworks ip && !inSome privateExceptions ip

def isGlobal (ip : IPv4) : Bool := !publicNetwork.contains ip && !isPrivate ip

def isLoopback (ip : IPv4) : Bool := (net4 127 0 0 0 8).contains ip

def isLinkLocal (ip : IPv4) : Bool := (net4 169 254 0 0 16).contains ip

def isReserved (ip : IPv4) : Bool := (net4 240 0 0 0 4).contains ip

def isUnspecified (ip : IPv4) : Bool := ip == 0

def isMulticast (ip : IPv4) : Bool := (net4 224 0 0 0 4).contains ip

end IPv4

namespace IPv6

def low32 (n : ℕ) : IPv4 := BitVec.ofNat 32 n

/-- `ip.ipv4_mapped`. -/
def ipv4Mapped (ip : IPv6) : Option IPv4 :=
  if ip.toNat / 2 ^ 32 = 0xffff then some (low32 ip.toNat) else none

def privateNetworks : List (Network 128) :=
  [net6 0 0 0 1 128, net6 0 0 0 0 128, net6 0 0 0 0xffff00000000 96, net6 0x64 0xff9b 1 0 48,
    net6 0x100 0 0 0 64, net6 0x2001 0 0 0 23, net6 0x2001 0xdb8 0 0 32, net6 0x2002 0 0 0 16,
    net6 0x3fff 0 0 0 20, net6 0xfc00 0 0 0 7, net6 0xfe80 0 0 0 10]

def privateExceptions : List (Network 128) :=
  [net6 0x2001 1 0 1 128, net6 0x2001 1 0 2 128, net6 0x2001 3 0 0 32, net6 0x2001 4 0x112 0 48,
    net6 0x2001 0x20 0 0 28, net6 0x2001 0x30 0 0 28]

def reservedNetworks : List (Network 128) :=
  [net6 0 0 0 0 8, net6 0x100 0 0 0 8, net6 0x200 0 0 0 7, net6 0x400 0 0 0 6, net6 0x800 0 0 0 5,
    net6 0x1000 0 0 0 4, net6 0x4000 0 0 0 3, net6 0x6000 0 0 0 3, net6 0x8000 0 0 0 3,
    net6 0xa000 0 0 0 3, net6 0xc000 0 0 0 3, net6 0xe000 0 0 0 4, net6 0xf000 0 0 0 5,
    net6 0xf800 0 0 0 6, net6 0xfe00 0 0 0 9]

/-- A property of a mapped address is that of the IPv4 address. -/
def orMapped (ofIPv4 : IPv4 → Bool) (own : Bool) (ip : IPv6) : Bool :=
  match ipv4Mapped ip with
  | some ip4 => ofIPv4 ip4
  | none => own

def isPrivate (ip : IPv6) : Bool :=
  orMapped IPv4.isPrivate (inSome privateNetworks ip && !inSome privateExceptions ip) ip

def isGlobal (ip : IPv6) : Bool := orMapped IPv4.isGlobal (!isPrivate ip) ip

def isLoopback (ip : IPv6) : Bool := orMapped IPv4.isLoopback (ip == 1) ip

def isLinkLocal (ip : IPv6) : Bool :=
  orMapped IPv4.isLinkLocal ((net6 0xfe80 0 0 0 10).contains ip) ip

def isReserved (ip : IPv6) : Bool := orMapped IPv4.isReserved (inSome reservedNetworks ip) ip

def isUnspecified (ip : IPv6) : Bool := orMapped IPv4.isUnspecified (ip == 0) ip

def isMulticast (ip : IPv6) : Bool :=
  orMapped IPv4.isMulticast ((net6 0xff00 0 0 0 8).contains ip) ip

/-- An IPv4 address that is part of an IPv6 address: mapped, compatible, translated, the gateway
of a 6to4 address, the server and the client of a Teredo address. -/
inductive Embeds (ip : IPv6) : IPv4 → Prop where
  | mapped (h : ip.toNat / 2 ^ 32 = 0xffff) : Embeds ip (low32 ip.toNat)
  | compatible (h : ip.toNat / 2 ^ 32 = 0) : Embeds ip (low32 ip.toNat)
  | nat64 (h : ip.toNat / 2 ^ 32 = 0x64ff9b0000000000000000) : Embeds ip (low32 ip.toNat)
  | sixToFour (h : ip.toNat / 2 ^ 112 = 0x2002) : Embeds ip (low32 (ip.toNat / 2 ^ 80))
  | teredoServer (h : ip.toNat / 2 ^ 96 = 0x20010000) : Embeds ip (low32 (ip.toNat / 2 ^ 64))
  | teredoClient (h : ip.toNat / 2 ^ 96 = 0x20010000) : Embeds ip (~~~ low32 ip.toNat)

end IPv6

/-- What `ipaddress.ip_address` returns; the scope of an IPv6 address has no part in this. -/
inductive IP where
  | v4 (ip : IPv4)
  | v6 (ip : IPv6)

namespace IP

/-- A property that both kinds of address have. -/
def lift (p4 : IPv4 → Bool) (p6 : IPv6 → Bool) : IP → Bool
  | v4 ip => p4 ip
  | v6 ip => p6 ip

def isPrivate : IP → Bool := lift IPv4.isPrivate IPv6.isPrivate

def isGlobal : IP → Bool := lift IPv4.isGlobal IPv6.isGlobal

def isLoopback : IP → Bool := lift IPv4.isLoopback IPv6.isLoopback

def isLinkLocal : IP → Bool := lift IPv4.isLinkLocal IPv6.isLinkLocal

def isReserved : IP → Bool := lift IPv4.isReserved IPv6.isReserved

def isUnspecified : IP → Bool := lift IPv4.isUnspecified IPv6.isUnspecified

def isMulticast : IP → Bool := lift IPv4.isMulticast IPv6.isMulticast

/-- In shared address space, as an IPv4 address or mapped. -/
def IsShared : IP → Prop
  | v4 ip => IPv4.publicNetwork.contains ip = true
  | v6 ip => ∃ ip4, IPv6.ipv4Mapped ip = some ip4 ∧ IPv4.publicNetwork.contains ip4 = true

/-- One of the special kinds of address. -/
def IsSpecial (ip : IP) : Prop :=
  ip.isPrivate = true ∨ ip.isLoopback = true ∨ ip.isLinkLocal = true ∨ ip.isReserved = true ∨
    ip.isUnspecified = true ∨ ip.isMulticast = true

/-- Globally routable, and so is every IPv4 address in it. -/
structure Routable (ip : IP) : Prop where
  global : ip.isGlobal = true
  ordinary : ¬ ip.IsSpecial
  embedded : ∀ ip6 ip4, ip = v6 ip6 → IPv6.Embeds ip6 ip4 →
    (v4 ip4).isGlobal = true ∧ ¬ (v4 ip4).IsSpecial

end IP

/-! ## Addresses that carry others -/

namespace IPv6

variable {ip : IPv6} {ip4 : IPv4}

theorem inSome_of_mem {w : ℕ} {networks : List (Network w)} {n : Network w} {a : BitVec w}
    (hn : n ∈ networks) (h : a.toNat / 2 ^ (w - n.length) = n.address / 2 ^ (w - n.length)) :
    inSome networks a = true :=
  List.any_eq_true.mpr ⟨n, hn, beq_iff_eq.mpr h⟩

theorem reserved_of_high (h : ip.toNat / 2 ^ 120 = 0) : inSome reservedNetworks ip = true :=
  inSome_of_mem List.mem_cons_self (h.trans (by decide))

theorem private_of_sixToFour (h : ip.toNat / 2 ^ 112 = 0x2002) :
    (inSome privateNetworks ip && !inSome privateExceptions ip) = true := by
  have hin : inSome privateNetworks ip = true :=
    inSome_of_mem (n := net6 0x2002 0 0 0 16) (by simp [privateNetworks])
      (h.trans (by decide))
  have hout : inSome privateExceptions ip = false := by
    simp only [inSome, privateExceptions, List.any_cons, List.any_nil, Network.contains, net6,
      Bool.or_eq_false_iff, beq_eq_false_iff_ne]
    norm_num at h ⊢
    omega
  simp [hin, hout]

theorem private_of_teredo (h : ip.toNat / 2 ^ 96 = 0x20010000) :
    (inSome privateNetworks ip && !inSome privateExceptions ip) = true := by
  have hin : inSome privateNetworks ip = true := by
    refine inSome_of_mem (n := net6 0x2001 0 0 0 23) (by simp [privateNetworks]) ?_
    norm_num [net6] at h ⊢
    omega
  have hout : inSome privateExceptions ip = false := by
    simp only [inSome, privateExceptions, List.any_cons, List.any_nil, Network.contains, net6,
      Bool.or_eq_false_iff, beq_eq_false_iff_ne]
    norm_num at h ⊢
    omega
  simp [hin, hout]

theorem mapped_of_eq (h : ip.toNat / 2 ^ 32 = 0xffff) : ipv4Mapped ip = some (low32 ip.toNat) :=
  if_pos h

theorem ipv4Mapped_eq_some (h : ipv4Mapped ip = some ip4) :
    ip.toNat / 2 ^ 32 = 0xffff ∧ ip4 = low32 ip.toNat := by
  unfold ipv4Mapped at h
  split_ifs at h with hmapped
  cases h
  exact ⟨hmapped, rfl⟩

/-- The address in a mapped one is the mapped one. -/
theorem Embeds.eq_of_mapped {mapped : IPv4} (hmapped : ipv4Mapped ip = some mapped)
    (h : Embeds ip ip4) : ip4 = mapped := by
  obtain ⟨hhigh, rfl⟩ := ipv4Mapped_eq_some hmapped
  cases h with
  | mapped => rfl
  | compatible => rfl
  | nat64 => rfl
  | sixToFour h => omega
  | teredoServer h => omega
  | teredoClient h => omega

/-- An address that carries another one is mapped, reserved or private. -/
theorem Embeds.special (hmapped : ipv4Mapped ip = none) (h : Embeds ip ip4) :
    isReserved ip = true ∨ isPrivate ip = true := by
  simp only [isReserved, isPrivate, orMapped, hmapped]
  cases h with
  | mapped h =>
      rw [mapped_of_eq h] at hmapped
      cases hmapped
  | compatible h => exact .inl (reserved_of_high (by omega))
  | nat64 h => exact .inl (reserved_of_high (by omega))
  | sixToFour h => exact .inr (private_of_sixToFour h)
  | teredoServer h => exact .inr (private_of_teredo h)
  | teredoClient h => exact .inr (private_of_teredo h)

end IPv6

namespace IP

theorem v4_isGlobal {ip : IPv4} (h : ¬ (v4 ip).IsSpecial) :
    (v4 ip).isGlobal = true ↔ ¬ (v4 ip).IsShared := by
  have hprivate : IPv4.isPrivate ip = false := Bool.eq_false_iff.mpr fun hp ↦ h (.inl hp)
  simp [isGlobal, lift, IPv4.isGlobal, hprivate, IsShared]

theorem v6_isSpecial_of_mapped {ip : IPv6} {ip4 : IPv4} (h : IPv6.ipv4Mapped ip = some ip4) :
    (v6 ip).IsSpecial ↔ (v4 ip4).IsSpecial := by
  simp only [IsSpecial, isPrivate, isLoopback, isLinkLocal, isReserved, isUnspecified, isMulticast,
    lift, IPv6.isPrivate, IPv6.isLoopback, IPv6.isLinkLocal, IPv6.isReserved, IPv6.isUnspecified,
    IPv6.isMulticast, IPv6.orMapped, h]

/-- An address of none of the special kinds is routable unless it is shared. -/
theorem routable_iff {ip : IP} (h : ¬ ip.IsSpecial) : ip.Routable ↔ ¬ ip.IsShared := by
  cases ip with
  | v4 ip =>
      constructor
      · exact fun hroutable ↦ (v4_isGlobal h).mp hroutable.global
      · intro hshared
        refine ⟨(v4_isGlobal h).mpr hshared, h, ?_⟩
        rintro _ _ ⟨⟩
  | v6 ip =>
      cases hmapped : IPv6.ipv4Mapped ip with
      | none =>
          have hprivate : IPv6.isPrivate ip = false := Bool.eq_false_iff.mpr fun hp ↦ h (.inl hp)
          refine iff_of_true ⟨?_, h, ?_⟩ ?_
          · simp [isGlobal, lift, IPv6.isGlobal, IPv6.orMapped, hmapped, hprivate]
          · rintro _ ip4 ⟨⟩ hembeds
            refine absurd ?_ h
            rcases hembeds.special hmapped with hreserved | hprivate'
            · exact .inr (.inr (.inr (.inl hreserved)))
            · exact .inl hprivate'
          · rintro ⟨ip4, heq, -⟩
            cases hmapped.symm.trans heq
      | some ip4 =>
          have h4 : ¬ (v4 ip4).IsSpecial := fun hs ↦ h ((v6_isSpecial_of_mapped hmapped).mpr hs)
          have hglobal : (v6 ip).isGlobal = (v4 ip4).isGlobal := by
            simp [isGlobal, lift, IPv6.isGlobal, IPv6.orMapped, hmapped]
          have hshared : (v6 ip).IsShared ↔ (v4 ip4).IsShared := by
            simp [IsShared, hmapped]
          rw [hshared, ← v4_isGlobal h4, ← hglobal]
          constructor
          · exact Routable.global
          · intro hg
            refine ⟨hg, h, ?_⟩
            rintro _ embedded ⟨⟩ hembeds
            rw [hembeds.eq_of_mapped hmapped]
            exact ⟨hglobal ▸ hg, h4⟩

end IP

end IpAddress
