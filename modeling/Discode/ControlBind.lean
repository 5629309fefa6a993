import Discode.Library.IpAddressText
import Discode.Text
import Mathlib.Data.List.DropRight

/-!
# Where the control API listens

The host that `_startup_validation` cuts out of `RUNNER_CONTROL_BIND`, and the host that
`_parse_bind` passes to the server.
-/

set_option autoImplicit false

namespace Discode.ControlBind

open IpAddress (IP ipAddress)

structure Settings where
  /-- `RUNNER_CONTROL_BIND`. -/
  bind : PyStr
  /-- `RUNNER_CONTROL_AUTH`. -/
  auth : PyStr

def colon : CodePoint := 0x3a

/-- `bind.rsplit(":", 1)`; there is no second part without a colon. -/
def rsplit (bind : PyStr) : PyStr × Option PyStr :=
  if colon ∈ bind then
    ((bind.rdropWhile (· ≠ colon)).dropLast, some (bind.rtakeWhile (· ≠ colon)))
  else (bind, none)

def isBracket (c : CodePoint) : Bool := c == 0x5b || c == 0x5d

/-- `s.strip("[]")`. -/
def stripBrackets (s : PyStr) : PyStr := (s.dropWhile isBracket).rdropWhile isBracket

def bindHost (bind : PyStr) : PyStr := stripBrackets (rsplit bind).1

def localhost : PyStr := pyStr "localhost"

def anyIPv4 : PyStr := pyStr "0.0.0.0"

/-- `_is_private_or_loopback`. -/
def isPrivateOrLoopback (host : PyStr) : Bool :=
  match ipAddress host with
  | some addr => addr.isLoopback || addr.isPrivate || addr.isLinkLocal
  | none => host == localhost

def loopbackIps : List PyStr := [pyStr "127.0.0.1", pyStr "::1"]

/-- `_is_loopback_only`. -/
def isLoopbackOnly (bind : PyStr) : Bool :=
  bindHost bind ∈ loopbackIps || bindHost bind == localhost

inductive StartupError where
  | authRequired
  | publicBindRefused
deriving DecidableEq

/-- `_startup_validation`. -/
def startupValidation (settings : Settings) : Except StartupError Unit :=
  let host := bindHost settings.bind
  if settings.auth = [] then .error .authRequired
  else if host = anyIPv4 ∨ isPrivateOrLoopback host = false then .error .publicBindRefused
  else .ok ()

/-- `_parse_bind`, with the port as text; without a colon it raises. -/
def parseBind (bind : PyStr) : Option (PyStr × PyStr) :=
  (rsplit bind).2.map fun port ↦ ((rsplit bind).1, port)

/-- `localhost`, or one address of the machine that is not reached from everywhere. -/
inductive LocalHost (host : PyStr) : Prop where
  | name (h : host = localhost)
  | address {ip : IP} (h : ipAddress host = some ip)
      (hlocal : ip.isLoopback = true ∨ ip.isPrivate = true ∨ ip.isLinkLocal = true)
      (hone : ip.isUnspecified = false) (hpublic : ip.isGlobal = false)

/-- The host is the unspecified IPv6 address or the unspecified IPv4 address in an IPv6 address,
in any spelling. -/
def AnyIPv6 (host : PyStr) : Prop :=
  ∃ ip, ipAddress host = some (.v6 ip) ∧ (IP.v6 ip).isUnspecified = true

theorem startupValidation_ok {settings : Settings} : startupValidation settings = .ok () ↔
    settings.auth ≠ [] ∧ bindHost settings.bind ≠ anyIPv4 ∧
      isPrivateOrLoopback (bindHost settings.bind) = true := by
  unfold startupValidation
  by_cases hauth : settings.auth = []
  · simp [hauth]
  · by_cases hhost : bindHost settings.bind = anyIPv4
    · simp [hauth, hhost]
    · cases hlocal : isPrivateOrLoopback (bindHost settings.bind) <;> simp [hauth, hhost, hlocal]

theorem isPrivateOrLoopback_cases {host : PyStr} (h : isPrivateOrLoopback host = true) :
    (ipAddress host = none ∧ host = localhost) ∨ ∃ ip, ipAddress host = some ip ∧
      (ip.isLoopback = true ∨ ip.isPrivate = true ∨ ip.isLinkLocal = true) := by
  unfold isPrivateOrLoopback at h
  split at h
  · rename_i ip hip
    rw [Bool.or_eq_true, Bool.or_eq_true, or_assoc] at h
    exact .inr ⟨ip, hip, h⟩
  · rename_i hnone
    exact .inl ⟨hnone, beq_iff_eq.mp h⟩

/-- An unspecified address is in one of the private networks. -/
theorem isPrivateOrLoopback_of_any {host : PyStr} (h : AnyIPv6 host) :
    isPrivateOrLoopback host = true := by
  obtain ⟨ip, hip, hany⟩ := h
  simp [isPrivateOrLoopback, hip, IP.isPrivate_of_unspecified hany]

/-- What is bound is the host that was checked, up to brackets around it. -/
theorem parseBind_host {bind host port : PyStr} (h : parseBind bind = some (host, port)) :
    stripBrackets host = bindHost bind := by
  obtain ⟨_, -, heq⟩ := Option.map_eq_some_iff.mp h
  rw [← (Prod.mk.inj heq).1]
  rfl

theorem localHost_of_not_any {host : PyStr} (hlocal : isPrivateOrLoopback host = true)
    (hne : host ≠ anyIPv4) (hany : ¬ AnyIPv6 host) : LocalHost host := by
  rcases isPrivateOrLoopback_cases hlocal with ⟨-, rfl⟩ | ⟨ip, hip, hkind⟩
  · exact .name rfl
  · have hone : ip.isUnspecified = false := by
      cases ip with
      | v4 ip =>
          cases hzero : (IP.v4 ip).isUnspecified with
          | false => rfl
          | true =>
              have hip0 : ip = 0 := beq_iff_eq.mp hzero
              exact absurd (IpAddress.ipAddress_v4_zero (hip0 ▸ hip)) hne
      | v6 ip => exact Bool.eq_false_iff.mpr fun hzero ↦ hany ⟨ip, hip, hzero⟩
    exact .address hip hkind hone (IP.not_isGlobal_of_private (IP.isPrivate_of_local hkind))

theorem not_localHost_of_any {host : PyStr} (hany : AnyIPv6 host) : ¬ LocalHost host := by
  obtain ⟨ip, hip, hzero⟩ := hany
  intro h
  cases h with
  | name h =>
      have hnone : ipAddress localhost = none := by decide +kernel
      rw [h, hnone] at hip
      cases hip
  | address h _ hone _ =>
      cases hip.symm.trans h
      rw [hzero] at hone
      cases hone

/-- The control API is bound to a local host exactly for the settings with which it does not start
and those whose host is no spelling of an unspecified IPv6 address. -/
theorem control_bind_local_iff (settings : Settings) :
    ((startupValidation settings = .ok () → LocalHost (bindHost settings.bind)) ↔
        settings.auth = [] ∨ ¬ AnyIPv6 (bindHost settings.bind)) ∧
      ∀ host port, parseBind settings.bind = some (host, port) →
        stripBrackets host = bindHost settings.bind := by
  refine ⟨?_, fun host port h ↦ parseBind_host h⟩
  constructor
  · intro h
    by_contra hnot
    obtain ⟨hauth, hany⟩ := not_or.mp hnot
    rw [not_not] at hany
    have hother : bindHost settings.bind ≠ anyIPv4 := by
      intro heq
      obtain ⟨ip, hip, -⟩ := hany
      have hv4 : ipAddress anyIPv4 = some (.v4 0) := by decide +kernel
      rw [heq, hv4] at hip
      cases hip
    exact not_localHost_of_any hany
      (h (startupValidation_ok.mpr ⟨hauth, hother, isPrivateOrLoopback_of_any hany⟩))
  · intro h hok
    obtain ⟨hauth, hne, hlocal⟩ := startupValidation_ok.mp hok
    exact localHost_of_not_any hlocal hne (h.resolve_left hauth)

/-- `:::8788` listens on all interfaces. -/
theorem any_ipv6_accepted :
    startupValidation ⟨pyStr ":::8788", pyStr "secret"⟩ = .ok () ∧
      parseBind (pyStr ":::8788") = some (pyStr "::", pyStr "8788") ∧
        ¬ ∀ settings, startupValidation settings = .ok () → LocalHost (bindHost settings.bind) := by
  have hok : startupValidation ⟨pyStr ":::8788", pyStr "secret"⟩ = .ok () := by decide +kernel
  have hhost : bindHost (pyStr ":::8788") = pyStr "::" := by decide +kernel
  refine ⟨hok, by decide +kernel, fun h ↦ ?_⟩
  have hany : AnyIPv6 (pyStr "::") := ⟨0, by decide +kernel, by decide⟩
  exact not_localHost_of_any hany (hhost ▸ h ⟨pyStr ":::8788", pyStr "secret"⟩ hok)

/-- A host for which other clients are turned away is local. -/
theorem localHost_of_loopbackOnly {bind : PyStr} (h : isLoopbackOnly bind = true) :
    LocalHost (bindHost bind) := by
  have hmem : bindHost bind ∈ loopbackIps ∨ bindHost bind = localhost := by
    simpa [isLoopbackOnly] using h
  rcases hmem with hmem | hname
  · rcases List.mem_cons.mp hmem with heq | hmem
    · rw [heq]
      have haddress : ipAddress (pyStr "127.0.0.1") = some (.v4 0x7f000001) := by decide +kernel
      exact .address haddress (.inl (by decide)) (by decide) (by decide)
    · rw [List.mem_singleton.mp hmem]
      have haddress : ipAddress (pyStr "::1") = some (.v6 1) := by decide +kernel
      exact .address haddress (.inl (by decide)) (by decide) (by decide)
  · exact .name hname

end Discode.ControlBind
