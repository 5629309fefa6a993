import Discode.Library.IpAddress
import Discode.Text

/-!
# The guard of `base_url`

`is_base_url_allowed` over any answers of the URL parser, the address parser and the resolver.
-/

set_option autoImplicit false

namespace Discode.BaseUrl

open IpAddress (IP)

structure SplitResult where
  scheme : PyStr
  hostname : Option PyStr

/-- What the guard asks the standard library; no value stands for an exception. -/
structure Network where
  urlsplit : PyStr → Option SplitResult
  /-- `ipaddress.ip_address`. -/
  ipAddress : PyStr → Option IP
  /-- `str(info[4][0])` of every answer of `socket.getaddrinfo`. -/
  getaddrinfo : PyStr → Option (List PyStr)

variable (net : Network)

/-- The literal host, or all DNS resolutions. -/
def Network.candidates (host : PyStr) : Option (List PyStr) :=
  match net.ipAddress host with
  | some _ => some [host]
  | none => (net.getaddrinfo host).filter fun infos ↦ infos ≠ []

def isExcluded (ip : IP) : Bool :=
  ip.isPrivate || ip.isLoopback || ip.isLinkLocal || ip.isReserved || ip.isUnspecified ||
    ip.isMulticast

def httpSchemes : List PyStr := [pyStr "http", pyStr "https"]

/-- `is_base_url_allowed`. -/
def isBaseUrlAllowed (url : PyStr) : Bool :=
  match net.urlsplit url with
  | none => false
  | some parts =>
      if parts.scheme ∉ httpSchemes then false
      else match parts.hostname.filter fun host ↦ host ≠ [] with
        | none => false
        | some host => match net.candidates host with
            | none => false
            | some candidates => candidates.all fun candidate ↦
                (net.ipAddress candidate).any fun ip ↦ !isExcluded ip

/-- `host` is the host of a URL that is fetched over HTTP. -/
def Network.Host (url host : PyStr) : Prop :=
  ∃ parts, net.urlsplit url = some parts ∧ parts.scheme ∈ httpSchemes ∧
    parts.hostname = some host ∧ host ≠ []

/-- The host denotes the candidate or resolves to it. -/
def Network.Candidate (url candidate : PyStr) : Prop :=
  ∃ host candidates, net.Host url host ∧ net.candidates host = some candidates ∧
    candidate ∈ candidates

/-- Nothing but public targets: an HTTP URL all of whose addresses are globally routable. -/
structure PublicTarget (url : PyStr) : Prop where
  scheme : ∃ parts, net.urlsplit url = some parts ∧ parts.scheme ∈ httpSchemes
  routable : ∀ candidate, net.Candidate url candidate →
    ∃ ip, net.ipAddress candidate = some ip ∧ ip.Routable

/-- What the guard refuses a URL for. -/
inductive Refused (url : PyStr) : Prop where
  | noHost (h : ∀ host, ¬ net.Host url host)
  | unresolved {host : PyStr} (hhost : net.Host url host) (h : net.candidates host = none)
  | noAddress {candidate : PyStr} (hcandidate : net.Candidate url candidate)
      (h : net.ipAddress candidate = none)
  | special {candidate : PyStr} {ip : IP} (hcandidate : net.Candidate url candidate)
      (hip : net.ipAddress candidate = some ip) (h : ip.IsSpecial)

/-- An address of the host lies in shared address space, 100.64.0.0/10. -/
def Shared (url : PyStr) : Prop :=
  ∃ candidate ip, net.Candidate url candidate ∧ net.ipAddress candidate = some ip ∧ ip.IsShared

variable {net} {url : PyStr}

theorem isExcluded_iff {ip : IP} : isExcluded ip = true ↔ ip.IsSpecial := by
  simp only [isExcluded, Bool.or_eq_true, IP.IsSpecial, or_assoc]

theorem Network.Host.unique {host host' : PyStr} (h : net.Host url host)
    (h' : net.Host url host') : host = host' := by
  obtain ⟨parts, hparts, -, hhost, -⟩ := h
  obtain ⟨parts', hparts', -, hhost', -⟩ := h'
  cases hparts.symm.trans hparts'
  exact Option.some.inj (hhost.symm.trans hhost')

/-- What the guard has seen of a URL that it lets pass. -/
theorem isBaseUrlAllowed_iff :
    isBaseUrlAllowed net url = true ↔ ∃ host candidates, net.Host url host ∧
      net.candidates host = some candidates ∧ ∀ candidate ∈ candidates,
        ∃ ip, net.ipAddress candidate = some ip ∧ ¬ ip.IsSpecial := by
  constructor
  · intro h
    unfold isBaseUrlAllowed at h
    split at h
    · cases h
    · rename_i parts hparts
      split_ifs at h with hscheme
      split at h
      · cases h
      · rename_i host hfilter
        obtain ⟨hhost, hne⟩ := Option.filter_eq_some_iff.mp hfilter
        split at h
        · cases h
        · rename_i candidates hcandidates
          refine ⟨host, candidates, ⟨parts, hparts, hscheme, hhost, by simpa using hne⟩,
            hcandidates, fun candidate hc ↦ ?_⟩
          obtain ⟨ip, hip, hnot⟩ := (Option.any_eq_true _ _).mp (List.all_eq_true.mp h candidate hc)
          refine ⟨ip, hip, fun hspecial ↦ ?_⟩
          rw [isExcluded_iff.mpr hspecial] at hnot
          cases hnot
  · rintro ⟨host, candidates, ⟨parts, hparts, hscheme, hhost, hne⟩, hcandidates, hall⟩
    have hfilter : parts.hostname.filter (fun host ↦ host ≠ []) = some host :=
      Option.filter_eq_some_iff.mpr ⟨hhost, by simpa using hne⟩
    simp only [isBaseUrlAllowed, hparts, if_neg (not_not.mpr hscheme), hfilter, hcandidates]
    refine List.all_eq_true.mpr fun candidate hc ↦ ?_
    obtain ⟨ip, hip, hnot⟩ := hall candidate hc
    refine (Option.any_eq_true _ _).mpr ⟨ip, hip, ?_⟩
    rw [Bool.not_eq_true', Bool.eq_false_iff]
    exact fun hexcluded ↦ hnot (isExcluded_iff.mp hexcluded)

theorem admitted {candidate : PyStr} (h : isBaseUrlAllowed net url = true)
    (hcandidate : net.Candidate url candidate) :
    ∃ ip, net.ipAddress candidate = some ip ∧ ¬ ip.IsSpecial := by
  obtain ⟨host, candidates, hhost, hcandidates, hall⟩ := isBaseUrlAllowed_iff.mp h
  obtain ⟨host', candidates', hhost', hcandidates', hc⟩ := hcandidate
  cases hhost.unique hhost'
  cases hcandidates.symm.trans hcandidates'
  exact hall candidate hc

theorem refused_iff : Refused net url ↔ isBaseUrlAllowed net url = false := by
  rw [Bool.eq_false_iff]
  constructor
  · intro hrefused hallowed
    obtain ⟨host, candidates, hhost, hcandidates, -⟩ := isBaseUrlAllowed_iff.mp hallowed
    cases hrefused with
    | noHost h => exact h host hhost
    | unresolved hhost' h =>
        cases hhost.unique hhost'
        cases hcandidates.symm.trans h
    | noAddress hc h =>
        obtain ⟨ip, hip, -⟩ := admitted hallowed hc
        cases h.symm.trans hip
    | special hc hip h =>
        obtain ⟨ip', hip', hnot⟩ := admitted hallowed hc
        cases hip.symm.trans hip'
        exact hnot h
  · intro hnone
    by_contra hnot
    have hsome : ∃ host, net.Host url host := by
      by_contra hno
      exact hnot (.noHost (not_exists.mp hno))
    obtain ⟨host, hhost⟩ := hsome
    cases hcandidates : net.candidates host with
    | none => exact hnot (.unresolved hhost hcandidates)
    | some candidates =>
        refine hnone (isBaseUrlAllowed_iff.mpr ?_)
        refine ⟨host, candidates, hhost, hcandidates, fun candidate hc ↦ ?_⟩
        have hcandidate : net.Candidate url candidate :=
          ⟨host, candidates, hhost, hcandidates, hc⟩
        cases hip : net.ipAddress candidate with
        | none => exact absurd (.noAddress hcandidate hip) hnot
        | some ip => exact ⟨ip, rfl, fun hspecial ↦ hnot (.special hcandidate hip hspecial)⟩

/-- The guard admits only public targets exactly for the URLs that it refuses and those none of
whose addresses is shared. -/
theorem base_url_public_iff (net : Network) (url : PyStr) :
    (isBaseUrlAllowed net url = true → PublicTarget net url) ↔
      Refused net url ∨ ¬ Shared net url := by
  by_cases hallowed : isBaseUrlAllowed net url = true
  · have hpasses : ¬ Refused net url := by
      rw [refused_iff, hallowed]
      exact Bool.noConfusion
    obtain ⟨host, -, ⟨parts, hparts, hscheme, -⟩, -, -⟩ := isBaseUrlAllowed_iff.mp hallowed
    rw [or_iff_right hpasses]
    constructor
    · rintro hpublic ⟨candidate, ip, hc, hip, hshared⟩
      obtain ⟨ip', hip', hroutable⟩ := (hpublic hallowed).routable candidate hc
      cases hip.symm.trans hip'
      exact (IP.routable_iff hroutable.ordinary).mp hroutable hshared
    · intro hnone _
      refine ⟨⟨parts, hparts, hscheme⟩, fun candidate hc ↦ ?_⟩
      obtain ⟨ip, hip, hordinary⟩ := admitted hallowed hc
      exact ⟨ip, hip, (IP.routable_iff hordinary).mpr fun hshared ↦
        hnone ⟨candidate, ip, hc, hip, hshared⟩⟩
  · refine iff_of_true (fun h ↦ absurd h hallowed) (.inl (refused_iff.mpr ?_))
    exact Bool.eq_false_iff.mpr hallowed

/-- What the standard library answers about one URL and its host. -/
def sampleNetwork : Network where
  urlsplit url := if url = pyStr "http://100.64.0.1" then
    some ⟨pyStr "http", some (pyStr "100.64.0.1")⟩ else none
  ipAddress host := if host = pyStr "100.64.0.1" then some (.v4 (.ofNat 32 0x64400001)) else none
  getaddrinfo _ := none

theorem shared_address_admitted :
    isBaseUrlAllowed sampleNetwork (pyStr "http://100.64.0.1") = true ∧
      ¬ PublicTarget sampleNetwork (pyStr "http://100.64.0.1") := by
  refine ⟨by decide +kernel, fun hpublic ↦ ?_⟩
  obtain ⟨ip, hip, hroutable⟩ := hpublic.routable (pyStr "100.64.0.1")
    ⟨pyStr "100.64.0.1", _, ⟨_, rfl, by decide, rfl, by decide⟩, rfl, List.mem_cons_self⟩
  have hsome : sampleNetwork.ipAddress (pyStr "100.64.0.1") = some (.v4 (.ofNat 32 0x64400001)) := by
    simp [sampleNetwork]
  cases hsome.symm.trans hip
  have hlocal : (IP.v4 (.ofNat 32 0x64400001)).isGlobal = false := by decide +kernel
  exact absurd hroutable.global (by rw [hlocal]; exact Bool.noConfusion)

end Discode.BaseUrl
