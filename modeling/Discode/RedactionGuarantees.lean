import Discode.Library.RegexScan
import Discode.Redaction

/-!
# Secrets of the deployment in the redacted text

The rule of a value removes every occurrence of it.  The rules after it put nothing but
`[REDACTED]` into the text, so that no occurrence comes back.
-/

set_option autoImplicit false

namespace Discode

open Regex

theorem redacted_eq_bracketed :
    redacted = bracketed 0x5b 0x5d (pyStr "REDACTED") := by decide

/-- The word between the brackets holds no other word of its length. -/
theorem not_infix_redacted {v : PyStr} (hlen : 8 ≤ v.length) (hne : v ≠ pyStr "REDACTED") :
    ¬ v <:+: pyStr "REDACTED" := by
  intro h
  have hword : (pyStr "REDACTED").length = 8 := by decide
  exact hne (h.eq_of_length (Nat.le_antisymm h.length_le (hword ▸ hlen)))

section Value

variable {v : PyStr} (hlen : 8 ≤ v.length) (hopening : 0x5b ∉ v) (hclosing : 0x5d ∉ v)
  (hne : v ≠ pyStr "REDACTED")

include hlen hopening hclosing hne

theorem infix_of_infix_rules (rules : List (Rule CodePoint)) :
    ∀ text, v <:+: rules.foldl (fun text rule ↦ rule.sub redacted text) text → v <:+: text := by
  induction rules with
  | nil => exact fun _ h ↦ h
  | cons rule rules ih =>
      intro text h
      have hsub := ih _ h
      rw [redacted_eq_bracketed] at hsub
      exact rule.infix_of_infix_sub hopening hclosing (not_infix_redacted hlen hne) hsub

theorem not_infix_exactRule (text : PyStr) : ¬ v <:+: (exactRule v).sub redacted text := by
  rw [redacted_eq_bracketed]
  exact Rule.word_sub hopening hclosing (not_infix_redacted hlen hne) text

end Value

theorem mem_deploymentSecrets {env : Redactor} {v : PyStr} (hv : v ∈ env.secretValues)
    (hlen : 8 ≤ v.length) : exactRule v ∈ env.deploymentSecrets := by
  refine List.mem_map_of_mem (List.mem_filter.mpr ⟨?_, decide_eq_true hlen⟩)
  exact (List.mem_insertionSort _).mpr hv

/-- No secret of the deployment is in a redacted text, whatever the text and the other
secrets are. -/
theorem deployment_secrets_redacted (env : Redactor) (text : PyStr) {v : PyStr}
    (hv : v ∈ env.secretValues) (hlen : 8 ≤ v.length) (hopening : 0x5b ∉ v)
    (hclosing : 0x5d ∉ v) (hne : v ≠ pyStr "REDACTED") :
    ¬ v <:+: applyCommonRedaction env text := by
  have hmem : exactRule v ∈ env.rules := List.mem_append_left _ (mem_deploymentSecrets hv hlen)
  obtain ⟨before, after, hrules⟩ := List.append_of_mem hmem
  unfold applyCommonRedaction
  rw [hrules, List.foldl_append, List.foldl_cons]
  intro h
  have hexact := infix_of_infix_rules hlen hopening hclosing hne after _ h
  exact not_infix_exactRule hlen hopening hclosing hne _ hexact

theorem deployment_secrets_redacted_overlapping :
    ¬ pyStr "password-2" <:+: applyCommonRedaction
      ⟨.asciiOnly, [pyStr "password-2", pyStr "my-password-2", pyStr "word-2-my"]⟩
      (pyStr "my-password-2-my-password-2") :=
  deployment_secrets_redacted _ _ List.mem_cons_self (by decide) (by decide) (by decide) (by decide)

end Discode
