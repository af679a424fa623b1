import Vintage.Proofs.FindingPlaces

/-!
# Exempted functions

An exemption takes findings away and changes nothing else: what is left of the calls of removed
extensions is what is found without exemptions, less the findings at exempted functions.

Results:
* `Check.filter_extensionReport`: a call is exempted with all its findings or with none.
* `Rule.findings_exempt`: exemptions drop the findings at the functions they name, and nothing else
  depends on them.
-/

namespace Vintage

/-- The finding is at a function in the set. -/
def Finding.isExempt (l : Listing) (exempt : NameSet) (f : Finding) : Bool :=
  (l.get? f.place.token).any fun t => exempt.contains t.text

namespace Check

variable {l : Listing}

theorem isExempt_of_mem_extensionReport {range : VersionRange} {exempt : NameSet}
    {call : ExtensionCall} (hcall : call ∈ extensionCalls l) {f : Finding}
    (hf : f ∈ extensionReport l range call) :
    f.isExempt l exempt = exempt.contains call.function := by
  obtain ⟨t, ht, htext⟩ := get?_extensionCall hcall
  have htoken : f.place.token = call.position := by
    rw [place_of_mem_extensionReport hf, Listing.place, ht]
  rw [Finding.isExempt, htoken, ht, Option.any_some, htext]

/-- A call is exempted with all its findings or with none. -/
theorem filter_extensionReport (range : VersionRange) (exempt : NameSet) {call : ExtensionCall}
    (hcall : call ∈ extensionCalls l) :
    (extensionReport l range call).filter (fun f => !f.isExempt l exempt) =
      if exempt.contains call.function then [] else extensionReport l range call := by
  split
  · rename_i hexempt
    apply List.filter_eq_nil_iff.2
    intro f hf
    rw [isExempt_of_mem_extensionReport hcall hf, hexempt]
    decide
  · rename_i hexempt
    apply List.filter_eq_self.2
    intro f hf
    rw [isExempt_of_mem_extensionReport hcall hf, Bool.not_eq_true', Bool.eq_false_iff]
    exact hexempt

/-- Leaving calls out is the same as leaving their findings out. -/
theorem flatMap_filter_extensionReport (range : VersionRange) (exempt : NameSet)
    {calls : List ExtensionCall} (hcalls : ∀ call ∈ calls, call ∈ extensionCalls l) :
    (calls.filter fun call => !exempt.contains call.function).flatMap (extensionReport l range) =
      (calls.flatMap (extensionReport l range)).filter fun f => !f.isExempt l exempt := by
  induction calls with
  | nil => rfl
  | cons call calls ih =>
    obtain ⟨hcall, hrest⟩ := List.forall_mem_cons.1 hcalls
    rw [List.flatMap_cons, List.filter_append, filter_extensionReport range exempt hcall,
      ← ih hrest, List.filter_cons]
    cases exempt.contains call.function <;> rfl

end Check

/-- Exemptions drop the findings at the functions that they name, and all others stay in their
order. No other rule depends on them. -/
theorem Rule.findings_exempt (l : Listing) (range : VersionRange) (exempt : NameSet) :
    Rule.removedExtensions.findings l ⟨range, exempt⟩ =
        (Rule.removedExtensions.findings l ⟨range, {}⟩).filter (fun f =>
          !(l.get? f.place.token).any fun t => exempt.contains t.text) ∧
      ∀ r : Rule, r ≠ .removedExtensions → ∀ exempt' : NameSet,
        r.findings l ⟨range, exempt⟩ = r.findings l ⟨range, exempt'⟩ := by
  constructor
  · have hnone : Check.extensionFindings l ⟨range, {}⟩ =
        (Check.extensionCalls l).flatMap (Check.extensionReport l range) := by
      have hall : (Check.extensionCalls l).filter
          (fun call => !(NameSet.contains {} call.function)) = Check.extensionCalls l :=
        List.filter_eq_self.2 fun call _ => rfl
      rw [Check.extensionFindings, hall]
    have hsome := Check.flatMap_filter_extensionReport range exempt
      fun call (hcall : call ∈ Check.extensionCalls l) => hcall
    rw [← hnone] at hsome
    exact hsome
  · intro r hr exempt'
    cases r with
    | removedExtensions => exact absurd rfl hr
    | _ => rfl

/-- The exempted function is given with a namespace and in another case; the function that is
called inside its arguments is still reported. -/
theorem Rule.findings_exempt_query :
    let l := Listing.ofText "<?php mysql_query(mysql_error());"
    let exempt := NameSet.ofList [" \\MySQL_Query"]
    exempt.contains "mysql_query" = true ∧ exempt.contains "mysql_error" = false ∧
      Rule.removedExtensions.findings l ⟨.all, exempt⟩ =
        (Rule.removedExtensions.findings l ⟨.all, {}⟩).filter (fun f =>
          !(l.get? f.place.token).any fun t => exempt.contains t.text) ∧
      Rule.newFunctions ≠ .removedExtensions ∧
        Rule.newFunctions.findings l ⟨.all, exempt⟩ = Rule.newFunctions.findings l ⟨.all, {}⟩ := by
  intro l exempt
  have hrule := Rule.findings_exempt l .all exempt
  have hne : Rule.newFunctions ≠ .removedExtensions := by decide
  exact ⟨by decide +kernel, by decide +kernel, hrule.1, hne, hrule.2 _ hne _⟩

end Vintage
