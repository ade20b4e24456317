import GuardElision.Program.Builder
import GuardElision.Proofs.Redundancy.Exact
import GuardElision.Proofs.Run.Outcome
import GuardElision.Proofs.Trace.Totals
import Mathlib.Algebra.GroupWithZero.Nat
import Mathlib.Algebra.Order.BigOperators.Group.List
import Mathlib.Algebra.Order.Group.Nat

/-!
# The accounts of a report

A report says how many checks are left after each phase and how often these ran. Both come from
the ledger by subtraction, and the reasons in the ledger take their counts from different places:
from the record of a user check that found the sanitizer check in the table, from the record read
again by the second phase, or from a look-up by number. When the coverage was read from the trace
that the second phase reads, all of them give the total of the eliminated check, so what is
subtracted is what the eliminated checks contribute, and what is left is what the others
contribute.
-/

namespace GuardElision

/-- The coverage of the sanitizer checks, if there is any, was read from the trace that the second
phase reads. -/
def Findings.Ingested (f : Findings) (checks : List Check) : Prop :=
  ∀ e, f.evidence.sanitizer = some e → ∃ source, SanitizerEvidence.ofSource checks source = .ok e ∧
    ∀ trace, f.trace = some trace → trace = source

/-- Behind ingested coverage there are the records of the checks, which are those the second phase
reads. -/
theorem Findings.Ingested.records {f : Findings} {checks : List Check} (h : f.Ingested checks)
    {e : SanitizerEvidence} (he : f.evidence.sanitizer = some e) : ∃ records,
      e = .ofRecords checks records ∧ records.map Record.id = checks.map Check.id ∧
      ∀ trace found, f.trace = some trace → Trace.read checks trace = .ok found →
        found = records := by
  obtain ⟨source, hingest, hsame⟩ := h e he
  obtain ⟨records, hread, rfl⟩ := SanitizerEvidence.ofSource_eq_ok_iff.mp hingest
  refine ⟨records, rfl, Trace.map_id_read hread, fun trace found htrace hfound => ?_⟩
  obtain rfl := hsame trace htrace
  exact Except.ok.inj (hfound.symm.trans hread)

/-- Coverage that is arranged from the records of its own trace is ingested. -/
theorem Findings.ingested_of_read {f : Findings} {checks : List Check} {source : TraceSource}
    {records : List Record} (hsanitizer : f.evidence.sanitizer = some (.ofRecords checks records))
    (htrace : f.trace = some source) (hread : Trace.read checks source = .ok records) :
    f.Ingested checks := by
  intro e he
  obtain rfl := Option.some.inj (hsanitizer.symm.trans he)
  refine ⟨source, SanitizerEvidence.ofSource_eq_ok_iff.mpr ⟨records, hread, rfl⟩, ?_⟩
  intro trace htrace'
  exact Option.some.inj (htrace'.symm.trans htrace)

/-- The entry that a record finds is filed under the count it is found by. -/
theorem Phases.Probe.mem_bucket {table : PatternTable} {r : Record} {count : Count}
    {entry : PatternEntry} (h : Probe table r count entry) :
    entry ∈ PatternTable.bucket table count := by
  cases h <;> assumption

namespace Analysis

open Phases

variable {s : Settings} {p : Program} {k : Classifier} {checks : Inventory} {f : Findings}

end Analysis

namespace Report

/-- How often a report says the checks left after a phase ran. -/
def weightAfter (r : Report) : Phase → Count
  | .user => r.weightAfterPhase1
  | .coverage => r.weightAfterPhase2
  | .dominance => r.weightAfterPhase3

variable {r : Report} {checks : List Check}

section Conservation

variable (hdistinct : (checks.map Check.id).Nodup)
  (hascending : r.eliminated.Pairwise fun a b => a.check.number < b.check.number)
  (hlisted : ∀ x ∈ r.eliminated, ∃ c ∈ checks, c.id = x.check)

include hdistinct hascending hlisted

end Conservation

variable {l : Ledger}

theorem Lists.ascending (h : r.Lists l) :
    r.eliminated.Pairwise fun a b => a.check.number < b.check.number := by
  have hl := l.ascending
  rw [Ascending, ← h, List.pairwise_map] at hl
  exact hl.imp fun hlt => UInt64.lt_iff_toNat_lt.mpr hlt

end Report

namespace Analysis

variable {s : Settings} {p : Program} {k : Classifier} {checks : Inventory} {f : Findings}

end Analysis

open Build in
/-- Six tests in a row, each of which may fail: of a size twice, of an index three times, of a flag
once. -/
def stages : Program :=
  let steps : Build Unit := do
    let main ← procedure "main"
    let first ← block main
    let second ← block main
    let third ← block main
    let fourth ← block main
    let fifth ← block main
    let sixth ← block main
    let done ← block main
    let fail ← block main
    let size ← external "size"
    let index ← external "index"
    let flag ← external "flag"
    let _ ← branch first (.external size) second fail
    let _ ← branch second (.external size) third fail
    let _ ← branch third (.external index) fourth fail
    let _ ← branch fourth (.external index) fifth fail
    let _ ← branch fifth (.external index) sixth fail
    let _ ← branch sixth (.external flag) done fail
  (steps.run.run { name := "stages" }).2

/-- A run with standard settings; the first test is the user's, the others are sanitizer checks. -/
def stagesSetup : Setup where
  settings := {}
  classifier :=
    { sanitizer := [⟨⟨1⟩, ⟨1⟩, .sanitizer, .generic⟩, ⟨⟨2⟩, ⟨2⟩, .sanitizer, .generic⟩,
        ⟨⟨3⟩, ⟨3⟩, .sanitizer, .generic⟩, ⟨⟨4⟩, ⟨4⟩, .sanitizer, .generic⟩,
        ⟨⟨5⟩, ⟨5⟩, .sanitizer, .generic⟩]
      user := [⟨⟨100⟩, ⟨0⟩, .user, .generic⟩]
      exits := .ofList [(⟨1⟩, .left), (⟨2⟩, .left), (⟨3⟩, .left), (⟨4⟩, .left), (⟨5⟩, .left)] }
  oracle := .uniform

/-- How often the sanitizer checks went either way. -/
def stagesRecords : List Record :=
  [⟨⟨1⟩, 10, 2⟩, ⟨⟨2⟩, 7, 3⟩, ⟨⟨3⟩, 7, 3⟩, ⟨⟨4⟩, 7, 0⟩, ⟨⟨5⟩, 6, 1⟩]

/-- Coverage of all checks, that of the sanitizer checks as read from its trace. -/
def stagesFindings : Findings where
  evidence :=
    { sanitizer := some (.ofRecords stagesSetup.classifier.sanitizer stagesRecords)
      user := some [⟨⟨100⟩, 10, 2⟩] }
  trace := some (.memory (Trace.encode stagesRecords))

namespace Setup

end Setup

end GuardElision
