import GuardElision.Proofs.Redundancy.Entries

/-!
# Ledgers that hold the same checks

A phase looks at the ledger only to see which checks are in it, never at the reasons. Two passes that
start from ledgers with the same checks can therefore be run side by side: if each of them enters
the same checks, with reasons that are related in some way, the ledgers hold the same checks
again. Passes that are described by their offers may go through the offers in any order; the passes
that look for one live check after the other are run in step.
-/

namespace GuardElision

namespace Ledger

/-- Two ledgers hold the same checks, each with reasons that are related. -/
def Alike (related : Reason → Reason → Prop) (l l' : Ledger) : Prop :=
  ∀ id, Option.Rel related (l.find? id) (l'.find? id)

namespace Alike

variable {related : Reason → Reason → Prop} {l l' : Ledger}

theorem contains_eq (h : Alike related l l') (id : CheckId) : l.contains id = l'.contains id := by
  have hid := h id
  unfold SortedMap.contains
  generalize l.find? id = found, l'.find? id = found' at hid
  cases hid <;> rfl

theorem find?_eq_none_iff (h : Alike related l l') (id : CheckId) :
    l.find? id = none ↔ l'.find? id = none := by
  rw [← contains_eq_false_iff, ← contains_eq_false_iff, h.contains_eq]

/-- A check that is new to both ledgers may be entered in both, with related reasons. -/
theorem mark (h : Alike related l l') {id : CheckId} (hnew : l.find? id = none)
    {reason reason' : Reason} (hrelated : related reason reason') :
    Alike related (Ledger.mark l id reason) (Ledger.mark l' id reason') := by
  intro other
  have hnew' := (h.find?_eq_none_iff id).mp hnew
  rw [find?_mark hnew, find?_mark hnew']
  split
  · exact .some hrelated
  · exact h other

end Alike

end Ledger

namespace Phases

open Compare Ledger

/-- Started from ledgers that hold the same checks, in any two faithful sessions, two passes end
with ledgers that hold the same checks. -/
def Parallel (p : Program) (related : Reason → Reason → Prop) (pass pass' : Pass) : Prop :=
  ∀ (l l' : Ledger) (s s' : Session), Alike related l l' → s.Faithful p → s'.Faithful p →
    Alike related (pass l s).1 (pass' l' s').1 ∧ (pass l s).2.Faithful p ∧
      (pass' l' s').2.Faithful p

section Parallel

variable {p : Program} {related : Reason → Reason → Prop} {pass pass' next next' : Pass}

theorem parallel_pure : Parallel p related pure pure :=
  fun _ _ _ _ h hs hs' => ⟨h, hs, hs'⟩

theorem Parallel.seq (h : Parallel p related pass pass') (hnext : Parallel p related next next') :
    Parallel p related (fun l => pass l >>= next) (fun l => pass' l >>= next') := by
  intro l l' s s' halike hs hs'
  obtain ⟨halike, hs, hs'⟩ := h l l' s s' halike hs hs'
  exact hnext _ _ _ _ halike hs hs'

/-- Two loops over the same items run side by side when their rounds do. -/
theorem parallel_each {α : Type} {items : List α} {pass pass' : α → Pass}
    (h : ∀ x ∈ items, Parallel p related (pass x) (pass' x)) :
    Parallel p related (each items pass) (each items pass') := by
  induction items with
  | nil => exact parallel_pure
  | cons x rest ih =>
    have hrest := ih fun y hy => h y (List.mem_cons_of_mem x hy)
    exact (h x List.mem_cons_self).seq hrest

/-- Two passes that make the same offers run side by side, if any two offers for one check are
related. -/
theorem Settles.parallel {offer : CheckId → Reason → Prop} (h : Settles p offer pass)
    (h' : Settles p offer pass')
    (hrelated : ∀ id reason reason', offer id reason → offer id reason' → related reason reason') :
    Parallel p related pass pass' := by
  intro l l' s s' halike hs hs'
  obtain ⟨hgrow, hfaithful⟩ := h.grows l s hs
  obtain ⟨hgrow', hfaithful'⟩ := h'.grows l' s' hs'
  refine ⟨fun id => ?_, hfaithful, hfaithful'⟩
  cases hl : l.find? id with
  | some reason =>
    -- what is in the ledgers stays as it is
    cases hl' : l'.find? id with
    | none => simp [(halike.find?_eq_none_iff id).mpr hl'] at hl
    | some reason' =>
      have hold := halike id
      rw [hl, hl'] at hold
      rw [hgrow.find?_eq_some hl, hgrow'.find?_eq_some hl']
      exact hold
  | none =>
    have hl' := (halike.find?_eq_none_iff id).mp hl
    -- what is new was offered, and what is offered is entered on both sides
    have hnew : ∀ reason, (pass l s).1.find? id = some reason → offer id reason :=
      fun reason hfind => hgrow.of_new hl hfind
    have hnew' : ∀ reason, (pass' l' s').1.find? id = some reason → offer id reason :=
      fun reason hfind => hgrow'.of_new hl' hfind
    cases hfind : (pass l s).1.find? id with
    | some reason =>
      obtain ⟨reason', hfind'⟩ := (contains_iff _ id).mp
        (h'.complete l' s' hs' id reason (hnew reason hfind))
      rw [hfind']
      exact .some (hrelated id reason reason' (hnew reason hfind) (hnew' reason' hfind'))
    | none =>
      cases hfind' : (pass' l' s').1.find? id with
      | none => exact .none
      | some reason' =>
        have hin := h.complete l s hs id reason' (hnew' reason' hfind')
        rw [contains_iff, hfind] at hin
        obtain ⟨_, hnone⟩ := hin
        cases hnone

end Parallel

section InStep

variable {related : Reason → Reason → Prop} (hrefl : ∀ reason, related reason reason)
  (s : Strategy) (p : Program) (checks : Inventory)

include hrefl

/-- Both sides enter a new check in favour of the same one, or not at all. -/
theorem parallel_coverByFirst {l l' : Ledger} {session session' : Session}
    (halike : Alike related l l') (hs : session.Faithful p) (hs' : session'.Faithful p)
    {candidate : Check} (hnew : l.find? candidate.id = none) (source : Source) (phase : Phase)
    (count : Count) (coverers : List Check) :
    Alike related (coverByFirst s p candidate source phase count coverers l session).1
        (coverByFirst s p candidate source phase count coverers l' session').1 ∧
      (coverByFirst s p candidate source phase count coverers l session).2.Faithful p ∧
      (coverByFirst s p candidate source phase count coverers l' session').2.Faithful p := by
  have hsteady : Steady p (firstCoverer s p candidate source coverers) := steady_firstCoverer ..
  unfold coverByFirst
  rw [hsteady.bind_apply hs, hsteady.bind_apply hs']
  cases (firstCoverer s p candidate source coverers).verdict with
  | none => exact ⟨halike, hsteady.faithful _ hs, hsteady.faithful _ hs'⟩
  | some c =>
    exact ⟨halike.mark hnew (hrefl _), hsteady.faithful _ hs, hsteady.faithful _ hs'⟩

theorem parallel_coverageStep (table : PatternTable) (ordinal : Nat) (candidate : Check)
    (r : Record) : Parallel p related (coverageStep s p checks table ordinal candidate r)
      (coverageStep s p checks table ordinal candidate r) := by
  intro l l' session session' halike hs hs'
  unfold coverageStep
  rw [register_contains, register_contains, ← halike.contains_eq candidate.id]
  split
  · exact ⟨halike, hs, hs'⟩
  · next hskip =>
    rw [not_or, Bool.not_eq_true, contains_eq_false_iff] at hskip
    exact parallel_coverByFirst hrefl s p halike hs hs' hskip.2 ..

/-- The second phase asks of the ledger only what is in it. -/
theorem parallel_coverage (table : PatternTable) (records : List Record) :
    Parallel p related (coverage s p checks table records) (coverage s p checks table records) :=
  parallel_each fun item _ =>
    parallel_coverageStep hrefl s p checks table item.2 item.1.1 item.1.2

theorem parallel_dominatedBySanitizer (d : Dominance) (e : Evidence)
    (all : List (Check × Nat × Option BlockId)) (candidate : Check × Nat × Option BlockId) :
    Parallel p related (dominatedBySanitizer s p d e all candidate)
      (dominatedBySanitizer s p d e all candidate) := by
  intro l l' session session' halike hs hs'
  obtain ⟨check, position, block⟩ := candidate
  cases block with
  | none => exact ⟨halike, hs, hs'⟩
  | some b =>
    have hcoverers : coverersAt d l' check position b all =
        coverersAt d l check position b all := by
      simp only [coverersAt, register_contains, halike.contains_eq]
    unfold dominatedBySanitizer
    dsimp only
    rw [register_contains, register_contains, ← halike.contains_eq check.id, hcoverers]
    split
    · exact ⟨halike, hs, hs'⟩
    · next hnew =>
      rw [Bool.not_eq_true, contains_eq_false_iff] at hnew
      exact parallel_coverByFirst hrefl s p halike hs hs' hnew ..

/-- The turns of the sanitizer checks ask of the ledger only what is in it. -/
theorem parallel_turns (d : Dominance) (e : Evidence) :
    Parallel p related (turns s p d checks e) (turns s p d checks e) :=
  parallel_each fun item _ => parallel_dominatedBySanitizer hrefl s p d e _ item

end InStep

end Phases

end GuardElision
