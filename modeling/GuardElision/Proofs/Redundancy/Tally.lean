import GuardElision.Redundancy.Phases
import Mathlib.Data.List.Basic

/-!
# Counting what a phase enters

The phases are the same whether they work on a ledger or on a tally, which only counts besides. On
a tally they go through the same comparisons and reach the same ledger, and every step that enters
a check raises the number by one; so the number that a phase tells is by how much its ledger has
grown (`Phases.counted_fst`).
-/

namespace GuardElision

/-- An entry under a new key makes a map larger by one. -/
theorem SortedMap.size_insert_of_not_contains {κ α : Type} [Ranked κ] (m : SortedMap κ α) {key : κ}
    (h : m.contains key = false) (value : α) : (m.insert key value).size = m.size + 1 := by
  have hlength : ∀ entries : List (κ × α),
      (entries.find? fun e => rank e.1 == rank key) = none →
      (put key value entries).length = entries.length + 1 := by
    intro entries hnone
    induction entries with
    | nil => rfl
    | cons e rest ih =>
      obtain ⟨hne, hrest⟩ : rank e.1 ≠ rank key ∧
          (rest.find? fun e => rank e.1 == rank key) = none := by
        simpa using hnone
      rw [put]
      split
      · rfl
      · rw [if_neg (Ne.symm hne), List.length_cons, ih hrest, List.length_cons]
  exact hlength m.entries (by simpa [contains, find?] using h)

/-- From a tally, a step that counts goes where the step on the ledger alone goes, and counts by
how much the ledger grows. -/
structure Compare.Counts (t : Tally) (plain : Compare Ledger) (counting : Compare Tally) :
    Prop where
  ledger_eq : ∀ s, (counting s).1.ledger = (plain s).1
  session_eq : ∀ s, (counting s).2 = (plain s).2
  growth : ∀ s, (counting s).1.ledger.size + t.entered = t.ledger.size + (counting s).1.entered

namespace Compare

variable {t : Tally} {plain : Compare Ledger} {counting : Compare Tally}

theorem counts_pure (t : Tally) : Counts t (pure t.ledger) (pure t) :=
  ⟨fun _ => rfl, fun _ => rfl, fun _ => rfl⟩

/-- An entry counts once, and not at all if it is not made. -/
theorem counts_mark (t : Tally) (id : CheckId) (reason : Reason) :
    Counts t (pure (Register.mark t.ledger id reason)) (pure (Register.mark t id reason)) := by
  cases hin : t.ledger.contains id with
  | true =>
    have htally : Register.mark t id reason = t := if_pos hin
    have hledger : Register.mark t.ledger id reason = t.ledger := if_pos hin
    rw [htally, hledger]
    exact counts_pure t
  | false =>
    have hnot : ¬ t.ledger.contains id = true := by simp [hin]
    have htally : Register.mark t id reason =
        { entered := t.entered + 1, ledger := Ledger.mark t.ledger id reason } := if_neg hnot
    have hsize : (Ledger.mark t.ledger id reason).size = t.ledger.size + 1 := by
      rw [Ledger.mark, SortedMap.insertNew, if_neg hnot,
        SortedMap.size_insert_of_not_contains _ hin]
    rw [htally]
    refine ⟨fun _ => rfl, fun _ => rfl, fun _ => ?_⟩
    show (Ledger.mark t.ledger id reason).size + t.entered = t.ledger.size + (t.entered + 1)
    omega

/-- Two steps in a row count what both of them count. -/
theorem Counts.bind {pass : Pass} {countingPass : Pass Tally} (h : Counts t plain counting)
    (hpass : ∀ t' : Tally, Counts t' (pass t'.ledger) (countingPass t')) :
    Counts t (plain >>= pass) (counting >>= countingPass) := by
  refine ⟨fun s => ?_, fun s => ?_, fun s => ?_⟩
  · show (countingPass (counting s).1 (counting s).2).1.ledger = (pass (plain s).1 (plain s).2).1
    rw [(hpass _).ledger_eq, ← h.session_eq, ← h.ledger_eq]
  · show (countingPass (counting s).1 (counting s).2).2 = (pass (plain s).1 (plain s).2).2
    rw [(hpass _).session_eq, ← h.session_eq, ← h.ledger_eq]
  · have hfirst := h.growth s
    have hsecond := (hpass (counting s).1).growth (counting s).2
    show (countingPass (counting s).1 (counting s).2).1.ledger.size + t.entered =
      t.ledger.size + (countingPass (counting s).1 (counting s).2).1.entered
    omega

/-- A comparison in front counts nothing. -/
theorem counts_after {α : Type} (x : Compare α) {plain : α → Compare Ledger}
    {counting : α → Compare Tally} (h : ∀ a, Counts t (plain a) (counting a)) :
    Counts t (x >>= plain) (x >>= counting) :=
  ⟨fun s => (h (x s).1).ledger_eq (x s).2, fun s => (h (x s).1).session_eq (x s).2,
    fun s => (h (x s).1).growth (x s).2⟩

theorem Counts.ite {c : Prop} [Decidable c] {plain' : Compare Ledger} {counting' : Compare Tally}
    (h : Counts t plain counting) (h' : Counts t plain' counting') :
    Counts t (if c then plain else plain') (if c then counting else counting') := by
  split
  · exact h
  · exact h'

end Compare

namespace Phases

open Compare

theorem counts_each {α : Type} {items : List α} {pass : α → Pass} {counting : α → Pass Tally}
    (h : ∀ x, ∀ t : Tally, Counts t (pass x t.ledger) (counting x t)) (t : Tally) :
    Counts t (each items pass t.ledger) (each items counting t) := by
  induction items generalizing t with
  | nil => exact counts_pure t
  | cons x rest ih => exact (h x t).bind ih

theorem counts_consider (candidate coverer : Check) (phase : Phase) (count : Count)
    (covered : Compare Bool) (t : Tally) :
    Counts t (consider candidate coverer phase count covered t.ledger)
      (consider candidate coverer phase count covered t) :=
  (counts_pure t).ite <| counts_after covered fun _ => (counts_mark t _ _).ite (counts_pure t)

theorem counts_considerEntry (checks : Inventory) (coverer : Check) (count : Count)
    (entry : PatternEntry) (covered : Check → Compare Bool) (t : Tally) :
    Counts t (considerEntry checks coverer count entry covered t.ledger)
      (considerEntry checks coverer count entry covered t) := by
  unfold considerEntry
  cases checks.sanitizer[entry.ordinal]? with
  | none => exact counts_pure t
  | some candidate => exact counts_consider _ _ _ _ _ t

theorem counts_coverByFirst (s : Strategy) (p : Program) (candidate : Check) (source : Source)
    (phase : Phase) (count : Count) (coverers : List Check) (t : Tally) :
    Counts t (coverByFirst s p candidate source phase count coverers t.ledger)
      (coverByFirst s p candidate source phase count coverers t) := by
  refine counts_after _ fun found => ?_
  cases found with
  | none => exact counts_pure t
  | some c => exact counts_mark t _ _

section

variable (s : Strategy) (p : Program) (checks : Inventory) (table : PatternTable)
  (records : List Record)

theorem counts_userStep (coverer : Check) (r : Record) (t : Tally) :
    Counts t (userStep s p checks table coverer r t.ledger)
      (userStep s p checks table coverer r t) := by
  have hside : ∀ count, Counts t (oneSided s p checks table coverer count t.ledger)
      (oneSided s p checks table coverer count t) :=
    fun count => counts_each (fun _ => counts_considerEntry _ _ _ _ _) t
  unfold userStep
  split
  · exact counts_each (fun _ => counts_considerEntry _ _ _ _ _) t
  split
  · exact hside r.left
  split
  · exact hside r.right
  · exact counts_pure t

theorem counts_user (t : Tally) :
    Counts t (user s p checks table records t.ledger) (user s p checks table records t) := by
  refine counts_each (fun (coverer, r) t => ?_) t
  exact counts_userStep s p checks table coverer r t

theorem counts_coverage (t : Tally) :
    Counts t (coverage s p checks table records t.ledger) (coverage s p checks table records t) :=
  counts_each (fun _ t => (counts_pure t).ite (counts_coverByFirst _ _ _ _ _ _ _ t)) t

theorem counts_dominance (d : Dominance) (e : Evidence) (t : Tally) :
    Counts t (dominance s p checks d e t.ledger) (dominance s p checks d e t) := by
  refine (counts_each (fun coverer => counts_each fun candidate t => ?_) t).bind
    (counts_each fun (candidate, position, block) t => ?_)
  · unfold dominatedByUser
    split
    · exact (counts_consider _ _ _ _ _ t).ite (counts_pure t)
    · exact counts_pure t
  · cases block with
    | none => exact counts_pure t
    | some b => exact (counts_pure t).ite (counts_coverByFirst _ _ _ _ _ _ _ t)

end

/-- The outcome of a phase is its ledger, with the number of entries by which this has grown. -/
theorem counted_fst {pass : Pass} {counting : Pass Tally}
    (h : ∀ t : Tally, Counts t (pass t.ledger) (counting t)) (l : Ledger) (session : Session) :
    (counted counting l session).1 = ((pass l session).1.size - l.size, (pass l session).1) := by
  have hcounts := h { ledger := l }
  have hgrowth := hcounts.growth session
  rw [hcounts.ledger_eq] at hgrowth
  have hledger := hcounts.ledger_eq session
  show ((counting { ledger := l } session).1.entered,
    (counting { ledger := l } session).1.ledger) = _
  rw [hledger]
  refine Prod.ext ?_ rfl
  show (counting { ledger := l } session).1.entered = (pass l session).1.size - l.size
  dsimp only at hgrowth
  omega

/-- Whoever does not ask for the number may leave out the counting. -/
theorem counted_bind {α : Type} {pass : Pass} {counting : Pass Tally}
    (h : ∀ t : Tally, Counts t (pass t.ledger) (counting t)) (l : Ledger)
    (next : Ledger → Compare α) :
    (counted counting l >>= fun outcome => next outcome.2) = pass l >>= next := by
  funext session
  have hcounts := h { ledger := l }
  show next (counting { ledger := l } session).1.ledger (counting { ledger := l } session).2 =
    next (pass l session).1 (pass l session).2
  rw [hcounts.ledger_eq, hcounts.session_eq]

end Phases

end GuardElision
