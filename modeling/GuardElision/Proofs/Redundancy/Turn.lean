import GuardElision.Program.Builder
import GuardElision.Proofs.Flow.Dominance
import GuardElision.Proofs.Redundancy.Entries
import GuardElision.Proofs.Run.Inventory

/-!
# The turn of a check in the third phase

The third phase lets every user check cover what it can, and then gives each sanitizer check a
turn. On its turn a check is entered at most once, in favour of a check that is not in the
ledger at that moment and whose place lets it stand for the other one. The ledger at the turn
of a check is what the phase makes of its first positions (`Phases.dominanceBefore`), so an entry
can be told together with the ledger it was added to. Since two different blocks do not
dominate each other, no check gives way to one whose place it strictly dominates.
-/

namespace GuardElision

/-- The block from which the sanitizer check at a position takes effect. -/
def Inventory.effectiveBlock? (checks : Inventory) (p : Program) (position : Nat) :
    Option BlockId :=
  (checks.sanitizer[position]?).bind fun c =>
    p.effectiveBlock? c ((checks.cones[position]?).getD [])

namespace Phases

/-- The third phase up to the turn of the sanitizer check at a position. -/
def dominanceBefore (s : Strategy) (p : Program) (checks : Inventory) (d : Dominance)
    (e : Evidence) (position : Nat) : Pass := fun ledger => do
  let ledger ← each checks.user
    (fun coverer => each checks.sanitizer (dominatedByUser s p d e coverer)) ledger
  each ((placed p checks).take position) (dominatedBySanitizer s p d e (placed p checks)) ledger

section Turns

variable (s : Strategy) (p : Program) (checks : Inventory) (d : Dominance) (e : Evidence)

/-- A sanitizer check is placed at its position and in its effective block. -/
theorem getElem?_placed (i : Nat) : (placed p checks)[i]? =
    (checks.sanitizer[i]?).map fun c => (c, i, checks.effectiveBlock? p i) := by
  cases h : checks.sanitizer[i]? <;> simp [placed, Inventory.effectiveBlock?, h]

/-- The places of sanitizer checks, by positions. -/
theorem mem_placed_some_iff (c : Check) (i : Nat) (x : BlockId) :
    (c, i, some x) ∈ placed p checks ↔
      checks.sanitizer[i]? = some c ∧ checks.effectiveBlock? p i = some x := by
  rw [mem_placed_iff]
  refine and_congr_right fun hc => ?_
  rw [Inventory.effectiveBlock?, hc, Option.bind_some]

theorem precedes_iff (y x : BlockId) : precedes d y x = true ↔
    d.dominates y x = true ∨ d.dominates x y = false ∧ d.postDominates y x = true := by
  simp [precedes]

/-- When all checks had their turn, the phase is over. -/
theorem dominanceBefore_length :
    dominanceBefore s p checks d e checks.sanitizer.length = dominance s p checks d e := by
  have hlength : (placed p checks).length = checks.sanitizer.length := by simp [placed]
  funext ledger
  rw [dominanceBefore, dominance, ← hlength, List.take_length]

/-- A turn follows on the turns before it. -/
theorem dominanceBefore_succ {i : Nat} {candidate : Check × Nat × Option BlockId}
    (h : (placed p checks)[i]? = some candidate) (l : Ledger) :
    dominanceBefore s p checks d e (i + 1) l =
      dominanceBefore s p checks d e i l >>=
        dominatedBySanitizer s p d e (placed p checks) candidate := by
  have htake : (placed p checks).take (i + 1) = (placed p checks).take i ++ [candidate] := by
    rw [List.take_add_one, h]
    rfl
  simp only [dominanceBefore, htake, each, List.foldlM_append, List.foldlM_cons, List.foldlM_nil,
    bind_pure, bind_assoc]

/-- Without a check at a position there is no turn. -/
theorem dominanceBefore_succ_of_none {i : Nat} (h : (placed p checks)[i]? = none) (l : Ledger) :
    dominanceBefore s p checks d e (i + 1) l = dominanceBefore s p checks d e i l := by
  have htake : (placed p checks).take (i + 1) = (placed p checks).take i := by
    rw [List.take_add_one, h]
    simp
  rw [dominanceBefore, htake, dominanceBefore]

/-- Before the first turn only user checks have covered others. -/
theorem growth_dominanceBefore_zero (l : Ledger) {session : Session} (hs : session.Faithful p) :
    Ledger.Growth (UserDominanceEntry s p d checks e) l
      (dominanceBefore s p checks d e 0 l session).1 :=
  (grows_byUsers s p d checks e l session hs).1

/-- Turns leave a faithful session behind. -/
theorem faithful_dominanceBefore (i : Nat) (l : Ledger) {session : Session}
    (hs : session.Faithful p) : (dominanceBefore s p checks d e i l session).2.Faithful p := by
  have hfirst := (grows_byUsers s p d checks e l session hs).2
  induction i with
  | zero => exact hfirst
  | succ i ih =>
    cases h : (placed p checks)[i]? with
    | none =>
      rw [dominanceBefore_succ_of_none s p checks d e h]
      exact ih
    | some candidate =>
      rw [dominanceBefore_succ s p checks d e h]
      exact (grows_dominatedBySanitizer s p d checks e (List.mem_of_getElem? h) _ _ ih).2

/-- A sanitizer check enters the ledger on its turn, in favour of a check that is not in the
ledger when the turn begins. -/
structure EnteredOnTurn (l : Ledger) (session : Session) (i : Nat) (a : Check)
    (reason : Reason) : Prop where
  candidate_eq : checks.sanitizer[i]? = some a
  candidate_live : (dominanceBefore s p checks d e i l session).1.find? a.id = none
  ledger_eq : (dominanceBefore s p checks d e (i + 1) l session).1 =
    Ledger.mark (dominanceBefore s p checks d e i l session).1 a.id reason
  covered : ∃ b, CoveredBySanitizer s p d checks e
    (dominanceBefore s p checks d e i l session).1 a b reason

/-- A turn adds nothing, or the check whose turn it is. -/
theorem turn_cases (l : Ledger) {session : Session} (hs : session.Faithful p) (i : Nat) :
    (dominanceBefore s p checks d e (i + 1) l session).1 =
        (dominanceBefore s p checks d e i l session).1 ∨
      ∃ a reason, EnteredOnTurn s p checks d e l session i a reason := by
  cases hplaced : (placed p checks)[i]? with
  | none =>
    rw [dominanceBefore_succ_of_none s p checks d e hplaced]
    exact .inl rfl
  | some candidate =>
    obtain ⟨a, ha, rfl⟩ := Option.map_eq_some_iff.mp ((getElem?_placed p checks i).symm.trans hplaced)
    have hfaithful := faithful_dominanceBefore s p checks d e i l hs
    have hgrow := (grows_dominatedBySanitizer s p d checks e (List.mem_of_getElem? hplaced)
      (dominanceBefore s p checks d e i l session).1 _ hfaithful).1
    have hsucc : (dominanceBefore s p checks d e (i + 1) l session).1 = _ :=
      congrArg (fun x => (x session).1) (dominanceBefore_succ s p checks d e hplaced l)
    rcases hgrow.eq_or_mark fun _ _ _ h => h.1 with hsame | ⟨reason, hlive, hentry, hmark⟩
    · exact .inl (hsucc.trans hsame)
    · exact .inr ⟨a, reason, ha, hlive, hsucc.trans hmark, hentry.2⟩

/-- Whatever is in the ledger at some turn was there before the first turn, or was entered on an
earlier turn. -/
theorem entered_on_turn (l : Ledger) {session : Session} (hs : session.Faithful p) (n : Nat)
    {id : CheckId} {reason : Reason}
    (hfind : (dominanceBefore s p checks d e n l session).1.find? id = some reason) :
    (dominanceBefore s p checks d e 0 l session).1.find? id = some reason ∨
      ∃ i a, a.id = id ∧ EnteredOnTurn s p checks d e l session i a reason := by
  induction n with
  | zero => exact .inl hfind
  | succ n ih =>
    rcases turn_cases s p checks d e l hs n with hsame | ⟨a, why, hentered⟩
    · exact ih (hsame ▸ hfind)
    · rw [hentered.ledger_eq, Ledger.find?_mark hentered.candidate_live] at hfind
      split at hfind
      · next hid =>
        obtain rfl := Option.some.inj hfind
        exact .inr ⟨n, a, hid.symm, hentered⟩
      · exact ih hfind

end Turns

/-- A check that gives way to another one does not strictly dominate its place. -/
private theorem dominates_eq_false_of_precedes {p : Program} {x y : BlockId}
    (h : precedes (.ofProgram p) y x = true) (hne : x ≠ y) :
    (Dominance.ofProgram p).dominates x y = false := by
  rcases (precedes_iff (.ofProgram p) y x).mp h with hyx | ⟨hnot, _⟩
  · refine Bool.eq_false_iff.mpr fun hxy => ?_
    exact hne (Dominance.dominates_antisymm hxy hyx)
  · exact hnot

/-- On its turn a check gives way to one whose place comes before or after its own on every run,
and never to one whose place it strictly dominates. -/
theorem EnteredOnTurn.places {s : Strategy} {p : Program} {checks : Inventory} {e : Evidence}
    {l : Ledger} {session : Session} {i : Nat} {a : Check} {reason : Reason}
    (h : EnteredOnTurn s p checks (.ofProgram p) e l session i a reason)
    (hdistinct : checks.Distinct) :
    ∃ b j x y, checks.sanitizer[j]? = some b ∧
      CoveredBySanitizer s p (.ofProgram p) checks e
        (dominanceBefore s p checks (.ofProgram p) e i l session).1 a b reason ∧
      checks.effectiveBlock? p i = some x ∧ checks.effectiveBlock? p j = some y ∧
      ((Dominance.ofProgram p).dominates y x = true ∨
        (Dominance.ofProgram p).postDominates y x = true ∧
          (Dominance.ofProgram p).dominates x y = false) ∧
      (x ≠ y → (Dominance.ofProgram p).dominates x y = false) := by
  obtain ⟨b, hcovered⟩ := h.covered
  obtain ⟨i', j, x, y, hi, hj, _, hprecedes⟩ := hcovered.placed
  obtain ⟨ha, hx⟩ := (mem_placed_some_iff p checks a i' x).mp hi
  obtain ⟨hb, hy⟩ := (mem_placed_some_iff p checks b j y).mp hj
  obtain rfl := hdistinct.position_eq ha h.candidate_eq rfl
  have hrelation := (precedes_iff (.ofProgram p) y x).mp hprecedes
  exact ⟨b, j, x, y, hb, hcovered, hx, hy, hrelation.imp_right And.symm,
    dominates_eq_false_of_precedes hprecedes⟩

/-- Every entry that the third phase adds is for a sanitizer check, with the count of its runs, and
in favour of a check that covers it. A user check dominates or post-dominates it by their own
blocks. A sanitizer check is not in the ledger at the turn on which the entry is added, and by
their effective blocks it dominates the other one, or post-dominates it without being dominated;
so it is never one that is strictly dominated. -/
theorem dominance_entry {s : Strategy} {p : Program} {checks : Inventory} {e : Evidence}
    {l : Ledger} {session : Session} (hdistinct : checks.Distinct) (hs : session.Faithful p)
    {id : CheckId} {reason : Reason} (hnew : l.find? id = none)
    (hfind : (dominance s p checks (.ofProgram p) e l session).1.find? id = some reason) :
    ∃ i a, checks.sanitizer[i]? = some a ∧ a.id = id ∧
      reason.phase = .dominance ∧ reason.count = e.totalOf id ∧
      (∃ c ∈ checks.user ++ checks.sanitizer, c.id = reason.coverer) ∧
      (∀ u ∈ checks.user, u.id = reason.coverer →
        (s.subsumed p a u .dominance).verdict = true ∧
        ∃ x y, p.ownBlock? a = some x ∧ p.ownBlock? u = some y ∧
          ((Dominance.ofProgram p).dominates y x = true ∨
            (Dominance.ofProgram p).postDominates y x = true)) ∧
      ∀ j b, checks.sanitizer[j]? = some b → b.id = reason.coverer →
        (s.subsumed p a b .dominance).verdict = true ∧
        (dominanceBefore s p checks (.ofProgram p) e i l session).1.find? a.id = none ∧
        (dominanceBefore s p checks (.ofProgram p) e i l session).1.find? b.id = none ∧
        (dominanceBefore s p checks (.ofProgram p) e (i + 1) l session).1 =
          Ledger.mark (dominanceBefore s p checks (.ofProgram p) e i l session).1 a.id reason ∧
        ∃ x y, checks.effectiveBlock? p i = some x ∧ checks.effectiveBlock? p j = some y ∧
          ((Dominance.ofProgram p).dominates y x = true ∨
            (Dominance.ofProgram p).postDominates y x = true ∧
              (Dominance.ofProgram p).dominates x y = false) ∧
          (x ≠ y → (Dominance.ofProgram p).dominates x y = false) := by
  rw [← dominanceBefore_length] at hfind
  rcases entered_on_turn s p checks (.ofProgram p) e l hs _ hfind with
    hfirst | ⟨i, a, rfl, hentered⟩
  · -- entered by a user check, before the first turn
    have hgrow := growth_dominanceBefore_zero s p checks (.ofProgram p) e l hs
    rcases hgrow.cases_find? hfirst with hold | ⟨_, a, u, rfl, hcovered⟩
    · cases hnew.symm.trans hold
    obtain ⟨i, hi⟩ := List.mem_iff_getElem?.mp hcovered.candidate_mem
    obtain rfl := hcovered.reason_eq
    refine ⟨i, a, hi, rfl, rfl, rfl, ⟨u, List.mem_append_left _ hcovered.coverer_mem, rfl⟩,
      fun v hv hid => ?_, fun j b hb hid => ?_⟩
    · obtain rfl := hdistinct.user_eq hv hcovered.coverer_mem hid
      obtain ⟨x, y, hx, hy, hrun⟩ := hcovered.placed
      rw [onEveryRun, Bool.or_eq_true] at hrun
      exact ⟨hcovered.subsumed, x, y, hx, hy, hrun⟩
    · exact absurd hid.symm (hdistinct.user_id_ne (List.mem_of_getElem? hb) hcovered.coverer_mem)
  · obtain ⟨b, j, x, y, hb, hcovered, hx, hy, hrelation, hstrict⟩ := hentered.places hdistinct
    have hmem := List.mem_of_getElem? hb
    have hreason := hcovered.reason_eq
    refine ⟨i, a, hentered.candidate_eq, rfl, by rw [hreason], by rw [hreason],
      ⟨b, List.mem_append_right _ hmem, by rw [hreason]⟩, fun u hu hid => ?_,
      fun j' b' hb' hid => ?_⟩
    · rw [hreason] at hid
      exact absurd hid (hdistinct.user_id_ne hmem hu)
    · rw [hreason] at hid
      obtain rfl := hdistinct.position_eq hb' hb hid
      obtain rfl := Option.some.inj (hb'.symm.trans hb)
      exact ⟨hcovered.subsumed, hentered.candidate_live, hcovered.coverer_live,
        hentered.ledger_eq, x, y, hx, hy, hrelation, hstrict⟩

open Build in
/-- A block that one arm of a branch passes and the other misses, with a test of its own that is
repeated where the arms meet. -/
def detour : Program :=
  let steps : Build Unit := do
    let main ← procedure "main"
    let start ← block main
    let aside ← block main
    let meet ← block main
    let done ← block main
    let guarded ← external "guarded"
    let other ← external "other"
    let _ ← branch start (.external other) aside meet
    let _ ← branch aside (.external guarded) meet meet
    let _ ← branch meet (.external guarded) done done
  (steps.run.run { name := "detour" }).2

/-- The tests on the detour and where the arms meet. -/
def detourChecks : Inventory where
  sanitizer := [⟨⟨1⟩, ⟨1⟩, .sanitizer, .generic⟩, ⟨⟨2⟩, ⟨2⟩, .sanitizer, .generic⟩]
  user := [⟨⟨3⟩, ⟨0⟩, .user, .generic⟩]
  cones := [[⟨1⟩], [⟨2⟩]]

/-- The test on the detour gives way to the one where the arms meet, which is not in the ledger at
that moment and post-dominates it. -/
theorem detour_entry :
    detourChecks.Distinct ∧
    ((dominance ⟨.l2, "indvars", 32⟩ detour detourChecks (.ofProgram detour) {} (.empty : Ledger)
      {}).1.find? ⟨1⟩).map Reason.coverer = some ⟨2⟩ ∧
    ∃ i, (dominanceBefore ⟨.l2, "indvars", 32⟩ detour detourChecks (.ofProgram detour) {} i .empty
        {}).1.find? ⟨2⟩ = none ∧
      ∃ x y, detourChecks.effectiveBlock? detour i = some x ∧
        detourChecks.effectiveBlock? detour 1 = some y ∧
        ((Dominance.ofProgram detour).dominates y x = true ∨
          (Dominance.ofProgram detour).postDominates y x = true ∧
            (Dominance.ofProgram detour).dominates x y = false) ∧
        (x ≠ y → (Dominance.ofProgram detour).dominates x y = false) := by
  have hcoverer : ((dominance ⟨.l2, "indvars", 32⟩ detour detourChecks (.ofProgram detour) {}
      (.empty : Ledger) {}).1.find? ⟨1⟩).map Reason.coverer = some ⟨2⟩ := by decide +kernel
  refine ⟨by decide, hcoverer, ?_⟩
  obtain ⟨reason, hfind, hid⟩ := Option.map_eq_some_iff.mp hcoverer
  obtain ⟨i, _, _, _, _, _, _, _, hsanitizer⟩ :=
    dominance_entry (by decide) (Session.faithful_fresh detour) rfl hfind
  obtain ⟨_, _, hlive, _, hplaces⟩ := hsanitizer 1 ⟨⟨2⟩, ⟨2⟩, .sanitizer, .generic⟩ rfl hid.symm
  exact ⟨i, hlive, hplaces⟩

end Phases

end GuardElision
